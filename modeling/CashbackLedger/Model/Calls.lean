import Mathlib.Data.List.Sort
import CashbackLedger.Model.Schema

/-
  The calls of the programs, one type a component: each database table used outside a
  transaction, Redis, Kafka. `run` is what the component does to its own data and replies.

  `run` gives `none` where the call cannot be served now. For a `create` this is the case of a
  generated id that is already in use: `uuid()` does not repeat, so such a step is no behaviour
  of the system.
-/

namespace CashbackLedger

open Lib

/-! ## Selection -/

/-- `orderBy: { createdAt: 'asc' }`, `take: n`. A negative `n` takes from the end. -/
def orderByCreatedAt {α : Type} (createdAt : α → Time) (take : Int) (rows : List α) : List α :=
  let sorted := rows.insertionSort fun a b => createdAt a ≤ createdAt b
  if 0 ≤ take then sorted.take take.toNat else sorted.drop (sorted.length - (-take).toNat)

theorem mem_of_orderByCreatedAt {α : Type} {createdAt : α → Time} {take : Int} {rows : List α}
    {a : α} (h : a ∈ orderByCreatedAt createdAt take rows) : a ∈ rows := by
  unfold orderByCreatedAt at h
  split at h
  · exact (List.mem_insertionSort _).mp (List.mem_of_mem_take h)
  · exact (List.mem_insertionSort _).mp (List.mem_of_mem_drop h)

/-- Selected rows are different rows of the table. -/
theorem apart_orderByCreatedAt {α : Type} [Indexed α] (t : Table α) (f : α → Bool)
    (createdAt : α → Time) (take : Int) :
    (orderByCreatedAt createdAt take (t.rows.filter f)).Pairwise
      fun a b => Indexed.clash a b = false := by
  have hsymm : ∀ {a b : α}, Indexed.clash a b = false →
      Indexed.clash b a = false := fun {a b} h => by
    rw [Indexed.clash_comm]
    exact h
  have hsorted := ((List.perm_insertionSort (fun a b => createdAt a ≤ createdAt b)
    (t.rows.filter f)).pairwise_iff hsymm).mpr (t.apart.filter f)
  unfold orderByCreatedAt
  dsimp only
  split
  · exact hsorted.sublist (List.take_sublist _ _)
  · exact hsorted.sublist (List.drop_sublist _ _)

/-! ## Order -/

structure OrderData where
  userId : String
  merchantId : String
  amount : Decimal
  currency : String
  status : OrderStatus

inductive OrderCall where
  /-- `prisma.order.create({ data })` -/
  | create (data : OrderData)

namespace OrderCall

@[reducible] def Result : OrderCall → Type
  | .create _ => Order

def run (newId : Uuid) (now : Time) (t : Table Order) :
    (c : OrderCall) → Option (Table Order × Except Fault c.Result)
  | .create d =>
      if Json.storableText d.userId && Json.storableText d.merchantId &&
          Json.storableText d.currency then
        match storeNumeric 18 2 d.amount with
        | none => some (t, .error .invalidValue)
        | some amount =>
            let row : Order :=
              { id := newId, userId := d.userId, merchantId := d.merchantId, amount := amount,
                currency := d.currency, status := d.status, createdAt := now }
            (t.insert? row).map fun t' => (t', .ok row)
      else some (t, .error .invalidValue)

end OrderCall

/-! ## CashbackRule -/

inductive RuleCall where
  /-- `prisma.cashbackRule.findUnique({ where: { merchantId } })` -/
  | findUnique (merchantId : String)
  /-- `prisma.cashbackRule.upsert({ where: { merchantId }, update, create })` -/
  | upsert (merchantId : String) (rate : Decimal) (cap : Option Decimal)

namespace RuleCall

@[reducible] def Result : RuleCall → Type
  | .findUnique _ => Option CashbackRule
  | .upsert _ _ _ => CashbackRule

/-- What the `cap` column stores. -/
def storeCap : Option Decimal → Option (Option Decimal)
  | none => some none
  | some cap => (storeNumeric 18 2 cap).map some

def run (t : Table CashbackRule) :
    (c : RuleCall) → Option (Table CashbackRule × Except Fault c.Result)
  | .findUnique merchantId => some (t, .ok (t.find? fun r => r.merchantId == merchantId))
  | .upsert merchantId rate cap =>
      match storeNumeric 6 4 rate, storeCap cap, Json.storableText merchantId with
      | some rate, some cap, true =>
          let row : CashbackRule := { merchantId := merchantId, rate := rate, cap := cap }
          if t.any fun r => r.merchantId == merchantId then
            some (t.modify (fun r => r.merchantId == merchantId)
              (fun r => { r with rate := rate, cap := cap }) ⟨fun _ _ => rfl⟩, .ok row)
          else (t.insert? row).map fun t' => (t', .ok row)
      | _, _, _ => some (t, .error .invalidValue)

end RuleCall

/-! ## IdempotencyKey -/

inductive IdemCall where
  /-- `prisma.idempotencyKey.findUnique({ where: { key_scope } })` -/
  | findUnique (key scope : String)
  /-- `prisma.idempotencyKey.upsert({ where: { key_scope }, update, create })` -/
  | upsert (row : IdempotencyKey)

namespace IdemCall

@[reducible] def Result : IdemCall → Type
  | .findUnique _ _ => Option IdempotencyKey
  | .upsert _ => IdempotencyKey

def run (t : Table IdempotencyKey) :
    (c : IdemCall) → Option (Table IdempotencyKey × Except Fault c.Result)
  | .findUnique key scope =>
      some (t, .ok (t.find? fun r => r.key == key && r.scope == scope))
  | .upsert row =>
      if Json.storableText row.key && Json.storableText row.scope && row.responseBody.storable then
        if t.any fun r => r.key == row.key && r.scope == row.scope then
          some (t.modify (fun r => r.key == row.key && r.scope == row.scope)
            (fun r => { r with requestHash := row.requestHash, responseBody := row.responseBody,
                               expiresAt := row.expiresAt })
            ⟨fun _ _ => rfl⟩, .ok row)
        else (t.insert? row).map fun t' => (t', .ok row)
      else some (t, .error .invalidValue)

end IdemCall

/-! ## OutboxEvent -/

/-- The `where` of a selection of outbox rows. A status the client does not know is `none`. -/
inductive OutboxWhere where
  /-- `{ status: PENDING, availableAt: { lte: now } }` -/
  | due (now : Time)
  /-- `{ status }` -/
  | status (status : Option OutboxStatus)

/-- The `data` of an update; a field that is not given stays as it is. -/
structure OutboxUpdate where
  status : Option OutboxStatus := none
  attempts : Option Nat := none
  availableAt : Option Time := none
  lastError : Option (Option String) := none
  sentAt : Option (Option Time) := none

def OutboxUpdate.apply (u : OutboxUpdate) (e : OutboxEvent) : OutboxEvent :=
  { e with
    status := u.status.getD e.status
    attempts := u.attempts.getD e.attempts
    availableAt := u.availableAt.getD e.availableAt
    lastError := u.lastError.getD e.lastError
    sentAt := u.sentAt.getD e.sentAt }

inductive OutboxCall where
  | findMany (sel : OutboxWhere) (take : Option Int)
  /-- `updateMany({ where: { id, status: PENDING }, data: { attempts: { increment: 1 } } })` -/
  | claim (id : Uuid)
  | findUnique (id : Uuid)
  | update (id : Uuid) (data : OutboxUpdate)

namespace OutboxCall

@[reducible] def Result : OutboxCall → Type
  | .findMany _ _ => List OutboxEvent
  | .claim _ => Nat
  | .findUnique _ => Option OutboxEvent
  | .update _ _ => OutboxEvent

/-- Does the row meet the selection? -/
def selects : OutboxWhere → OutboxEvent → Bool
  | .due now, e => e.status == .PENDING && e.availableAt ≤ now
  | .status s, e => some e.status == s

def run (t : Table OutboxEvent) :
    (c : OutboxCall) → Option (Table OutboxEvent × Except Fault c.Result)
  | .findMany (.status none) _ => some (t, .error .invalidValue)
  | .findMany _ none => some (t, .error .invalidValue)
  | .findMany sel (some take) =>
      some (t, .ok (orderByCreatedAt OutboxEvent.createdAt take (t.rows.filter (selects sel))))
  | .claim id =>
      some (t.modify (fun e => e.id == id && e.status == .PENDING)
        (fun e => { e with attempts := e.attempts + 1 }) ⟨fun _ _ => rfl⟩,
        .ok (if t.any fun e => e.id == id && e.status == .PENDING then 1 else 0))
  | .findUnique id => some (t, .ok (t.find? fun e => e.id == id))
  | .update id u =>
      match t.find? fun e => e.id == id with
      | none => some (t, .error .recordNotFound)
      | some e => some (t.modify (fun e => e.id == id) u.apply ⟨fun _ _ => rfl⟩, .ok (u.apply e))

end OutboxCall

/-! ## InboxEvent -/

/-- The `where` of a selection of inbox rows. -/
inductive InboxWhere where
  /-- `{ status: PENDING, availableAt: { lte: now } }` -/
  | due (now : Time)
  /-- `{ status }` -/
  | status (status : Option InboxStatus)
  /-- `{ sourceEventId }` -/
  | sourceEventId (id : String)

/-- `attempts: n` or `attempts: { increment: n }`. -/
inductive AttemptsUpdate where
  | set (n : Nat)
  | increment (n : Nat)

def AttemptsUpdate.apply : AttemptsUpdate → Nat → Nat
  | .set n, _ => n
  | .increment n, a => a + n

/-- The `data` of an update; a field that is not given stays as it is. -/
structure InboxUpdate where
  status : Option InboxStatus := none
  attempts : Option AttemptsUpdate := none
  availableAt : Option Time := none
  lastError : Option (Option String) := none
  processedAt : Option (Option Time) := none

def InboxUpdate.apply (u : InboxUpdate) (e : InboxEvent) : InboxEvent :=
  { e with
    status := u.status.getD e.status
    attempts := (u.attempts.map fun a => a.apply e.attempts).getD e.attempts
    availableAt := u.availableAt.getD e.availableAt
    lastError := u.lastError.getD e.lastError
    processedAt := u.processedAt.getD e.processedAt }

inductive InboxCall where
  /-- `upsert({ where: { sourceEventId }, update: {}, create })` -/
  | upsert (sourceEventId type : String) (payload : Json)
  | findMany (sel : InboxWhere) (take : Option Int)
  | update (id : Uuid) (data : InboxUpdate)

namespace InboxCall

@[reducible] def Result : InboxCall → Type
  | .upsert _ _ _ => InboxEvent
  | .findMany _ _ => List InboxEvent
  | .update _ _ => InboxEvent

/-- Does the row meet the selection? -/
def selects : InboxWhere → InboxEvent → Bool
  | .due now, e => e.status == .PENDING && e.availableAt ≤ now
  | .status s, e => some e.status == s
  | .sourceEventId id, e => e.sourceEventId == id

/-- The row `upsert` creates: the column defaults for what `create` does not give. -/
def created (newId : Uuid) (now : Time) (sourceEventId type : String)
    (payload : Json) : InboxEvent :=
  { id := newId, sourceEventId := sourceEventId, type := type, payload := payload,
    status := .PENDING, attempts := 0, availableAt := now, lastError := none, createdAt := now,
    processedAt := none }

def run (newId : Uuid) (now : Time) (t : Table InboxEvent) :
    (c : InboxCall) → Option (Table InboxEvent × Except Fault c.Result)
  | .upsert sourceEventId type payload =>
      if Json.storableText sourceEventId && payload.storable then
        match t.find? fun e => e.sourceEventId == sourceEventId with
        | some e => some (t, .ok e)
        | none =>
            let row := created newId now sourceEventId type payload
            (t.insert? row).map fun t' => (t', .ok row)
      else some (t, .error .invalidValue)
  | .findMany (.status none) _ => some (t, .error .invalidValue)
  | .findMany _ none => some (t, .error .invalidValue)
  | .findMany sel (some take) =>
      some (t, .ok (orderByCreatedAt InboxEvent.createdAt take (t.rows.filter (selects sel))))
  | .update id u =>
      match t.find? fun e => e.id == id with
      | none => some (t, .error .recordNotFound)
      | some e => some (t.modify (fun e => e.id == id) u.apply ⟨fun _ _ => rfl⟩, .ok (u.apply e))

end InboxCall

/-! ## Redis -/

/-- A key with its value, read back through `JSON.parse`, and the time it expires. -/
structure RedisEntry where
  key : String
  value : JsonText
  expiresAt : Time

inductive RedisCall where
  | get (key : String)
  /-- `SET key value EX seconds` -/
  | set (key : String) (value : JsonText) (seconds : Nat)
  /-- `SET key '1' PX ms NX`: did it set the key? -/
  | setNx (key : String) (ms : Nat)
  | del (key : String)

namespace RedisCall

@[reducible] def Result : RedisCall → Type
  | .get _ => Option JsonText
  | .set _ _ _ => Unit
  | .setNx _ _ => Bool
  | .del _ => Unit

/-- The live entry of a key. -/
def lookup (now : Time) (key : String) (store : List RedisEntry) : Option RedisEntry :=
  store.find? fun e => e.key == key && now < e.expiresAt

def delete (key : String) (store : List RedisEntry) : List RedisEntry :=
  store.filter fun e => e.key != key

def run (now : Time) (store : List RedisEntry) :
    (c : RedisCall) → List RedisEntry × Except Fault c.Result
  | .get key => (store, .ok ((lookup now key store).map RedisEntry.value))
  | .set key value seconds =>
      ({ key := key, value := value, expiresAt := now + seconds * 1000 } ::
        delete key store, .ok ())
  | .setNx key ms =>
      match lookup now key store with
      | some _ => (store, .ok false)
      | none =>
          ({ key := key, value := some (.num 1), expiresAt := now + ms } ::
            delete key store, .ok true)
  | .del key => (delete key store, .ok ())

end RedisCall

/-! ## Kafka -/

structure KafkaMessage where
  key : Option String
  value : JsonText

/-- `OUTBOX_TOPIC` and `EVENT_TOPIC` are both `order.events`; `DLQ_TOPIC` is `order.events.dlq`. -/
inductive Topic where
  | events
  | dlq
deriving DecidableEq

/-- The topics with the offsets of `events` the consumer group has committed, and those of them it
    is to be handed again: its position was set back. -/
structure Broker where
  events : List KafkaMessage
  dlq : List KafkaMessage
  committed : List Nat
  again : List Nat := []

/-- Is the group handed the message at this offset? -/
def Broker.delivers (b : Broker) (offset : Nat) : Bool :=
  !b.committed.contains offset || b.again.contains offset

theorem Broker.delivers_of_new {b : Broker} {offset : Nat} (h : offset ∉ b.committed) :
    b.delivers offset = true := by
  simp [Broker.delivers, h]

inductive KafkaCall where
  /-- `producer.send({ topic, messages: [message] })` -/
  | send (topic : Topic) (message : KafkaMessage)
  /-- the consumer group is handed the message at an offset -/
  | fetch (offset : Nat)
  /-- kafkajs commits the offset of a message whose `eachMessage` resolved -/
  | commitOffset (offset : Nat)

namespace KafkaCall

@[reducible] def Result : KafkaCall → Type
  | .send _ _ => Unit
  | .fetch _ => KafkaMessage
  | .commitOffset _ => Unit

def run (b : Broker) : (c : KafkaCall) → Option (Broker × Except Fault c.Result)
  | .send .events m => some ({ b with events := b.events ++ [m] }, .ok ())
  | .send .dlq m => some ({ b with dlq := b.dlq ++ [m] }, .ok ())
  | .fetch offset => if b.delivers offset then b.events[offset]?.map fun m => (b, .ok m) else none
  | .commitOffset offset =>
      some ({ b with committed := offset :: b.committed, again := b.again.filter (· != offset) },
        .ok ())

theorem run_fetch {b : Broker} {offset : Nat} {y : Broker × Except Fault KafkaMessage}
    (h : run b (.fetch offset) = some y) : ∃ m, b.events[offset]? = some m ∧ y = (b, .ok m) := by
  simp only [run] at h
  split at h
  · obtain ⟨m, hm, rfl⟩ := Option.map_eq_some_iff.mp h
    exact ⟨m, hm, rfl⟩
  · cases h

end KafkaCall

end CashbackLedger
