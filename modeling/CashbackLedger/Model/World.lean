import CashbackLedger.Lib.Pool
import CashbackLedger.Model.Calls

/-
  The shared world: the database with its open transactions, Redis, Kafka and the clock.

  Transactions run at READ COMMITTED. A statement reads the committed rows; what it writes is
  kept in its own transaction until the commit, which applies all of it in one step. An UPDATE
  or an INSERT waits while another open transaction holds the row or the unique key. A failed
  statement aborts the transaction: every later statement fails until the rollback.

  `exec` serves one call. Its `Fate` says whether the call succeeds, fails without effect, or
  takes effect and loses its reply. Every reply carries the clock, which is what `new Date()`
  reads in the code that runs on it.
-/

namespace CashbackLedger

open Lib

/-! ## Transactions -/

/-- What a transaction writes at its commit. -/
inductive TxWrite where
  | orderStatus (id : Uuid) (status : OrderStatus)
  | outbox (row : OutboxEvent)
  | ledger (row : LedgerEntry)

/-- An open transaction: its writes, oldest first. -/
structure Tx where
  writes : List TxWrite := []
  aborted : Bool := false

structure OutboxData where
  aggregateId : String
  type : String
  payload : Json

structure LedgerData where
  userId : String
  orderId : Uuid
  type : LedgerEntryType
  amount : Decimal
  currency : String

/-- An entry without its generated id. -/
def LedgerEntry.data (e : LedgerEntry) : LedgerData where
  userId := e.userId
  orderId := e.orderId
  type := e.type
  amount := e.amount
  currency := e.currency

inductive TxStmt where
  /-- `tx.order.findUnique({ where: { id } })`; `none` is an `undefined` id -/
  | orderFindUnique (id : Option Json)
  /-- `tx.order.update({ where: { id }, data: { status } })` -/
  | orderUpdate (id : String) (status : OrderStatus)
  /-- `tx.outboxEvent.create({ data })` -/
  | outboxCreate (data : OutboxData)
  /-- `tx.cashbackRule.findUnique({ where: { merchantId } })` -/
  | ruleFindUnique (merchantId : String)
  /-- `tx.ledgerEntry.create({ data })` -/
  | ledgerCreate (data : LedgerData)
  /-- `tx.ledgerEntry.findUnique({ where: { orderId_type } })` -/
  | ledgerFindUnique (orderId : Uuid) (type : LedgerEntryType)

@[reducible] def TxStmt.Result : TxStmt → Type
  | .orderFindUnique _ => Option Order
  | .orderUpdate _ _ => Order
  | .outboxCreate _ => OutboxEvent
  | .ruleFindUnique _ => Option CashbackRule
  | .ledgerCreate _ => LedgerEntry
  | .ledgerFindUnique _ _ => Option LedgerEntry

inductive TxCall where
  | begin
  | stmt (s : TxStmt)
  | commit
  | rollback

@[reducible] def TxCall.Result : TxCall → Type
  | .begin => Unit
  | .stmt s => s.Result
  | .commit => Unit
  | .rollback => Unit

/-! ## World -/

structure World where
  orders : Table Order
  rules : Table CashbackRule
  ledger : Table LedgerEntry
  idem : Table IdempotencyKey
  outbox : Table OutboxEvent
  inbox : Table InboxEvent
  redis : List RedisEntry
  broker : Broker
  txs : List (Pid × Tx)
  clock : Time

namespace World

/-- Everything empty. -/
def empty : World :=
  { orders := .empty, rules := .empty, ledger := .empty, idem := .empty, outbox := .empty,
    inbox := .empty, redis := [], broker := { events := [], dlq := [], committed := [] },
    txs := [], clock := 0 }

/-- The open transaction of a process. -/
def txOf (w : World) (p : Pid) : Option Tx := w.txs.lookup p

def setTx (w : World) (p : Pid) (tx : Option Tx) : World :=
  { w with txs := tx.toList.map (fun t => (p, t)) ++ w.txs.filter fun x => x.1 != p }

/-- Does another open transaction hold what `touches` describes? -/
def lockedByOther (w : World) (p : Pid) (touches : TxWrite → Bool) : Bool :=
  w.txs.any fun x => x.1 != p && x.2.writes.any touches

def applyWrite (w : World) : TxWrite → Option World
  | .orderStatus id status =>
      some { w with orders := w.orders.modify (fun o => o.id == id)
                      (fun o => { o with status := status }) ⟨fun _ _ => rfl⟩ }
  | .outbox row => (w.outbox.insert? row).map fun t => { w with outbox := t }
  | .ledger row => (w.ledger.insert? row).map fun t => { w with ledger := t }

def applyWrites (w : World) (writes : List TxWrite) : Option World := writes.foldlM applyWrite w

end World

/-! ## Statements -/

/-- The row id a client value stands for. -/
def readId (env : Env) : Option Json → Option Uuid
  | some (.str s) => env.readUuid s
  | _ => none

namespace TxStmt

/-- A statement of an open transaction that is not aborted. `none` while it waits for a lock. -/
def run (env : Env) (p : Pid) (newId : Uuid) (w : World) :
    (s : TxStmt) → Option (Except Fault s.Result)
  | .orderFindUnique id =>
      match readId env id with
      | none => some (.error .invalidValue)
      | some id => some (.ok (w.orders.find? fun o => o.id == id))
  | .orderUpdate id status =>
      match env.readUuid id with
      | none => some (.error .invalidValue)
      | some id =>
          if w.lockedByOther p (fun | .orderStatus id' _ => id' == id | _ => false) then none
          else match w.orders.find? fun o => o.id == id with
            | none => some (.error .recordNotFound)
            | some o => some (.ok { o with status := status })
  | .outboxCreate d =>
      if w.outbox.any fun e => e.id == newId then none
      else if Json.storableText d.aggregateId && d.payload.storable then
        some (.ok { id := newId, aggregateId := d.aggregateId, type := d.type, payload := d.payload,
                    lastError := none, status := .PENDING, attempts := 0, availableAt := w.clock,
                    createdAt := w.clock, sentAt := none })
      else some (.error .invalidValue)
  | .ruleFindUnique merchantId => some (.ok (w.rules.find? fun r => r.merchantId == merchantId))
  | .ledgerCreate d =>
      match storeNumeric 18 2 d.amount with
      | none => some (.error .invalidValue)
      | some amount =>
          if !(w.orders.any fun o => o.id == d.orderId) then some (.error .foreignKeyViolation)
          else if w.ledger.any fun e => e.id == newId then none
          else if w.lockedByOther p (fun
              | .ledger e => e.orderId == d.orderId && e.type == d.type
              | _ => false) then none
          else if w.ledger.any fun e => e.orderId == d.orderId && e.type == d.type then
            some (.error .uniqueViolation)
          else some (.ok { id := newId, userId := d.userId, orderId := d.orderId, type := d.type,
                           amount := amount, currency := d.currency })
  | .ledgerFindUnique orderId type =>
      some (.ok (w.ledger.find? fun e => e.orderId == orderId && e.type == type))

/-- What a served statement adds to its transaction. -/
def write : (s : TxStmt) → s.Result → List TxWrite
  | .orderUpdate _ _, o => [.orderStatus o.id o.status]
  | .outboxCreate _, e => [.outbox e]
  | .ledgerCreate _, e => [.ledger e]
  | .orderFindUnique _, _ => []
  | .ruleFindUnique _, _ => []
  | .ledgerFindUnique _ _, _ => []

end TxStmt

namespace TxCall

def run (env : Env) (p : Pid) (newId : Uuid) (w : World) :
    (c : TxCall) → Option (World × Except Fault c.Result)
  | .begin => some (w, .ok ())
  | .stmt s =>
      match w.txOf p with
      | none => some (w, .error .transactionClosed)
      | some tx =>
          if tx.aborted then some (w, .error .transactionAborted)
          else (s.run env p newId w).map fun r => (w, r)
  | .commit =>
      match w.txOf p with
      | none => some (w, .error .transactionClosed)
      | some tx =>
          -- COMMIT of an aborted transaction is a ROLLBACK
          if tx.aborted then some (w, .ok ())
          else match w.applyWrites tx.writes with
            | none => some (w, .error .uniqueViolation)
            | some w' => some (w', .ok ())
  | .rollback => some (w, .ok ())

/-- The transaction of a process after one of its calls, by the reply it received. -/
def after : (c : TxCall) → Except Fault c.Result → Option Tx → Option Tx
  | .begin, .ok _, _ => some {}
  | .begin, .error _, _ => none
  | .stmt s, .ok x, tx => tx.map fun t => { t with writes := t.writes ++ s.write x }
  | .stmt _, .error _, tx => tx.map fun t => { t with aborted := true }
  | .commit, _, _ => none
  | .rollback, _, _ => none

end TxCall

/-! ## Calls -/

/-- Steps of a process on its own. -/
inductive LocalCall where
  /-- `new Date()` at the start of a task -/
  | now
  | sleep (ms : Nat)
  /-- `inboxRetriesTotal.inc(1)` at the start of an attempt; the event is ghost -/
  | inboxRetriesInc (e : InboxEvent)

inductive Call where
  | orders (c : OrderCall)
  | rules (c : RuleCall)
  | idem (c : IdemCall)
  | outbox (c : OutboxCall)
  | inbox (c : InboxCall)
  | redis (c : RedisCall)
  | kafka (c : KafkaCall)
  | tx (c : TxCall)
  | proc (c : LocalCall)

namespace Call

@[reducible] def Result : Call → Type
  | .orders c => c.Result
  | .rules c => c.Result
  | .idem c => c.Result
  | .outbox c => c.Result
  | .inbox c => c.Result
  | .redis c => c.Result
  | .kafka c => c.Result
  | .tx c => c.Result
  | .proc _ => Unit

/-- The effect and the reply of a call that is served. -/
def run (env : Env) (p : Pid) (newId : Uuid) (w : World) :
    (c : Call) → Option (World × Except Fault c.Result)
  | .orders c => (c.run newId w.clock w.orders).map fun x => ({ w with orders := x.1 }, x.2)
  | .rules c => (c.run w.rules).map fun x => ({ w with rules := x.1 }, x.2)
  | .idem c => (c.run w.idem).map fun x => ({ w with idem := x.1 }, x.2)
  | .outbox c => (c.run w.outbox).map fun x => ({ w with outbox := x.1 }, x.2)
  | .inbox c => (c.run newId w.clock w.inbox).map fun x => ({ w with inbox := x.1 }, x.2)
  | .redis c => let x := c.run w.clock w.redis; some ({ w with redis := x.1 }, x.2)
  | .kafka c => (c.run w.broker).map fun x => ({ w with broker := x.1 }, x.2)
  | .tx c => c.run env p newId w
  | .proc _ => some (w, .ok ())

/-- The transaction of the caller after the call. -/
def txAfter : (c : Call) → Except Fault c.Result → Option Tx → Option Tx
  | .tx c, r, old => c.after r old
  | .orders _, _, old => old
  | .rules _, _, old => old
  | .idem _, _, old => old
  | .outbox _, _, old => old
  | .inbox _, _, old => old
  | .redis _, _, old => old
  | .kafka _, _, old => old
  | .proc _, _, old => old

end Call

/-- A reply and the time it arrives. -/
abbrev Reply (c : Call) : Type := Except Fault c.Result × Time

/-- What becomes of a call. -/
inductive Fate where
  | ok
  /-- it fails and has no effect -/
  | fail (message : String)
  /-- it takes effect, the caller sees it fail -/
  | lost (message : String)

/-- Does a call with this fate take effect? -/
def Fate.takesEffect : Fate → Bool
  | .fail _ => false
  | _ => true

/-- The part of a step that the programs do not decide. -/
structure Choice where
  fate : Fate
  newId : Uuid

namespace World

/-- Books the reply of a call in the caller's transaction. -/
def settle (w : World) (p : Pid) (c : Call) (r : Except Fault c.Result) : World :=
  w.setTx p (c.txAfter r (w.txOf p))

end World

/-- Serves a call of `p`; `none` while it waits. -/
def exec (env : Env) (p : Pid) (c : Call) (ch : Choice) (w : World) : Option (World × Reply c) :=
  match ch.fate with
  | .ok => (c.run env p ch.newId w).map fun x => (x.1.settle p c x.2, (x.2, w.clock))
  | .fail m => some (w.settle p c (.error (.callFailed m)), (.error (.callFailed m), w.clock))
  | .lost m =>
      (c.run env p ch.newId w).map fun x =>
        (x.1.settle p c (.error (.callFailed m)), (.error (.callFailed m), w.clock))

/-- The death of a process: the database rolls back its transaction. -/
def kill (p : Pid) (w : World) : World := w.setTx p none

/-- What happens outside the programs. -/
inductive Outside where
  /-- time passes -/
  | tick (ms : Nat)
  /-- someone else produces to `order.events` -/
  | produce (m : KafkaMessage)
  /-- the group's position is set back: it is handed this offset again, committed or not -/
  | rewind (offset : Nat)

def outside (e : Outside) (w : World) : Option World :=
  match e with
  | .tick ms => some { w with clock := w.clock + ms }
  | .produce m => some { w with broker := { w.broker with events := w.broker.events ++ [m] } }
  | .rewind offset => some { w with broker := { w.broker with again := offset :: w.broker.again } }

end CashbackLedger
