import CashbackLedger.Model.Handler

/-
  The worker: `apps/worker/src/index.ts`, `consumer.ts`, `inbox-retry.ts` and `replay.ts`.

  One pass of an endless loop is one program; the loop is a new pass after each.
-/

namespace CashbackLedger

open Lib

/-- `Math.min(30_000, 1000 * Math.pow(2, Math.max(0, attempts)))`. -/
def backoffMs (attempts : Nat) : Nat := min 30000 (1000 * 2 ^ attempts)

/-! ## index.ts: the publisher -/

/-- The message of an outbox row. -/
def outboxMessage (env : Env) (e : OutboxEvent) : KafkaMessage where
  key := some e.aggregateId
  value := some (.obj [("id", .str e.id.text), ("type", .str e.type),
    ("aggregateId", .str e.aggregateId), ("payload", e.payload),
    ("createdAt", .str (env.isoText e.createdAt))])

/-- The `try` block of `publishOnce` for one row. -/
def sendEvent (env : Env) (e : OutboxEvent) : Async Unit := do
  let claimed ← await (.outbox (.claim e.id))
  if claimed = 0 then return ()
  let (_, now) ← awaitAt (.kafka (.send .events (outboxMessage env e)))
  let _ ← await (.outbox (.update e.id { status := some .SENT, sentAt := some (some now) }))

/-- The `catch` block of `publishOnce` for one row. -/
def sendFailed (env : Env) (e : OutboxEvent) : Async Unit := do
  let (refreshed, now) ← awaitAt (.outbox (.findUnique e.id))
  let attempts := (refreshed.map OutboxEvent.attempts).getD 1
  if env.maxAttempts ≤ attempts then
    let _ ← await (.outbox (.update e.id { status := some .FAILED }))
  else
    let _ ← await (.outbox (.update e.id
      { status := some .PENDING, availableAt := some (now + backoffMs attempts) }))

def publishEvents (env : Env) : List OutboxEvent → Async Unit
  | [] => pure ()
  | e :: events => do
      tryCatch (sendEvent env e) fun _ => sendFailed env e
      publishEvents env events

def publishOnce (env : Env) : Async Unit := do
  let now ← tell .now
  let events ← await (.outbox (.findMany (.due now) (some env.batchSize)))
  publishEvents env events

/-- One round of the loop in `main`, without its wait: what a pass throws is only logged. -/
def publishRound (env : Env) : Async Unit := tryCatch (publishOnce env) fun _ => pure ()

/-! ## consumer.ts -/

/-- The `try` block of `eachMessage` on a message of type `OrderConfirmed`. -/
def handleEvent (env : Env) (key : String) (evt : Json) : Async Unit := do
  let sourceEventId ← MonadExcept.ofExcept (stringOf env (Json.orElse (evt.field "id") (.str key)))
  let payload := Json.orElse (evt.field "payload") (.obj [])
  -- 1) durable: write inbox (dedupe by sourceEventId)
  let inbox ← await (.inbox (.upsert sourceEventId "OrderConfirmed" payload))
  -- 2) fast path: try once immediately
  let (_, now) ← processOrderConfirmed env (payload.field "orderId")
  let _ ← await (.inbox (.update inbox.id
    { status := some .PROCESSED, processedAt := some (some now), lastError := some none }))

def eachMessage (env : Env) (message : KafkaMessage) : Async Unit :=
  tryCatch
    (match message.value with
      | none => throw (.error "SyntaxError")
      | some evt =>
          if Json.isStr (evt.field "type") "OrderConfirmed" then
            handleEvent env (message.key.getD "unknown") evt
          else pure ())
    fun _ => pure ()

/-- One message through kafkajs: fetched, handled, its offset committed when `eachMessage`
    resolves. -/
def consume (env : Env) (offset : Nat) : Async Unit := do
  let message ← await (.kafka (.fetch offset))
  eachMessage env message
  await (.kafka (.commitOffset offset))

/-! ## inbox-retry.ts -/

/-- The message on the DLQ topic for a parked row. -/
def dlqMessage (env : Env) (e : InboxEvent) (now : Time) : KafkaMessage where
  key := some e.sourceEventId
  value := some (.obj [("sourceEventId", .str e.sourceEventId), ("type", .str e.type),
    ("payload", e.payload), ("attempts", .num e.attempts),
    ("lastError", match e.lastError with | none => .null | some m => .str m),
    ("at", .str (env.isoText now))])

/-- The `try` block of the retry loop for one row. -/
def attemptEvent (env : Env) (e : InboxEvent) : Async Unit := do
  let orderId := e.payload.field "orderId"
  if !Json.truthy orderId then
    throw (.error ("Missing orderId in inbox payload for event " ++ e.id.text))
  let (_, now) ← processOrderConfirmed env orderId
  let _ ← await (.inbox (.update e.id
    { status := some .PROCESSED, processedAt := some (some now), lastError := some none }))

/-- The `catch` block of the retry loop for one row. -/
def attemptFailed (env : Env) (e : InboxEvent) (err : Fault) : Async Unit := do
  let (updated, now) ← awaitAt (.inbox (.update e.id
    { attempts := some (.increment 1), lastError := some (some err.text) }))
  if env.maxAttempts ≤ updated.attempts then
    let (_, now) ← awaitAt (.inbox (.update e.id { status := some .FAILED }))
    let _ ← await (.kafka (.send .dlq (dlqMessage env updated now)))
  else
    let _ ← await (.inbox (.update e.id
      { availableAt := some (now + backoffMs updated.attempts) }))

def retryEvents (env : Env) : List InboxEvent → Async Unit
  | [] => pure ()
  | e :: events => do
      let _ ← tell (.inboxRetriesInc e)
      tryCatch (attemptEvent env e) fun err => attemptFailed env e err
      retryEvents env events

/-- One pass of `retryInboxLoop`. -/
def retryInbox (env : Env) : Async Unit := do
  let now ← tell .now
  let events ← await (.inbox (.findMany (.due now) (some env.retryBatchSize)))
  retryEvents env events

/-! ## replay.ts -/

/-- `Record<string, string>`, newest assignment first. -/
abbrev Args : Type := List (String × String)

/-- `s.startsWith('--')`. -/
def isOption (s : String) : Bool := s.toList.take 2 == ['-', '-']

/-- Assigning to `__proto__` adds no key. -/
def Args.assign (out : Args) (k v : String) : Args := if k = "__proto__" then out else (k, v) :: out

def parseArgsFrom (out : Args) : List String → Args
  | [] => out
  | a :: rest =>
      if !isOption a then parseArgsFrom out rest
      else
        let k := String.ofList (a.toList.drop 2)
        match rest with
        | [] => out.assign k "true"
        | v :: rest' =>
            if v ≠ "" && !isOption v then parseArgsFrom (out.assign k v) rest'
            else parseArgsFrom (out.assign k "true") (v :: rest')

def parseArgs (argv : List String) : Args := parseArgsFrom [] argv

/-- `args.limit ?? '100'` as a number. -/
def Args.limit (env : Env) (args : Args) : Option Int :=
  match args.lookup "limit" with
  | none => some 100
  | some s => env.readTake s

/-- `(args.resetAttempts ?? 'false') === 'true'`. -/
def Args.resetAttempts (args : Args) : Bool := args.lookup "resetAttempts" == some "true"

def inboxStatusOf : String → Option InboxStatus
  | "PENDING" => some .PENDING
  | "PROCESSED" => some .PROCESSED
  | "FAILED" => some .FAILED
  | _ => none

def outboxStatusOf : String → Option OutboxStatus
  | "PENDING" => some .PENDING
  | "SENT" => some .SENT
  | "FAILED" => some .FAILED
  | _ => none

/-- The `where` of `replayInbox`. -/
def replayInboxWhere (args : Args) : InboxWhere :=
  let status := match args.lookup "status" with
    | none => some .FAILED
    | some s => inboxStatusOf s
  match args.lookup "sourceEventId" with
  | none => .status status
  | some id => if id = "" then .status status else .sourceEventId id

def replayInboxRows (reset : Bool) : List InboxEvent → Time → Async Unit
  | [], _ => pure ()
  | r :: rows, now => do
      let (_, now) ← awaitAt (.inbox (.update r.id
        { status := some .PENDING, availableAt := some now, lastError := some none,
          attempts := some (.set (if reset then 0 else r.attempts)) }))
      replayInboxRows reset rows now

def replayInbox (env : Env) (args : Args) : Async Unit := do
  let (rows, now) ← awaitAt (.inbox (.findMany (replayInboxWhere args) (args.limit env)))
  replayInboxRows args.resetAttempts rows now

/-- The `where` of `replayOutbox`. -/
def replayOutboxWhere (args : Args) : OutboxWhere :=
  match args.lookup "status" with
  | none => .status (some .FAILED)
  | some s => .status (outboxStatusOf s)

def replayOutboxRows (reset : Bool) : List OutboxEvent → Time → Async Unit
  | [], _ => pure ()
  | r :: rows, now => do
      let (_, now) ← awaitAt (.outbox (.update r.id
        { status := some .PENDING, availableAt := some now, lastError := some none,
          attempts := some (if reset then 0 else r.attempts), sentAt := some none }))
      replayOutboxRows reset rows now

def replayOutbox (env : Env) (args : Args) : Async Unit := do
  let (rows, now) ← awaitAt (.outbox (.findMany (replayOutboxWhere args) (args.limit env)))
  replayOutboxRows args.resetAttempts rows now

/-- `main` of the replay CLI on `process.argv.slice(2)`. -/
def replay (env : Env) (argv : List String) : Async Unit :=
  match argv with
  | [] => throw (.error "Missing arg/env: cmd")
  | cmd :: rest =>
      if cmd = "" then throw (.error "Missing arg/env: cmd")
      else if cmd = "inbox" then replayInbox env (parseArgs rest)
      else if cmd = "outbox" then replayOutbox env (parseArgs rest)
      else throw (.error ("Unknown cmd: " ++ cmd))

end CashbackLedger
