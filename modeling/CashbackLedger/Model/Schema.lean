import CashbackLedger.Lib.Table
import CashbackLedger.Model.Decimal
import CashbackLedger.Model.Json

/-
  The rows of `packages/db/prisma/schema.prisma` with their unique indexes, and what the
  programs take from their platform.

  A row has the columns some function reads or writes. `updatedAt`, `CashbackRule.id`, the
  `createdAt` of rules, ledger entries and idempotency keys, and the plain indexes are left
  out: nothing reads them.
-/

namespace CashbackLedger

open Lib

/-- Milliseconds. -/
abbrev Time : Type := Nat

/-- The text PostgreSQL prints for a UUID: 36 characters, lower-case hex in five groups. -/
def canonicalUuid (s : String) : Bool :=
  s.toList.length == 36 && s.toList.zipIdx.all fun (c, i) =>
    if i ∈ [8, 13, 18, 23] then c == '-' else c.isDigit || ('a' ≤ c && c ≤ 'f')

/-- The value of a `@db.Uuid` column, by its canonical text. -/
structure Uuid where
  text : String
  canonical : canonicalUuid text = true
deriving DecidableEq

theorem Uuid.text_inj {u v : Uuid} (h : u.text = v.text) : u = v := by
  cases u
  cases v
  cases h
  rfl

inductive OrderStatus where
  | CREATED | CONFIRMED | CANCELLED
deriving DecidableEq, Repr

inductive LedgerEntryType where
  | CREDIT | DEBIT
deriving DecidableEq, Repr

inductive OutboxStatus where
  | PENDING | SENT | FAILED
deriving DecidableEq, Repr

inductive InboxStatus where
  | PENDING | PROCESSED | FAILED
deriving DecidableEq, Repr

structure Order where
  id : Uuid
  userId : String
  merchantId : String
  amount : Decimal
  currency : String
  status : OrderStatus
  createdAt : Time

structure CashbackRule where
  merchantId : String
  rate : Decimal
  cap : Option Decimal

structure LedgerEntry where
  id : Uuid
  userId : String
  orderId : Uuid
  type : LedgerEntryType
  amount : Decimal
  currency : String

structure IdempotencyKey where
  key : String
  scope : String
  requestHash : String
  responseBody : Json
  expiresAt : Option Time

structure OutboxEvent where
  id : Uuid
  aggregateId : String
  type : String
  payload : Json
  lastError : Option String
  status : OutboxStatus
  attempts : Nat
  availableAt : Time
  createdAt : Time
  sentAt : Option Time

structure InboxEvent where
  id : Uuid
  sourceEventId : String
  type : String
  payload : Json
  status : InboxStatus
  attempts : Nat
  availableAt : Time
  lastError : Option String
  createdAt : Time
  processedAt : Option Time

/-! ## Unique indexes -/

instance : Indexed Order where
  clash a b := a.id == b.id
  clash_comm _ _ := BEq.comm

/-- `merchantId @unique`. -/
instance : Indexed CashbackRule where
  clash a b := a.merchantId == b.merchantId
  clash_comm _ _ := BEq.comm

/-- `@@unique([orderId, type])` next to the primary key. -/
instance : Indexed LedgerEntry where
  clash a b := a.id == b.id || (a.orderId == b.orderId && a.type == b.type)
  clash_comm _ _ := by simp only [BEq.comm]

/-- `@@id([key, scope])`. -/
instance : Indexed IdempotencyKey where
  clash a b := a.key == b.key && a.scope == b.scope
  clash_comm _ _ := by simp only [BEq.comm]

instance : Indexed OutboxEvent where
  clash a b := a.id == b.id
  clash_comm _ _ := BEq.comm

/-- `sourceEventId @unique` next to the primary key. -/
instance : Indexed InboxEvent where
  clash a b := a.id == b.id || a.sourceEventId == b.sourceEventId
  clash_comm _ _ := by simp only [BEq.comm]

/-! ## Platform and configuration -/

/-- What the programs use of code outside the repository and read from their environment.

    * `readUuid`: how the database client reads a string as a `@db.Uuid` value
    * `decimalText`, `readDecimal`: `Decimal#toString` and `new Decimal(string)`
    * `numberText`: `String(n)` of a number
    * `isoText`: `Date#toISOString`
    * `readTake`: the `take` that the client makes of `Number(s)`: an integer as it is, a fraction
      cut off towards zero; none where it refuses the number
    * `sha256`: the hex digest -/
structure Env where
  readUuid : String → Option Uuid
  readUuid_text : ∀ u : Uuid, readUuid u.text = some u
  decimalText : Decimal → String
  readDecimal : String → Option Decimal
  numberText : ℚ → String
  isoText : Time → String
  readTake : String → Option Int
  sha256 : String → String
  /-- `MAX_ATTEMPTS` -/
  maxAttempts : Nat
  /-- `BATCH_SIZE` -/
  batchSize : Nat
  /-- `RETRY_BATCH_SIZE` -/
  retryBatchSize : Nat
  /-- `CASHBACK_RULE_CACHE_TTL_SECONDS` -/
  cacheTtlSeconds : Nat
  /-- `CASHBACK_RULE_CACHE_LOCK_MS` -/
  lockTtlMs : Nat
  /-- `CASHBACK_RULE_CACHE_WAIT_MS` -/
  lockWaitMs : Nat

/-- Decimals with up to four places, what the columns hold, read back from their text as they
    were; an empty text is none. -/
structure DecimalText (env : Env) : Prop where
  read : ∀ n : ℤ, env.readDecimal (env.decimalText ((n : ℚ) / 10 ^ 4)) = some ((n : ℚ) / 10 ^ 4)
  empty : env.readDecimal "" = none

/-- Dates print without a NUL character. -/
def IsoText (env : Env) : Prop := ∀ t, Json.storableText (env.isoText t) = true

/-! ## What the database client throws -/

/-- An exception. `text` is what `String(err)` keeps of it in a row's `lastError`. -/
inductive Fault where
  /-- P2002: a unique index refuses the row -/
  | uniqueViolation
  /-- P2003: the referenced row is missing -/
  | foreignKeyViolation
  /-- P2025: the row to update is missing -/
  | recordNotFound
  /-- the client or the column refuses a value -/
  | invalidValue
  /-- 25P02: the transaction is aborted, only a rollback is accepted -/
  | transactionAborted
  /-- there is no open transaction -/
  | transactionClosed
  /-- the call failed: connection, timeout, broker -/
  | callFailed (message : String)
  /-- `throw new Error(message)` -/
  | error (message : String)
  /-- a TypeError of the language -/
  | typeError (message : String)
  /-- `throw new ConflictException(message)`: HTTP 409 -/
  | conflict (message : String)
deriving DecidableEq, Repr

def Fault.text : Fault → String
  | .uniqueViolation => "PrismaClientKnownRequestError: P2002"
  | .foreignKeyViolation => "PrismaClientKnownRequestError: P2003"
  | .recordNotFound => "PrismaClientKnownRequestError: P2025"
  | .invalidValue => "PrismaClientValidationError"
  | .transactionAborted => "PrismaClientUnknownRequestError: 25P02"
  | .transactionClosed => "PrismaClientKnownRequestError: P2028"
  | .callFailed message => message
  | .error message => "Error: " ++ message
  | .typeError message => "TypeError: " ++ message
  | .conflict message => "ConflictException: " ++ message

/-- `String(x)` and the `x` of a template literal. -/
def stringOf (env : Env) (x : Option Json) : Except Fault String :=
  match Json.textOpt env.numberText x with
  | some s => .ok s
  | none => .error (.typeError "Cannot convert object to primitive value")

theorem stringOf_ok {env : Env} {j : Json} {s : String} :
    stringOf env (some j) = .ok s ↔ j.text env.numberText = some s := by
  show (match j.text env.numberText with | some s => _ | none => _) = _ ↔ _
  cases j.text env.numberText <;> simp

end CashbackLedger
