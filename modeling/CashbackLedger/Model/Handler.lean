import CashbackLedger.Model.World

/-
  Crediting an order: `apps/worker/src/cache/cashback-rule-cache.ts`,
  `apps/worker/src/handlers/process-order-confirmed.ts` and the copy of the handler in
  `packages/domain/src/process-order-confirmed.ts`.

  An `Async` program is an async function: `await` is one database, Redis or Kafka call, and
  the code up to the next `await` runs at the time the reply arrives (`awaitAt`).
-/

namespace CashbackLedger

open Lib

/-- An async function. -/
abbrev Async (α : Type) : Type := Act Call Reply Fault α

def await (c : Call) : Async c.Result := ExceptT.mk (.call c fun r => .ret r.1)

/-- The result of a call with the time the code after it reads. -/
def awaitAt (c : Call) : Async (c.Result × Time) :=
  ExceptT.mk (.call c fun r => .ret (r.1.map fun x => (x, r.2)))

/-- A step of the process on its own, which does not fail, and the time after it. -/
def tell (c : LocalCall) : Async Time := ExceptT.mk (.call (.proc c) fun r => .ret (.ok r.2))

/-- `prisma.$transaction(async (tx) => body)`, with the time of the commit. The client rolls
    back on anything `body` or the commit throws, swallows what the rollback throws, and
    throws the first exception. -/
def transaction {α : Type} (body : Async α) : Async (α × Time) := do
  let _ ← await (.tx .begin)
  tryCatch
    (do let a ← body
        let (_, now) ← awaitAt (.tx .commit)
        return (a, now))
    fun err => do
      tryCatch (await (.tx .rollback)) fun _ => pure ()
      throw err

/-! ## The cashback rule -/

structure Rule where
  rate : Decimal
  cap : Option Decimal

structure CachedCashbackRule where
  rate : String
  cap : Option String

/-- `key(merchantId)`. -/
def ruleKey (merchantId : String) : String := "cashback_rule:" ++ merchantId

/-- `new Prisma.Decimal(s)`. -/
def newDecimal (env : Env) (s : String) : Except Fault Decimal :=
  match env.readDecimal s with
  | some q => .ok q
  | none => .error (.error ("[DecimalError] Invalid argument: " ++ s))

def toDecimalRule (env : Env) (rule : CachedCashbackRule) : Except Fault Rule := do
  let rate ← newDecimal env rule.rate
  match rule.cap with
  | none => return { rate := rate, cap := none }
  | some cap =>
      if cap = "" then return { rate := rate, cap := none }
      else return { rate := rate, cap := some (← newDecimal env cap) }

/-- Accepts an object whose `rate` is a string and whose `cap` is a string, null or absent. -/
def parseCached (raw : JsonText) : Option CachedCashbackRule :=
  match raw with
  | none => none
  | some parsed =>
      match parsed.field "rate", parsed.field "cap" with
      | some (.str rate), none => some { rate := rate, cap := none }
      | some (.str rate), some .null => some { rate := rate, cap := none }
      | some (.str rate), some (.str cap) => some { rate := rate, cap := some cap }
      | _, _ => none

/-- The entry `writeCache` stores. -/
def CachedCashbackRule.json (rule : CachedCashbackRule) : Json :=
  .obj [("rate", .str rule.rate),
    ("cap", match rule.cap with | none => .null | some cap => .str cap)]

def readCache (cacheKey : String) : Async (Option CachedCashbackRule) :=
  tryCatch
    (do match ← await (.redis (.get cacheKey)) with
        | none => return none
        | some raw => return parseCached raw)
    fun _ => return none

def writeCache (env : Env) (cacheKey : String) (payload : CachedCashbackRule) : Async Unit :=
  tryCatch (await (.redis (.set cacheKey (some payload.json) env.cacheTtlSeconds))) fun _ => pure ()

def acquireLock (env : Env) (lockKey : String) : Async Bool :=
  tryCatch (await (.redis (.setNx lockKey env.lockTtlMs))) fun _ => return false

def releaseLock (lockKey : String) : Async Unit :=
  tryCatch (await (.redis (.del lockKey))) fun _ => pure ()

/-- The rule applied when the merchant has none: 5 %, no cap. -/
def defaultRate : Decimal := 5 / 100

/-- The entry for what the database holds. -/
def rulePayload (env : Env) (rule : Option CashbackRule) : CachedCashbackRule where
  rate := env.decimalText ((rule.map CashbackRule.rate).getD defaultRate)
  cap := (rule.bind CashbackRule.cap).map env.decimalText

/-- `reader.cashbackRule.findUnique`, then `writeCache`. -/
def loadRule (env : Env) (merchantId : String) : Async Rule := do
  let rule ← await (.tx (.stmt (.ruleFindUnique merchantId)))
  let payload := rulePayload env rule
  writeCache env (ruleKey merchantId) payload
  MonadExcept.ofExcept (toDecimalRule env payload)

/-- The block between `acquireLock` and `releaseLock`. -/
def readThrough (env : Env) (merchantId : String) (gotLock : Bool) : Async Rule := do
  if gotLock then loadRule env merchantId
  else
    let _ ← tell (.sleep env.lockWaitMs)
    match ← readCache (ruleKey merchantId) with
    | some retried => MonadExcept.ofExcept (toDecimalRule env retried)
    | none => loadRule env merchantId

/-- `getCashbackRule(tx, merchantId)`. -/
def getCashbackRule (env : Env) (merchantId : String) : Async Rule := do
  match ← readCache (ruleKey merchantId) with
  | some cached => MonadExcept.ofExcept (toDecimalRule env cached)
  | none =>
      let lockKey := ruleKey merchantId ++ ":lock"
      let gotLock ← acquireLock env lockKey
      (readThrough env merchantId gotLock).finally
        (if gotLock then releaseLock lockKey else pure ())

/-- The rule read directly, as in `packages/domain`. -/
def findRule (merchantId : String) : Async Rule := do
  let rule ← await (.tx (.stmt (.ruleFindUnique merchantId)))
  return { rate := (rule.map CashbackRule.rate).getD defaultRate,
           cap := rule.bind CashbackRule.cap }

/-! ## The handler -/

/-- The cashback of an amount under a rule. -/
def cashbackOf (amount : Decimal) (rule : Rule) : Decimal :=
  let cashback := decimalMul amount rule.rate
  let capped := match rule.cap with
    | some cap => if cap < cashback then cap else cashback
    | none => cashback
  toDecimalPlaces capped 2

structure CreditResult where
  orderId : Uuid
  credited : Bool
  ledgerEntryId : Option Uuid
  amount : Decimal
  currency : String

def OrderStatus.text : OrderStatus → String
  | .CREATED => "CREATED"
  | .CONFIRMED => "CONFIRMED"
  | .CANCELLED => "CANCELLED"

/-- The CREDIT entry of an order. -/
def creditData (order : Order) (cashback : Decimal) : LedgerData :=
  { userId := order.userId, orderId := order.id, type := .CREDIT, amount := cashback,
    currency := order.currency }

/-- The insert with its handler for a duplicate. -/
def createCredit (order : Order) (cashback : Decimal) : Async CreditResult :=
  tryCatch
    (do let entry ← await (.tx (.stmt (.ledgerCreate (creditData order cashback))))
        return { orderId := order.id, credited := true, ledgerEntryId := some entry.id,
                 amount := cashback, currency := order.currency })
    fun e => do
      if e = .uniqueViolation then
        let existing ← await (.tx (.stmt (.ledgerFindUnique order.id .CREDIT)))
        return { orderId := order.id, credited := false,
                 ledgerEntryId := existing.map LedgerEntry.id,
                 amount := cashback, currency := order.currency }
      else throw e

/-- The two checks on the order that is read. -/
def guardOrder (env : Env) (orderId : Option Json) : Option Order → Except Fault Order
  | none => do throw (.error ("Order not found: " ++ (← stringOf env orderId)))
  | some order => do
      if order.status ≠ .CONFIRMED then
        throw (.error ("Order not confirmed: " ++ (← stringOf env orderId) ++ " status=" ++
          order.status.text))
      else return order

/-- The body of the handler's transaction, over the way the rule is read. -/
def creditOrder (env : Env) (rule : String → Async Rule) (orderId : Option Json) :
    Async CreditResult := do
  let found ← await (.tx (.stmt (.orderFindUnique orderId)))
  let order ← MonadExcept.ofExcept (guardOrder env orderId found)
  let rule ← rule order.merchantId
  createCredit order (cashbackOf order.amount rule)

/-- The worker's `processOrderConfirmed(prisma, { orderId })`, with the time of its commit. -/
def processOrderConfirmed (env : Env) (orderId : Option Json) : Async (CreditResult × Time) :=
  transaction (creditOrder env (getCashbackRule env) orderId)

/-- `processOrderConfirmed` of `packages/domain`. -/
def domainProcessOrderConfirmed (env : Env) (orderId : Option Json) : Async (CreditResult × Time) :=
  transaction (creditOrder env findRule orderId)

end CashbackLedger
