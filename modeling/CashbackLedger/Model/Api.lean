import CashbackLedger.Model.Handler
import CashbackLedger.Model.Number

/-
  The API: `common/idempotency/idempotency.service.ts`, `orders/orders.controller.ts`,
  `merchants/cashback-rule.service.ts` and `merchants/merchants.controller.ts` of `apps/api/src`.
-/

namespace CashbackLedger

open Lib

/-! ## idempotency.service.ts -/

/-- What `hashRequest` feeds to SHA-256. -/
def hashInput (env : Env) (method path : String) (body : Option Json) : String :=
  method.toUpper ++ "|" ++ path ++ "|" ++ (body.getD .null).stringify env.numberText

def hashRequest (env : Env) (method path : String) (body : Option Json) : String :=
  env.sha256 (hashInput env method path body)

def getCachedResponse (key scope : String) : Async (Option IdempotencyKey) :=
  await (.idem (.findUnique key scope))

/-- The `expiresAt` of `saveResponse` for a lifetime in seconds. -/
def expiry (now : Time) (ttlSeconds : Option Nat) : Option Time :=
  match ttlSeconds with
  | some ttl => if 0 < ttl then some (now + ttl * 1000) else none
  | none => none

def saveResponse (key scope requestHash : String) (responseBody : Json) (ttlSeconds : Option Nat)
    (now : Time) : Async IdempotencyKey :=
  await (.idem (.upsert { key := key, scope := scope, requestHash := requestHash,
                          responseBody := responseBody, expiresAt := expiry now ttlSeconds }))

/-- `if (idemKey)`: an absent or empty header is no key. -/
def keyOf (header : Option String) : Option String := header.filter fun k => k ≠ ""

/-! ## orders.controller.ts -/

/-- A validated body of `POST /orders`. -/
structure CreateOrderDto where
  userId : String
  merchantId : String
  amount : Number
  currency : String

/-- The body as it is sent, its amount a literal. -/
structure CreateOrderBody where
  userId : String
  merchantId : String
  amount : Decimal
  currency : String

/-- The body after `JSON.parse`; validation admits no amount that is not finite. -/
def CreateOrderBody.parse (body : CreateOrderBody) : Option CreateOrderDto :=
  (Number.ofLiteral body.amount).map fun amount =>
    { userId := body.userId, merchantId := body.merchantId,
      amount := amount, currency := body.currency }

def CreateOrderDto.json (dto : CreateOrderDto) : Json :=
  .obj [("userId", .str dto.userId), ("merchantId", .str dto.merchantId),
    ("amount", .num dto.amount.value), ("currency", .str dto.currency)]

def CreateOrderDto.data (dto : CreateOrderDto) : OrderData :=
  { userId := dto.userId, merchantId := dto.merchantId, amount := dto.amount.toDecimal,
    currency := dto.currency, status := .CREATED }

/-- The response of `create`. -/
def orderResponse (env : Env) (created : Order) : Json :=
  .obj [("id", .str created.id.text), ("userId", .str created.userId),
    ("merchantId", .str created.merchantId), ("amount", .num (toNumber created.amount)),
    ("currency", .str created.currency), ("status", .str created.status.text),
    ("createdAt", .str (env.isoText created.createdAt))]

def createScope : String := "POST:/orders"

/-- `create` with a key. -/
def createKeyed (env : Env) (key : String) (dto : CreateOrderDto) : Async Json := do
  let requestHash := hashRequest env "POST" "/orders" (some dto.json)
  match ← getCachedResponse key createScope with
  | some cached =>
      if cached.requestHash ≠ requestHash then
        throw (.conflict "Idempotency-Key reused with different request body")
      return cached.responseBody
  | none =>
      let (created, now) ← awaitAt (.orders (.create dto.data))
      let resp := orderResponse env created
      let _ ← saveResponse key createScope requestHash resp (some (24 * 3600)) now
      return resp

def create (env : Env) (header : Option String) (dto : CreateOrderDto) : Async Json :=
  match keyOf header with
  | some key => createKeyed env key dto
  | none => do
      let created ← await (.orders (.create dto.data))
      return orderResponse env created

/-- The response of `confirm`. -/
structure ConfirmResponse where
  id : Uuid
  status : OrderStatus
  outboxEventId : Option Uuid

def ConfirmResponse.json (r : ConfirmResponse) : Json :=
  .obj [("id", .str r.id.text), ("status", .str r.status.text),
    ("outboxEventId", match r.outboxEventId with | none => .null | some id => .str id.text)]

/-- The payload of the `OrderConfirmed` event of an order. -/
def confirmedPayload (env : Env) (confirmed : Order) (now : Time) : Json :=
  .obj [("orderId", .str confirmed.id.text), ("userId", .str confirmed.userId),
    ("merchantId", .str confirmed.merchantId), ("amount", .str (env.decimalText confirmed.amount)),
    ("currency", .str confirmed.currency), ("confirmedAt", .str (env.isoText now))]

/-- The body of the transaction of `confirmAndOutbox`. -/
def confirmBody (env : Env) (orderId : String) : Async ConfirmResponse := do
  match ← await (.tx (.stmt (.orderFindUnique (some (.str orderId))))) with
  | none => throw (.conflict "Order not found")
  | some order =>
      match order.status with
      | .CANCELLED => throw (.conflict "Cannot confirm a cancelled order")
      | .CONFIRMED => return { id := order.id, status := order.status, outboxEventId := none }
      | .CREATED =>
          let (confirmed, now) ← awaitAt (.tx (.stmt (.orderUpdate orderId .CONFIRMED)))
          let outbox ← await (.tx (.stmt (.outboxCreate
            { aggregateId := confirmed.id.text, type := "OrderConfirmed",
              payload := confirmedPayload env confirmed now })))
          return { id := confirmed.id, status := confirmed.status, outboxEventId := some outbox.id }

def confirmAndOutbox (env : Env) (orderId : String) : Async (ConfirmResponse × Time) :=
  transaction (confirmBody env orderId)

def confirmPath (id : String) : String := "/orders/" ++ id ++ "/confirm"

def confirmScope (id : String) : String := "POST:" ++ confirmPath id

/-- `confirm` with a key. -/
def confirmKeyed (env : Env) (key id : String) : Async Json := do
  let requestHash := hashRequest env "POST" (confirmPath id) none
  match ← getCachedResponse key (confirmScope id) with
  | some cached =>
      if cached.requestHash ≠ requestHash then
        throw (.conflict "Idempotency-Key reused with different request")
      return cached.responseBody
  | none =>
      let (resp, now) ← confirmAndOutbox env id
      let _ ← saveResponse key (confirmScope id) requestHash resp.json (some (24 * 3600)) now
      return resp.json

def confirm (env : Env) (header : Option String) (id : String) : Async Json :=
  match keyOf header with
  | some key => confirmKeyed env key id
  | none => do
      let (resp, _) ← confirmAndOutbox env id
      return resp.json

/-! ## cashback-rule.service.ts

The private methods of `CashbackRuleService` are those of the worker's cache, line for line: `key`
is `ruleKey`, a `CashbackRuleSnapshot` is a `CachedCashbackRule`. -/

/-- The database read of `getRule`, then `writeCache`. -/
def loadSnapshot (env : Env) (merchantId : String) : Async CachedCashbackRule := do
  let fromDb ← await (.rules (.findUnique merchantId))
  let payload := rulePayload env fromDb
  writeCache env (ruleKey merchantId) payload
  return payload

/-- The block between `acquireLock` and `releaseLock`. -/
def snapshotThrough (env : Env) (merchantId : String) (gotLock : Bool) : Async CachedCashbackRule :=
  do
  if gotLock then loadSnapshot env merchantId
  else
    let _ ← tell (.sleep env.lockWaitMs)
    match ← readCache (ruleKey merchantId) with
    | some retried => return retried
    | none => loadSnapshot env merchantId

/-- `CashbackRuleService.getRule`. -/
def getRule (env : Env) (merchantId : String) : Async CachedCashbackRule := do
  match ← readCache (ruleKey merchantId) with
  | some cached => return cached
  | none =>
      let lockKey := ruleKey merchantId ++ ":lock"
      let gotLock ← acquireLock env lockKey
      (snapshotThrough env merchantId gotLock).finally
        (if gotLock then releaseLock lockKey else pure ())

/-- `CashbackRuleService.invalidate`. -/
def invalidate (merchantId : String) : Async Unit :=
  tryCatch (await (.redis (.del (ruleKey merchantId)))) fun _ => pure ()

/-! ## merchants.controller.ts -/

/-- A validated body of `POST /merchants/{id}/cashback-rule`. `cap` is absent, null or a number. -/
structure UpsertCashbackRuleDto where
  rate : Number
  cap : Option (Option Number)
deriving DecidableEq

/-- The body as it is sent, with literals. -/
structure UpsertCashbackRuleBody where
  rate : Decimal
  cap : Option (Option Decimal)

/-- The body after `JSON.parse`; validation admits no rate or cap that is not finite. -/
def UpsertCashbackRuleBody.parse (body : UpsertCashbackRuleBody) : Option UpsertCashbackRuleDto :=
  do
  let rate ← Number.ofLiteral body.rate
  match body.cap with
  | none => return { rate := rate, cap := none }
  | some none => return { rate := rate, cap := some none }
  | some (some cap) => return { rate := rate, cap := some (some (← Number.ofLiteral cap)) }

/-- `dto.cap === undefined ? null : new Prisma.Decimal(dto.cap)`. -/
def dtoCap (dto : UpsertCashbackRuleDto) : Except Fault (Option Decimal) :=
  match dto.cap with
  | none => .ok none
  | some none => .error (.error "[DecimalError] Invalid argument: null")
  | some (some cap) => .ok (some cap.toDecimal)

def upsertRule (merchantId : String) (dto : UpsertCashbackRuleDto) : Async Json := do
  let cap ← MonadExcept.ofExcept (dtoCap dto)
  let rule ← await (.rules (.upsert merchantId dto.rate.toDecimal cap))
  invalidate merchantId
  return .obj [("merchantId", .str rule.merchantId), ("rate", .num (toNumber rule.rate)),
    ("cap", match rule.cap with | none => .null | some cap => .num (toNumber cap))]

end CashbackLedger
