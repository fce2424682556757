import CashbackLedger.Model.Json

/-
  The request counter of the API: `metrics/metrics.interceptor.ts`,
  `common/throttle/user-throttler.guard.ts`, `common/filters/http-exception.filter.ts` and
  `common/interceptors/response-envelope.interceptor.ts` of `apps/api/src`.

  A stage of a request is a program over the response it prepares and the counter, and may end in an
  exception. Nest runs the guard, sets the status of the route on the response, runs the
  interceptors around pipes and handler, and hands what was thrown to the exception filter when
  their stream has terminated (`handleRequest`). The histogram of durations is left out.
-/

namespace CashbackLedger

/-! ## Requests and responses -/

/-- What the code reads of a request. `requestId` is set by the middleware, `header` is
    `x-request-id`. -/
structure MetricsReq where
  method : Option String
  baseUrl : Option String
  routePath : Option String
  path : Option String
  originalUrl : Option String
  requestId : Option String
  header : Option String

/-- `req.requestId ?? req.header('x-request-id') ?? 'unknown'`. -/
def MetricsReq.id (req : MetricsReq) : String := (req.requestId.or req.header).getD "unknown"

inductive Exception where
  /-- an `HttpException` with its `getStatus()`, `getResponse()` and `message` -/
  | http (status : Nat) (response : Json) (message : String)
  /-- anything else that is thrown -/
  | other

structure ApiError where
  code : String
  message : Json
  details : Option Json

/-- An `ApiResponse` with the status it is sent with. -/
structure ApiResponse where
  status : Nat
  requestId : String
  data : Json
  error : Option ApiError

/-- The labels of `http_requests_total`. -/
structure Labels where
  method : String
  route : String
  status : String
deriving DecidableEq

/-- The status of the response that is prepared, and the increments of `http_requests_total`, oldest
    first. -/
structure Exchange where
  statusCode : Option Nat
  counter : List Labels

abbrev Stage (α : Type) : Type := ExceptT Exception (StateM Exchange) α

def inc (labels : Labels) : StateM Exchange Unit :=
  modify fun s => { s with counter := s.counter ++ [labels] }

/-- `finalize`: `f` runs when the stream has completed or failed. -/
def finalize {α : Type} (f : StateM Exchange Unit) (stream : Stage α) : Stage α :=
  ExceptT.mk do
    let r ← stream.run
    f
    return r

/-! ## metrics.interceptor.ts -/

namespace MetricsInterceptor

def getRoute (req : MetricsReq) : String :=
  let r := req.baseUrl.getD "" ++ (req.routePath.or req.path).getD "unknown"
  if r = "" then "/" else r

def intercept {α : Type} (req : MetricsReq) (next : Stage α) : Stage α :=
  if req.path = some "/metrics" then next
  else finalize (do
    let res ← get
    inc { method := (req.method.getD "UNKNOWN").toUpper, route := getRoute req,
          status := toString (res.statusCode.getD 0) }) next

end MetricsInterceptor

/-! ## response-envelope.interceptor.ts -/

/-- `data` is `undefined` where the handler returns nothing. -/
def ResponseEnvelopeInterceptor.intercept (req : MetricsReq) (next : Stage (Option Json)) :
    Stage (String × Json) := do
  let data ← next
  return (req.id, Json.orElse data .null)

/-! ## user-throttler.guard.ts -/

namespace UserThrottlerGuard

def getRoute (req : MetricsReq) : String :=
  let route := req.baseUrl.getD "" ++ (req.path.or req.originalUrl).getD "unknown"
  if route = "" then "/" else route

/-- What the guard of the throttler package throws. -/
def throttlerException : Exception :=
  let message := "ThrottlerException: Too Many Requests"
  .http 429 (.str message) message

def throwThrottlingException (req : MetricsReq) : Stage Unit := do
  inc { method := (req.method.map String.toUpper).getD "UNKNOWN",
        route := getRoute req, status := "429" }
  throw throttlerException

end UserThrottlerGuard

/-! ## http-exception.filter.ts -/

namespace HttpExceptionToApiResponseFilter

/-- The message of an exception's response: the text it is, or its field. -/
def responseMessage : Json → Option Json
  | .str s => some (.str s)
  | resp => resp.field "message"

/-- `Array.isArray(message) ? message.join('; ') : message`; the messages of Nest's exceptions are
    texts, and their join does not throw. -/
def normalizedMessage (num : ℚ → String) : Option Json → Option Json
  | some (.arr messages) => some (.str ("; ".intercalate ((Json.texts num messages).getD [])))
  | message => message

/-- The error of the response to an `HttpException`. -/
def errorOf (num : ℚ → String) (status : Nat) (resp : Json) (message : String) : ApiError :=
  let normalized := normalizedMessage num (responseMessage resp)
  if status = 400 then
    { code := "ERR_VALIDATION", message := .str "Validation failed",
      details := some (Json.orElse (responseMessage resp) resp) }
  else if status = 404 then
    { code := "ERR_NOT_FOUND", message := Json.orElse normalized (.str "Not found"),
      details := none }
  else if status = 409 then
    { code := "ERR_CONFLICT", message := Json.orElse normalized (.str "Conflict"), details := none }
  else
    { code := "ERR_INTERNAL", message := Json.orElse normalized (.str message),
      details := some resp }

/-- `catch(exception, host)`. -/
def catchException (num : ℚ → String) (req : MetricsReq) : Exception → ApiResponse
  | .http status response message =>
      { status := status, requestId := req.id, data := .null,
        error := some (errorOf num status response message) }
  | .other =>
      { status := 500, requestId := req.id, data := .null,
        error :=
          some { code := "ERR_INTERNAL", message := .str "Internal server error",
                 details := none } }

end HttpExceptionToApiResponseFilter

/-! ## A request to a controller -/

/-- The decorator of a handler. -/
inductive HandlerMethod where
  | get
  | post

/-- The status Nest sets for a handler. -/
def HandlerMethod.defaultStatus : HandlerMethod → Nat
  | .get => 200
  | .post => 201

/-- A request that is routed to a handler: whether the throttler rejects it, and what its pipes and
    the handler come to. No controller has the path `/metrics`. -/
structure RoutedRequest where
  req : MetricsReq
  handler : HandlerMethod
  throttled : Bool
  handled : Except Exception (Option Json)
  path_ne : req.path ≠ some "/metrics"

/-- The request up to the point where its result is sent or its exception filtered. -/
def stages (r : RoutedRequest) : Stage (String × Json) := do
  if r.throttled then UserThrottlerGuard.throwThrottlingException r.req
  modify fun s => { s with statusCode := some r.handler.defaultStatus }
  ResponseEnvelopeInterceptor.intercept r.req
    (MetricsInterceptor.intercept r.req (MonadExcept.ofExcept r.handled))

/-- A request and its response, with what it adds to the counter. -/
def handleRequest (num : ℚ → String) (r : RoutedRequest) (counter : List Labels) :
    ApiResponse × List Labels :=
  match (stages r).run { statusCode := some 200, counter := counter } with
  | (.ok (requestId, data), s) =>
      ({ status := s.statusCode.getD 0, requestId := requestId, data := data, error := none },
        s.counter)
  | (.error e, s) => (HttpExceptionToApiResponseFilter.catchException num r.req e, s.counter)

/-- The responses to these requests, and the counter after them. -/
def handleAll (num : ℚ → String) : List RoutedRequest → List Labels → List ApiResponse × List Labels
  | [], counter => ([], counter)
  | r :: rs, counter =>
      let (response, counter) := handleRequest num r counter
      let (responses, counter) := handleAll num rs counter
      (response :: responses, counter)

end CashbackLedger
