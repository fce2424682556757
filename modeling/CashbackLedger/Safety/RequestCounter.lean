import CashbackLedger.Model.Metrics

/-
  The request counter and the responses.

  Each request is counted once (`handleRequest_eq`). The guard counts a rejected request with the
  status it is answered with; the interceptor counts when its stream terminates, with the status the
  response has then, which is that of the route: the exception filter sets the status of an
  exception only afterwards. So the counter agrees with the responses exactly if the requests that
  end in an exception have, taken together, the statuses of their routes (`counter_truthful`).
-/

namespace CashbackLedger

/-- The status an exception is answered with. -/
def Exception.status : Exception → Nat
  | .http status _ _ => status
  | .other => 500

namespace RoutedRequest

/-- What a pipe or the handler throws. -/
def thrown (r : RoutedRequest) : Option Exception :=
  if r.throttled then none
  else match r.handled with
    | .ok _ => none
    | .error e => some e

/-- The status the request is answered with. -/
def answered (r : RoutedRequest) : Nat :=
  if r.throttled then 429 else ((r.thrown).map Exception.status).getD r.handler.defaultStatus

/-- The status the request is counted with. -/
def counted (r : RoutedRequest) : Nat := if r.throttled then 429 else r.handler.defaultStatus

/-- The labels the request is counted with. -/
def labels (r : RoutedRequest) : Labels where
  method := if r.throttled then (r.req.method.map String.toUpper).getD "UNKNOWN"
    else (r.req.method.getD "UNKNOWN").toUpper
  route := if r.throttled then UserThrottlerGuard.getRoute r.req
      else MetricsInterceptor.getRoute r.req
  status := toString r.counted

end RoutedRequest

/-- The counter tells the truth about these requests: each adds one increment, and for each status
    there are as many increments with its label as responses with it. -/
structure Truthful (num : ℚ → String) (requests : List RoutedRequest) : Prop where
  once : ∀ r ∈ requests, ∀ counter, ∃ labels, (handleRequest num r counter).2 = counter ++ [labels]
  statuses : ∀ s : Nat, (handleAll num requests []).2.countP (fun l => l.status == toString s) =
    (handleAll num requests []).1.countP fun response => response.status == s

/-- For each status, as many exceptions of pipes and handlers have it as were thrown on routes that
    have it. -/
def Balanced (requests : List RoutedRequest) : Prop :=
  ∀ s : Nat, (requests.filterMap RoutedRequest.thrown).countP (fun e => e.status == s) =
    (requests.filter fun r => r.thrown.isSome).countP fun r => r.handler.defaultStatus == s

section

variable {num : ℚ → String} {r : RoutedRequest} {requests : List RoutedRequest}
  {counter : List Labels}

/-- A rejected request. -/
theorem stages_throttled (h : r.throttled = true) (s : Exchange) :
    (stages r).run s = (.error UserThrottlerGuard.throttlerException,
      { s with counter := s.counter ++ [r.labels] }) := by
  unfold stages RoutedRequest.labels RoutedRequest.counted
  rw [h, if_pos rfl, if_pos rfl, if_pos rfl, if_pos rfl]
  rfl

/-- A request that the guard lets through is counted with the status of its route, whatever pipes
    and handler come to. -/
theorem stages_handled (h : r.throttled = false) (s : Exchange) :
    (stages r).run s = (r.handled.map fun data => (r.req.id, Json.orElse data .null),
      { statusCode := some r.handler.defaultStatus, counter := s.counter ++ [r.labels] }) := by
  unfold stages MetricsInterceptor.intercept RoutedRequest.labels RoutedRequest.counted
  rw [h, if_neg r.path_ne]
  cases r.handled with
  | ok data => rfl
  | error e => rfl

/-- A request adds one increment. -/
theorem handleRequest_counter (num : ℚ → String) (r : RoutedRequest) (counter : List Labels) :
    (handleRequest num r counter).2 = counter ++ [r.labels] := by
  unfold handleRequest
  cases h : r.throttled with
  | true => rw [stages_throttled h]
  | false =>
    rw [stages_handled h]
    cases r.handled with
    | ok data => rfl
    | error e => rfl

theorem handleRequest_status (num : ℚ → String) (r : RoutedRequest) (counter : List Labels) :
    (handleRequest num r counter).1.status = r.answered := by
  unfold handleRequest RoutedRequest.answered RoutedRequest.thrown
  cases h : r.throttled with
  | true =>
    rw [stages_throttled h]
    rfl
  | false =>
    rw [stages_handled h]
    cases r.handled with
    | ok data => rfl
    | error e =>
      cases e with
      | http status response message => rfl
      | other => rfl

/-! ## A sequence of requests -/

theorem handleAll_counter (num : ℚ → String) (requests : List RoutedRequest)
    (counter : List Labels) :
    (handleAll num requests counter).2 = counter ++ requests.map RoutedRequest.labels := by
  induction requests generalizing counter with
  | nil => exact (List.append_nil counter).symm
  | cons r requests ih =>
    show (handleAll num requests (handleRequest num r counter).2).2 = _
    rw [ih, handleRequest_counter, List.append_assoc]
    rfl

theorem handleAll_statuses (num : ℚ → String) (requests : List RoutedRequest)
    (counter : List Labels) :
    (handleAll num requests counter).1.map ApiResponse.status =
      requests.map RoutedRequest.answered := by
  induction requests generalizing counter with
  | nil => rfl
  | cons r requests ih =>
    refine List.cons_eq_cons.mpr ⟨handleRequest_status num r counter, ih _⟩

theorem toString_inj {m n : Nat} (h : toString m = toString n) : m = n := by
  have hdigits : ∀ n : Nat, Nat.ofDigitChars 10 (toString n).toList 0 = n := fun n => by
    show Nat.ofDigitChars 10 (String.ofList (Nat.toDigits 10 n)).toList 0 = n
    rw [String.toList_ofList, Nat.ofDigitChars_ten_toDigits]
  rw [← hdigits m, h, hdigits]

/-- Increments with the label of a status. -/
theorem count_increments (num : ℚ → String) (requests : List RoutedRequest) (s : Nat) :
    (handleAll num requests []).2.countP (fun l => l.status == toString s) =
      requests.countP fun r => r.counted == s := by
  rw [handleAll_counter, List.nil_append, List.countP_map]
  refine List.countP_congr fun r _ => ?_
  show (toString r.counted == toString s) = true ↔ _
  rw [beq_iff_eq, beq_iff_eq]
  exact ⟨toString_inj, congrArg toString⟩

/-- Responses with a status. -/
theorem count_responses (num : ℚ → String) (requests : List RoutedRequest) (s : Nat) :
    (handleAll num requests []).1.countP (fun response => response.status == s) =
      requests.countP fun r => r.answered == s := by
  have hstatuses := congrArg (List.countP fun n => n == s) (handleAll_statuses num requests [])
  rwa [List.countP_map, List.countP_map] at hstatuses

/-- A request is answered with the status it is counted with, unless a pipe or the handler
    throws. -/
theorem answered_of_thrown {e : Exception} (h : r.thrown = some e) :
    r.answered = e.status ∧ r.counted = r.handler.defaultStatus := by
  have hthrottled : r.throttled ≠ true := fun ht => by
    rw [RoutedRequest.thrown, if_pos ht] at h
    cases h
  unfold RoutedRequest.answered RoutedRequest.counted
  rw [if_neg hthrottled, if_neg hthrottled, h]
  exact ⟨rfl, rfl⟩

theorem answered_of_not_thrown (h : r.thrown = none) : r.answered = r.counted := by
  unfold RoutedRequest.answered RoutedRequest.counted
  rw [h]
  rfl

/-- The difference between the two counts is that between the exceptions and their routes. -/
theorem count_balance (requests : List RoutedRequest) (s : Nat) :
    requests.countP (fun r => r.counted == s) +
        (requests.filterMap RoutedRequest.thrown).countP (fun e => e.status == s) =
      requests.countP (fun r => r.answered == s) +
        (requests.filter fun r => r.thrown.isSome).countP fun r =>
        r.handler.defaultStatus == s := by
  induction requests with
  | nil => rfl
  | cons r requests ih =>
    cases h : r.thrown with
    | none =>
      rw [List.filterMap_cons_none h, List.filter_cons_of_neg (by simp [h]),
        List.countP_cons, List.countP_cons,
        answered_of_not_thrown h]
      omega
    | some e =>
      obtain ⟨hanswered, hcounted⟩ := answered_of_thrown h
      rw [List.filterMap_cons_some h, List.filter_cons_of_pos (by simp [h]),
        List.countP_cons, List.countP_cons,
        List.countP_cons, List.countP_cons, hanswered, hcounted]
      omega

/-- The counter tells the truth about a sequence of requests exactly if its exceptions have the
    statuses of their routes, taken together. -/
theorem counter_truthful (num : ℚ → String) (requests : List RoutedRequest) :
    Truthful num requests ↔ Balanced requests := by
  constructor
  · intro h s
    have hstatuses := h.statuses s
    rw [count_increments, count_responses] at hstatuses
    have hbalance := count_balance requests s
    omega
  · intro h
    refine ⟨fun r _ counter => ⟨_, handleRequest_counter num r counter⟩, fun s => ?_⟩
    rw [count_increments, count_responses]
    have hbalance := count_balance requests s
    have hs := h s
    omega

/-- A single request is counted as it is answered exactly if no exception is thrown or its status is
    that of the route. -/
theorem counted_iff (r : RoutedRequest) :
    r.counted = r.answered ↔ ∀ e, r.thrown = some e → e.status = r.handler.defaultStatus := by
  cases h : r.thrown with
  | none => exact ⟨fun _ => nofun, fun _ => (answered_of_not_thrown h).symm⟩
  | some e =>
    obtain ⟨hanswered, hcounted⟩ := answered_of_thrown h
    rw [hanswered, hcounted]
    exact ⟨fun heq e' he => by cases he; exact heq.symm, fun hall => (hall e rfl).symm⟩

end

/-! ## A request with an invalid body -/

/-- `POST /orders` with a body the validation pipe refuses. -/
def invalidOrder : RoutedRequest where
  req :=
    { method := some "POST", baseUrl := none, routePath := some "/orders", path := some "/orders",
           originalUrl := some "/orders", requestId := some "request-1", header := none }
  handler := .post
  throttled := false
  handled := .error (.http 400 (.obj [("message", .arr [.str "amount must not be less than 0.01"])])
    "Bad Request Exception")
  path_ne := by decide

/-- It is answered with 400 and counted with 201. -/
theorem invalidOrder_miscounted : ¬ Truthful (fun _ => "") [invalidOrder] := by
  intro h
  have hstatuses := h.statuses 400
  rw [count_increments, count_responses] at hstatuses
  exact absurd hstatuses (by decide)

end CashbackLedger
