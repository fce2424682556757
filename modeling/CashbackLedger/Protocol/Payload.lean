import CashbackLedger.Lib.Lockstep
import CashbackLedger.Protocol.Tasks
import CashbackLedger.Run.Payload

/-
  The programs read nothing of a payload but its `orderId`.

  `masked` is the likeness of runs that agree after masking. The API, the publisher and the
  handler never see a payload: their calls are exact (`Plain`). The consumer, the retry loop and
  the replay CLI are followed call by call. Together they make the system run in lockstep with
  itself, also when its messages are altered on delivery (`system_lockstep`).
-/

namespace CashbackLedger

open Lib

/-- Equal after masking. -/
def masked : Likeness Call Reply World Outside where
  call c c' := c.mask = c'.mask
  entry x x' := (⟨x.1.mask, x.1.maskReply x.2⟩ : Σ c, Reply c) = ⟨x'.1.mask, x'.1.maskReply x'.2⟩
  world w w' := w.mask = w'.mask
  move e e' := e.mask = e'.mask

/-! ## Rules for alike calls -/

section

variable {α β γ δ : Type} {V : α → β → Prop} {c c' : Call}

theorem reply_cases {d d' : Call} {r : Reply d} {r' : Reply d'}
    (h : (⟨d, r⟩ : Σ c, Reply c) = ⟨d', r'⟩) : r.2 = r'.2 ∧
      ((∃ e, r.1 = .error e ∧ r'.1 = .error e) ∨
        ∃ x x', r.1 = .ok x ∧ r'.1 = .ok x' ∧ HEq x x') := by
  cases h
  refine ⟨rfl, ?_⟩
  cases r.1 with
  | error e => exact Or.inl ⟨e, rfl, rfl⟩
  | ok x => exact Or.inr ⟨x, x, rfl, rfl, HEq.rfl⟩

/-- Alike replies arrive at one time and bring one exception or results equal after masking. -/
theorem masked_cases {r : Reply c} {r' : Reply c'} (h : masked.entry ⟨c, r⟩ ⟨c', r'⟩) :
    (∃ e now, r = (.error e, now) ∧ r' = (.error e, now)) ∨
      ∃ x x' now, r = (.ok x, now) ∧ r' = (.ok x', now) ∧
        HEq (c.maskResult x) (c'.maskResult x') := by
  obtain ⟨x, now⟩ := r
  obtain ⟨x', now'⟩ := r'
  obtain ⟨hnow, h⟩ := reply_cases h
  obtain rfl : now = now' := hnow
  cases x with
  | error e =>
    rcases h with ⟨e₁, h₁, h₂⟩ | ⟨_, _, h₁, -, -⟩
    · cases x' with
      | error e' =>
        cases h₁
        cases h₂
        exact Or.inl ⟨e, now, rfl, rfl⟩
      | ok y => cases h₂
    · cases h₁
  | ok x =>
    rcases h with ⟨_, h₁, -⟩ | ⟨z, z', h₁, h₂, hz⟩
    · cases h₁
    · cases x' with
      | error e' => cases h₂
      | ok y =>
        cases h₁
        cases h₂
        exact Or.inr ⟨x, y, now, rfl, rfl, hz⟩

theorem alike_await_bind {f : c.Result → Async α} {g : c'.Result → Async β} (hc : c.mask = c'.mask)
    (hf : ∀ x y, HEq (c.maskResult x) (c'.maskResult y) →
      Alike masked (AlikeResult V) (f x).run (g y).run) :
    Alike masked (AlikeResult V) (await c >>= f).run (await c' >>= g).run := by
  refine ⟨hc, fun r r' hr => ?_⟩
  rcases masked_cases hr with ⟨e, now, rfl, rfl⟩ | ⟨x, y, now, rfl, rfl, hxy⟩
  · exact rfl
  · exact hf x y hxy

theorem alike_awaitAt_bind {f : c.Result × Time → Async α} {g : c'.Result × Time → Async β}
    (hc : c.mask = c'.mask)
    (hf : ∀ x y now, HEq (c.maskResult x) (c'.maskResult y) →
      Alike masked (AlikeResult V) (f (x, now)).run (g (y, now)).run) :
    Alike masked (AlikeResult V) (awaitAt c >>= f).run (awaitAt c' >>= g).run := by
  refine ⟨hc, fun r r' hr => ?_⟩
  rcases masked_cases hr with ⟨e, now, rfl, rfl⟩ | ⟨x, y, now, rfl, rfl, hxy⟩
  · exact rfl
  · exact hf x y now hxy

theorem alike_tell_bind {d d' : LocalCall} {f : Time → Async α} {g : Time → Async β}
    (hd : d.mask = d'.mask)
    (hf : ∀ now, Alike masked (AlikeResult V) (f now).run (g now).run) :
    Alike masked (AlikeResult V) (tell d >>= f).run (tell d' >>= g).run := by
  refine ⟨congrArg Call.proc hd, fun r r' hr => ?_⟩
  rcases masked_cases hr with ⟨e, now, rfl, rfl⟩ | ⟨x, y, now, rfl, rfl, -⟩
  · exact hf now
  · exact hf now

end

/-! ## Programs that see no payload -/

/-- The calls whose replies carry no payload. -/
def Plain : Call → Prop
  | .inbox _ => False
  | .kafka (.fetch _) => False
  | _ => True

theorem Plain.exact {c : Call} (h : Plain c) : masked.Exact c := by
  have hinj : ∀ x y, c.maskResult x = c.maskResult y → x = y := by
    intro x y hxy
    cases c with
    | inbox c => exact h.elim
    | kafka c => cases c <;> first | exact hxy | exact h.elim
    | _ => exact hxy
  refine ⟨rfl, fun r r' hr => ?_⟩
  rcases masked_cases hr with ⟨e, now, rfl, rfl⟩ | ⟨x, y, now, rfl, rfl, hxy⟩
  · rfl
  · rw [hinj x y (eq_of_heq hxy)]

section

variable {env : Env} {α : Type} {P : History → Call → Prop} {Q : History → Except Fault α → Prop}
  {l : History} {x : Async α}

theorem alike_of_plain (h : Sat P Q l x.run) (hP : ∀ l c, P l c → Plain c) :
    Alike masked (AlikeResult Eq) x.run x.run :=
  (alike_of_sat h fun l c hc => (hP l c hc).exact).mono fun _ _ h => alikeResult_eq.mpr h

end

theorem HandlerCall.plain {x : Option Json} {l : History} {c : Call} (h : HandlerCall x l c) :
    Plain c := by
  cases c with
  | inbox c => exact h.elim
  | kafka c => exact h.elim
  | _ => trivial

theorem CreateCall.plain {env : Env} {header : Option String} {dto : CreateOrderDto} {l : History}
    {c : Call} (h : CreateCall env header dto l c) : Plain c := by
  cases c with
  | inbox c => exact h.elim
  | kafka c => exact h.elim
  | _ => trivial

theorem ConfirmCall.plain {env : Env} {header : Option String} {id : String} {l : History}
    {c : Call} (h : ConfirmCall env header id l c) : Plain c := by
  cases c with
  | inbox c => exact h.elim
  | kafka c => exact h.elim
  | _ => trivial

theorem UpsertRuleCall.plain {merchantId : String} {dto : UpsertCashbackRuleDto} {c : Call}
    (h : UpsertRuleCall merchantId dto c) : Plain c := by
  cases c with
  | inbox c => exact h.elim
  | kafka c => exact h.elim
  | _ => trivial

theorem PublisherCall.plain {env : Env} {l : History} {c : Call} (h : PublisherCall env l c) :
    Plain c := by
  cases c with
  | inbox c => exact h.elim
  | kafka c => cases c <;> trivial
  | _ => trivial

/-! ## Programs that handle events -/

/-- The program issues alike calls under alike replies, whatever payloads they carry. -/
abbrev Blind {α : Type} (x y : Async α) : Prop := Alike masked (AlikeResult Eq) x.run y.run

section

variable {env : Env} {e e' : InboxEvent}

theorem InboxEvent.of_mask (h : e.mask = e'.mask) :
    e.id = e'.id ∧ e.attempts = e'.attempts ∧
      e.payload.field "orderId" = e'.payload.field "orderId" := by
  have hpayload : e.payload.mask = e'.payload.mask := congrArg InboxEvent.payload h
  have hid : e.mask.id = e'.mask.id := congrArg InboxEvent.id h
  have hattempts : e.mask.attempts = e'.mask.attempts := congrArg InboxEvent.attempts h
  exact ⟨hid, hattempts, by rw [← Json.field_mask, hpayload, Json.field_mask]⟩

theorem alike_processOrderConfirmed (env : Env) (orderId : Option Json) :
    Blind (processOrderConfirmed env orderId) (processOrderConfirmed env orderId) :=
  alike_of_plain (sat_processOrderConfirmed (l := []) env orderId) fun _ _ h => h.plain

/-- An update whose reply is not read. -/
theorem alike_inboxUpdate {id id' : Uuid} (hid : id = id') (u : InboxUpdate) :
    Blind (do let _ ← await (.inbox (.update id u)))
        (do let _ ← await (.inbox (.update id' u))) := by
  subst hid
  exact alike_await_bind rfl fun _ _ _ => rfl

/-! ### The consumer -/

theorem field_eq {evt evt' : Json} (h : evt.maskEvent = evt'.maskEvent) (name : String)
    (hname : name ≠ "payload") : evt.field name = evt'.field name := by
  have hevt := Json.field_maskEvent evt name
  have hevt' := Json.field_maskEvent evt' name
  rw [if_neg hname] at hevt hevt'
  rw [← hevt, ← hevt', h]

theorem payload_eq {evt evt' : Json} (h : evt.maskEvent = evt'.maskEvent) :
    (Json.orElse (evt.field "payload") (.obj [])).mask =
      (Json.orElse (evt'.field "payload") (.obj [])).mask := by
  have hevt := Json.field_maskEvent evt "payload"
  have hevt' := Json.field_maskEvent evt' "payload"
  rw [if_pos rfl] at hevt hevt'
  rw [Json.mask_orElse, Json.mask_orElse, ← hevt, ← hevt', h]

theorem alike_handleEvent {evt evt' : Json} (h : evt.maskEvent = evt'.maskEvent) (key : String) :
    Blind (handleEvent env key evt) (handleEvent env key evt') := by
  have hpayload := payload_eq h
  unfold handleEvent
  rw [field_eq h "id" (by decide)]
  generalize stringOf env _ = sid
  generalize Json.orElse (evt.field "payload") (.obj []) = payload at hpayload
  generalize Json.orElse (evt'.field "payload") (.obj []) = payload' at hpayload
  have horder : payload.field "orderId" = payload'.field "orderId" := by
    rw [← Json.field_mask, hpayload, Json.field_mask]
  cases sid with
  | error e => exact rfl
  | ok sid =>
    refine alike_await_bind ?_ fun inbox inbox' hrow => ?_
    · simp only [Call.mask, InboxCall.mask, hpayload]
    · obtain ⟨hid, -, -⟩ := InboxEvent.of_mask (eq_of_heq hrow)
      rw [horder]
      refine (alike_processOrderConfirmed env _).act_bind ?_
      rintro ⟨res, now⟩ _ rfl
      exact alike_inboxUpdate hid _

theorem alike_eachMessage {m m' : KafkaMessage} (h : m.mask = m'.mask) :
    Blind (eachMessage env m) (eachMessage env m') := by
  obtain ⟨key, value⟩ := m
  obtain ⟨key', value'⟩ := m'
  obtain ⟨rfl, hvalue⟩ : key = key' ∧ value.map Json.maskEvent = value'.map Json.maskEvent := by
    simpa [KafkaMessage.mask] using h
  refine Alike.act_tryCatch ?_ fun _ => rfl
  cases value with
  | none =>
    cases value' with
    | none => exact rfl
    | some evt' => cases hvalue
  | some evt =>
    cases value' with
    | none => cases hvalue
    | some evt' =>
      have hevt : evt.maskEvent = evt'.maskEvent := Option.some_inj.mp hvalue
      dsimp only
      rw [field_eq hevt "type" (by decide)]
      split
      · exact alike_handleEvent hevt _
      · exact rfl

theorem alike_consume (offset : Nat) : Blind (consume env offset) (consume env offset) := by
  refine alike_await_bind rfl fun m m' hm => ?_
  refine (alike_eachMessage (eq_of_heq hm)).act_bind fun _ _ _ => ?_
  have hcommit :
      Sat (fun _ c => Plain c) (fun _ _ => True) [] (await (.kafka (.commitOffset offset))).run :=
    sat_await trivial (fun _ _ => trivial) fun _ _ => trivial
  exact alike_of_plain hcommit fun _ _ h => h

/-! ### The retry loop -/

theorem alike_attemptEvent (h : e.mask = e'.mask) :
    Blind (attemptEvent env e) (attemptEvent env e') := by
  obtain ⟨hid, -, horder⟩ := InboxEvent.of_mask h
  unfold attemptEvent
  dsimp only
  rw [horder, hid]
  split
  · exact rfl
  · refine (alike_processOrderConfirmed env _).act_bind ?_
    rintro ⟨res, now⟩ _ rfl
    exact alike_inboxUpdate rfl _

theorem alike_attemptFailed (h : e.mask = e'.mask) (err : Fault) :
    Blind (attemptFailed env e err) (attemptFailed env e' err) := by
  obtain ⟨hid, -, -⟩ := InboxEvent.of_mask h
  unfold attemptFailed
  rw [hid]
  refine alike_awaitAt_bind rfl fun updated updated' now hupdated => ?_
  obtain ⟨-, hattempts, -⟩ := InboxEvent.of_mask (eq_of_heq hupdated)
  dsimp only
  rw [hattempts]
  split
  · exact alike_awaitAt_bind rfl fun _ _ _ _ => alike_await_bind rfl fun _ _ _ => rfl
  · exact alike_inboxUpdate rfl _

theorem alike_retryEvents {es es' : List InboxEvent}
    (h : es.map InboxEvent.mask = es'.map InboxEvent.mask) :
    Blind (retryEvents env es) (retryEvents env es') := by
  induction es generalizing es' with
  | nil =>
    obtain rfl := List.map_eq_nil_iff.mp h.symm
    exact rfl
  | cons e es ih =>
    cases es' with
    | nil => cases h
    | cons e' es' =>
      obtain ⟨he, hes⟩ := List.cons_eq_cons.mp h
      refine alike_tell_bind (congrArg LocalCall.inboxRetriesInc he) fun now => ?_
      have htry : Blind (tryCatch (attemptEvent env e) fun err => attemptFailed env e err)
          (tryCatch (attemptEvent env e') fun err => attemptFailed env e' err) :=
        (alike_attemptEvent he).act_tryCatch (alike_attemptFailed he)
      exact htry.act_bind fun _ _ _ => ih hes

theorem alike_retryInbox : Blind (retryInbox env) (retryInbox env) := by
  refine alike_tell_bind rfl fun now => ?_
  exact alike_await_bind rfl fun es es' hes => alike_retryEvents (eq_of_heq hes)

/-! ### The replay CLI -/

theorem alike_replayInboxRows {reset : Bool} {rows rows' : List InboxEvent}
    (h : rows.map InboxEvent.mask = rows'.map InboxEvent.mask) (now : Time) :
    Blind (replayInboxRows reset rows now) (replayInboxRows reset rows' now) := by
  induction rows generalizing rows' now with
  | nil =>
    obtain rfl := List.map_eq_nil_iff.mp h.symm
    exact rfl
  | cons e rows ih =>
    cases rows' with
    | nil => cases h
    | cons e' rows' =>
      obtain ⟨he, hrows⟩ := List.cons_eq_cons.mp h
      obtain ⟨hid, hattempts, -⟩ := InboxEvent.of_mask he
      unfold replayInboxRows
      rw [hid, hattempts]
      exact alike_awaitAt_bind rfl fun _ _ now _ => ih hrows now

theorem alike_replayOutboxRows {reset : Bool} (rows : List OutboxEvent) (now : Time) :
    Blind (replayOutboxRows reset rows now) (replayOutboxRows reset rows now) := by
  induction rows generalizing now with
  | nil => exact rfl
  | cons e rows ih => exact alike_awaitAt_bind rfl fun _ _ now _ => ih now

theorem alike_replay (argv : List String) : Blind (replay env argv) (replay env argv) := by
  cases argv with
  | nil => exact rfl
  | cons cmd rest =>
    simp only [replay]
    split
    · exact rfl
    split
    · exact alike_awaitAt_bind rfl fun _ _ now hrows => alike_replayInboxRows (eq_of_heq hrows) now
    split
    · refine alike_awaitAt_bind rfl fun rows rows' now hrows => ?_
      obtain rfl : rows = rows' := eq_of_heq hrows
      exact alike_replayOutboxRows rows now
    · exact rfl

end

theorem alike_silent {x y : Async Unit} (h : Blind x y) : Blind (silent x) (silent y) :=
  h.act_bind fun _ _ _ => rfl

theorem alike_task (env : Env) (t : Task) : Blind (t.program env) (t.program env) := by
  cases t with
  | create header dto =>
    exact alike_of_plain (task_sat env (.create header dto)) fun _ _ h => h.plain
  | confirm header id =>
    exact alike_of_plain (task_sat env (.confirm header id)) fun _ _ h => h.plain
  | upsertRule merchantId dto =>
    exact alike_of_plain (task_sat env (.upsertRule merchantId dto)) fun _ _ h => h.plain
  | publishOnce => exact alike_of_plain (task_sat env .publishOnce) fun _ _ h => h.plain
  | consume offset => exact alike_silent (alike_consume offset)
  | retryInbox => exact alike_silent alike_retryInbox
  | replay argv => exact alike_silent (alike_replay argv)

/-! ## The system in lockstep with itself -/

/-- The reply when the topic hands over `net m` for the message `m`. -/
def Call.altered (net : KafkaMessage → KafkaMessage) : (c : Call) → Reply c → Reply c
  | .kafka (.fetch _), r => (r.1.map net, r.2)
  | _, r => r

/-- The system over a topic that alters a message when it hands it to a process. -/
def altered (env : Env) (net : Pid → KafkaMessage → KafkaMessage) :
    Machine Call Reply Task Choice Outside World Outcome :=
  { system env with
    exec := fun p c ch w => (exec env p c ch w).map fun x => (x.1, c.altered (net p) x.2) }

/-- The topic that alters nothing. -/
theorem altered_id (env : Env) : altered env (fun _ m => m) = system env := by
  have hreply : ∀ (c : Call) (r : Reply c), c.altered (fun m => m) r = r := by
    intro c r
    cases c with
    | kafka c =>
      cases c with
      | fetch offset =>
        obtain ⟨x, now⟩ := r
        cases x <;> rfl
      | _ => rfl
    | _ => rfl
  have hexec : ((altered env fun _ m => m).exec) = (system env).exec := by
    funext p c ch w
    simp only [altered, hreply, Prod.mk.eta]
    exact Option.map_id_fun' ▸ rfl
  simp only [altered] at hexec ⊢
  rw [hexec]

/-- Altering a message only where it is masked does not show after masking. -/
theorem maskReply_altered {net : KafkaMessage → KafkaMessage} (hnet : ∀ m, (net m).mask = m.mask)
    (c : Call) (r : Reply c) : c.maskReply (c.altered net r) = c.maskReply r := by
  cases c with
  | kafka c =>
    cases c with
    | fetch offset =>
      obtain ⟨x, now⟩ := r
      cases x with
      | error e => rfl
      | ok m => exact congrArg (fun m => (Except.ok m, now)) (hnet m)
    | _ => rfl
  | _ => rfl

/-- A served call, seen through the mask, depends on the masked call and world only. -/
theorem exec_masked (env : Env) (p : Pid) (c : Call) (ch : Choice) (w : World) :
    ((exec env p c ch w).map fun x => (x.1.mask, (⟨c.mask, c.maskReply x.2⟩ : Σ c, Reply c))) =
      (exec env p c.mask ch w.mask).map fun x => (x.1, ⟨c.mask, x.2⟩) := by
  rw [exec_mask, Option.map_map]
  rfl

theorem system_lockstep (env : Env) {net : Pid → KafkaMessage → KafkaMessage}
    (hnet : ∀ p m, (net p m).mask = m.mask) : (system env).Lockstep masked (altered env net) where
  prog t := (alike_task env t).mono fun _ _ h => alikeResult_eq.mp h
  exec p c c' ch w w' hc hw := by
    have hc : c.mask = c'.mask := hc
    have hw : w.mask = w'.mask := hw
    have hsame : ((exec env p c ch w).map fun x =>
          (x.1.mask, (⟨c.mask, c.maskReply x.2⟩ : Σ c, Reply c))) =
        ((altered env net).exec p c' ch w').map fun x =>
        (x.1.mask, ⟨c'.mask, c'.maskReply x.2⟩) := by
      simp only [altered, Option.map_map, Function.comp_def, maskReply_altered (hnet p)]
      rw [exec_masked, exec_masked, hc, hw]
    exact rel_mono (rel_of_map_eq hsame) fun x x' hx => Prod.mk.inj hx
  kill p w w' hw := congrArg (kill p) hw
  move e e' w w' he hw := by
    have he : e.mask = e'.mask := he
    have hw : w.mask = w'.mask := hw
    have hsame : (outside e w).map World.mask = (outside e' w').map World.mask := by
      rw [← outside_mask, ← outside_mask, he, hw]
    exact rel_of_map_eq hsame

end CashbackLedger
