import CashbackLedger.Safety.Runs

/-
  What a replay of the inbox changes.

  `replayInbox` selects rows, then writes them one after the other by id. A write finds its row
  FAILED as long as the selection found it FAILED, which a selection by `sourceEventId` does not
  ask for, and nobody has moved the row in between (`replay_revives_failed`).
-/

namespace CashbackLedger

open Lib History

/-! ## The log of a replay -/

/-- The rows the selection returned. -/
def History.selected : History → List InboxEvent
  | [] => []
  | ⟨.inbox (.findMany _ _), (.ok rows, _)⟩ :: _ => rows
  | _ :: l => History.selected l

/-- The ids of the writes, newest first. -/
def History.rewritten : History → List Uuid
  | [] => []
  | ⟨.inbox (.update id _), _⟩ :: l => id :: History.rewritten l
  | _ :: l => History.rewritten l

/-- The selected rows that are not written yet. -/
def History.toRevive (l : History) : List InboxEvent := l.selected.drop l.rewritten.length

/-- What a replay writes to a row it has read as `r`. -/
def revive (reset : Bool) (r : InboxEvent) (now : Time) : InboxUpdate :=
  { status := some .PENDING, availableAt := some now, lastError := some none,
    attempts := some (.set (if reset then 0 else r.attempts)) }

def InboxReplayCall (env : Env) (args : Args) (l : History) : Call → Prop
  | .inbox (.findMany sel take) => l = [] ∧ sel = replayInboxWhere args ∧ take = args.limit env
  | .inbox (.update id u) => ∃ r rest now, l.toRevive = r :: rest ∧ id = r.id ∧
      u = revive args.resetAttempts r now
  | _ => False

section

variable {env : Env} {args : Args} {l : History}

theorem sat_replayInboxRows_revives (rows : List InboxEvent) (now : Time) (h : l.toRevive = rows) :
    Sat (InboxReplayCall env args) (fun _ _ => True) l
      (replayInboxRows args.resetAttempts rows now).run := by
  induction rows generalizing l now with
  | nil => trivial
  | cons r rows ih =>
    refine sat_awaitAt_bind ⟨r, rows, now, h, rfl, rfl⟩
      (fun row now => ih now ?_) fun _ _ => trivial
    show l.selected.drop (l.rewritten.length + 1) = rows
    rw [← List.tail_drop]
    exact congrArg List.tail h

theorem sat_replayInbox :
    Sat (InboxReplayCall env args) (fun _ _ => True) [] (replayInbox env args).run :=
  sat_awaitAt_bind ⟨rfl, rfl, rfl⟩ (fun rows now => sat_replayInboxRows_revives rows now rfl)
    fun _ _ => trivial

/-- The task of `pnpm replay:inbox` with these arguments. -/
def inboxReplay (argv : List String) : Task := .replay ("inbox" :: argv)

/-- What a task does if it is a replay of the inbox. -/
def Task.Revives (env : Env) (l : History) (c : Call) (t : Task) : Prop :=
  ∀ argv, t = inboxReplay argv → InboxReplayCall env (parseArgs argv) l c

theorem task_revives (env : Env) (t : Task) :
    Sat (fun l c => t.Revives env l c) (fun _ _ => True) [] (t.program env).run := by
  by_cases h : ∃ argv, t = inboxReplay argv
  · obtain ⟨argv, rfl⟩ := h
    have hsat : Sat (InboxReplayCall env (parseArgs argv)) (fun _ _ => True) []
        ((inboxReplay argv).program env).run := sat_silent sat_replayInbox
    refine hsat.mono (fun l c hc argv' heq => ?_) fun _ _ => id
    cases heq
    exact hc
  · exact (sat_trivial _).mono (fun l c _ argv heq => absurd ⟨argv, heq⟩ h) fun _ _ => id

end

/-! ## The rows a replay is about to write -/

/-- The event is stored and FAILED. -/
def World.FailedEvent (w : World) (id : Uuid) : Prop :=
  ∃ e ∈ w.inbox, e.id = id ∧ e.status = .FAILED

/-- What a process has selected and not written yet. -/
def toReviveBy : Option Process → List InboxEvent
  | some pr => History.toRevive pr.log
  | none => []

/-- A selection by `sourceEventId` that is answered finds a FAILED row, and nobody else takes a row
    out of FAILED that the replay `p` has selected and not written yet. -/
def SparesSelected (p : Pid) (s : State) : Step → Prop
  | .step q ch =>
      (q = p → ch.fate = .ok →
        ∀ sid take, s.nextCall q = some (.inbox (.findMany (.sourceEventId sid) take)) →
          ∀ e ∈ s.world.inbox, e.sourceEventId = sid → e.status = .FAILED) ∧
      (q ≠ p → ch.fate.takesEffect = true →
        ∀ id u, s.nextCall q = some (.inbox (.update id u)) → u.status.getD .FAILED ≠ .FAILED →
          ∀ r ∈ toReviveBy (s.proc p), r.id ≠ id)
  | _ => True

/-- One step of a replay of at most `limit` rows: it changes rows that are FAILED, and of those only
    the status, the time they are available, the last error and the attempts. -/
structure OnlyRevives (limit : Int) (w w' : World) (l' : History) : Prop where
  rows : ∀ e ∈ w.inbox, e ∈ w'.inbox ∨ (e.status = .FAILED ∧ e.id ∈ l'.rewritten ∧
    ∃ now attempts, { e with status := .PENDING, availableAt := now, lastError := none,
                             attempts := attempts } ∈ w'.inbox)
  no_new : ∀ e' ∈ w'.inbox, ∃ e ∈ w.inbox, e.id = e'.id
  few : (l'.rewritten.length : Int) ≤ limit
  rest : w' = { w with inbox := w'.inbox, txs := w'.txs }

/-- Between two calls of a replay of at most `limit` rows. -/
structure Reviving (limit : Int) (w : World) (l : History) : Prop where
  few : (l.selected.length : Int) ≤ limit
  written : l.rewritten.length ≤ l.selected.length
  apart : (l.selected.map InboxEvent.id).Nodup
  failed : ∀ r ∈ l.toRevive, w.FailedEvent r.id

section

variable {env : Env} {args : Args} {p : Pid} {newId : Uuid} {ch : Choice} {w w' w₁ : World}
  {l : History} {c : Call} {r : Reply c} {id : Uuid} {limit : Int}

theorem InboxUpdate.status_apply_failed {u : InboxUpdate} {e : InboxEvent} (he : e.status = .FAILED)
    (hu : u.status.getD .FAILED = .FAILED) : (u.apply e).status = .FAILED := by
  show u.status.getD e.status = .FAILED
  rw [he]
  exact hu

/-- A FAILED row stays FAILED unless an update sets another status. -/
theorem Effect.failed_kept (h : Effect p newId w c w₁)
    (hu : ∀ u, c = .inbox (.update id u) → u.status.getD .FAILED = .FAILED)
    (hw : w.FailedEvent id) : w₁.FailedEvent id := by
  obtain ⟨e, he, rfl, hst⟩ := hw
  rcases h.inbox_kept he with he' | ⟨u, hc, he'⟩
  · exact ⟨e, he', rfl, hst⟩
  · exact ⟨u.apply e, he', rfl, InboxUpdate.status_apply_failed hst (hu u hc)⟩

theorem length_orderByCreatedAt {α : Type} {createdAt : α → Time} {take : Int} (h : 0 ≤ take)
    (rows : List α) : ((orderByCreatedAt createdAt take rows).length : Int) ≤ take := by
  unfold orderByCreatedAt
  rw [if_pos h, List.length_take]
  omega

/-- The selected rows are rows of the table with different ids. -/
theorem ids_orderByCreatedAt (t : Table InboxEvent) (f : InboxEvent → Bool) (take : Int) :
    ((orderByCreatedAt InboxEvent.createdAt take (t.rows.filter f)).map InboxEvent.id).Nodup := by
  refine List.pairwise_map.mpr ((apart_orderByCreatedAt t f _ take).imp fun {a b} hab heq => ?_)
  simp [Indexed.clash, heq] at hab

/-- A selection is answered with rows of the table that meet it. -/
theorem select_reply {sel : InboxWhere} {take : Option Int} {rows : List InboxEvent} {now : Time}
    (h : exec env p (.inbox (.findMany sel take)) ch w = some (w', (.ok rows, now))) :
    ∃ n, take = some n ∧ rows =
      orderByCreatedAt InboxEvent.createdAt n (w.inbox.rows.filter (InboxCall.selects sel)) ∧
      w'.inbox = w.inbox := by
  rcases exec_reply h with ⟨m, hm⟩ | ⟨w₁, hrun, rfl⟩
  · cases hm
  · obtain ⟨⟨tbl, y⟩, hy, heq⟩ := Option.map_eq_some_iff.mp hrun
    cases heq
    cases take with
    | none =>
      cases sel with
      | status st => cases st <;> cases hy
      | _ => cases hy
    | some n =>
      refine ⟨n, rfl, ?_⟩
      cases sel with
      | status st =>
        cases st with
        | none => cases hy
        | some st =>
          cases hy
          exact ⟨rfl, rfl⟩
      | _ =>
        cases hy
        exact ⟨rfl, rfl⟩

/-- What the selection of a replay without `--status` returns is FAILED, given that a selection by
    `sourceEventId` is. -/
theorem selects_failed (hstatus : args.lookup "status" = none) {e : InboxEvent}
    (hid : ∀ sid, replayInboxWhere args = .sourceEventId sid →
      e.sourceEventId = sid → e.status = .FAILED)
    (h : InboxCall.selects (replayInboxWhere args) e = true) : e.status = .FAILED := by
  unfold replayInboxWhere at h hid
  rw [hstatus] at h hid
  dsimp only at h hid
  split at h
  · simpa [InboxCall.selects] using h
  split at h
  · simpa [InboxCall.selects] using h
  · next sid heq hne =>
    refine hid sid ?_ (by simpa [InboxCall.selects] using h)
    rw [heq]
    exact if_neg hne

/-- The selection of a replay. -/
theorem Reviving.select {now : Time} {sel : InboxWhere} {take : Option Int} {rows : List InboxEvent}
    (hlimit : 0 ≤ take.getD 0)
    (hsel : ∀ e ∈ w.inbox, InboxCall.selects sel e = true → e.status = .FAILED)
    (h : exec env p (.inbox (.findMany sel take)) ch w = some (w', (.ok rows, now))) :
    Reviving (take.getD 0) w' [⟨.inbox (.findMany sel take), (.ok rows, now)⟩] := by
  obtain ⟨n, rfl, rfl, hinbox⟩ := select_reply h
  refine ⟨length_orderByCreatedAt hlimit _, Nat.zero_le _,
    ids_orderByCreatedAt _ _ _, fun r hr => ?_⟩
  obtain ⟨hmem, hselects⟩ := List.mem_filter.mp (mem_of_orderByCreatedAt hr)
  exact ⟨r, by rw [hinbox]; exact hmem, rfl, hsel r hmem hselects⟩

/-- A write of a replay. -/
theorem Reviving.write {limit : Int} {e : InboxEvent} {rest : List InboxEvent} {u : InboxUpdate}
    {x : Reply (.inbox (.update e.id u))} (h : Reviving limit w l) (hrest : l.toRevive = e :: rest)
    (heff : Effect p newId w (.inbox (.update e.id u)) w₁) :
    Reviving limit w₁ (⟨.inbox (.update e.id u), x⟩ :: l) := by
  have hnext : History.toRevive (⟨.inbox (.update e.id u), x⟩ :: l) = rest := by
    show l.selected.drop (l.rewritten.length + 1) = rest
    rw [← List.tail_drop]
    exact congrArg List.tail hrest
  have hapart : ((e :: rest).map InboxEvent.id).Nodup := by
    rw [← hrest]
    exact h.apart.sublist ((List.drop_sublist _ _).map _)
  refine ⟨h.few, ?_, h.apart, fun r hr => ?_⟩
  · have hlt : l.rewritten.length < l.selected.length := by
      by_contra hge
      rw [History.toRevive, List.drop_eq_nil_of_le (not_lt.mp hge)] at hrest
      cases hrest
    exact hlt
  · rw [hnext] at hr
    refine heff.failed_kept (fun u' heq => ?_) (h.failed r (hrest ▸ List.mem_cons_of_mem e hr))
    simp only [Call.inbox.injEq, InboxCall.update.injEq] at heq
    exact absurd (heq.1 ▸ List.mem_map_of_mem hr) (List.nodup_cons.mp hapart).1

theorem Reviving.nothing {limit : Int} (h : 0 ≤ limit) (hselected : l.selected = [])
    (hwritten : l.rewritten = []) : Reviving limit w l := by
  have hrevive : l.toRevive = [] := by
    rw [History.toRevive, hselected]
    exact List.drop_nil
  refine ⟨?_, ?_, ?_, ?_⟩
  · rw [hselected]
    exact h
  · rw [hwritten]
    exact Nat.zero_le _
  · rw [hselected]
    exact List.nodup_nil
  · rw [hrevive]
    exact fun r hr => absurd hr List.not_mem_nil

/-- The largest number of rows a replay may change. -/
def Args.most (env : Env) (args : Args) : Int := (args.limit env).getD 0

/-- A call of the replay itself. -/
theorem Reviving.call (h : Reviving (args.most env) w l) (hlimit : 0 ≤ args.most env)
    (hstatus : args.lookup "status" = none)
    (hsel : ch.fate = .ok → ∀ sid take, c = .inbox (.findMany (.sourceEventId sid) take) →
      ∀ e ∈ w.inbox, e.sourceEventId = sid → e.status = .FAILED)
    (hc : InboxReplayCall env args l c) (hs : CommitsShaped p w c)
    (hx : exec env p c ch w = some (w', r)) : Reviving (args.most env) w' (⟨c, r⟩ :: l) := by
  cases c with
  | inbox c =>
    cases c with
    | upsert sid type payload => exact hc.elim
    | findMany sel take =>
      obtain ⟨rfl, rfl, rfl⟩ := hc
      obtain ⟨res, now⟩ := r
      cases res with
      | error e => exact .nothing hlimit rfl rfl
      | ok rows =>
        refine Reviving.select hlimit
          (fun e he => selects_failed hstatus fun sid hwhere hsid => ?_) hx
        exact hsel (exec_ok hx) sid _ (by rw [hwhere]) e he hsid
    | update id u =>
      obtain ⟨e, rest, now, hrest, rfl, rfl⟩ := hc
      obtain ⟨w₁, heff, rfl⟩ := exec_effect hs hx
      obtain ⟨few, written, apart, failed⟩ := h.write hrest heff
      exact ⟨few, written, apart, failed⟩
  | _ => exact hc.elim

end

/-! ## Runs -/

section

variable {env : Env} {s s₀ s' : State} {p : Pid} {argv : List String}

/-- If `p` is this replay, it is between two of its calls. -/
def RevivesBetween (env : Env) (p : Pid) (argv : List String) (s : State) : Prop :=
  ∀ pr, s.proc p = some pr → pr.task = inboxReplay argv →
    Reviving ((parseArgs argv).most env) s.world pr.log

theorem reviving (hfresh : Fresh s₀) (hlimit : 0 ≤ (parseArgs argv).most env)
    (hstatus : (parseArgs argv).lookup "status" = none)
    (h : Reach (system env) (SparesSelected p) (· = s₀) s) : RevivesBetween env p argv s := by
  have hstart : ∀ s, s = s₀ → Fresh s := fun _ heq => heq ▸ hfresh
  refine Reach.invariant (fun t => (task_sat env t).and (task_revives env t))
    (fun s hs => (hstart s hs).1) ?_ ?_ ?_ ?_ ?_ h
  · rintro s rfl pr hp
    rw [hfresh.1 p] at hp
    cases hp
  · intro s q t _ hI _ _ pr hp htask
    rw [Pool.put_proc] at hp
    split at hp
    · cases hp
      exact .nothing hlimit rfl rfl
    · exact hI pr hp htask
  · intro s q ch t l c k w r hr hI hmet hq hc hx _ pr hp htask
    have hshaped := (sound hstart hr).shaped hq hc.1
    rw [Pool.put_proc] at hp
    split at hp
    · next heq =>
      cases hp
      subst heq htask
      refine (hI _ hq rfl).call hlimit hstatus (fun hfate sid take hcall => ?_)
        (hc.2 argv rfl) hshaped hx
      exact hmet.1 rfl hfate sid take ((Pool.nextCall_of hq).trans (congrArg some hcall))
    · next hne =>
      obtain ⟨few, written, apart, failed⟩ := hI pr hp htask
      refine ⟨few, written, apart, fun e he => ?_⟩
      cases hfate : ch.fate.takesEffect with
      | false =>
        cases exec_untaken hfate hx
        exact failed e he
      | true =>
        obtain ⟨w₁, heff, rfl⟩ := exec_effect hshaped hx
        have hkept : w₁.FailedEvent e.id := heff.failed_kept (fun u hcall => ?_) (failed e he)
        · exact hkept
        · by_contra hst
          have hnext : s.nextCall q = some (.inbox (.update e.id u)) :=
            (Pool.nextCall_of hq).trans (congrArg some hcall)
          refine hmet.2 (fun heq => hne heq.symm) hfate e.id u hnext hst e ?_ rfl
          rw [hp]
          exact he
  · intro s q t l x _ hI _ hq pr hp htask
    rw [Pool.put_proc] at hp
    split at hp
    · next heq =>
      cases hp
      subst heq
      obtain ⟨few, written, apart, failed⟩ := hI _ hq htask
      exact ⟨few, written, apart, failed⟩
    · obtain ⟨few, written, apart, failed⟩ := hI pr hp htask
      exact ⟨few, written, apart, failed⟩
  · intro s e w _ hI _ hw pr hp htask
    obtain ⟨few, written, apart, failed⟩ := hI pr hp htask
    cases e <;> cases hw <;> exact ⟨few, written, apart, failed⟩

/-- What a write of the replay does to the tables. -/
theorem Reviving.only {limit : Int} {w w₁ : World} {l : History} {newId : Uuid} {e : InboxEvent}
    {rest : List InboxEvent} {reset : Bool} {now : Time}
    {x : Reply (.inbox (.update e.id (revive reset e now)))} (h : Reviving limit w l)
    (hrest : l.toRevive = e :: rest)
    (heff : Effect p newId w (.inbox (.update e.id (revive reset e now))) w₁) :
    OnlyRevives limit w w₁ (⟨.inbox (.update e.id (revive reset e now)), x⟩ :: l) := by
  refine ⟨fun e' he' => ?_, fun e' he' => ?_, ?_, ?_⟩
  · rcases heff.inbox_kept he' with hsame | ⟨u, hcall, hnew⟩
    · exact Or.inl hsame
    · simp only [Call.inbox.injEq, InboxCall.update.injEq] at hcall
      obtain ⟨hid, rfl⟩ := hcall
      have hmem : e ∈ l.toRevive := hrest ▸ List.mem_cons_self
      obtain ⟨e'', he'', hid'', hst⟩ := h.failed e hmem
      obtain rfl := Table.eq_of_clash he'' he' (by simp [Indexed.clash, hid'', hid])
      refine Or.inr ⟨hst, ?_, now, if reset then 0 else e.attempts, hnew⟩
      rw [← hid]
      exact List.mem_cons_self
  · rcases heff.inbox_origin he' with ⟨e'', he'', hcore, -⟩ | ⟨sid, type, payload, hcall, -⟩
    · exact ⟨e'', he'', (InboxEvent.id_of_core hcore).symm⟩
    · cases hcall
  · have hwritten := (h.write (x := x) hrest heff).written
    exact (Int.ofNat_le.mpr hwritten).trans h.few
  · cases heff <;> rfl

/-- In a run from any database, a replay of the inbox without `--status` and with a limit that is
    not negative changes only FAILED rows, at most as many as its limit, and of them only the fields
    a replay is about, provided the row of its `--sourceEventId` is FAILED when it is selected and
    no selected row leaves FAILED by another hand before the replay writes it. -/
theorem replay_revives_failed (env : Env) (hfresh : Fresh s₀)
    (hlimit : 0 ≤ (parseArgs argv).most env) (hstatus : (parseArgs argv).lookup "status" = none)
    (h : Reach (system env) (SparesSelected p) (· = s₀) s) {ch : Choice}
    (hstep : (system env).step s (.step p ch) = some s') {pr : Process} (hp : s'.proc p = some pr)
    (htask : pr.task = inboxReplay argv) :
    OnlyRevives ((parseArgs argv).most env) s.world s'.world pr.log := by
  have hstart : ∀ s, s = s₀ → Fresh s := fun _ heq => heq ▸ hfresh
  cases Machine.step_cases hstep with
  | @call _ _ t l c k w r hq hx =>
    rw [Pool.put_self] at hp
    cases hp
    subst htask
    have hc :=
      h.sat (fun t => (task_sat env t).and (task_revives env t)) (fun s hs => (hstart s hs).1) hq
    have hI := reviving hfresh hlimit hstatus h _ hq rfl
    have hcall := hc.1.2 argv rfl
    obtain ⟨w₁, heff, rfl⟩ := exec_effect ((sound hstart h).shaped hq hc.1.1) hx
    cases c with
    | inbox c =>
      cases c with
      | upsert sid type payload => exact hcall.elim
      | findMany sel take =>
        obtain ⟨rfl, -, -⟩ := hcall
        cases heff
        exact ⟨fun e he => Or.inl he, fun e he => ⟨e, he, rfl⟩, hlimit, rfl⟩
      | update id u =>
        obtain ⟨e, rest, now, hrest, rfl, rfl⟩ := hcall
        obtain ⟨rows, no_new, few, only⟩ := hI.only (x := r) hrest heff
        refine ⟨rows, no_new, few, ?_⟩
        rw [Pool.put_world, World.settle, World.setTx, only]
    | _ => exact hcall.elim

end

/-! ## Rows that are not FAILED -/

/-- An event on order 9 in this status. -/
def eventAs (status : InboxStatus) (n : Nat) : InboxEvent where
  id := Platform.uuid n
  sourceEventId := if n = 0 then "evt-0" else "evt-1"
  type := "OrderConfirmed"
  payload := .obj [("orderId", .str (Platform.uuid 9).text)]
  status := status
  attempts := 5
  availableAt := 0
  lastError := none
  createdAt := n
  processedAt := none

/-- A database with these events, order 9 and the message of event 0. -/
def storing (events : List InboxEvent) : State :=
  { initial with world := { World.empty with
      inbox := Table.ofList events
      orders := Table.ofList [⟨Platform.uuid 9, "user-1", "shop-1", 100, "USD", .CONFIRMED, 0⟩]
      broker := { World.empty.broker with events := [⟨none, some (.obj [("id", .str "evt-0"),
        ("type", .str "OrderConfirmed"),
        ("payload", .obj [("orderId", .str (Platform.uuid 9).text)])])⟩] } } }

def statuses (s : State) : List InboxStatus := s.world.inbox.rows.map InboxEvent.status

/-- The states before and after the last step of a run. -/
def aroundLast (s : State) (ls : List Step) (lb : Step) : Option (State × State) :=
  ((system (platform id)).run s ls).bind fun s' =>
  ((system (platform id)).step s' lb).map fun s'' => (s', s'')

open Platform in
/-- Replay 0 selects event 0 by its id and comes to its write. -/
def selectById : List Step := .spawn 0 (inboxReplay ["--sourceEventId", "evt-0"]) :: serves 0 1

open Platform in
/-- Replay 0 selects the failed event 0; its message is delivered again and processed. -/
def selectThenProcess : List Step :=
  .spawn 0 (inboxReplay []) :: serves 0 1 ++ .spawn 1 (.consume 0) :: serves 1 13

open Platform in
/-- Replay 0 selects the last two events and writes one of them. -/
def selectLastTwo : List Step := .spawn 0 (inboxReplay ["--limit", "-2"]) :: serves 0 2

theorem not_onlyRevives {s s' : State} {l : History} {limit : Int} (hs : statuses s = [.PROCESSED])
    (hs' : statuses s' = [.PENDING]) : ¬ OnlyRevives limit s.world s'.world l := by
  intro h
  have hmem : InboxStatus.PROCESSED ∈ statuses s := by
    rw [hs]
    exact List.mem_cons_self
  obtain ⟨e, he, hst⟩ := List.mem_map.mp hmem
  rcases h.rows e he with hsame | ⟨hfailed, -⟩
  · have hmem' := List.mem_map_of_mem (f := InboxEvent.status) hsame
    rw [show s'.world.inbox.rows.map InboxEvent.status = [.PENDING] from hs', hst] at hmem'
    simp at hmem'
  · rw [hst] at hfailed
    cases hfailed

/-- A processed event is selected by its id and sent back to PENDING; a failed one that is processed
    before the write likewise; with `--limit -2` two events are changed. -/
theorem replay_revives_others :
    (∃ x, aroundLast (storing [eventAs .PROCESSED 0]) selectById (Platform.serve 0) = some x ∧
      statuses x.1 = [.PROCESSED] ∧ statuses x.2 = [.PENDING] ∧
      ∀ l, ¬ OnlyRevives 100 x.1.world x.2.world l) ∧
    (∃ x, aroundLast (storing [eventAs .FAILED 0]) selectThenProcess (Platform.serve 0) = some x ∧
      statuses x.1 = [.PROCESSED] ∧ statuses x.2 = [.PENDING] ∧
      ∀ l, ¬ OnlyRevives 100 x.1.world x.2.world l) ∧
    (parseArgs ["--limit", "-2"]).most (platform id) = -2 ∧
    statuses (storing [eventAs .FAILED 0, eventAs .FAILED 1]) = [.FAILED, .FAILED] ∧
    (aroundLast (storing [eventAs .FAILED 0, eventAs .FAILED 1]) selectLastTwo
      (Platform.serve 0)).map
      (fun x => statuses x.2) = some [.PENDING, .PENDING] := by
  have hbyId : (aroundLast (storing [eventAs .PROCESSED 0]) selectById (Platform.serve 0)).map
      (fun x => (statuses x.1, statuses x.2)) = some ([.PROCESSED], [.PENDING]) := by decide +kernel
  have hrace : (aroundLast (storing [eventAs .FAILED 0]) selectThenProcess (Platform.serve 0)).map
      (fun x => (statuses x.1, statuses x.2)) = some ([.PROCESSED], [.PENDING]) := by decide +kernel
  obtain ⟨x, hx, heq⟩ := Option.map_eq_some_iff.mp hbyId
  obtain ⟨y, hy, heq'⟩ := Option.map_eq_some_iff.mp hrace
  obtain ⟨hbefore, hafter⟩ := Prod.mk.inj heq
  obtain ⟨hbefore', hafter'⟩ := Prod.mk.inj heq'
  exact ⟨⟨x, hx, hbefore, hafter, fun _ => not_onlyRevives hbefore hafter⟩,
    ⟨y, hy, hbefore', hafter', fun _ => not_onlyRevives hbefore' hafter'⟩, by decide +kernel,
    by decide +kernel, by decide +kernel⟩

/-- Only process 0 runs, and nothing is selected by its id. -/
def aloneByStatus (s : State) : Step → Bool
  | .step q _ => q == 0 && match s.nextCall q with
      | some (.inbox (.findMany (.sourceEventId _) _)) => false
      | _ => true
  | _ => true

def sparesSelectedCheck (n : Nat) : Check n (SparesSelected 0) :=
  (Check.of aloneByStatus).imp fun s lb h => by
    cases lb with
    | step q ch =>
      obtain ⟨hq, hcall⟩ := Bool.and_eq_true_iff.mp h
      refine ⟨fun _ _ sid take heq => ?_, fun hne => absurd (beq_iff_eq.mp hq) hne⟩
      rw [heq] at hcall
      cases hcall
    | _ => trivial

/-- Process 0 is a replay without arguments. -/
def isPlainReplay (s : State) : Bool :=
  match s.proc 0 with
  | some ⟨.replay ["inbox"], _, _, _⟩ => true
  | _ => false

theorem replay_revives_failed_run :
    ∃ s s' pr, (system (platform id)).step s (Platform.serve 0) = some s' ∧
      statuses s = [.FAILED] ∧ statuses s' = [.PENDING] ∧ s'.proc 0 = some pr ∧
      OnlyRevives 100 s.world s'.world pr.log := by
  let check := sparesSelectedCheck 1
  have hrun : (((system (platform id)).runChecked 1 check.test (storing [eventAs .FAILED 0])
      (.spawn 0 (inboxReplay []) :: Platform.serves 0 1)).bind fun s =>
        ((system (platform id)).step s (Platform.serve 0)).map fun s' =>
          (statuses s, statuses s', isPlainReplay s')) = some ([.FAILED], [.PENDING], true) := by
    decide +kernel
  obtain ⟨s, hs, hlast⟩ := Option.bind_eq_some_iff.mp hrun
  obtain ⟨s', hs', heq⟩ := Option.map_eq_some_iff.mp hlast
  simp only [Prod.mk.injEq] at heq
  obtain ⟨hbefore, hafter, hplain⟩ := heq
  obtain ⟨pr, hp, htask⟩ : ∃ pr, s'.proc 0 = some pr ∧ pr.task = inboxReplay [] := by
    unfold isPlainReplay at hplain
    split at hplain
    · next l x alive heq => exact ⟨_, heq, rfl⟩
    · cases hplain
  have h := check.reach hs (fun _ _ => rfl)
  exact ⟨s, s', pr, hs', hbefore, hafter, hp, replay_revives_failed (platform id)
    ⟨fun _ => rfl, fun _ => rfl⟩ (by decide) (by decide) h hs' hp htask⟩

end CashbackLedger
