import CashbackLedger.Model.Worker

/-
  The options of the replay CLI.

  `parseArgs` looks ahead by one token, so a part of the command line can be read on its own when
  what follows it is an option or nothing (`parseArgsFrom_append`). Each option then comes to one
  assignment (`parseArgsFrom_options`), and the options are read back, in whatever order they stand,
  exactly if none is named `__proto__`: an assignment to that name adds no key.
-/

namespace CashbackLedger

/-- An option with its value; a flag has none. -/
structure CliOption where
  name : String
  value : Option {v : String // v ≠ "" ∧ isOption v = false}

namespace CliOption

/-- `--name value` or `--name`. -/
def tokens (o : CliOption) : List String := ("--" ++ o.name) :: (o.value.map Subtype.val).toList

/-- What the option is to be read as. -/
def meaning (o : CliOption) : String := (o.value.map Subtype.val).getD "true"

end CliOption

/-- The options after the words of `lead`. -/
def commandLine (lead : List String) (options : List CliOption) : List String :=
  lead ++ options.flatMap CliOption.tokens

/-- What may stand before the first option: the separator and words that are no options. -/
def Leads (lead : List String) : Prop := ∀ w ∈ lead, w = "--" ∨ isOption w = false

/-- The command line is read as it was meant: each option has its value, no other name has one (the
    separator is read as an option without a name), and the order of the options does not matter. -/
structure ReadsBack (lead : List String) (options : List CliOption) : Prop where
  given : ∀ o ∈ options, (parseArgs (commandLine lead options)).lookup o.name = some o.meaning
  nothing_else : ∀ k, k ∉ options.map CliOption.name → k ≠ "" ∨ "--" ∉ lead →
    (parseArgs (commandLine lead options)).lookup k = none
  any_order : ∀ options' : List CliOption, options'.Perm options → ∀ k,
    (parseArgs (commandLine lead options')).lookup k =
      (parseArgs (commandLine lead options)).lookup k

/-! ## The loop -/

/-- The loop of `parseArgs` from the index `i`. -/
def parseArgsAt (argv : List String) (i : Nat) (out : Args) : Args :=
  if h : i < argv.length then
    if !isOption argv[i] then parseArgsAt argv (i + 1) out
    else
      let k := String.ofList (argv[i].toList.drop 2)
      match argv[i + 1]? with
      | none => parseArgsAt argv (i + 1) (out.assign k "true")
      | some v =>
          if v ≠ "" && !isOption v then parseArgsAt argv (i + 2) (out.assign k v)
          else parseArgsAt argv (i + 1) (out.assign k "true")
  else out
termination_by argv.length - i

/-- The loop reads what is left of the arguments. -/
theorem parseArgsAt_eq (argv : List String) (i : Nat) (out : Args) :
    parseArgsAt argv i out = parseArgsFrom out (argv.drop i) := by
  fun_induction parseArgsAt argv i out with
  | case1 i out h hword ih =>
    rw [ih, List.drop_eq_getElem_cons h, parseArgsFrom, if_pos hword]
  | case2 i out h hoption k hlast ih =>
    rw [ih, List.drop_eq_getElem_cons h, parseArgsFrom, if_neg hoption]
    have hnil : argv.drop (i + 1) = [] :=
      List.drop_eq_nil_of_le (List.getElem?_eq_none_iff.mp hlast)
    rw [hnil]
    rfl
  | case3 i out h hoption k v hnext hvalue ih =>
    obtain ⟨hlt, rfl⟩ := List.getElem?_eq_some_iff.mp hnext
    rw [ih, List.drop_eq_getElem_cons h, List.drop_eq_getElem_cons hlt,
      parseArgsFrom, if_neg hoption]
    exact (if_pos hvalue).symm
  | case4 i out h hoption k v hnext hvalue ih =>
    obtain ⟨hlt, rfl⟩ := List.getElem?_eq_some_iff.mp hnext
    refine ih.trans ?_
    rw [List.drop_eq_getElem_cons h, List.drop_eq_getElem_cons hlt]
    conv_rhs => rw [parseArgsFrom, if_neg hoption]
    exact (if_neg hvalue).symm
  | case5 i out h =>
    rw [List.drop_eq_nil_of_le (Nat.le_of_not_lt h)]
    rfl

theorem parseArgs_eq_loop (argv : List String) : parseArgs argv = parseArgsAt argv 0 [] :=
  (parseArgsAt_eq argv 0 []).symm

section

variable {lead rest xs : List String} {options options' : List CliOption} {out : Args}
  {o : CliOption} {k v : String}

theorem isOption_dashes (name : String) : isOption ("--" ++ name) = true := by
  unfold isOption
  rw [String.toList_append]
  rfl

theorem drop_dashes (name : String) : String.ofList (("--" ++ name).toList.drop 2) = name := by
  rw [String.toList_append]
  exact String.ofList_toList

/-- The first token, if there is one, is an option. -/
def StartsWithOption (rest : List String) : Prop := ∀ a ∈ rest.head?, isOption a = true

/-- What stands before an option is read on its own. -/
theorem parseArgsFrom_append (h : StartsWithOption rest) (out : Args) (xs : List String) :
    parseArgsFrom out (xs ++ rest) = parseArgsFrom (parseArgsFrom out xs) rest := by
  fun_induction parseArgsFrom out xs with
  | case1 out => rfl
  | case2 out a xs hword ih => rw [List.cons_append, parseArgsFrom, if_pos hword, ih]
  | case3 out a hoption k =>
    rw [List.singleton_append, parseArgsFrom, if_neg hoption]
    cases rest with
    | nil => rfl
    | cons b rest =>
      have hb : isOption b = true := h b rfl
      exact if_neg (by simp [hb])
  | case4 out a hoption k v xs hvalue ih =>
    rw [List.cons_append, List.cons_append, parseArgsFrom, if_neg hoption]
    exact (if_pos hvalue).trans ih
  | case5 out a hoption k v xs hvalue ih =>
    rw [List.cons_append, List.cons_append, parseArgsFrom, if_neg hoption]
    exact (if_neg hvalue).trans ih

/-! ## One assignment an option -/

theorem parseArgsFrom_tokens (out : Args) (o : CliOption) :
    parseArgsFrom out o.tokens = out.assign o.name o.meaning := by
  unfold CliOption.tokens CliOption.meaning
  rw [parseArgsFrom, if_neg (by simp [isOption_dashes]), drop_dashes]
  cases o.value with
  | none => rfl
  | some v => exact if_pos (by simp [v.2.1, v.2.2])

theorem starts_tokens (options : List CliOption) :
    StartsWithOption (options.flatMap CliOption.tokens) := by
  cases options with
  | nil => exact nofun
  | cons o options =>
    rintro a ⟨⟩
    exact isOption_dashes o.name

theorem parseArgsFrom_options (out : Args) (options : List CliOption) :
    parseArgsFrom out (options.flatMap CliOption.tokens) =
      options.foldl (fun out o => out.assign o.name o.meaning) out := by
  induction options generalizing out with
  | nil => rfl
  | cons o options ih =>
    rw [List.flatMap_cons, parseArgsFrom_append (starts_tokens options), parseArgsFrom_tokens, ih]
    rfl

theorem parseArgs_commandLine (lead : List String) (options : List CliOption) :
    parseArgs (commandLine lead options) =
      options.foldl (fun out o => out.assign o.name o.meaning) (parseArgs lead) := by
  unfold parseArgs commandLine
  rw [parseArgsFrom_append (starts_tokens options), parseArgsFrom_options]

/-! ## Reading the result -/

theorem lookup_assign_of_ne (h : k ≠ v) (out : Args) (value : String) :
    (out.assign v value).lookup k = out.lookup k := by
  unfold Args.assign
  split
  · rfl
  · rw [List.lookup_cons, beq_false_of_ne h]

theorem lookup_assign_self (h : k ≠ "__proto__") (out : Args) (value : String) :
    (out.assign k value).lookup k = some value := by
  unfold Args.assign
  rw [if_neg h, List.lookup_cons_self]

/-- `__proto__` is never added. -/
theorem lookup_proto (out : Args) (xs : List String) :
    (parseArgsFrom out xs).lookup "__proto__" = out.lookup "__proto__" := by
  have hassign : ∀ (out : Args) (k v : String),
      (out.assign k v).lookup "__proto__" = out.lookup "__proto__" := by
    intro out k v
    by_cases hk : k = "__proto__"
    · rw [Args.assign, if_pos hk]
    · exact lookup_assign_of_ne (Ne.symm hk) out v
  fun_induction parseArgsFrom out xs with
  | case1 out => rfl
  | case2 out a xs hword ih => exact ih
  | case3 out a hoption k => exact hassign _ _ _
  | case4 out a hoption k v xs hvalue ih => exact ih.trans (hassign _ _ _)
  | case5 out a hoption k v xs hvalue ih => exact ih.trans (hassign _ _ _)

/-- Before the first option only the separator is read, as an option without a name. -/
theorem lookup_lead (h : Leads lead) (hk : k ≠ "" ∨ "--" ∉ lead) (out : Args) :
    (parseArgsFrom out lead).lookup k = out.lookup k := by
  have hseparator : ∀ {a : String} {xs : List String}, Leads (a :: xs) →
      (!isOption a) ≠ true → a = "--" :=
    fun hlead hoption => (hlead _ List.mem_cons_self).resolve_right fun hword =>
      hoption (by rw [hword]; rfl)
  have hunnamed : ∀ {a : String} {xs : List String} (out : Args) (v : String), a = "--" →
      k ≠ "" ∨ "--" ∉ a :: xs →
      (out.assign (String.ofList (a.toList.drop 2)) v).lookup k = out.lookup k := by
    rintro a xs out v rfl hk
    refine lookup_assign_of_ne (hk.resolve_right fun hno => hno List.mem_cons_self) out v
  have htail : ∀ {a : String} {xs : List String}, Leads (a :: xs) → Leads xs :=
    fun hlead w hw => hlead w (List.mem_cons_of_mem _ hw)
  have hktail : ∀ {a : String} {xs : List String}, k ≠ "" ∨ "--" ∉ a :: xs → k ≠ "" ∨ "--" ∉ xs :=
    fun hk => hk.imp_right fun hno hmem => hno (List.mem_cons_of_mem _ hmem)
  fun_induction parseArgsFrom out lead with
  | case1 out => rfl
  | case2 out a xs hword ih => exact ih (htail h) (hktail hk)
  | case3 out a hoption => exact hunnamed out _ (hseparator h hoption) hk
  | case4 out a hoption key v xs hvalue ih =>
    exact (ih (htail (htail h)) (hktail (hktail hk))).trans
      (hunnamed out _ (hseparator h hoption) hk)
  | case5 out a hoption key v xs hvalue ih =>
    exact (ih (htail h) (hktail hk)).trans (hunnamed out _ (hseparator h hoption) hk)

theorem lookup_not_given (h : k ∉ options.map CliOption.name) (out : Args) :
    (options.foldl (fun out o => out.assign o.name o.meaning) out).lookup k = out.lookup k := by
  induction options generalizing out with
  | nil => rfl
  | cons o options ih =>
    obtain ⟨hne, hrest⟩ := not_or.mp (List.mem_cons.not.mp h)
    exact (ih hrest _).trans (lookup_assign_of_ne hne out _)

theorem lookup_given (hnames : (options.map CliOption.name).Nodup) (ho : o ∈ options)
    (hproto : o.name ≠ "__proto__") (out : Args) :
    (options.foldl (fun out o => out.assign o.name o.meaning) out).lookup o.name =
      some o.meaning := by
  induction options generalizing out with
  | nil => cases ho
  | cons o' options ih =>
    obtain ⟨hfirst, hrest⟩ := List.nodup_cons.mp hnames
    rcases List.mem_cons.mp ho with rfl | ho
    · exact (lookup_not_given hfirst _).trans (lookup_assign_self hproto out _)
    · exact ih hrest ho _

/-- The order of the options does not matter. -/
theorem lookup_perm (hnames : (options.map CliOption.name).Nodup) (hperm : options'.Perm options)
    (k : String) (hproto : k ≠ "__proto__") (out : Args) :
    (options'.foldl (fun out o => out.assign o.name o.meaning) out).lookup k =
      (options.foldl (fun out o => out.assign o.name o.meaning) out).lookup k := by
  have hnames' : (options'.map CliOption.name).Nodup := (hperm.map _).nodup_iff.mpr hnames
  by_cases hk : k ∈ options.map CliOption.name
  · obtain ⟨o, ho, rfl⟩ := List.mem_map.mp hk
    rw [lookup_given hnames ho hproto, lookup_given hnames' (hperm.mem_iff.mpr ho) hproto]
  · rw [lookup_not_given hk, lookup_not_given fun hk' => hk ((hperm.map _).mem_iff.mp hk')]

/-- The options are read back exactly if none is named `__proto__`. -/
theorem options_read_back (hlead : Leads lead) (hnames : (options.map CliOption.name).Nodup) :
    ReadsBack lead options ↔ ∀ o ∈ options, o.name ≠ "__proto__" := by
  constructor
  · intro h o ho hproto
    have hgiven := h.given o ho
    rw [hproto, parseArgs, lookup_proto] at hgiven
    cases hgiven
  · intro hproto
    refine ⟨fun o ho => ?_, fun k hk hnone => ?_, fun options' hperm k => ?_⟩
    · rw [parseArgs_commandLine]
      exact lookup_given hnames ho (hproto o ho) _
    · rw [parseArgs_commandLine, lookup_not_given hk]
      exact lookup_lead hlead hnone []
    · by_cases hk : k = "__proto__"
      · rw [hk, parseArgs, lookup_proto, parseArgs, lookup_proto]
      · rw [parseArgs_commandLine, parseArgs_commandLine]
        exact lookup_perm hnames hperm k hk _

end

/-- The separator, a stray word, a flag and two options with values. -/
theorem options_read_back_usage :
    ReadsBack ["--", "again"] [⟨"resetAttempts", none⟩, ⟨"status", some ⟨"FAILED", by decide⟩⟩,
      ⟨"limit", some ⟨"50", by decide⟩⟩] :=
  (options_read_back (by unfold Leads; decide) (by decide)).mpr (by decide)

/-- An option that is lost. -/
theorem proto_lost : ¬ ReadsBack [] [⟨"__proto__", some ⟨"x", by decide⟩⟩] := by
  intro h
  have hgiven := h.given _ List.mem_cons_self
  have hnone :
      (parseArgs
        (commandLine [] [⟨"__proto__", some ⟨"x", by decide⟩⟩])).lookup "__proto__" = none := by
    decide
  cases hnone.symm.trans hgiven

end CashbackLedger
