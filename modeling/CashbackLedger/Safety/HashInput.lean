import CashbackLedger.Lib.Quoted
import CashbackLedger.Model.Api
import CashbackLedger.Model.DecimalText
import CashbackLedger.Protocol.Rule

/-
  What `hashRequest` feeds to SHA-256.

  The parts are joined with `|`, which may stand in a path and inside the strings of a body. A JSON
  text is closed in the sense of `Lib.Closed`: its quotes pair up, each quote and backslash of a
  string is escaped, and `|` stands in strings only (`closed_stringify`). So the last separator is
  the one before the text, and the first is the one after the method (`hashInput_decodes`).
-/

namespace CashbackLedger

open Lib

/-- What `hashRequest` feeds to SHA-256, over the way a method is put in upper case. -/
def hashInputBy (upper : String → String) (env : Env) (method path : String)
    (body : Option Json) : String :=
  upper method ++ "|" ++ path ++ "|" ++ (body.getD .null).stringify env.numberText

theorem hashInput_eq (env : Env) : hashInput env = hashInputBy String.toUpper env := rfl

/-- The JSON text that is hashed for a body. -/
def bodyText (env : Env) (body : Option Json) : String := (body.getD .null).stringify env.numberText

/-- JavaScript prints a number with digits, signs, a point and an exponent, and different `numbers`
    differently. -/
structure NumberText (env : Env) (numbers : ℚ → Prop) : Prop where
  plain : ∀ q, ∀ c ∈ (env.numberText q).toList, c.isDigit = true ∨ c ∈ ['-', '+', '.', 'e']
  inj : ∀ q q', numbers q → numbers q' → env.numberText q = env.numberText q' → q = q'

namespace Json

/-- The marks of a JSON text that may hold a separator. -/
def marks : Marks Char where
  quote := '"'
  esc := '\\'
  sep := '|'
  quote_ne_esc := by decide
  quote_ne_sep := by decide
  esc_ne_sep := by decide

/-! ## The text of a string -/

def hexValue (c : Char) : Nat := if c.isDigit then c.toNat - '0'.toNat else c.toNat - 'a'.toNat + 10

/-- The first character of an escaped text, with what follows; `none` at the end of the string. -/
def unescape : List Char → Option (Char × List Char)
  | '\\' :: 'n' :: l => some ('\n', l)
  | '\\' :: 'r' :: l => some ('\r', l)
  | '\\' :: 't' :: l => some ('\t', l)
  | '\\' :: 'b' :: l => some (Char.ofNat 8, l)
  | '\\' :: 'f' :: l => some (Char.ofNat 12, l)
  | '\\' :: 'u' :: '0' :: '0' :: a :: b :: l => some (Char.ofNat (16 * hexValue a + hexValue b), l)
  | '\\' :: c :: l => some (c, l)
  | '"' :: _ => none
  | c :: l => some (c, l)
  | [] => none

section

variable {num : ℚ → String} {l l' : List Char} {c : Char} {inside : Bool}

theorem hexValue_digitChar : ∀ n < 16, hexValue (Nat.digitChar n) = n := by decide

/-- An escape is read as the character it stands for. -/
theorem unescape_escape (c : Char) (l : List Char) : unescape (escape c ++ l) = some (c, l) := by
  unfold escape
  split
  · next h => rw [h]; rfl
  split
  · next h => rw [h]; rfl
  split
  · next h => rw [h]; rfl
  split
  · next h => rw [h]; rfl
  split
  · next h => rw [h]; rfl
  split
  · next h => rw [← Char.ofNat_toNat c, h]; rfl
  split
  · next h => rw [← Char.ofNat_toNat c, h]; rfl
  split
  · next h =>
    have hhigh := hexValue_digitChar (c.toNat / 16) (by omega)
    have hlow := hexValue_digitChar (c.toNat % 16) (by omega)
    show some (Char.ofNat (16 * hexValue _ + hexValue _), l) = _
    rw [hhigh, hlow, Nat.div_add_mod, Char.ofNat_toNat]
  · next hquote hesc _ _ _ _ _ _ =>
    show unescape (c :: l) = _
    unfold unescape
    split <;> simp_all

/-- A string can be told from what follows it. -/
theorem flatMap_escape_inj {s s' : List Char}
    (h : s.flatMap escape ++ '"' :: l = s'.flatMap escape ++ '"' :: l') : s = s' ∧ l = l' := by
  induction s generalizing s' with
  | nil =>
    cases s' with
    | nil => exact ⟨rfl, (List.cons.inj h).2⟩
    | cons c s' =>
      have hread := congrArg unescape h
      rw [List.flatMap_cons, List.append_assoc, unescape_escape] at hread
      cases hread
  | cons c s ih =>
    have hread := congrArg unescape h
    rw [List.flatMap_cons, List.append_assoc, unescape_escape] at hread
    cases s' with
    | nil => cases hread
    | cons c' s' =>
      rw [List.flatMap_cons, List.append_assoc, unescape_escape] at hread
      obtain ⟨rfl, hrest⟩ := Prod.mk.inj (Option.some.inj hread)
      obtain ⟨rfl, hl⟩ := ih hrest
      exact ⟨rfl, hl⟩

theorem toList_quote (s : String) : (quote s).toList = '"' :: (s.toList.flatMap escape ++ ['"']) :=
  String.toList_ofList

theorem quote_inj {s s' : String} (h : (quote s).toList ++ l = (quote s').toList ++ l') :
    s = s' ∧ l = l' := by
  rw [toList_quote, toList_quote, List.cons_append,
    List.cons_append, List.append_assoc, List.append_assoc] at h
  obtain ⟨hs, hl⟩ := flatMap_escape_inj (List.cons.inj h).2
  exact ⟨String.toList_inj.mp hs, hl⟩

/-! ## JSON texts are closed -/

theorem closed_escape (c : Char) (h : Closed marks true l) : Closed marks true (escape c ++ l) := by
  have hpair : ∀ {a : Char} {l : List Char}, a ≠ '|' →
      Closed marks true l → Closed marks true ('\\' :: a :: l) :=
    fun ha hl => .escaped (m := marks) ha hl
  have hinner : ∀ {a : Char} {l : List Char}, a ≠ '"' →
      a ≠ '\\' → Closed marks true l → Closed marks true (a :: l) :=
    fun hquote hesc hl => .inner (m := marks) hquote hesc hl
  unfold escape
  split
  · exact hpair (by decide) h
  split
  · exact hpair (by decide) h
  split
  · exact hpair (by decide) h
  split
  · exact hpair (by decide) h
  split
  · exact hpair (by decide) h
  split
  · exact hpair (by decide) h
  split
  · exact hpair (by decide) h
  split
  · next hcontrol =>
    have hdigit : ∀ n < 16, Nat.digitChar n ≠ '"' ∧ Nat.digitChar n ≠ '\\' := by decide
    have hhigh := hdigit (c.toNat / 16) (by omega)
    have hlow := hdigit (c.toNat % 16) (by omega)
    exact hpair (by decide) (hinner (by decide) (by decide) (hinner (by decide) (by decide)
      (hinner hhigh.1 hhigh.2 (hinner hlow.1 hlow.2 h))))
  · next hquote hesc _ _ _ _ _ _ => exact hinner hquote hesc h

theorem closed_quote (s : String) : Closed marks false (quote s).toList := by
  rw [toList_quote]
  refine .opens (m := marks) ?_
  induction s.toList with
  | nil => exact .closes (m := marks) .done
  | cons c s ih =>
    rw [List.flatMap_cons, List.append_assoc]
    exact closed_escape c ih

theorem closed_of_plain (h : l.all fun c => c != '"' && c != '\\' && c != '|') :
    Closed marks false l := by
  refine closed_plain fun c hc => ?_
  have hplain := List.all_eq_true.mp h c hc
  simp only [Bool.and_eq_true, bne_iff_ne] at hplain
  exact ⟨hplain.1.1, hplain.1.2, hplain.2⟩

theorem closed_intercalate {ts : List String} (h : ∀ t ∈ ts, Closed marks false t.toList) :
    Closed marks false (",".intercalate ts).toList := by
  induction ts with
  | nil => exact .done
  | cons t ts ih =>
    have ht := h t List.mem_cons_self
    have hrest := ih fun t ht => h t (List.mem_cons_of_mem _ ht)
    cases ts with
    | nil => exact String.intercalate_singleton ▸ ht
    | cons t' ts =>
      rw [String.intercalate_cons_cons, String.toList_append, String.toList_append]
      exact (ht.append (closed_of_plain rfl)).append hrest

/-- Numbers are printed without the marks. -/
def PlainNumbers (num : ℚ → String) : Prop :=
  ∀ q, ∀ c ∈ (num q).toList, c ≠ '"' ∧ c ≠ '\\' ∧ c ≠ '|'

mutual
theorem closed_stringify (hnum : PlainNumbers num) :
    ∀ j : Json, Closed marks false (stringify num j).toList
  | .null => by
      rw [stringify]
      exact closed_of_plain rfl
  | .bool b => by
      rw [stringify]
      cases b with
      | false => exact closed_of_plain (by decide)
      | true => exact closed_of_plain (by decide)
  | .num q => by
      rw [stringify]
      exact closed_plain (hnum q)
  | .str s => by
      rw [stringify]
      exact closed_quote s
  | .arr xs => by
      rw [stringify, String.toList_append, String.toList_append]
      exact ((closed_of_plain rfl).append (closed_intercalate (closed_stringifyAll hnum xs))).append
        (closed_of_plain rfl)
  | .obj fields => by
      rw [stringify, String.toList_append, String.toList_append]
      exact ((closed_of_plain rfl).append
        (closed_intercalate (closed_stringifyFields hnum fields))).append
        (closed_of_plain rfl)
theorem closed_stringifyAll (hnum : PlainNumbers num) :
    ∀ xs : List Json, ∀ t ∈ stringifyAll num xs, Closed marks false t.toList
  | [] => nofun
  | x :: xs => by
      rw [stringifyAll]
      exact List.forall_mem_cons.mpr ⟨closed_stringify hnum x, closed_stringifyAll hnum xs⟩
theorem closed_stringifyFields (hnum : PlainNumbers num) :
    ∀ fields : List (String × Json), ∀ t ∈ stringifyFields num fields, Closed marks false t.toList
  | [] => nofun
  | (name, x) :: fields => by
      rw [stringifyFields]
      refine List.forall_mem_cons.mpr ⟨?_, closed_stringifyFields hnum fields⟩
      rw [String.toList_append, String.toList_append]
      exact ((closed_quote name).append (closed_of_plain rfl)).append (closed_stringify hnum x)
end

end

end Json

section

variable {env : Env} {numbers : ℚ → Prop}

theorem NumberText.plainNumbers (h : NumberText env numbers) :
    Json.PlainNumbers env.numberText := by
  intro q c hc
  rcases h.plain q c hc with hdigit | hmem
  · refine ⟨?_, ?_, ?_⟩ <;> rintro rfl <;> cases hdigit
  · refine ⟨?_, ?_, ?_⟩ <;> rintro rfl <;> exact absurd hmem (by decide)

theorem toUpper_of_above {c : Char} (h : ¬ c.val ≤ 'z'.val) : c.toUpper = c := by
  unfold Char.toUpper
  exact dif_neg fun hz => h hz.2

theorem not_mem_toUpper {s : String} (h : '|' ∉ s.toList) : '|' ∉ s.toUpper.toList := by
  have hascii : ∀ n < 128, (Char.ofNat n).toUpper = '|' → Char.ofNat n = '|' := by decide
  unfold String.toUpper
  rw [String.toList_map, List.mem_map]
  rintro ⟨c, hc, heq⟩
  have hbar : c = '|' := by
    by_cases hlower : c.toNat < 128
    · have hc := hascii c.toNat hlower
      rw [Char.ofNat_toNat] at hc
      exact hc heq
    · have hz : ¬ c.val ≤ 'z'.val := fun hle => hlower (Nat.lt_of_le_of_lt hle (by decide))
      exact (toUpper_of_above hz).symm.trans heq
  exact h (hbar ▸ hc)

/-- The parts of the input can be told apart. -/
theorem hashInput_decodes (hnum : NumberText env numbers) {upper : String → String}
    (hupper : ∀ s : String, '|' ∉ s.toList → '|' ∉ (upper s).toList)
    {method method' path path' : String} {body body' : Option Json} (hmethod : '|' ∉ method.toList)
    (hmethod' : '|' ∉ method'.toList)
    (h : hashInputBy upper env method path body = hashInputBy upper env method' path' body') :
    upper method = upper method' ∧ path = path' ∧ bodyText env body = bodyText env body' := by
  have hparts : ∀ (method path : String) (body : Option Json),
      (hashInputBy upper env method path body).toList =
      (upper method).toList ++ '|' :: (path.toList ++ '|' :: (bodyText env body).toList) := by
    intro method path body
    unfold hashInputBy bodyText
    simp only [String.toList_append, List.append_assoc]
    rfl
  have hlist := congrArg String.toList h
  rw [hparts, hparts] at hlist
  obtain ⟨hupperEq, hrest⟩ := split_first (hupper _ hmethod) (hupper _ hmethod') hlist
  obtain ⟨hpath, htext⟩ :=
    closed_split (m := Json.marks) (Json.closed_stringify hnum.plainNumbers _)
    (Json.closed_stringify hnum.plainNumbers _) hrest
  exact ⟨String.toList_inj.mp hupperEq, String.toList_inj.mp hpath, String.toList_inj.mp htext⟩

/-! ## Create requests -/

variable {dto dto' : CreateOrderDto}

/-- The text of a validated body determines its fields. -/
theorem dto_decodes (hnum : NumberText env numbers) (hamount : numbers dto.amount.value)
    (hamount' : numbers dto'.amount.value)
    (h : bodyText env (some dto.json) = bodyText env (some dto'.json)) : dto = dto' := by
  have hcomma : ∀ q, ',' ∉ (env.numberText q).toList := by
    intro q hq
    rcases hnum.plain q ',' hq with hdigit | hmem
    · cases hdigit
    · exact absurd hmem (by decide)
  have hlist := congrArg String.toList h
  simp only [bodyText, CreateOrderDto.json, Option.getD_some, Json.stringify, Json.stringifyFields,
    String.intercalate_cons_cons, String.intercalate_singleton,
      String.toList_append, List.append_assoc,
    List.append_cancel_left_eq] at hlist
  obtain ⟨huser, hlist⟩ := Json.quote_inj hlist
  simp only [List.append_cancel_left_eq] at hlist
  obtain ⟨hmerchant, hlist⟩ := Json.quote_inj hlist
  have hsep : ",".toList = [','] := rfl
  simp only [List.append_cancel_left_eq] at hlist
  simp only [hsep, List.singleton_append] at hlist
  obtain ⟨hnumber, hlist⟩ := split_first (hcomma _) (hcomma _) hlist
  have hprice := Number.value_inj (hnum.inj _ _ hamount hamount' (String.toList_inj.mp hnumber))
  simp only [List.append_cancel_left_eq] at hlist
  obtain ⟨hcurrency, -⟩ := Json.quote_inj hlist
  cases dto
  cases dto'
  exact CreateOrderDto.mk.injEq .. ▸ ⟨huser, hmerchant, hprice, hcurrency⟩

/-- What is hashed determines the method in upper case, the path and the text of the body; two
    create requests whose inputs do not collide have one hash exactly if they have the same
    fields. -/
theorem hash_unambiguous (env : Env) {numbers : ℚ → Prop} (hnum : NumberText env numbers) :
    (∀ upper : String → String, (∀ s : String, '|' ∉ s.toList → '|' ∉ (upper s).toList) →
      ∀ (method method' path path' : String) (body body' : Option Json), '|' ∉ method.toList →
        '|' ∉ method'.toList →
        (hashInputBy upper env method path body).toUTF8 =
          (hashInputBy upper env method' path' body').toUTF8 →
          upper method = upper method' ∧ path = path' ∧ bodyText env body = bodyText env body') ∧
    (∀ dto dto' : CreateOrderDto, numbers dto.amount.value → numbers dto'.amount.value →
      (env.sha256 (hashInput env "POST" "/orders" (some dto.json)) =
          env.sha256 (hashInput env "POST" "/orders" (some dto'.json)) →
        hashInput env "POST" "/orders" (some dto.json) =
          hashInput env "POST" "/orders" (some dto'.json)) →
      (hashRequest env "POST" "/orders" (some dto.json) =
        hashRequest env "POST" "/orders" (some dto'.json) ↔
        dto = dto')) := by
  refine ⟨fun upper hupper method method' path path' body body' hmethod hmethod' h => ?_,
    fun dto dto' hamount hamount' hcollision => ⟨fun h => ?_, fun h => h ▸ rfl⟩⟩
  · exact hashInput_decodes hnum hupper hmethod hmethod' (String.toByteArray_inj.mp h)
  · have hinput := hcollision h
    rw [hashInput_eq] at hinput
    have hplain : '|' ∉ "POST".toList := by decide
    obtain ⟨-, -, htext⟩ := hashInput_decodes hnum (fun _ => not_mem_toUpper) hplain hplain hinput
    exact dto_decodes hnum hamount hamount' htext

end

/-! ## Two create requests on a platform -/

/-- A number that prints with up to four decimals. -/
def PrintsFourPlaces (x : ℚ) : Prop := toNumber x = x ∧ FourPlaces (printed x)

open Platform in
theorem platform_numberText (sha256 : String → String) :
    NumberText (platform sha256) PrintsFourPlaces := by
  have htext : ∀ x, (platform sha256).numberText x = printDecimal (printed x) := fun _ => rfl
  refine ⟨fun q c hc => ?_, ?_⟩
  · rw [htext, printDecimal, String.toList_ofList] at hc
    simp only [List.mem_append] at hc
    rcases hc with (hsign | hwhole) | hfraction
    · split at hsign
      · rw [List.mem_singleton.mp hsign]
        exact Or.inr (by decide)
      · cases hsign
    · exact Or.inl (isDigit_of_mem_digits hwhole)
    · split at hfraction
      · cases hfraction
      · rcases List.mem_cons.mp hfraction with rfl | hdigit
        · exact Or.inr (by decide)
        · exact Or.inl (isDigit_of_mem_digits (mem_of_mem_trimZeros hdigit))
  · rintro x y ⟨hx, n, hn⟩ ⟨hy, n', hn'⟩ h
    have hread := congrArg readDecimal h
    rw [htext, htext, hn, hn', readDecimal_printDecimal, readDecimal_printDecimal] at hread
    rw [← toNumber_printed hx, hn, Option.some_inj.mp hread, ← hn', toNumber_printed hy]

/-- A user id with the separator and a quote in it. -/
def oddOrder : CreateOrderDto :=
  { userId := "u|\"", merchantId := "shop-1", amount := Platform.number 100, currency := "USD" }

def evenOrder : CreateOrderDto := { oddOrder with amount := Platform.number (125 / 2) }

theorem hash_unambiguous_odd :
    ("post".toUpper = "POST".toUpper ∧ "/orders/|" = "/orders/|" ∧
      bodyText (platform id) none = bodyText (platform id) (some .null)) ∧
    (hashRequest (platform id) "POST" "/orders" (some oddOrder.json) =
      hashRequest (platform id) "POST" "/orders" (some evenOrder.json) ↔ oddOrder = evenOrder) := by
  have hplain : '|' ∉ "post".toList ∧ '|' ∉ "POST".toList := by decide
  have hupper : "post".toUpper = "POST".toUpper := by
    unfold String.toUpper
    rw [← String.toList_inj, String.toList_map, String.toList_map]
    decide
  have hinput : hashInputBy String.toUpper (platform id) "post" "/orders/|" none =
      hashInputBy String.toUpper (platform id) "POST" "/orders/|" (some .null) := by
    unfold hashInputBy
    rw [hupper]
    rfl
  have hunambiguous := hash_unambiguous (platform id) (platform_numberText id)
  exact ⟨hunambiguous.1 String.toUpper
    (fun _ => not_mem_toUpper) "post" "POST" "/orders/|" "/orders/|" none
      (some .null) hplain.1 hplain.2 (congrArg String.toUTF8 hinput),
    hunambiguous.2 oddOrder evenOrder ⟨Number.double _, 1000000, by decide +kernel⟩
      ⟨Number.double _, 625000, by decide +kernel⟩ id⟩

end CashbackLedger
