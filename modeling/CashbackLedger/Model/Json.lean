import Mathlib.Data.Rat.Defs

/-
  JSON documents, as JavaScript sees them after `JSON.parse`.

  A text is modelled by what `JSON.parse` makes of it (`JsonText`): a document, or nothing when
  the text does not parse. Numbers are the exact values of the parsed doubles; how JavaScript
  prints a number is a parameter (`num`). The fields of an object have distinct names, as
  `JSON.parse` leaves them.
-/

namespace CashbackLedger

inductive Json where
  | null
  | bool (b : Bool)
  | num (q : ℚ)
  | str (s : String)
  | arr (xs : List Json)
  | obj (fields : List (String × Json))

/-- A text through the eyes of `JSON.parse`; `none` is a text it rejects. -/
abbrev JsonText : Type := Option Json

namespace Json

/-- `j?.name`: `none` is `undefined`, as for anything that is not an object. -/
def field (j : Json) (name : String) : Option Json :=
  match j with
  | .obj fields => fields.lookup name
  | _ => none

/-- `x ?? y`. -/
def orElse : Option Json → Json → Json
  | none, y => y
  | some .null, y => y
  | some x, _ => x

/-- JavaScript's truthiness of a JSON value or `undefined`. -/
def truthy : Option Json → Bool
  | none => false
  | some .null => false
  | some (.bool b) => b
  | some (.num q) => q ≠ 0
  | some (.str s) => s ≠ ""
  | some _ => true

/-- `x === "s"` for a string literal. -/
def isStr : Option Json → String → Bool
  | some (.str s), t => s == t
  | _, _ => false

mutual
/-- `String(x)`; `none` is its TypeError. No JSON value can be called, so an object with a
    `toString` of its own has no text, however deep it lies in an array. -/
def text (num : ℚ → String) : Json → Option String
  | .null => some "null"
  | .bool b => some (if b then "true" else "false")
  | .num q => some (num q)
  | .str s => some s
  | .arr xs => (texts num xs).map fun parts => ",".intercalate parts
  | .obj fields => if (fields.lookup "toString").isSome then none else some "[object Object]"
/-- The parts `join` puts together for an array; a `null` part is empty. -/
def texts (num : ℚ → String) : List Json → Option (List String)
  | [] => some []
  | .null :: xs => (texts num xs).map ("" :: ·)
  | x :: xs => do return (← text num x) :: (← texts num xs)
end

/-- `String(x)` where `x` may be `undefined`. -/
def textOpt (num : ℚ → String) : Option Json → Option String
  | none => some "undefined"
  | some j => j.text num

/-- The escape of one character inside a JSON string. -/
def escape (c : Char) : List Char :=
  if c = '"' then ['\\', '"']
  else if c = '\\' then ['\\', '\\']
  else if c = '\n' then ['\\', 'n']
  else if c = '\r' then ['\\', 'r']
  else if c = '\t' then ['\\', 't']
  else if c.toNat = 8 then ['\\', 'b']
  else if c.toNat = 12 then ['\\', 'f']
  else if c.toNat < 32 then
    ['\\', 'u', '0', '0', Nat.digitChar (c.toNat / 16), Nat.digitChar (c.toNat % 16)]
  else [c]

/-- `JSON.stringify` of a string. -/
def quote (s : String) : String := String.ofList ('"' :: s.toList.flatMap escape ++ ['"'])

mutual
/-- `JSON.stringify`. -/
def stringify (num : ℚ → String) : Json → String
  | .null => "null"
  | .bool b => if b then "true" else "false"
  | .num q => num q
  | .str s => quote s
  | .arr xs => "[" ++ ",".intercalate (stringifyAll num xs) ++ "]"
  | .obj fields => "\x7b" ++ ",".intercalate (stringifyFields num fields) ++ "\x7d"
def stringifyAll (num : ℚ → String) : List Json → List String
  | [] => []
  | x :: xs => stringify num x :: stringifyAll num xs
def stringifyFields (num : ℚ → String) : List (String × Json) → List String
  | [] => []
  | (name, x) :: xs => (quote name ++ ":" ++ stringify num x) :: stringifyFields num xs
end

/-- No NUL character: PostgreSQL stores it neither in TEXT nor in JSONB. -/
def storableText (s : String) : Bool := s.toList.all fun c => c.toNat != 0

mutual
/-- Does a JSONB column accept the document? -/
def storable : Json → Bool
  | .str s => storableText s
  | .arr xs => storableAll xs
  | .obj fields => storableFields fields
  | _ => true
def storableAll : List Json → Bool
  | [] => true
  | x :: xs => storable x && storableAll xs
def storableFields : List (String × Json) → Bool
  | [] => true
  | (name, x) :: xs => storableText name && storable x && storableFields xs
end

end Json

end CashbackLedger
