import CashbackLedger.Model.System

/-
  A platform the programs can be run on, with the default configuration.

  UUIDs are read in their canonical text, decimals are printed and read in plain notation,
  times are printed as ISO 8601 in the Gregorian calendar. The hash is left as a parameter.
-/

namespace CashbackLedger

open Lib

namespace Platform

/-- The digits of `n`, at least `width` of them. -/
def digits (width n : Nat) : List Char :=
  let ds := Nat.toDigits 10 n
  List.replicate (width - ds.length) '0' ++ ds

def trimZeros (cs : List Char) : List Char := (cs.reverse.dropWhile (· == '0')).reverse

/-- Plain notation, exact for up to 20 decimal places. -/
def printDecimal (q : Decimal) : String :=
  let scaled := q.num.natAbs * 10 ^ 20 / q.den
  let fraction := trimZeros (digits 20 (scaled % 10 ^ 20))
  String.ofList ((if q < 0 then ['-'] else []) ++ digits 1 (scaled / 10 ^ 20) ++
    if fraction = [] then [] else '.' :: fraction)

def readDigits (cs : List Char) : Option Nat :=
  if cs ≠ [] && cs.all Char.isDigit then
    some (cs.foldl (fun n c => 10 * n + (c.toNat - '0'.toNat)) 0)
  else none

/-- An unsigned number in plain notation. -/
def readUnsigned (cs : List Char) : Option Decimal :=
  match cs.span (· != '.') with
  | (whole, []) => (readDigits whole).map fun n => (n : ℚ)
  | (whole, _ :: fraction) => do
      let n ← readDigits whole
      let d ← readDigits fraction
      return n + d / 10 ^ fraction.length

def readDecimal (s : String) : Option Decimal :=
  match s.toList with
  | '-' :: cs => (readUnsigned cs).map fun q => -q
  | cs => readUnsigned cs

def readInteger (s : String) : Option Int :=
  match s.toList with
  | '-' :: cs => (readDigits cs).map fun n => -(n : Int)
  | cs => (readDigits cs).map fun n => (n : Int)

/-- Year, month and day of a day counted from 1970-01-01. -/
def civil (day : Nat) : Nat × Nat × Nat :=
  let z := day + 719468
  let era := z / 146097
  let doe := z % 146097
  let yoe := (doe - doe / 1460 + doe / 36524 - doe / 146096) / 365
  let doy := doe - (365 * yoe + yoe / 4 - yoe / 100)
  let mp := (5 * doy + 2) / 153
  let month := if mp < 10 then mp + 3 else mp - 9
  (yoe + era * 400 + (if month ≤ 2 then 1 else 0), month, doy - (153 * mp + 2) / 5 + 1)

def isoText (t : Time) : String :=
  let (year, month, day) := civil (t / 86400000)
  String.ofList (digits 4 year ++ '-' :: digits 2 month ++ '-' :: digits 2 day ++
    'T' :: digits 2 (t / 3600000 % 24) ++ ':' :: digits 2 (t / 60000 % 60) ++
    ':' :: digits 2 (t / 1000 % 60) ++ '.' :: digits 3 (t % 1000) ++ ['Z'])

def readUuid (s : String) : Option Uuid :=
  if h : canonicalUuid s = true then some ⟨s, h⟩ else none

theorem readUuid_text (u : Uuid) : readUuid u.text = some u := dif_pos u.canonical

/-- The text of a UUID that ends in the digits of `n`. -/
def uuidText (n : Nat) : String := "00000000-0000-4000-8000-" ++ String.ofList (digits 12 n)

/-- A UUID for each number of up to twelve digits. -/
def uuid (n : Nat) : Uuid :=
  if h : canonicalUuid (uuidText n) = true then ⟨uuidText n, h⟩
  else ⟨"00000000-0000-4000-8000-000000000000", by decide⟩

/-- The number of a literal, 0 for one beyond the largest number. -/
def number (q : Decimal) : Number :=
  (Number.ofLiteral q).getD { value := 0, double := toNumber_zero, finite := by norm_num }

theorem ofLiteral_number {q : Decimal} (h : |toNumber q| < 2 ^ 1024) :
    Number.ofLiteral q = some (number q) := by
  rw [number, Number.ofLiteral, dif_pos h]
  rfl

/-- The pending call of `p` succeeds; a row it creates gets the UUID of `p`. -/
def serve (p : Pid) : Step := .step p { fate := .ok, newId := uuid p }

/-- The pending call of `p` fails and has no effect. -/
def fail (p : Pid) : Step := .step p { fate := .fail "connection lost", newId := uuid p }

/-- The next `n` calls of `p` succeed. -/
def serves (p : Pid) (n : Nat) : List Step := List.replicate n (serve p)

end Platform

open Platform in
/-- An order is created by process 0 and confirmed by process 1. -/
def createAndConfirm : List Step :=
  .spawn 0
    (.create none
      { userId := "user-1", merchantId := "shop-1", amount := number 100, currency := "USD" })
    :: serve 0 :: .spawn 1 (.confirm none (uuid 0).text) :: serves 1 5

open Platform in
/-- Its event is published by process 2. -/
def publishEvent : List Step := .spawn 2 .publishOnce :: serves 2 5

open Platform in
/-- Process 3 is handed the event and stores it, but cannot open its transaction. -/
def storeEvent : List Step := .spawn 3 (.consume 0) :: serves 3 2 ++ [fail 3, serve 3]

open Platform in
/-- Half a minute later, a retry pass `p` cannot open its transaction and counts the failure. -/
def failedAttempt (p : Pid) : List Step :=
  .move (.tick 30000) :: .spawn p .retryInbox :: serves p 3 ++ fail p :: serves p 2

open Platform in
def platform (sha256 : String → String) : Env where
  readUuid := readUuid
  readUuid_text := readUuid_text
  decimalText := printDecimal
  readDecimal := readDecimal
  numberText x := printDecimal (printed x)
  isoText := isoText
  readTake := readInteger
  sha256 := sha256
  maxAttempts := 5
  batchSize := 50
  retryBatchSize := 50
  cacheTtlSeconds := 60
  lockTtlMs := 300
  lockWaitMs := 30

end CashbackLedger
