import CashbackLedger.Lib.OrderedMap
import CashbackLedger.Model.Schema

/-
  `apps/api/src/users/users.controller.ts`.

  `getBalance` makes one call, `ledgerEntry.groupBy`, and computes its response from the rows.
  The database returns them in no particular order: an answer is a permutation of `groupBy`.
  Balances are exact decimals; the rounding of `Number(sum)` and of the additions is left out.
-/

namespace CashbackLedger

open Lib

/-- A row of `groupBy({ by: ['currency', 'type'], _sum: { amount: true } })`. -/
structure BalanceRow where
  currency : String
  type : LedgerEntryType
  /-- `_sum.amount` -/
  sum : Option Decimal

/-- `ledgerEntry.groupBy({ by: ['currency', 'type'], where: { userId }, _sum })`. -/
def groupBy (userId : String) (ledger : List LedgerEntry) : List BalanceRow :=
  let entries := ledger.filter fun e => e.userId = userId
  (entries.map fun e => (e.currency, e.type)).dedup.map fun g =>
    { currency := g.1, type := g.2
      sum := some ((entries.filter fun e => (e.currency, e.type) = g).map LedgerEntry.amount).sum }

/-- `sign * sum` of a row. A sum is an object, hence truthy. -/
def BalanceRow.signed (r : BalanceRow) : Decimal :=
  let sum := match r.sum with
    | some amount => amount
    | none => 0
  let sign := if r.type = .CREDIT then 1 else -1
  sign * sum

/-- Credit - debit per currency. -/
def byCurrency (rows : List BalanceRow) : OrderedMap String Decimal :=
  rows.foldl (fun m r => m.set r.currency ((m.get? r.currency).getD 0 + r.signed)) .empty

structure BalanceResponse where
  userId : String
  currency : String
  balance : Decimal
  asOf : String

/-- `getBalance` on the rows of its query. -/
def getBalance (env : Env) (userId : String) (rows : List BalanceRow) (now : Time) :
    BalanceResponse :=
  match (byCurrency rows).first? with
  | some (currency, balance) =>
      { userId := userId, currency := currency, balance := balance, asOf := env.isoText now }
  | none => { userId := userId, currency := "SGD", balance := 0, asOf := env.isoText now }

end CashbackLedger
