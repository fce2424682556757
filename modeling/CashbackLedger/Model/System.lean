import CashbackLedger.Model.Api
import CashbackLedger.Model.Worker

/-
  The whole system: any number of requests, worker passes, message deliveries and replay runs,
  interleaved at their calls.
-/

namespace CashbackLedger

open Lib

/-- What a process runs. -/
inductive Task where
  | create (header : Option String) (dto : CreateOrderDto)
  | confirm (header : Option String) (id : String)
  | upsertRule (merchantId : String) (dto : UpsertCashbackRuleDto)
  | publishOnce
  | consume (offset : Nat)
  | retryInbox
  | replay (argv : List String)

/-- How a task ends: the response of a request, or what it threw. -/
abbrev Outcome : Type := Except Fault Json

/-- A task without a response. -/
def silent (x : Async Unit) : Async Json := do
  x
  return .null

def Task.program (env : Env) : Task → Async Json
  | .create header dto => CashbackLedger.create env header dto
  | .confirm header id => CashbackLedger.confirm env header id
  | .upsertRule merchantId dto => CashbackLedger.upsertRule merchantId dto
  | .publishOnce => silent (CashbackLedger.publishOnce env)
  | .consume offset => silent (CashbackLedger.consume env offset)
  | .retryInbox => silent (CashbackLedger.retryInbox env)
  | .replay argv => silent (CashbackLedger.replay env argv)

def system (env : Env) : Machine Call Reply Task Choice Outside World Outcome where
  prog t := (t.program env).run
  exec := exec env
  kill := kill
  move := outside

abbrev State : Type := Pool Call Reply Task World Outcome
abbrev Step : Type := Label Task Choice Outside
abbrev Process : Type := Proc Call Reply Task Outcome
abbrev History : Type := Log Call Reply

/-- Nothing stored, nothing running. -/
def initial : State := { world := .empty, proc := fun _ => none }

end CashbackLedger
