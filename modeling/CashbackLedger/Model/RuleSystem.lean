import CashbackLedger.Model.Api

/-
  The processes that share a merchant's rule: updates and reads of the API, reads of the worker.

  A read of the worker runs in the transaction of its handler; what the handler does with the
  rule afterwards is left out here.
-/

namespace CashbackLedger

open Lib

inductive RuleTask where
  | upsertRule (merchantId : String) (dto : UpsertCashbackRuleDto)
  | invalidate (merchantId : String)
  /-- `CashbackRuleService.getRule` -/
  | getRule (merchantId : String)
  /-- the worker's `getCashbackRule` -/
  | getCashbackRule (merchantId : String)

/-- What a task answers. -/
inductive RuleAnswer where
  | response (body : Json)
  | done
  | snapshot (entry : CachedCashbackRule)
  | rule (rule : Rule)

abbrev RuleOutcome : Type := Except Fault RuleAnswer

def RuleTask.program (env : Env) : RuleTask → Async RuleAnswer
  | .upsertRule merchantId dto => do return .response (← CashbackLedger.upsertRule merchantId dto)
  | .invalidate merchantId => do
      CashbackLedger.invalidate merchantId
      return .done
  | .getRule merchantId => do return .snapshot (← CashbackLedger.getRule env merchantId)
  | .getCashbackRule merchantId => do
      let _ ← await (.tx .begin)
      return .rule (← CashbackLedger.getCashbackRule env merchantId)

def ruleSystem (env : Env) : Machine Call Reply RuleTask Choice Outside World RuleOutcome where
  prog t := (t.program env).run
  exec := exec env
  kill := kill
  move := outside

abbrev RuleState : Type := Pool Call Reply RuleTask World RuleOutcome
abbrev RuleStep : Type := Label RuleTask Choice Outside

end CashbackLedger
