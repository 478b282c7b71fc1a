import Lookahead.Message
import Lookahead.RuleText
import Lookahead.Solver

set_option autoImplicit false

namespace Lookahead

def analyse (text : String) : Except GrammarError Tables := (Grammar.parse text).map Grammar.tables

namespace Solver

def startMessage (solver : Solver) : Message :=
  .started solver.grammar.rules.length solver.grammar.symbols.length
    (solver.grammar.name solver.grammar.start)

def passMessages (solver : Solver) : List Message :=
  solver.answers.reverse.mapIdx fun index changed => .passed (index + 1) changed

end Solver

structure Report where
  messages : List Message
  outcome : Except GrammarError Tables

def report (text : String) : Report :=
  let reading := RuleText.read text
  let parsed := reading.productions.map Message.parsed
  match reading.grammar with
  | .error error => ⟨parsed, .error error⟩
  | .ok grammar =>
    let solver := Solver.ofGrammar grammar
    let settled := solver.settle
    ⟨parsed ++ solver.startMessage :: settled.passMessages ++ [.converged settled.passes],
      .ok settled.tables⟩

def sameOutcome : Except GrammarError Tables → Except GrammarError Tables → Bool
  | .ok a, .ok b => a.agrees b
  | .error a, .error b => a == b
  | _, _ => false

structure Comparison where
  accepted : Bool × Bool
  sameOutcome : Bool
  sameProductions : Option Bool
deriving DecidableEq

def compareTexts (a b : String) : Comparison where
  accepted := ((Grammar.parse a).isOk, (Grammar.parse b).isOk)
  sameOutcome := Lookahead.sameOutcome (analyse a) (analyse b)
  sameProductions :=
    match Grammar.parse a, Grammar.parse b with
    | .ok left, .ok right => some (left.productions == right.productions)
    | _, _ => none

theorem outcome_report (text : String) : (report text).outcome = analyse text := by
  simp only [report, analyse, Grammar.parse]
  split <;> simp_all [Except.map, Grammar.tables]

end Lookahead
