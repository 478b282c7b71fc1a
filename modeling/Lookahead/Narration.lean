import Lookahead.Analysis

set_option autoImplicit false

namespace Lookahead

def Report.lines (report : Report) : List (String × String) :=
  report.messages.map fun message => (message.level.name, message.text)

/-- A part of an analysis that writes its messages to a log as it goes. What it has written by the
time it fails stays written. -/
abbrev Narration (α : Type) : Type := ExceptT GrammarError (StateM (List Message)) α

namespace Narration

def say (message : Message) : Narration Unit := modify fun log => log ++ [message]

def readAlternative (symbol : String) (known : List Production) (derivation : List String) :
    Narration (List Production) := do
  let production := Production.mk symbol derivation
  say (.parsed production)
  return known ++ [production]

def readRule (known : List Production) (line : List Char) : Narration (List Production) :=
  match RuleText.splitArrow? line with
  | none => throw (.invalidRule (String.ofList line))
  | some (left, right) =>
    let symbol := String.ofList (Text.trim left)
    if isSymbolName symbol then
      (RuleText.derivations right).foldlM (readAlternative symbol) known
    else throw (.invalidRule (String.ofList line))

def readPiece (known : List Production) (piece : List Char) : Narration (List Production) :=
  let line := Text.trim piece
  if line.isEmpty then return known else readRule known line

def parse (text : String) : Narration Grammar := do
  let productions ← (text.toList.splitOnP RuleText.isSeparator).foldlM readPiece []
  Grammar.ofProductions productions

def start (grammar : Grammar) : Narration Solver := do
  let solver := Solver.ofGrammar grammar
  say solver.startMessage
  return solver

def settle (solver : Solver) : Narration Solver := do
  let next := solver.pass
  say (.passed next.passes next.changed)
  if _ : next.changed = true then settle next else return next
termination_by solver.estimate.room
decreasing_by exact Estimate.room_sweep_lt ‹_›

def solve (solver : Solver) : Narration Tables := do
  let settled ← settle solver
  say (.converged settled.passes)
  return settled.tables

def analyse (text : String) : Narration Tables := do
  let grammar ← parse text
  let solver ← start grammar
  solve solver

end Narration

end Lookahead
