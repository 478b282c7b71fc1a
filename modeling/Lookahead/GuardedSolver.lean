import Lookahead.Grammar.Interning
import Lookahead.Solver

set_option autoImplicit false

/-!
The solver once more, with a check at every access: each of these functions is none as soon as a
number has no place where it is looked up.
-/

namespace Lookahead

namespace Estimate

def initialFirst? (grammar : NumberedGrammar) (symbol : Nat) : Option BitSet := do
  let kind ← grammar.kinds[symbol]?
  if kind = .terminal then BitSet.ofBit? grammar.size symbol
  else some (BitSet.ofSize grammar.size)

def initial? (grammar : NumberedGrammar) : Option Estimate := do
  let first ← (List.range grammar.size).mapM (initialFirst? grammar)
  let follow := Array.replicate grammar.size (BitSet.ofSize grammar.size)
  let known ← follow[grammar.start]?
  let marked ← known.clear.insert? endNumber
  return {
    first := first.toArray
    follow := follow.setIfInBounds grammar.start marked
    grown := false }

def raise? (estimate : Estimate) (family : Family) (symbol : Nat)
    (change? : BitSet → Option BitSet) : Option Estimate := do
  let known ← (estimate.sets family)[symbol]?
  let raised ← change? known
  return estimate.raise family symbol fun _ => raised

def beginLeft? (estimate : Estimate) (left : Nat) (nullable : Bool) (begins : BitSet) :
    Option Estimate :=
  if nullable then estimate.raise? .first left fun set => set.unionWithout? begins epsilonNumber
  else some estimate

def followPrevious? (grammar : NumberedGrammar) (estimate : Estimate) (previous : Option Nat)
    (begins : BitSet) : Option Estimate :=
  match previous with
  | none => some estimate
  | some symbol => do
    let kind ← grammar.kinds[symbol]?
    if kind = .nonterminal then
      estimate.raise? .follow symbol fun set => set.unionWithout? begins epsilonNumber
    else some estimate

def Walk.step? (grammar : NumberedGrammar) (left : Nat) (walk : Walk) (symbol : Nat) :
    Option Walk := do
  let begins ← (walk.estimate.sets .first)[symbol]?
  let opened ← walk.estimate.beginLeft? left walk.nullable begins
  let nullable ← (if walk.nullable then begins.contains? epsilonNumber else some false)
  let followed ← followPrevious? grammar opened walk.previous begins
  return { estimate := followed, previous := some symbol, nullable }

def trail? (grammar : NumberedGrammar) (follows : BitSet) : Estimate → List Nat → Option Estimate
  | estimate, [] => some estimate
  | estimate, symbol :: before => do
    let kind ← grammar.kinds[symbol]?
    if kind = .nonterminal then
      let raised ← estimate.raise? .follow symbol fun set => set.union? follows
      let begins ← (raised.sets .first)[symbol]?
      let nullable ← begins.contains? epsilonNumber
      if nullable then trail? grammar follows raised before else some raised
    else some estimate

def applyRule? (grammar : NumberedGrammar) (estimate : Estimate) (rule : NumberedRule) :
    Option Estimate := do
  let kind ← grammar.kinds[rule.left]?
  if kind ≠ .nonterminal then
    -- no grammar has such a rule: left sides are nonterminals
    estimate.raise? .first rule.left fun set => set.insert? rule.left
  else if rule.right = [] then
    estimate.raise? .first rule.left fun set => set.insert? epsilonNumber
  else
    let walk ← rule.right.foldlM (Walk.step? grammar rule.left) ⟨estimate, none, true⟩
    let follows ← (walk.estimate.sets .follow)[rule.left]?
    let trailed ← trail? grammar follows walk.estimate rule.right.reverse
    if walk.nullable then trailed.raise? .first rule.left fun set => set.insert? epsilonNumber
    else some trailed

def sweep? (grammar : NumberedGrammar) (estimate : Estimate) : Option Estimate :=
  grammar.rules.foldlM (applyRule? grammar) { estimate with grown := false }

end Estimate

namespace Solver

def ofGrammar? (grammar : Grammar) : Option Solver := do
  let numbered ← grammar.numbered?
  let estimate ← Estimate.initial? numbered
  -- the first message of a solver has the name of the start symbol
  let _ ← numbered.names[numbered.start]?
  return { grammar := numbered, estimate, answers := [] }

def pass? (solver : Solver) : Option Solver := do
  let next ← solver.estimate.sweep? solver.grammar
  return { solver with estimate := next, answers := next.grown :: solver.answers }

-- None also if a pass that adds something took no room, as passing might not end then.
def settle? (solver : Solver) : Option Solver := do
  let next ← solver.pass?
  if next.estimate.grown then
    if _ : next.estimate.room < solver.estimate.room then next.settle? else none
  else some next
termination_by solver.estimate.room

def entryOf? (grammar : NumberedGrammar) (sets : Array BitSet) (symbol : Nat) :
    Option (String × SymbolSet) := do
  let set ← sets[symbol]?
  let names ← set.toList.mapM fun number => grammar.names[number]?
  let name ← grammar.names[symbol]?
  return (name, SymbolSet.ofList names)

def symbolSets? (grammar : NumberedGrammar) (sets : Array BitSet) :
    Option (OrderedMap SymbolSet) := do
  let symbols := (List.range grammar.kinds.size).filter fun number => grammar.kind number != .marker
  let entries ← symbols.mapM (entryOf? grammar sets)
  return OrderedMap.ofList entries

def tables? (solver : Solver) : Option Tables := do
  let first ← symbolSets? solver.grammar (solver.estimate.sets .first)
  let follow ← symbolSets? solver.grammar (solver.estimate.sets .follow)
  return { first, follow }

def solve? (solver : Solver) : Option Tables := do
  let settled ← solver.settle?
  settled.tables?

end Solver

def Grammar.tables? (grammar : Grammar) : Option Tables := do
  let solver ← Solver.ofGrammar? grammar
  solver.solve?

end Lookahead
