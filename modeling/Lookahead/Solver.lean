import Lookahead.BitSet.Members
import Lookahead.Estimate.Progress
import Lookahead.Tables

set_option autoImplicit false

namespace Lookahead

structure Solver where
  grammar : NumberedGrammar
  estimate : Estimate
  -- for each pass so far whether it added anything, the latest pass first
  answers : List Bool

namespace Solver

def ofGrammar (grammar : Grammar) : Solver where
  grammar := grammar.numbered
  estimate := Estimate.initial grammar.numbered
  answers := []

def passes (solver : Solver) : Nat := solver.answers.length

def pass (solver : Solver) : Solver :=
  let next := solver.estimate.sweep solver.grammar
  { solver with estimate := next, answers := next.grown :: solver.answers }

def changed (solver : Solver) : Bool := solver.answers.head?.getD false

def run (solver : Solver) : Nat → Solver
  | 0 => solver
  | count + 1 => solver.pass.run count

-- Passes until one adds nothing; there is an end because a pass that adds takes room.
def settle (solver : Solver) : Solver :=
  let next := solver.pass
  if _ : next.estimate.grown = true then next.settle else next
termination_by solver.estimate.room
decreasing_by exact Estimate.room_sweep_lt ‹_›

def symbolSets (grammar : NumberedGrammar) (sets : Nat → BitSet) : OrderedMap SymbolSet :=
  OrderedMap.ofList (grammar.symbols.map fun symbol =>
    (grammar.name symbol, SymbolSet.ofList ((sets symbol).toList.map grammar.name)))

def tables (solver : Solver) : Tables where
  first := symbolSets solver.grammar (solver.estimate.setOf .first)
  follow := symbolSets solver.grammar (solver.estimate.setOf .follow)

theorem sets_tables (solver : Solver) (family : Family) :
    solver.tables.sets family = symbolSets solver.grammar (solver.estimate.setOf family) := by
  cases family <;> rfl

@[simp] theorem passes_pass (solver : Solver) : solver.pass.passes = solver.passes + 1 := rfl

@[simp] theorem passes_run (solver : Solver) (count : Nat) :
    (solver.run count).passes = solver.passes + count := by
  induction count generalizing solver with
  | zero => rfl
  | succ count ih => rw [run, ih, passes_pass]; omega

end Solver

def Grammar.tables (grammar : Grammar) : Tables := (Solver.ofGrammar grammar).settle.tables

end Lookahead
