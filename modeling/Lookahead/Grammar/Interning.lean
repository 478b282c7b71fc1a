import Lookahead.Grammar.Numbering

set_option autoImplicit false

namespace Lookahead

structure SymbolTable where
  names : List String
  kinds : List SymbolKind

namespace SymbolTable

def initial : SymbolTable where
  names := [epsilon, endMarker]
  kinds := [.marker, .marker]

def numberLimit : Nat := UInt32.size

end SymbolTable

namespace Grammar

def writtenKind (grammar : Grammar) (name : String) : SymbolKind :=
  if grammar.isNonterminal name then .nonterminal else .terminal

/-- The number of a name: a known name keeps its own, a new one gets the next. None if the number
does not fit its width or has no place among the kinds. -/
def intern? (grammar : Grammar) (name : String) : StateT SymbolTable Option Nat := fun table =>
  let number := table.names.idxOf name
  let names := if name ∈ table.names then table.names else table.names ++ [name]
  if SymbolTable.numberLimit ≤ number then none
  else if number = table.kinds.length then
    some (number, ⟨names, table.kinds ++ [grammar.writtenKind name]⟩)
  else if number < table.kinds.length then
    some (number, ⟨names, table.kinds.set number (grammar.writtenKind name)⟩)
  else none

def internRule? (grammar : Grammar) (production : Production) :
    StateT SymbolTable Option NumberedRule := do
  let left ← grammar.intern? production.symbol
  let right ← production.derivation.mapM grammar.intern?
  return { left, right }

def numbered? (grammar : Grammar) : Option NumberedGrammar := do
  let (rules, table) ← (grammar.productions.mapM grammar.internRule?).run SymbolTable.initial
  let first ← rules.head?
  return { names := table.names.toArray, kinds := table.kinds.toArray, start := first.left, rules }

end Grammar

end Lookahead
