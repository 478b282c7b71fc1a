import Lookahead.Grammar.Basic

set_option autoImplicit false

namespace Lookahead

def epsilon : String := ""

def endMarker : String := "$"

def epsilonNumber : Nat := 0

def endNumber : Nat := 1

inductive SymbolKind where
  -- the epsilon or the end marker, as long as the grammar has no symbol of that name
  | marker
  | terminal
  | nonterminal
deriving DecidableEq

structure NumberedRule where
  left : Nat
  right : List Nat
deriving DecidableEq

structure NumberedGrammar where
  names : Array String
  kinds : Array SymbolKind
  start : Nat
  rules : List NumberedRule

namespace NumberedGrammar

def size (grammar : NumberedGrammar) : Nat := grammar.names.size

def name (grammar : NumberedGrammar) (number : Nat) : String := grammar.names.getD number epsilon

def kind (grammar : NumberedGrammar) (number : Nat) : SymbolKind :=
  grammar.kinds.getD number .marker

def isNonterminal (grammar : NumberedGrammar) (number : Nat) : Bool :=
  grammar.kind number == .nonterminal

def symbols (grammar : NumberedGrammar) : List Nat :=
  (List.range grammar.size).filter fun number => grammar.kind number != .marker

end NumberedGrammar

namespace Grammar

def occurrences (grammar : Grammar) : List String :=
  grammar.productions.flatMap fun production => production.symbol :: production.derivation

def occurs (grammar : Grammar) (name : String) : Bool :=
  grammar.productions.any fun production =>
    production.symbol == name || production.derivation.contains name

theorem occurs_iff (grammar : Grammar) (name : String) :
    grammar.occurs name = true ↔ name ∈ grammar.occurrences := by
  simp only [occurs, occurrences, List.any_eq_true, List.mem_flatMap, List.mem_cons,
    Bool.or_eq_true, beq_iff_eq, List.contains_iff_mem, @eq_comm _ name]

def kind (grammar : Grammar) (name : String) : SymbolKind :=
  if grammar.isNonterminal name then .nonterminal
  else if grammar.occurs name then .terminal
  else .marker

-- Position in this list is a symbol's number: the markers, then by first occurrence.
def numbering (grammar : Grammar) : List String :=
  (epsilon :: endMarker :: grammar.occurrences).eraseDups

theorem mem_numbering (grammar : Grammar) (name : String) :
    name ∈ grammar.numbering ↔ name = epsilon ∨ name = endMarker ∨ name ∈ grammar.occurrences := by
  simp [numbering, List.mem_eraseDups]

def symbols (grammar : Grammar) : List String := grammar.numbering.filter grammar.occurs

def numbered (grammar : Grammar) : NumberedGrammar :=
  let names := grammar.numbering
  { names := names.toArray
    kinds := (names.map grammar.kind).toArray
    start := names.idxOf grammar.start
    rules := grammar.productions.map fun production =>
      { left := names.idxOf production.symbol
        right := production.derivation.map fun name => names.idxOf name } }

end Grammar

end Lookahead
