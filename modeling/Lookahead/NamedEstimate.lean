import Lookahead.Tables

set_option autoImplicit false

namespace Lookahead

/-- FIRST and FOLLOW as far as they are known, by name: sets of strings, without numbers. -/
structure NamedEstimate where
  sets : Family → String → SymbolSet
  grown : Bool

namespace NamedEstimate

def isNonterminal (productions : List Production) (symbol : String) : Bool :=
  productions.any fun production => production.symbol == symbol

def isTerminal (productions : List Production) (symbol : String) : Bool :=
  (productions.any fun production => production.derivation.contains symbol) &&
    !isNonterminal productions symbol

def isStart (productions : List Production) (symbol : String) : Bool :=
  productions.head?.any fun production => production.symbol == symbol

def initial (productions : List Production) : NamedEstimate where
  sets
    | .first, symbol =>
      if isTerminal productions symbol then SymbolSet.ofList [symbol] else SymbolSet.empty
    | .follow, symbol =>
      if isStart productions symbol then SymbolSet.ofList [endMarker] else SymbolSet.empty
  grown := false

def add (estimate : NamedEstimate) (family : Family) (symbol : String) (names : SymbolSet) :
    NamedEstimate :=
  let joined := (estimate.sets family symbol).union names
  { sets := fun other name =>
      if other = family ∧ name = symbol then joined else estimate.sets other name
    grown := estimate.grown || joined != estimate.sets family symbol }

-- Reads a derivation from its start. Of each symbol, what it begins with now, and that alone,
-- goes to the left side and to the symbol before it. The flag tells whether all can vanish.
def readForward (productions : List Production) (left : String) :
    NamedEstimate → Option String → Bool → List String → NamedEstimate × Bool
  | estimate, _, nullable, [] => (estimate, nullable)
  | estimate, previous, nullable, symbol :: rest =>
    let begins := estimate.sets .first symbol
    let opened := if nullable then estimate.add .first left (begins.erase epsilon) else estimate
    let followed :=
      match previous.filter (isNonterminal productions) with
      | some before => opened.add .follow before (begins.erase epsilon)
      | none => opened
    readForward productions left followed (some symbol) (nullable && decide (epsilon ∈ begins)) rest

def readBackward (productions : List Production) (follows : SymbolSet) :
    NamedEstimate → List String → NamedEstimate
  | estimate, [] => estimate
  | estimate, symbol :: before =>
    if isNonterminal productions symbol then
      let joined := estimate.add .follow symbol follows
      if epsilon ∈ joined.sets .first symbol then readBackward productions follows joined before
      else joined
    else estimate

def advance (productions : List Production) (estimate : NamedEstimate) (production : Production) :
    NamedEstimate :=
  let (forward, nullable) :=
    readForward productions production.symbol estimate none true production.derivation
  let backward :=
    readBackward productions (forward.sets .follow production.symbol) forward
      production.derivation.reverse
  if nullable then backward.add .first production.symbol (SymbolSet.ofList [epsilon]) else backward

def pass (productions : List Production) (estimate : NamedEstimate) : NamedEstimate :=
  productions.foldl (advance productions) { estimate with grown := false }

def afterPasses (productions : List Production) : Nat → NamedEstimate
  | 0 => initial productions
  | count + 1 => pass productions (afterPasses productions count)

def tables (symbols : List String) (estimate : NamedEstimate) : Tables where
  first := OrderedMap.ofList (symbols.map fun symbol => (symbol, estimate.sets .first symbol))
  follow := OrderedMap.ofList (symbols.map fun symbol => (symbol, estimate.sets .follow symbol))

end NamedEstimate

end Lookahead
