import Lookahead.RuleLayout

set_option autoImplicit false

namespace Lookahead

def unmarkedName (name : String) : String :=
  String.ofList (name.toList.filter fun c => !isEpsilonMark c)

def unmarkedSymbols (symbols : List String) : List String :=
  (symbols.map unmarkedName).filter fun name => name != ""

def Production.unmarked (production : Production) : Production :=
  { production with derivation := unmarkedSymbols production.derivation }

namespace RuleText

def rawAlternatives (right : List Char) : List (List String) :=
  (right.splitOnP isBar).map fun part => (Text.fields part).map String.ofList

def rawLine (line : List Char) : List Production :=
  match splitArrow? line with
  | none => []
  | some (left, right) =>
    (rawAlternatives right).map (Production.mk (String.ofList (Text.trim left)))

def raw (text : String) : List Production := (lines text.toList).flatMap rawLine

def Cuts (line : List Char) (symbol : String) (right : List Char) : Prop :=
  ∃ left, ∃ arrow ∈ arrows, line = left ++ arrow ++ right ∧ ArrowFree left ∧
    String.ofList (Text.trim left) = symbol

def endsToken (c : Char) : Bool := Text.isBlank c || isBar c

-- A token that stands in a right side ends only where a blank or a bar or nothing is next to it.
structure Stands (before : List Char) (token : String) (after : List Char) : Prop where
  nonempty : token ≠ ""
  inside : ∀ c ∈ token.toList, endsToken c = false
  opens : ∀ c ∈ before.getLast?, endsToken c = true
  closes : ∀ c ∈ after.head?, endsToken c = true

structure Occurrence (text token : String) where
  earlier : List (List Char)
  line : List Char
  later : List (List Char)
  symbol : String
  before : List Char
  after : List Char
  split : lines text.toList = earlier ++ line :: later
  cut : Cuts line symbol (before ++ token.toList ++ after)
  stands : Stands before token after

end RuleText

end Lookahead
