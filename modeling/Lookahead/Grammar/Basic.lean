import Lookahead.OrderedMap
import Lookahead.Production

set_option autoImplicit false

namespace Lookahead

inductive GrammarError where
  | invalidRule (rule : String)
  | emptyGrammar
deriving DecidableEq

def GrammarError.message : GrammarError → String
  | .invalidRule rule => "invalid rule `" ++ rule ++ "`"
  | .emptyGrammar => "empty grammar"

def Production.group (productions : List Production) : OrderedMap (List (List String)) :=
  productions.foldl
    (fun groups production =>
      groups.upsert production.symbol fun known => known.getD [] ++ [production.derivation])
    OrderedMap.empty

theorem Production.contains_group (productions : List Production) (symbol : String) :
    (Production.group productions).contains symbol = true ↔
      ∃ production ∈ productions, production.symbol = symbol := by
  have fold (groups : OrderedMap (List (List String))) :
      (productions.foldl (fun groups production =>
        groups.upsert production.symbol fun known => known.getD [] ++ [production.derivation])
          groups).contains symbol = true ↔
        groups.contains symbol = true ∨ ∃ production ∈ productions, production.symbol = symbol := by
    induction productions generalizing groups with
    | nil => simp
    | cons production rest ih =>
      rw [List.foldl_cons, ih]
      by_cases same : symbol = production.symbol
      next => simp [OrderedMap.contains, OrderedMap.get?_upsert, same]
      next => simp [OrderedMap.contains, OrderedMap.get?_upsert, same, Ne.symm same]
  simpa [Production.group, OrderedMap.contains] using fold OrderedMap.empty

structure Grammar where
  productions : List Production
  groups : OrderedMap (List (List String))
  nonempty : productions ≠ []
  named : ∀ production ∈ productions, isSymbolName production.symbol = true
  plain : ∀ production ∈ productions, ∀ name ∈ production.derivation, isEpsilonName name = false
  grouped : groups = Production.group productions

namespace Grammar

theorem ext {a b : Grammar} (same : a.productions = b.productions) : a = b := by
  obtain ⟨productions, groups, _, _, _, grouped⟩ := a
  obtain ⟨others, otherGroups, _, _, _, otherGrouped⟩ := b
  subst grouped otherGrouped
  cases same
  rfl

def ofProductions (given : List Production) : Except GrammarError Grammar :=
  match found : given.find? fun production => !isSymbolName production.symbol with
  | some bad => .error (.invalidRule bad.render)
  | none =>
    if empty : given = [] then .error .emptyGrammar
    else .ok {
      productions := given.map Production.withoutEpsilon
      groups := Production.group (given.map Production.withoutEpsilon)
      nonempty := by simpa using empty
      named := by simpa using found
      plain := by
        intro production member name inside
        obtain ⟨source, _, rfl⟩ := List.mem_map.1 member
        exact Production.not_isEpsilonName_of_mem inside
      grouped := rfl }

def ofPlain (productions : List Production) (nonempty : productions ≠ [])
    (named : ∀ production ∈ productions, isSymbolName production.symbol = true)
    (plain : ∀ production ∈ productions, ∀ name ∈ production.derivation,
      isEpsilonName name = false) : Grammar where
  productions := productions
  groups := Production.group productions
  nonempty := nonempty
  named := named
  plain := plain
  grouped := rfl

def start (grammar : Grammar) : String := (grammar.productions.head grammar.nonempty).symbol

def nonterminals (grammar : Grammar) : List String := grammar.groups.keys

def alternatives? (grammar : Grammar) (symbol : String) : Option (List (List String)) :=
  grammar.groups.get? symbol

def isNonterminal (grammar : Grammar) (symbol : String) : Bool := grammar.groups.contains symbol

theorem isNonterminal_iff (grammar : Grammar) (symbol : String) :
    grammar.isNonterminal symbol = true ↔
      ∃ production ∈ grammar.productions, production.symbol = symbol := by
  rw [isNonterminal, grammar.grouped, Production.contains_group]

end Grammar

end Lookahead
