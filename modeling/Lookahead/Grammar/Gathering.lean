import Lookahead.Grammar.Basic

set_option autoImplicit false

namespace Lookahead

structure Gathered where
  productions : List Production
  groups : OrderedMap (List (List String))

namespace Gathered

def empty : Gathered := ⟨[], OrderedMap.empty⟩

def add? (gathered : Gathered) (production : Production) : Except GrammarError Gathered :=
  if isSymbolName production.symbol then
    let kept := production.withoutEpsilon
    .ok {
      productions := gathered.productions ++ [kept]
      groups := gathered.groups.upsert kept.symbol fun known =>
        known.getD [] ++ [kept.derivation] }
  else .error (.invalidRule production.render)

def gather? (given : List Production) : Except GrammarError Gathered := do
  let gathered ← given.foldlM add? empty
  if gathered.productions = [] then .error .emptyGrammar else .ok gathered

end Gathered

end Lookahead
