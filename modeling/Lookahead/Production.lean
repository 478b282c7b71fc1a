import Lookahead.Text.Blank

set_option autoImplicit false

namespace Lookahead

def isEpsilonMark (c : Char) : Bool := c == 'ε' || c == 'ϵ'

def isEpsilonName (name : String) : Bool := name.toList.all isEpsilonMark

def isSymbolName (name : String) : Bool := name != "" && !name.toList.any Text.isBlank

structure Production where
  symbol : String
  derivation : List String
deriving DecidableEq

namespace Production

def render (production : Production) : String :=
  let shown := if production.derivation = [] then ["ε"] else production.derivation
  production.symbol ++ " ->" ++ String.join (shown.map (" " ++ ·))

theorem toList_render (production : Production) :
    production.render.toList = production.symbol.toList ++ [' ', '-', '>'] ++
      (if production.derivation = [] then ["ε"] else production.derivation).flatMap
        (fun symbol => ' ' :: symbol.toList) := by
  simp [render, List.flatMap_map]

def withoutEpsilon (production : Production) : Production :=
  { production with derivation := production.derivation.filter fun name => !isEpsilonName name }

@[simp] theorem symbol_withoutEpsilon (production : Production) :
    production.withoutEpsilon.symbol = production.symbol := rfl

theorem not_isEpsilonName_of_mem {production : Production} {name : String}
    (member : name ∈ production.withoutEpsilon.derivation) : isEpsilonName name = false := by
  simpa using (List.mem_filter.1 member).2

theorem withoutEpsilon_eq_self {production : Production}
    (plain : ∀ name ∈ production.derivation, isEpsilonName name = false) :
    production.withoutEpsilon = production := by
  obtain ⟨symbol, derivation⟩ := production
  simpa [withoutEpsilon] using plain

end Production

end Lookahead
