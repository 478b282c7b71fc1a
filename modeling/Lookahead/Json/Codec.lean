import Lookahead.Json.Basic
import Lookahead.Tables

set_option autoImplicit false

namespace Lookahead

def Production.toJson (production : Production) : Json :=
  .object [("symbol", .text production.symbol), ("derivation", .texts production.derivation)]

def Production.ofJson? (json : Json) : Option Production := do
  let (symbol, derivation) ← json.record? "symbol" "derivation"
  return ⟨← symbol.text?, ← derivation.texts?⟩

def SymbolSet.toJson (set : SymbolSet) : Json := .texts set.toList

def SymbolSet.ofJson? (json : Json) : Option SymbolSet := json.texts?.map SymbolSet.ofList

def OrderedMap.toJson (sets : OrderedMap SymbolSet) : Json :=
  .object (sets.entries.map fun (symbol, set) => (symbol, set.toJson))

def OrderedMap.ofJson? (json : Json) : Option (OrderedMap SymbolSet) := do
  let fields ← json.fields?
  let sets ← fields.mapM fun (symbol, value) => (SymbolSet.ofJson? value).map fun set => (symbol, set)
  return OrderedMap.ofList sets

def Tables.toJson (tables : Tables) : Json :=
  .object [("first", tables.first.toJson), ("follow", tables.follow.toJson)]

def Tables.ofJson? (json : Json) : Option Tables := do
  let (first, follow) ← json.record? "first" "follow"
  return ⟨← OrderedMap.ofJson? first, ← OrderedMap.ofJson? follow⟩

end Lookahead
