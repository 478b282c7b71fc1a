import Lookahead.Json.Codec
import Lookahead.Proofs.Comparison
import Lookahead.Proofs.JsonTexts
import Mathlib.Data.Option.Basic

set_option autoImplicit false

namespace Lookahead

theorem injective_of_read {α β : Type} {write : α → β} {read? : β → Option α}
    (back : ∀ value, read? (write value) = some value) : Function.Injective write := by
  have whole : read? ∘ write = some := funext back
  exact .of_comp (whole ▸ Option.some_injective α)

namespace Json

theorem reads_texts (values : List String) : (texts values).Reads := by
  apply reads_array
  intro item member
  obtain ⟨value, _, rfl⟩ := List.mem_map.1 member
  exact reads_text value

theorem texts?_texts (values : List String) : (texts values).texts? = some values := by
  rw [texts, texts?, List.mapM_map]
  exact List.mapM_pure.trans (congrArg some (List.map_id values))

theorem record?_object {first second : String} (apart : second ≠ first) (a b : Json) :
    (Json.object [(first, a), (second, b)]).record? first second = some (a, b) := by
  have other : (second == first) = false := beq_false_of_ne apart
  simp [record?, List.lookup_cons, other]

end Json

namespace Production

theorem reads_toJson (production : Production) : production.toJson.Reads := by
  apply Json.reads_object
  simp [Json.reads_text, Json.reads_texts]

theorem ofJson?_toJson (production : Production) : ofJson? production.toJson = some production := by
  simp [toJson, ofJson?, Json.record?_object, Json.text?, Json.texts?_texts]

end Production

namespace SymbolSet

theorem ofList_toList (set : SymbolSet) : ofList set.toList = set := by
  apply ext
  intro symbol
  rw [mem_ofList, mem_toList]

theorem ofJson?_toJson (set : SymbolSet) : ofJson? set.toJson = some set := by
  rw [toJson, ofJson?, Json.texts?_texts, Option.map_some, ofList_toList]

theorem toJson_injective : Function.Injective SymbolSet.toJson :=
  injective_of_read ofJson?_toJson

end SymbolSet

namespace OrderedMap

theorem agrees_of_perm {α : Type} [BEq α] [LawfulBEq α] {a b : OrderedMap α}
    (same : a.entries.Perm b.entries) : a.agrees b = true := by
  rw [agrees_iff]
  intro key
  apply Option.ext
  intro value
  rw [get?_eq_some_iff, get?_eq_some_iff, same.mem_iff]

theorem reads_toJson (sets : OrderedMap SymbolSet) : sets.toJson.Reads := by
  apply Json.reads_object
  intro field member
  obtain ⟨entry, _, rfl⟩ := List.mem_map.1 member
  exact Json.reads_texts entry.2.toList

theorem ofJson?_toJson (sets : OrderedMap SymbolSet) :
    ∃ read, ofJson? sets.toJson = some read ∧ read.entries.Perm sets.entries := by
  let listed := sets.entries.mergeSort fun a b => decide (a.1 ≤ b.1)
  have sorted : listed.Perm sets.entries := List.mergeSort_perm _ _
  have fields : sets.toJson.fields? =
      some (listed.map fun entry => (entry.1, entry.2.toJson)) :=
    congrArg some (List.map_mergeSort (by intros; rfl)).symm
  have values : (listed.map fun entry => (entry.1, entry.2.toJson)).mapM (fun field =>
      (SymbolSet.ofJson? field.2).map fun set => (field.1, set)) = some listed := by
    simp only [List.mapM_map, Function.comp_def, SymbolSet.ofJson?_toJson, Option.map_some]
    exact List.mapM_pure.trans (congrArg some (List.map_id listed))
  refine ⟨ofList listed, ?_, ?_⟩
  · rw [ofJson?, fields, Option.bind_eq_bind, Option.bind_some, values]
    rfl
  · rwa [entries_ofList ((sorted.map Prod.fst).nodup_iff.2 sets.nodup)]

theorem toJson_injective : Function.Injective OrderedMap.toJson := by
  intro a b same
  rw [toJson, toJson, Json.object.injEq] at same
  apply ext
  refine List.map_injective_iff.2 ?_ same
  intro x y equal
  simp only [Prod.mk.injEq] at equal
  exact Prod.ext equal.1 (SymbolSet.toJson_injective equal.2)

end OrderedMap

namespace Tables

theorem reads_toJson (tables : Tables) : tables.toJson.Reads := by
  apply Json.reads_object
  simp [OrderedMap.reads_toJson]

theorem ofJson?_toJson (tables : Tables) :
    ∃ read, ofJson? tables.toJson = some read ∧ read.agrees tables = true := by
  obtain ⟨first, firstRead, firstSame⟩ := tables.first.ofJson?_toJson
  obtain ⟨follow, followRead, followSame⟩ := tables.follow.ofJson?_toJson
  refine ⟨⟨first, follow⟩, ?_, ?_⟩
  · simp [toJson, ofJson?, Json.record?_object, firstRead, followRead]
  · rw [agrees, OrderedMap.agrees_of_perm firstSame, OrderedMap.agrees_of_perm followSame]
    rfl

theorem toJson_injective : Function.Injective Tables.toJson := by
  intro a b same
  simp only [toJson, Json.object.injEq, List.cons.injEq, Prod.mk.injEq, true_and, and_true] at same
  have first := OrderedMap.toJson_injective same.1
  have follow := OrderedMap.toJson_injective same.2
  cases a
  cases b
  rw [Tables.mk.injEq]
  exact ⟨first, follow⟩

end Tables

def Production.read? (text : String) : Option Production :=
  (Json.read? text).bind Production.ofJson?

def Tables.read? (text : String) : Option Tables := (Json.read? text).bind Tables.ofJson?

theorem Production.read?_render_toJson (production : Production) :
    read? production.toJson.render = some production := by
  rw [read?, Json.read?_render production.reads_toJson, Option.bind_some, production.ofJson?_toJson]

theorem serialization_faithful :
    (∀ production : Production, Production.read? production.toJson.render = some production) ∧
    (∀ tables : Tables, ∃ read,
      Tables.read? tables.toJson.render = some read ∧ read.agrees tables = true) ∧
    (Function.Injective fun production : Production => production.toJson.render) ∧
    Function.Injective fun tables : Tables => tables.toJson.render := by
  refine ⟨Production.read?_render_toJson, fun tables => ?_,
    injective_of_read Production.read?_render_toJson, fun a b same => ?_⟩
  · rw [Tables.read?, Json.read?_render tables.reads_toJson, Option.bind_some]
    exact tables.ofJson?_toJson
  · exact Tables.toJson_injective (Json.eq_of_render_eq a.reads_toJson b.reads_toJson same)

end Lookahead
