import Lookahead.Proofs.Run

set_option autoImplicit false

namespace Lookahead

theorem OrderedMap.get?_ofList {α : Type} {pairs : List (String × α)} (value : String → α)
    (valued : ∀ pair ∈ pairs, pair.2 = value pair.1) (key : String) :
    (OrderedMap.ofList pairs).get? key =
      if key ∈ pairs.map Prod.fst then some (value key) else none := by
  have fold (map : OrderedMap α) :
      (pairs.foldl (fun map pair => map.insert pair.1 pair.2) map).get? key =
        if key ∈ pairs.map Prod.fst then some (value key) else map.get? key := by
    induction pairs generalizing map with
    | nil => simp
    | cons pair rest ih =>
      obtain ⟨k, v⟩ := pair
      have here : v = value k := valued (k, v) List.mem_cons_self
      rw [List.foldl_cons, ih fun other member => valued other (List.mem_cons_of_mem _ member)]
      by_cases later : key ∈ rest.map Prod.fst
      next => simp [later]
      next =>
        by_cases same : key = k
        next => simp [same, here]
        next => simp [later, same]
  exact fold OrderedMap.empty

theorem OrderedMap.place_of_not_mem {α : Type} {key : String} (update : Option α → α)
    {entries : List (String × α)} (absent : key ∉ entries.map Prod.fst) :
    OrderedMap.place key update entries = entries ++ [(key, update none)] := by
  induction entries with
  | nil => rfl
  | cons entry rest ih =>
    obtain ⟨k, value⟩ := entry
    rw [List.map_cons, List.mem_cons, not_or] at absent
    simp [place, Ne.symm absent.1, ih absent.2]

theorem OrderedMap.entries_ofList {α : Type} {pairs : List (String × α)}
    (distinct : (pairs.map Prod.fst).Nodup) : (OrderedMap.ofList pairs).entries = pairs := by
  have fold (map : OrderedMap α) (apart : (map.keys ++ pairs.map Prod.fst).Nodup) :
      (pairs.foldl (fun map pair => map.insert pair.1 pair.2) map).entries =
        map.entries ++ pairs := by
    induction pairs generalizing map with
    | nil => simp
    | cons pair rest ih =>
      rw [List.map_cons, List.nodup_cons] at distinct
      have absent : pair.1 ∉ map.keys := fun member =>
        (List.nodup_append.1 apart).2.2 _ member _ List.mem_cons_self rfl
      have placed : (map.insert pair.1 pair.2).entries = map.entries ++ [pair] :=
        place_of_not_mem _ absent
      rw [List.foldl_cons, ih distinct.2, placed, List.append_assoc, List.singleton_append]
      simpa [keys, placed] using apart
  exact fold OrderedMap.empty distinct

namespace Grammar

variable {grammar : Grammar}

theorem mem_symbols_iff {number : Nat} :
    number ∈ grammar.numbered.symbols ↔
      number < grammar.numbered.size ∧ grammar.occurs (grammar.numbered.name number) = true := by
  simp only [NumberedGrammar.symbols, List.mem_filter, List.mem_range, bne_iff_ne]
  refine and_congr_right fun inside => ?_
  have kind := kind_number (name_mem inside)
  rw [number_name inside] at kind
  rw [kind, ne_eq, kind_eq_marker_iff, Bool.not_eq_false]

theorem mem_names_iff (grammar : Grammar) (name : String) :
    name ∈ grammar.numbered.symbols.map grammar.numbered.name ↔ grammar.occurs name = true := by
  rw [List.mem_map]
  constructor
  · rintro ⟨number, member, rfl⟩
    exact (mem_symbols_iff.1 member).2
  · intro occurs
    have member := mem_numbering_of_occurrence ((grammar.occurs_iff name).1 occurs)
    refine ⟨grammar.number name, mem_symbols_iff.2 ⟨number_lt member, ?_⟩, name_number member⟩
    rwa [name_number member]

theorem get?_symbolSets (grammar : Grammar) (sets : Nat → BitSet) (symbol : String) :
    (Solver.symbolSets grammar.numbered sets).get? symbol =
      if grammar.occurs symbol = true then
        some (SymbolSet.ofList
          ((sets (grammar.number symbol)).toList.map grammar.numbered.name))
      else none := by
  have valued : ∀ pair ∈ grammar.numbered.symbols.map (fun number =>
      (grammar.numbered.name number,
        SymbolSet.ofList ((sets number).toList.map grammar.numbered.name))),
      pair.2 = SymbolSet.ofList
        ((sets (grammar.number pair.1)).toList.map grammar.numbered.name) := by
    intro pair member
    obtain ⟨number, listed, rfl⟩ := List.mem_map.1 member
    simp only [number_name (mem_symbols_iff.1 listed).1]
  rw [Solver.symbolSets, OrderedMap.get?_ofList (fun name =>
    SymbolSet.ofList ((sets (grammar.number name)).toList.map grammar.numbered.name)) valued]
  simp only [List.map_map, Function.comp_def, ← mem_names_iff]

theorem mem_names_of_inside {set : BitSet}
    (inside : ∀ number, set.contains number = true → number < grammar.numbered.size)
    (name : String) :
    name ∈ SymbolSet.ofList (set.toList.map grammar.numbered.name) ↔
      name ∈ grammar.numbering ∧ set.contains (grammar.number name) = true := by
  rw [SymbolSet.mem_ofList, List.mem_map]
  constructor
  · rintro ⟨number, member, rfl⟩
    have contained := BitSet.mem_toList.1 member
    exact ⟨name_mem (inside number contained), by rwa [number_name (inside number contained)]⟩
  · rintro ⟨member, contained⟩
    exact ⟨_, BitSet.mem_toList.2 contained, name_number member⟩

end Grammar

namespace Solver

theorem inside_setOf_run (grammar : Grammar) (count : Nat) (family : Family) (symbol : Nat) :
    ∀ name, (((ofGrammar grammar).run count).estimate.setOf family symbol).contains name = true →
      name < grammar.numbered.size := by
  have within := within_run grammar.valid_numbered.closed_inside count
  cases family with
  | first => exact within.begins symbol
  | follow => exact within.follows symbol

theorem get?_sets_run (grammar : Grammar) (count : Nat) (family : Family) (symbol : String) :
    (((ofGrammar grammar).run count).tables.sets family).get? symbol =
      if grammar.occurs symbol = true then
        some (SymbolSet.ofList
          ((((ofGrammar grammar).run count).estimate.setOf family (grammar.number symbol)).toList.map
            grammar.numbered.name))
      else none := by
  rw [sets_tables, grammar_run]
  exact grammar.get?_symbolSets _ symbol

theorem mem_sets_run_iff (grammar : Grammar) (count : Nat) (family : Family)
    (symbol name : String) :
    (∃ set, (((ofGrammar grammar).run count).tables.sets family).get? symbol = some set ∧
        name ∈ set) ↔
      grammar.occurs symbol = true ∧ name ∈ grammar.numbering ∧
        (((ofGrammar grammar).run count).estimate.setOf family (grammar.number symbol)).contains
          (grammar.number name) = true := by
  have inside := inside_setOf_run grammar count family (grammar.number symbol)
  rw [get?_sets_run]
  by_cases occurs : grammar.occurs symbol = true
  next =>
    simp only [occurs, if_true, Option.some.injEq, exists_eq_left', true_and]
    exact Grammar.mem_names_of_inside inside name
  next => simp [occurs]

theorem inFirst_run_iff (grammar : Grammar) (count : Nat) (symbol name : String) :
    ((ofGrammar grammar).run count).tables.InFirst symbol name ↔
      grammar.occurs symbol = true ∧ name ∈ grammar.numbering ∧
        ((ofGrammar grammar).run count).estimate.Begins (grammar.number symbol)
          (grammar.number name) :=
  mem_sets_run_iff grammar count .first symbol name

theorem inFollow_run_iff (grammar : Grammar) (count : Nat) (symbol name : String) :
    ((ofGrammar grammar).run count).tables.InFollow symbol name ↔
      grammar.occurs symbol = true ∧ name ∈ grammar.numbering ∧
        ((ofGrammar grammar).run count).estimate.Follows (grammar.number symbol)
          (grammar.number name) :=
  mem_sets_run_iff grammar count .follow symbol name

end Solver

end Lookahead
