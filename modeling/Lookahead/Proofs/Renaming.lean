import Lookahead.Proofs.Acceptance
import Lookahead.Proofs.Contents
import Lookahead.Proofs.Interning
import Mathlib.Data.List.Induction
import Mathlib.Logic.Equiv.Basic

set_option autoImplicit false

namespace Lookahead

theorem eraseDups_map {shown : String → String} {names : List String}
    (apart : ∀ a ∈ names, ∀ b ∈ names, shown a = shown b → a = b) :
    (names.map shown).eraseDups = names.eraseDups.map shown := by
  induction names using List.reverseRecOn with
  | nil => rfl
  | append_singleton before name ih =>
    have last : name ∈ before ++ [name] := by simp
    have earlier : ∀ other ∈ before, other ∈ before ++ [name] := by simp_all
    have known : shown name ∈ before.map shown ↔ name ∈ before := by
      constructor
      · intro member
        obtain ⟨other, inside, same⟩ := List.mem_map.1 member
        exact apart other (earlier other inside) name last same ▸ inside
      · exact List.mem_map_of_mem
    have next := ih fun a left b right => apart a (earlier a left) b (earlier b right)
    rw [List.map_append, List.map_singleton, eraseDups_concat, eraseDups_concat, next]
    simp only [known]
    split <;> simp

def Production.rename (newName : String → String) (production : Production) : Production where
  symbol := newName production.symbol
  derivation := production.derivation.map newName

def renameMember (newName : String → String) (name : String) : String :=
  if name = epsilon then epsilon else newName name

def SymbolSet.rename (newName : String → String) (set : SymbolSet) : SymbolSet :=
  SymbolSet.ofList (set.toList.map (renameMember newName))

theorem SymbolSet.rename_ofList (newName : String → String) (names : List String) :
    (SymbolSet.ofList names).rename newName =
      SymbolSet.ofList (names.map (renameMember newName)) := by
  apply SymbolSet.ext
  intro name
  simp only [SymbolSet.rename, mem_ofList, List.mem_map, mem_toList]

def OrderedMap.rename {newName : String → String} (injective : Function.Injective newName)
    (sets : OrderedMap SymbolSet) : OrderedMap SymbolSet where
  entries := sets.entries.map fun (symbol, set) => (newName symbol, set.rename newName)
  nodup := by
    have names := sets.nodup.map injective
    simpa [List.map_map, Function.comp_def] using names

@[simp] theorem OrderedMap.entries_rename {newName : String → String}
    (injective : Function.Injective newName) (sets : OrderedMap SymbolSet) :
    (sets.rename injective).entries =
      sets.entries.map fun (symbol, set) => (newName symbol, set.rename newName) :=
  rfl

def Tables.rename {newName : String → String} (injective : Function.Injective newName)
    (tables : Tables) : Tables where
  first := tables.first.rename injective
  follow := tables.follow.rename injective

def NumberedGrammar.withNames (grammar : NumberedGrammar) (names : Array String) :
    NumberedGrammar :=
  { grammar with names }

namespace Estimate

variable (grammar : NumberedGrammar) (names : Array String) (estimate : Estimate)

theorem initial_withNames (size : names.size = grammar.size) :
    initial (grammar.withNames names) = initial grammar := by
  have same : (grammar.withNames names).size = grammar.size := size
  rw [initial, same]
  rfl

theorem trail_withNames (follows : BitSet) (symbols : List Nat) :
    trail (grammar.withNames names) follows estimate symbols =
      trail grammar follows estimate symbols := by
  induction symbols generalizing estimate with
  | nil => rfl
  | cons symbol before ih =>
    simp only [trail, ih]
    rfl

theorem applyRule_withNames (rule : NumberedRule) :
    applyRule (grammar.withNames names) estimate rule = applyRule grammar estimate rule := by
  simp only [applyRule, trail_withNames]
  rfl

theorem sweep_withNames : estimate.sweep (grammar.withNames names) = estimate.sweep grammar := by
  have each : applyRule (grammar.withNames names) = applyRule grammar := by
    funext estimate rule
    exact applyRule_withNames grammar names estimate rule
  rw [sweep, sweep, each]
  rfl

end Estimate

namespace Solver

variable (solver : Solver) (names : Array String)

def withNames : Solver := { solver with grammar := solver.grammar.withNames names }

theorem pass_withNames : (solver.withNames names).pass = solver.pass.withNames names := by
  have swept := Estimate.sweep_withNames solver.grammar names solver.estimate
  simp only [pass, withNames, swept]

theorem run_withNames (count : Nat) :
    (solver.withNames names).run count = (solver.run count).withNames names := by
  induction count with
  | zero => rfl
  | succ count ih => rw [run_succ, run_succ, ih, pass_withNames]

theorem settle_withNames : (solver.withNames names).settle = solver.settle.withNames names := by
  fun_induction settle solver with
  | case1 solver next grown ih =>
    rw [settle, pass_withNames]
    exact (dif_pos grown).trans ih
  | case2 solver next still =>
    rw [settle, pass_withNames]
    exact dif_neg still

end Solver

namespace Grammar

theorem epsilon_not_mem (grammar : Grammar) : epsilon ∉ grammar.occurrences := by
  rw [← occurs_iff, occurs_epsilon]
  decide

structure Renames (newName : String → String) (grammar renamed : Grammar) : Prop where
  injective : Function.Injective newName
  marker : newName endMarker = endMarker
  productions : renamed.productions = grammar.productions.map (Production.rename newName)

namespace Renames

variable {newName : String → String} {grammar renamed : Grammar} {a b : String}

theorem renameMember_of_occurs (occurs : a ∈ grammar.occurrences) :
    renameMember newName a = newName a :=
  if_neg (ne_of_mem_of_not_mem occurs grammar.epsilon_not_mem)

theorem occurrences (renames : Renames newName grammar renamed) :
    renamed.occurrences = grammar.occurrences.map newName := by
  simp [Grammar.occurrences, renames.productions, List.flatMap_map, List.map_flatMap,
    Production.rename]

theorem occurrences_eq_renameMember (renames : Renames newName grammar renamed) :
    renamed.occurrences = grammar.occurrences.map (renameMember newName) := by
  rw [renames.occurrences]
  exact List.map_congr_left fun name occurs => (renameMember_of_occurs occurs).symm

theorem renameMember_ne (renames : Renames newName grammar renamed)
    (member : a ∈ grammar.numbering) (named : a ≠ epsilon) :
    renameMember newName a ≠ epsilon := by
  rcases (grammar.mem_numbering a).1 member with vanishes | rfl | occurs
  · exact absurd vanishes named
  · rw [renameMember, if_neg named, renames.marker]
    exact named
  · have shown : renameMember newName a ∈ renamed.occurrences := by
      rw [renames.occurrences_eq_renameMember]
      exact List.mem_map_of_mem occurs
    exact ne_of_mem_of_not_mem shown renamed.epsilon_not_mem

-- Only names with a number stay apart: one that no rule mentions may well become the epsilon.
theorem renameMember_inj (renames : Renames newName grammar renamed)
    (left : a ∈ grammar.numbering) (right : b ∈ grammar.numbering) :
    renameMember newName a = renameMember newName b ↔ a = b := by
  refine ⟨fun same => ?_, fun same => same ▸ rfl⟩
  by_cases first : a = epsilon <;> by_cases second : b = epsilon
  · rw [first, second]
  · exact absurd (same.symm.trans (if_pos first)) (renames.renameMember_ne right second)
  · exact absurd (same.trans (if_pos second)) (renames.renameMember_ne left first)
  · rw [renameMember, renameMember, if_neg first, if_neg second] at same
    exact renames.injective same

theorem numbering (renames : Renames newName grammar renamed) :
    renamed.numbering = grammar.numbering.map (renameMember newName) := by
  have written : epsilon :: endMarker :: renamed.occurrences =
      (epsilon :: endMarker :: grammar.occurrences).map (renameMember newName) := by
    rw [renames.occurrences_eq_renameMember]
    simp [renameMember, renames.marker]
  rw [Grammar.numbering, written, Grammar.numbering, eraseDups_map]
  intro a left b right
  apply (renames.renameMember_inj ?_ ?_).1
  · rwa [Grammar.numbering, List.mem_eraseDups]
  · rwa [Grammar.numbering, List.mem_eraseDups]

theorem name_numbered (renames : Renames newName grammar renamed) (number : Nat) :
    renamed.numbered.name number = renameMember newName (grammar.numbered.name number) := by
  have epsilon : renameMember newName epsilon = epsilon := if_pos rfl
  by_cases inside : number < grammar.numbering.length <;>
    simp [NumberedGrammar.name, numbered, renames.numbering, inside, epsilon]

theorem size_numbered (renames : Renames newName grammar renamed) :
    renamed.numbered.size = grammar.numbered.size := by
  simp [Grammar.size_numbered, renames.numbering]

theorem number (renames : Renames newName grammar renamed) (member : a ∈ grammar.numbering) :
    renamed.number (renameMember newName a) = grammar.number a := by
  have inside : grammar.number a < renamed.numbered.size := by
    rw [renames.size_numbered]
    exact number_lt member
  rw [← name_number member, ← renames.name_numbered, number_name inside, name_number member]

theorem isNonterminal (renames : Renames newName grammar renamed)
    (member : a ∈ grammar.numbering) :
    renamed.isNonterminal (renameMember newName a) = grammar.isNonterminal a := by
  rw [Bool.eq_iff_iff, isNonterminal_iff, isNonterminal_iff, renames.productions]
  simp only [List.mem_map, exists_exists_and_eq_and]
  refine exists_congr fun production => and_congr_right fun known => ?_
  rw [← renames.renameMember_inj (symbol_mem known) member,
    renameMember_of_occurs (symbol_mem_occurrences known)]
  rfl

theorem occurs (renames : Renames newName grammar renamed) (member : a ∈ grammar.numbering) :
    renamed.occurs (renameMember newName a) = grammar.occurs a := by
  rw [Bool.eq_iff_iff, occurs_iff, occurs_iff, renames.occurrences_eq_renameMember, List.mem_map]
  constructor
  · rintro ⟨b, written, same⟩
    rw [renames.renameMember_inj (mem_numbering_of_occurrence written) member] at same
    exact same ▸ written
  · intro written
    exact ⟨a, written, rfl⟩

theorem number_newName (renames : Renames newName grammar renamed)
    (occurs : a ∈ grammar.occurrences) : renamed.number (newName a) = grammar.number a := by
  have shown : renameMember newName a = newName a := renameMember_of_occurs occurs
  rw [← shown, renames.number (mem_numbering_of_occurrence occurs)]

theorem numberedRule (renames : Renames newName grammar renamed) {production : Production}
    (member : production ∈ grammar.productions) :
    renamed.numberedRule (production.rename newName) = grammar.numberedRule production := by
  have left := renames.number_newName (symbol_mem_occurrences member)
  have right : ∀ name ∈ production.derivation,
      renamed.number (newName name) = grammar.number name :=
    fun name inside => renames.number_newName (mem_occurrences_of_mem member inside)
  simpa [Grammar.numberedRule, Production.rename, left] using right

theorem start (renames : Renames newName grammar renamed) :
    renamed.start = newName grammar.start := by
  simp [Grammar.start, renames.productions, Production.rename]

theorem numbered (renames : Renames newName grammar renamed) :
    renamed.numbered = grammar.numbered.withNames
      (grammar.numbered.names.map (renameMember newName)) := by
  have names : renamed.numbered.names = grammar.numbered.names.map (renameMember newName) := by
    simp [Grammar.numbered, renames.numbering]
  have kinds : renamed.numbered.kinds = grammar.numbered.kinds := by
    have each : ∀ name ∈ grammar.numbering,
        renamed.kind (renameMember newName name) = grammar.kind name := by
      intro name member
      rw [Grammar.kind, Grammar.kind, renames.isNonterminal member, renames.occurs member]
    simpa [Grammar.numbered, renames.numbering] using each
  have start : renamed.numbered.start = grammar.numbered.start := by
    rw [start_numbered, start_numbered, renames.start]
    exact renames.number_newName (symbol_mem_occurrences (List.head_mem grammar.nonempty))
  have rules : renamed.numbered.rules = grammar.numbered.rules := by
    rw [rules_numbered, rules_numbered, renames.productions, List.map_map]
    exact List.map_congr_left fun production member => renames.numberedRule member
  rw [NumberedGrammar.withNames, ← names, ← kinds, ← start, ← rules]

theorem ofGrammar (renames : Renames newName grammar renamed) :
    Solver.ofGrammar renamed = (Solver.ofGrammar grammar).withNames
      (grammar.numbered.names.map (renameMember newName)) := by
  rw [Solver.ofGrammar, renames.numbered, Estimate.initial_withNames]
  · rfl
  · simp [NumberedGrammar.size]

theorem symbolSets (renames : Renames newName grammar renamed) (sets : Nat → BitSet) :
    Solver.symbolSets renamed.numbered sets =
      (Solver.symbolSets grammar.numbered sets).rename renames.injective := by
  have symbols : renamed.numbered.symbols = grammar.numbered.symbols := by
    rw [NumberedGrammar.symbols, renames.size_numbered, renames.numbered]
    rfl
  apply OrderedMap.ext
  rw [OrderedMap.entries_rename, entries_symbolSets, entries_symbolSets, symbols, List.map_map]
  apply List.map_congr_left
  intro number known
  have occurs := (grammar.occurs_iff _).1 (mem_symbols_iff.1 known).2
  have key : renamed.numbered.name number = newName (grammar.numbered.name number) := by
    rw [renames.name_numbered, renameMember_of_occurs occurs]
  have names : renamed.numbered.name = renameMember newName ∘ grammar.numbered.name :=
    funext renames.name_numbered
  simp [key, names, SymbolSet.rename_ofList]

theorem tables_withNames (renames : Renames newName grammar renamed) {solver : Solver}
    (own : solver.grammar = grammar.numbered) :
    (solver.withNames (grammar.numbered.names.map (renameMember newName))).tables =
      solver.tables.rename renames.injective := by
  have first := renames.symbolSets (solver.estimate.setOf .first)
  have follow := renames.symbolSets (solver.estimate.setOf .follow)
  rw [renames.numbered, ← own] at first follow
  rw [Tables.rename, Solver.tables, ← own, Solver.withNames, first, follow]
  rfl

theorem tables_run (renames : Renames newName grammar renamed) (passes : Nat) :
    ((Solver.ofGrammar renamed).run passes).tables =
      ((Solver.ofGrammar grammar).run passes).tables.rename renames.injective := by
  have own : ((Solver.ofGrammar grammar).run passes).grammar = grammar.numbered :=
    Solver.grammar_run _ passes
  rw [renames.ofGrammar, Solver.run_withNames, renames.tables_withNames own]

theorem exists_settle (renames : Renames newName grammar renamed) :
    ∃ count, (Solver.ofGrammar grammar).settle = (Solver.ofGrammar grammar).run count ∧
      (Solver.ofGrammar renamed).settle = (Solver.ofGrammar renamed).run count := by
  obtain ⟨count, settled, _⟩ := Solver.settle_eq_run (Solver.ofGrammar grammar)
  refine ⟨count + 1, settled, ?_⟩
  rw [renames.ofGrammar, Solver.settle_withNames, settled, Solver.run_withNames]

theorem tables (renames : Renames newName grammar renamed) :
    renamed.tables = grammar.tables.rename renames.injective := by
  obtain ⟨count, settled, alike⟩ := renames.exists_settle
  rw [Grammar.tables, alike, renames.tables_run, ← settled, Grammar.tables]

theorem passes (renames : Renames newName grammar renamed) :
    (Solver.ofGrammar renamed).settle.passes = (Solver.ofGrammar grammar).settle.passes := by
  obtain ⟨count, settled, alike⟩ := renames.exists_settle
  rw [settled, alike, Solver.passes_run, Solver.passes_run]
  rfl

end Renames

theorem exists_renames {grammar : Grammar} {newName : String → String}
    (injective : Function.Injective newName) (marker : newName endMarker = endMarker)
    (named : ∀ production ∈ grammar.productions, isSymbolName (newName production.symbol) = true)
    (plain : ∀ production ∈ grammar.productions, ∀ name ∈ production.derivation,
      isEpsilonName (newName name) = false) :
    ∃ renamed, ofProductions (grammar.productions.map (Production.rename newName)) = .ok renamed ∧
      Renames newName grammar renamed := by
  have nonempty : grammar.productions.map (Production.rename newName) ≠ [] := by
    simpa using grammar.nonempty
  have symbols : ∀ production ∈ grammar.productions.map (Production.rename newName),
      isSymbolName production.symbol = true := by
    simpa [Production.rename] using named
  have unchanged : ∀ production ∈ grammar.productions.map (Production.rename newName),
      production.withoutEpsilon = production := by
    intro production member
    obtain ⟨source, known, rfl⟩ := List.mem_map.1 member
    apply Production.withoutEpsilon_eq_self
    simpa [Production.rename] using plain source known
  obtain ⟨renamed, made, kept⟩ := ofProductions_of_plain nonempty symbols unchanged
  exact ⟨renamed, made, injective, marker, kept⟩

theorem tables_rename (grammar : Grammar) (newName : String → String)
    (injective : Function.Injective newName) (marker : newName endMarker = endMarker)
    (named : ∀ production ∈ grammar.productions, isSymbolName (newName production.symbol) = true)
    (plain : ∀ production ∈ grammar.productions, ∀ name ∈ production.derivation,
      isEpsilonName (newName name) = false) :
    ∃ renamed,
      ofProductions (grammar.productions.map (Production.rename newName)) = .ok renamed ∧
      renamed.productions = grammar.productions.map (Production.rename newName) ∧
      renamed.tables = grammar.tables.rename injective ∧
      (Solver.ofGrammar renamed).settle.passes = (Solver.ofGrammar grammar).settle.passes := by
  obtain ⟨renamed, made, renames⟩ := exists_renames injective marker named plain
  exact ⟨renamed, made, renames.productions, renames.tables, renames.passes⟩

theorem tables_rename_cyclic :
    let newName := Equiv.swap "S" "a"
    newName "S" = "a" ∧ newName "a" = "S" ∧
    ∃ renamed,
      ofProductions [⟨"a", ["B", "S"]⟩, ⟨"B", ["a", "c"]⟩, ⟨"B", []⟩] = .ok renamed ∧
      renamed.tables = cyclic.tables.rename newName.injective ∧
      (Solver.ofGrammar renamed).settle.passes = (Solver.ofGrammar cyclic).settle.passes := by
  intro newName
  have marker : newName endMarker = endMarker := by decide
  have named : ∀ production ∈ cyclic.productions,
      isSymbolName (newName production.symbol) = true := by decide
  have plain : ∀ production ∈ cyclic.productions, ∀ name ∈ production.derivation,
      isEpsilonName (newName name) = false := by decide
  obtain ⟨renamed, made, _, tables, passes⟩ :=
    tables_rename cyclic newName newName.injective marker named plain
  exact ⟨by decide, by decide, renamed, made, tables, passes⟩

end Grammar

end Lookahead
