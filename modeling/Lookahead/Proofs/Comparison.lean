import Lookahead.Proofs.First
import Mathlib.Data.List.Perm.Subperm

set_option autoImplicit false

namespace Lookahead

namespace OrderedMap

variable {α : Type}

theorem get?_eq_some_iff (map : OrderedMap α) (key : String) (value : α) :
    map.get? key = some value ↔ (key, value) ∈ map.entries := by
  obtain ⟨entries, nodup⟩ := map
  simp only [get?]
  induction entries with
  | nil => simp
  | cons entry rest ih =>
    obtain ⟨k, v⟩ := entry
    rw [List.map_cons, List.nodup_cons] at nodup
    rw [lookup_cons, List.mem_cons]
    split
    next same =>
      subst same
      have absent : (key, value) ∉ rest := fun member =>
        nodup.1 (List.mem_map.2 ⟨_, member, rfl⟩)
      simp [absent, eq_comm]
    next different => simp [different, ih nodup.2]

theorem get?_eq_none_iff (map : OrderedMap α) (key : String) :
    map.get? key = none ↔ key ∉ map.keys := by
  rw [← contains_iff, contains, Option.isSome_iff_ne_none, not_not]

@[simp] theorem get?_map {β : Type} (f : α → β) (map : OrderedMap α) (key : String) :
    (map.map f).get? key = (map.get? key).map f := by
  obtain ⟨entries, nodup⟩ := map
  simp only [get?, OrderedMap.map]
  clear nodup
  induction entries with
  | nil => rfl
  | cons entry rest ih =>
    obtain ⟨k, v⟩ := entry
    rw [List.map_cons, lookup_cons, lookup_cons, ih]
    split <;> rfl

theorem agrees_iff [BEq α] [LawfulBEq α] (a b : OrderedMap α) :
    a.agrees b = true ↔ ∀ key, a.get? key = b.get? key := by
  simp only [agrees, Bool.and_eq_true, beq_iff_eq, List.all_eq_true]
  constructor
  · rintro ⟨length, held⟩ key
    have included : a.keys ⊆ b.keys := by
      intro key member
      obtain ⟨⟨k, value⟩, inside, rfl⟩ := List.mem_map.1 member
      have there := held _ inside
      exact Decidable.byContradiction fun absent => by
        rw [(b.get?_eq_none_iff k).2 absent] at there
        cases there
    -- As many keys, all different, and all among those of the other: the same keys.
    have equal : a.keys.Perm b.keys := by
      apply (a.nodup.subperm included).perm_of_length_le
      simp [keys, length]
    cases found : a.get? key with
    | some value => exact (held _ ((a.get?_eq_some_iff key value).1 found)).symm
    | none =>
      rw [get?_eq_none_iff, equal.mem_iff] at found
      exact ((b.get?_eq_none_iff key).2 found).symm
  · intro same
    have equal : a.keys.Perm b.keys := by
      refine (List.perm_ext_iff_of_nodup a.nodup b.nodup).2 fun key => ?_
      change key ∈ a.keys ↔ key ∈ b.keys
      rw [← not_iff_not, ← get?_eq_none_iff, ← get?_eq_none_iff, same]
    refine ⟨by simpa [keys] using equal.length_eq, fun entry member => ?_⟩
    rw [← same, (a.get?_eq_some_iff entry.1 entry.2).2 member]

end OrderedMap

theorem SymbolSet.option_ext {a b : Option SymbolSet} (there : a.isSome = b.isSome)
    (same : ∀ name, (∃ set, a = some set ∧ name ∈ set) ↔ ∃ set, b = some set ∧ name ∈ set) :
    a = b := by
  cases a with
  | none => cases b with
    | none => rfl
    | some other => cases there
  | some set => cases b with
    | none => cases there
    | some other =>
      simp only [Option.some.injEq, exists_eq_left'] at same
      rw [SymbolSet.ext same]

namespace Grammar

variable {grammar small large a b : Grammar} {first follow : String → String → Prop}

theorem Satisfied.restrict (satisfied : large.Satisfied first follow)
    (included : ∀ production ∈ small.productions, production ∈ large.productions)
    (terminals : ∀ symbol, small.kind symbol = .terminal → large.kind symbol = .terminal)
    (ends : follow small.start endMarker) : small.Satisfied first follow := by
  have nonterminal {symbol : String} (known : small.isNonterminal symbol = true) :
      large.isNonterminal symbol = true := by
    obtain ⟨production, member, same⟩ := (small.isNonterminal_iff symbol).1 known
    exact (large.isNonterminal_iff symbol).2 ⟨production, included production member, same⟩
  exact
    { terminal := fun symbol terminal => satisfied.terminal symbol (terminals symbol terminal)
      begins := fun production member => satisfied.begins production (included production member)
      vanishes := fun production member =>
        satisfied.vanishes production (included production member)
      ends := ends
      adjacent := fun production member before previous symbol after split known =>
        satisfied.adjacent production (included production member) before previous symbol after
          split (nonterminal known)
      trailing := fun production member before symbol after split known later =>
        satisfied.trailing production (included production member) before symbol after split
          (nonterminal known) fun other inside =>
            ⟨nonterminal (later other inside).1, (later other inside).2⟩ }

theorem Satisfied.with_end (satisfied : grammar.Satisfied first follow) :
    grammar.Satisfied first fun symbol name => follow symbol name ∨ name = endMarker where
  terminal := satisfied.terminal
  begins := satisfied.begins
  vanishes := satisfied.vanishes
  ends := Or.inr rfl
  adjacent production member before previous symbol after split nonterminal name begins named :=
    Or.inl (satisfied.adjacent production member before previous symbol after split nonterminal
      name begins named)
  trailing production member before symbol after split nonterminal later name :=
    Or.imp_left (satisfied.trailing production member before symbol after split nonterminal later
      name)

def SameProductions (a b : Grammar) : Prop :=
  ∀ production, production ∈ a.productions ↔ production ∈ b.productions

theorem SameProductions.symm (same : a.SameProductions b) : b.SameProductions a :=
  fun production => (same production).symm

theorem SameProductions.occurs (same : a.SameProductions b) (name : String) :
    a.occurs name = b.occurs name := by
  rw [Bool.eq_iff_iff, Grammar.occurs, Grammar.occurs, List.any_eq_true, List.any_eq_true]
  exact exists_congr fun production => and_congr_left' (same production)

theorem SameProductions.kind (same : a.SameProductions b) (name : String) :
    a.kind name = b.kind name := by
  have nonterminal : a.isNonterminal name = b.isNonterminal name := by
    rw [Bool.eq_iff_iff, isNonterminal_iff, isNonterminal_iff]
    exact exists_congr fun production => and_congr_left' (same production)
  rw [Grammar.kind, Grammar.kind, nonterminal, same.occurs]

theorem SameProductions.restrict (same : a.SameProductions b)
    (satisfied : b.Satisfied first follow) (ends : follow a.start endMarker) :
    a.Satisfied first follow :=
  satisfied.restrict (fun production => (same production).1)
    (fun symbol terminal => same.kind symbol ▸ terminal) ends

theorem SameProductions.tables_within (same : a.SameProductions b) :
    (∀ symbol name, a.tables.InFirst symbol name → b.tables.InFirst symbol name) ∧
      (∀ symbol name, a.tables.InFollow symbol name →
        b.tables.InFollow symbol name ∨ name = endMarker) ∧
      (a.start = b.start →
        ∀ symbol name, a.tables.InFollow symbol name → b.tables.InFollow symbol name) := by
  have marked := Grammar.tables_within (same.restrict b.satisfied_tables.with_end (Or.inr rfl))
  refine ⟨marked.1, marked.2, fun start => ?_⟩
  have ends := b.satisfied_tables.ends
  rw [← start] at ends
  exact (Grammar.tables_within (same.restrict b.satisfied_tables ends)).2

theorem SameProductions.firstOf? (same : a.SameProductions b) (symbol : String) :
    a.tables.firstOf? symbol = b.tables.firstOf? symbol := by
  apply SymbolSet.option_ext
  · rw [(a.isSome_tables_iff symbol).1, (b.isSome_tables_iff symbol).1, same.occurs]
  · exact fun name =>
      ⟨same.tables_within.1 symbol name, same.symm.tables_within.1 symbol name⟩

theorem SameProductions.followOf?_erase (same : a.SameProductions b) (symbol : String) :
    (a.tables.followOf? symbol).map (·.erase endMarker) =
      (b.tables.followOf? symbol).map (·.erase endMarker) := by
  have member (grammar : Grammar) (name : String) :
      (∃ set, (grammar.tables.followOf? symbol).map (·.erase endMarker) = some set ∧ name ∈ set) ↔
        grammar.tables.InFollow symbol name ∧ name ≠ endMarker := by
    cases found : grammar.tables.followOf? symbol <;> simp [Tables.InFollow, found]
  apply SymbolSet.option_ext
  · rw [Option.isSome_map, Option.isSome_map, (a.isSome_tables_iff symbol).2,
      (b.isSome_tables_iff symbol).2, same.occurs]
  · intro name
    rw [member, member]
    have forward := same.tables_within.2.1 symbol name
    have backward := same.symm.tables_within.2.1 symbol name
    grind

theorem SameProductions.followOf? (same : a.SameProductions b) (start : a.start = b.start)
    (symbol : String) : a.tables.followOf? symbol = b.tables.followOf? symbol := by
  apply SymbolSet.option_ext
  · rw [(a.isSome_tables_iff symbol).2, (b.isSome_tables_iff symbol).2, same.occurs]
  · exact fun name =>
      ⟨same.tables_within.2.2 start symbol name,
        same.symm.tables_within.2.2 start.symm symbol name⟩

theorem tables_agree_of_sameProductions (same : a.SameProductions b) :
    a.tables.first.agrees b.tables.first = true ∧
      (a.tables.follow.map (·.erase endMarker)).agrees
        (b.tables.follow.map (·.erase endMarker)) = true ∧
      (a.start = b.start → a.tables.agrees b.tables = true) := by
  have first : a.tables.first.agrees b.tables.first = true :=
    (OrderedMap.agrees_iff _ _).2 same.firstOf?
  refine ⟨first, ?_, fun start => ?_⟩
  · rw [OrderedMap.agrees_iff]
    intro symbol
    rw [OrderedMap.get?_map, OrderedMap.get?_map]
    exact same.followOf?_erase symbol
  · rw [Tables.agrees, first, Bool.true_and, OrderedMap.agrees_iff]
    exact same.followOf? start

def turned : Grammar :=
  ofPlain [⟨"B", []⟩, ⟨"S", ["B", "a"]⟩, ⟨"B", ["S", "c"]⟩, ⟨"S", ["B", "a"]⟩]
    (by decide) (by decide) (by decide)

def repeated : Grammar :=
  ofPlain [⟨"S", ["B", "a"]⟩, ⟨"B", []⟩, ⟨"B", ["S", "c"]⟩, ⟨"B", []⟩]
    (by decide) (by decide) (by decide)

theorem tables_agree_of_sameProductions_cyclic :
    cyclic.SameProductions turned ∧ cyclic.start ≠ turned.start ∧
      cyclic.tables.first.agrees turned.tables.first = true ∧
      cyclic.SameProductions repeated ∧ cyclic.start = repeated.start ∧
      cyclic.tables.agrees repeated.tables = true := by
  have other : cyclic.SameProductions turned := by
    intro production
    simp only [cyclic, turned, ofPlain, List.mem_cons, List.not_mem_nil]
    grind
  have same : cyclic.SameProductions repeated := by
    intro production
    simp only [cyclic, repeated, ofPlain, List.mem_cons, List.not_mem_nil]
    grind
  have start : cyclic.start = repeated.start := rfl
  exact ⟨other, by decide, (tables_agree_of_sameProductions other).1, same, start,
    (tables_agree_of_sameProductions same).2.2 start⟩

end Grammar

end Lookahead
