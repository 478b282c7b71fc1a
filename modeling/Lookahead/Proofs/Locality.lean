import Lookahead.Proofs.Comparison

set_option autoImplicit false

namespace Lookahead.Grammar

variable {a b : Grammar} {region : String → Prop} {symbol name : String}

/-- Both grammars have the same rules for the symbols of a region, and these do not lead out of
it. All other rules, and the start symbols, may be different. -/
structure SameWithin (a b : Grammar) (region : String → Prop) : Prop where
  rules : ∀ production, region production.symbol →
    (production ∈ a.productions ↔ production ∈ b.productions)
  closed : ∀ production ∈ a.productions, region production.symbol →
    ∀ symbol ∈ production.derivation, region symbol

theorem SameWithin.symm (same : a.SameWithin b region) : b.SameWithin a region where
  rules production inside := (same.rules production inside).symm
  closed production member inside :=
    same.closed production ((same.rules production inside).2 member) inside

theorem SameWithin.isNonterminal (same : a.SameWithin b region) (inside : region symbol) :
    a.isNonterminal symbol = b.isNonterminal symbol := by
  rw [Bool.eq_iff_iff, isNonterminal_iff, isNonterminal_iff]
  constructor
  · rintro ⟨production, member, rfl⟩
    exact ⟨production, (same.rules production inside).1 member, rfl⟩
  · rintro ⟨production, member, rfl⟩
    exact ⟨production, (same.rules production inside).2 member, rfl⟩

theorem SameWithin.kind_terminal (same : a.SameWithin b region) (inside : region symbol)
    (terminal : a.kind symbol = .terminal) (occurs : b.occurs symbol = true) :
    b.kind symbol = .terminal := by
  have other := ((a.kind_eq_terminal_iff symbol).1 terminal).1
  rw [same.isNonterminal inside] at other
  exact (b.kind_eq_terminal_iff symbol).2 ⟨other, occurs⟩

theorem SameWithin.rule (same : a.SameWithin b region) {production : Production}
    (member : production ∈ a.productions) (inside : region production.symbol) :
    production ∈ b.productions ∧
      ∀ symbol ∈ production.derivation, region symbol ∧ b.occurs symbol = true := by
  have also := (same.rules production inside).1 member
  refine ⟨also, fun symbol written => ⟨same.closed production member inside symbol written, ?_⟩⟩
  exact (b.occurs_iff symbol).2 (mem_occurrences_of_mem also written)

/-- FIRST as the one grammar has it, except that a symbol of the region begins with nothing from
outside, and, if the other grammar has that symbol, with nothing that is not in FIRST there. -/
def FirstWithin (a b : Grammar) (region : String → Prop) (symbol name : String) : Prop :=
  a.tables.InFirst symbol name ∧
    (region symbol → (name = epsilon ∨ region name) ∧
      (b.occurs symbol = true → b.tables.InFirst symbol name))

theorem FirstWithin.other (begins : a.FirstWithin b region symbol name)
    (known : region symbol ∧ b.occurs symbol = true) : b.tables.InFirst symbol name :=
  (begins.2 known.1).2 known.2

theorem SameWithin.firstWithin_terminal (same : a.SameWithin b region)
    (terminal : a.kind symbol = .terminal) : a.FirstWithin b region symbol symbol := by
  refine ⟨(a.satisfied_tables.terminal symbol terminal symbol).2 rfl, fun inside => ?_⟩
  refine ⟨Or.inr inside, fun occurs => ?_⟩
  have also := same.kind_terminal inside terminal occurs
  exact (b.satisfied_tables.terminal symbol also symbol).2 rfl

theorem SameWithin.satisfied (same : a.SameWithin b region) :
    a.Satisfied (a.FirstWithin b region) a.tables.InFollow where
  terminal symbol terminal name := by
    constructor
    · intro begins
      exact (a.satisfied_tables.terminal symbol terminal name).1 begins.1
    · rintro rfl
      exact same.firstWithin_terminal terminal
  begins production member before symbol after split vanish name begins named := by
    have here := a.satisfied_tables.begins production member before symbol after split
      (fun earlier written => (vanish earlier written).1) name begins.1 named
    refine ⟨here, fun inside => ?_⟩
    obtain ⟨also, known⟩ := same.rule member inside
    have source := known symbol (by simp [split])
    have gone : ∀ earlier ∈ before, b.tables.InFirst earlier epsilon := by
      intro earlier written
      exact (vanish earlier written).other (known earlier (by simp [split, written]))
    exact ⟨(begins.2 source.1).1, fun _ => b.satisfied_tables.begins production also before symbol
      after split gone name (begins.other source) named⟩
  vanishes production member vanish := by
    have here := a.satisfied_tables.vanishes production member fun symbol written =>
      (vanish symbol written).1
    refine ⟨here, fun inside => ⟨Or.inl rfl, fun _ => ?_⟩⟩
    obtain ⟨also, known⟩ := same.rule member inside
    exact b.satisfied_tables.vanishes production also fun symbol written =>
      (vanish symbol written).other (known symbol written)
  ends := a.satisfied_tables.ends
  adjacent production member before previous symbol after split nonterminal name begins :=
    a.satisfied_tables.adjacent production member before previous symbol after split nonterminal
      name begins.1
  trailing production member before symbol after split nonterminal later :=
    a.satisfied_tables.trailing production member before symbol after split nonterminal
      fun other written => ⟨(later other written).1, (later other written).2.1⟩

theorem SameWithin.inFirst (same : a.SameWithin b region) (inside : region symbol)
    (occurs : b.occurs symbol = true) (begins : a.tables.InFirst symbol name) :
    b.tables.InFirst symbol name ∧ (name = epsilon ∨ region name) := by
  have first := (tables_within same.satisfied).1 symbol name begins
  exact ⟨first.other ⟨inside, occurs⟩, (first.2 inside).1⟩

theorem SameWithin.firstOf? (same : a.SameWithin b region) (inside : region symbol)
    (here : a.occurs symbol = true) (there : b.occurs symbol = true) :
    a.tables.firstOf? symbol = b.tables.firstOf? symbol := by
  apply SymbolSet.option_ext
  · rw [(a.isSome_tables_iff symbol).1, (b.isSome_tables_iff symbol).1, here, there]
  · intro name
    constructor
    · intro begins
      exact (same.inFirst inside there begins).1
    · intro begins
      exact (same.symm.inFirst inside here begins).1

theorem first_of_region (same : a.SameWithin b region) (inside : region symbol) :
    a.isNonterminal symbol = b.isNonterminal symbol ∧
      (a.isNonterminal symbol = true →
        ∃ set, a.tables.firstOf? symbol = some set ∧ b.tables.firstOf? symbol = some set ∧
          (∀ name ∈ set, name = epsilon ∨ region name) ∧
          a.tables.isNullable symbol = b.tables.isNullable symbol) := by
  refine ⟨same.isNonterminal inside, fun nonterminal => ?_⟩
  have here := occurs_of_isNonterminal nonterminal
  have there := occurs_of_isNonterminal (same.isNonterminal inside ▸ nonterminal)
  have first := same.firstOf? inside here there
  obtain ⟨set, held⟩ := Option.isSome_iff_exists.1 ((a.isSome_tables_iff symbol).1.trans here)
  refine ⟨set, held, first ▸ held, fun name member => ?_, ?_⟩
  · exact (same.inFirst inside there ⟨set, held, member⟩).2
  · rw [Tables.isNullable, Tables.isNullable, first]

def embedded : Grammar :=
  ofPlain [⟨"T", ["c", "T", "S", "d"]⟩, ⟨"B", []⟩, ⟨"S", ["B", "a"]⟩, ⟨"T", []⟩, ⟨"B", ["S", "c"]⟩]
    (by decide) (by decide) (by decide)

theorem first_of_region_embedded :
    cyclic.SameWithin embedded (· ∈ ["S", "B", "a", "c"]) ∧ cyclic.start ≠ embedded.start ∧
      cyclic.isNonterminal "B" = true ∧
      ∃ set, cyclic.tables.firstOf? "B" = some set ∧ embedded.tables.firstOf? "B" = some set ∧
        (∀ name ∈ set, name = epsilon ∨ name ∈ ["S", "B", "a", "c"]) ∧
        cyclic.tables.isNullable "B" = embedded.tables.isNullable "B" := by
  have same : cyclic.SameWithin embedded (· ∈ ["S", "B", "a", "c"]) := by
    refine ⟨fun production inside => ?_, by decide⟩
    simp only [cyclic, embedded, ofPlain, List.mem_cons, List.not_mem_nil] at inside ⊢
    grind
  have nonterminal : cyclic.isNonterminal "B" = true := by decide
  exact ⟨same, by decide, nonterminal, (first_of_region same (by decide)).2 nonterminal⟩

end Lookahead.Grammar
