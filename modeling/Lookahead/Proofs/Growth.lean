import Lookahead.Proofs.Comparison

set_option autoImplicit false

namespace Lookahead

namespace OrderedMap

variable {map wider : OrderedMap SymbolSet} {symbol : String}

def GrowsAt (map wider : OrderedMap SymbolSet) (symbol : String) : Prop :=
  ∃ set larger, map.get? symbol = some set ∧ wider.get? symbol = some larger ∧
    ∀ name ∈ set, name ∈ larger

theorem growsAt_iff (here : (map.get? symbol).isSome = true)
    (there : (wider.get? symbol).isSome = true) :
    map.GrowsAt wider symbol ↔
      ∀ name, (∃ set, map.get? symbol = some set ∧ name ∈ set) →
        ∃ larger, wider.get? symbol = some larger ∧ name ∈ larger := by
  obtain ⟨set, held⟩ := Option.isSome_iff_exists.1 here
  obtain ⟨larger, holding⟩ := Option.isSome_iff_exists.1 there
  simp [GrowsAt, held, holding]

end OrderedMap

namespace Grammar

variable {large small : Grammar} {symbol : String}

structure Extends (large small : Grammar) : Prop where
  start : large.start = small.start
  productions : ∀ production ∈ small.productions, production ∈ large.productions

def KeepsTerminals (large small : Grammar) : Prop :=
  ∀ symbol, small.occurs symbol = true → large.isNonterminal symbol = true →
    small.isNonterminal symbol = true

theorem Extends.occurs (extension : large.Extends small) (occurs : small.occurs symbol = true) :
    large.occurs symbol = true := by
  simp only [Grammar.occurs, List.any_eq_true] at occurs ⊢
  obtain ⟨production, member, written⟩ := occurs
  exact ⟨production, extension.productions production member, written⟩

theorem Extends.kind_terminal (extension : large.Extends small) (keeps : large.KeepsTerminals small)
    (terminal : small.kind symbol = .terminal) : large.kind symbol = .terminal := by
  simp only [kind_eq_terminal_iff] at terminal ⊢
  have other : large.isNonterminal symbol = false := by
    by_contra nonterminal
    have known := keeps symbol terminal.2 (by simpa using nonterminal)
    simp [terminal.1] at known
  exact ⟨other, extension.occurs terminal.2⟩

theorem Extends.tables_within (extension : large.Extends small)
    (keeps : large.KeepsTerminals small) :
    (∀ symbol name, small.tables.InFirst symbol name → large.tables.InFirst symbol name) ∧
      ∀ symbol name, small.tables.InFollow symbol name → large.tables.InFollow symbol name := by
  have ends : large.tables.InFollow small.start endMarker := by
    simpa [extension.start] using large.satisfied_tables.ends
  have satisfied : small.Satisfied large.tables.InFirst large.tables.InFollow :=
    large.satisfied_tables.restrict extension.productions
      (fun _ terminal => extension.kind_terminal keeps terminal) ends
  exact Grammar.tables_within satisfied

theorem Extends.growsAt_iff (extension : large.Extends small)
    (occurs : small.occurs symbol = true) :
    (small.tables.first.GrowsAt large.tables.first symbol ↔
      ∀ name, small.tables.InFirst symbol name → large.tables.InFirst symbol name) ∧
    (small.tables.follow.GrowsAt large.tables.follow symbol ↔
      ∀ name, small.tables.InFollow symbol name → large.tables.InFollow symbol name) := by
  have here := small.isSome_tables_iff symbol
  have there := large.isSome_tables_iff symbol
  simp only [occurs, extension.occurs occurs] at here there
  exact ⟨OrderedMap.growsAt_iff here.1 there.1, OrderedMap.growsAt_iff here.2 there.2⟩

theorem not_inFirst_of_new_rules (occurs : small.occurs symbol = true)
    (terminal : small.isNonterminal symbol = false)
    (nonterminal : large.isNonterminal symbol = true) :
    small.tables.InFirst symbol symbol ∧ ¬large.tables.InFirst symbol symbol := by
  have kind : small.kind symbol = .terminal :=
    (small.kind_eq_terminal_iff symbol).2 ⟨terminal, occurs⟩
  constructor
  · simpa using small.satisfied_tables.terminal symbol kind symbol
  · intro begins
    have derived := (large.inFirst_tables_iff symbol symbol).1 begins
    have other := not_nonterminal_of_derivesFirst derived
    simp [nonterminal] at other

theorem tables_grow_with_rules (extension : large.Extends small) :
    large.KeepsTerminals small ↔
      ∀ symbol, small.occurs symbol = true →
        small.tables.first.GrowsAt large.tables.first symbol ∧
          small.tables.follow.GrowsAt large.tables.follow symbol := by
  constructor
  · intro keeps symbol occurs
    have within := extension.tables_within keeps
    constructor
    · exact (extension.growsAt_iff occurs).1.2 (within.1 symbol)
    · exact (extension.growsAt_iff occurs).2.2 (within.2 symbol)
  · intro grows symbol occurs nonterminal
    by_contra terminal
    have lost := not_inFirst_of_new_rules occurs (by simpa using terminal) nonterminal
    have kept := (extension.growsAt_iff occurs).1.1 (grows symbol occurs).1
    exact lost.2 (kept symbol lost.1)

def widened : Grammar :=
  ofPlain [⟨"S", ["B", "a"]⟩, ⟨"D", ["S", "d"]⟩, ⟨"B", ["S", "c"]⟩, ⟨"S", []⟩, ⟨"B", []⟩]
    (by decide) (by decide) (by decide)

theorem tables_grow_with_rules_cyclic :
    widened.Extends cyclic ∧ widened.KeepsTerminals cyclic ∧
      cyclic.tables.first.GrowsAt widened.tables.first "B" ∧
      cyclic.tables.follow.GrowsAt widened.tables.follow "S" := by
  have extension : widened.Extends cyclic := ⟨by decide, by decide⟩
  have listed : ∀ symbol ∈ cyclic.occurrences, widened.isNonterminal symbol = true →
      cyclic.isNonterminal symbol = true := by decide
  have keeps : widened.KeepsTerminals cyclic :=
    fun symbol occurs => listed symbol ((cyclic.occurs_iff symbol).1 occurs)
  have grows := (tables_grow_with_rules extension).1 keeps
  exact ⟨extension, keeps, (grows "B" (by decide)).1, (grows "S" (by decide)).2⟩

end Grammar

end Lookahead
