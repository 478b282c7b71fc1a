import Lookahead.Proofs.DerivedSets
import Lookahead.Proofs.Neighbours

set_option autoImplicit false

namespace Lookahead.Grammar

variable {grammar : Grammar}

theorem Meets.exists_parts {symbol name : String} (meets : grammar.Meets symbol name) :
    ∃ production ∈ grammar.productions, grammar.Parts production.derivation symbol name := by
  obtain ⟨production, member, before, left, right, after, split, _, ends, begins⟩ := meets
  refine ⟨production, member, before ++ [left], right :: after, by simp [split], ?_, ?_⟩
  · exact canEnd_append.2 (Or.inl ends)
  · rw [← List.singleton_append]
    exact canBegin_append.2 (Or.inl begins)

theorem follow_sound {symbol name : String} (follows : grammar.tables.InFollow symbol name) :
    (grammar.kind name = .terminal ∧
      (∃ top, grammar.isNonterminal top = true ∧ grammar.SideBySide top symbol name) ∧
      ((∀ other, grammar.isNonterminal other = true → grammar.Reaches other) →
        grammar.SideBySide grammar.start symbol name)) ∨
    (name = endMarker ∧ grammar.Ends symbol) := by
  rcases (tables_within grammar.satisfied_derives).2 symbol name follows with ends | ⟨terminal, meets⟩
  · exact Or.inr ends
  · have together := sideBySide_iff.2 meets.exists_parts
    refine Or.inl ⟨terminal, together, fun reaches => ?_⟩
    obtain ⟨top, nonterminal, found⟩ := together
    exact found.from_start (reaches top nonterminal)

-- `S -> A d; A -> C D; C -> c; D -> ε`: what follows A follows C over a symbol that vanishes.
def nested : Grammar :=
  ofPlain [⟨"S", ["A", "d"]⟩, ⟨"A", ["C", "D"]⟩, ⟨"C", ["c"]⟩, ⟨"D", []⟩]
    (by decide) (by decide) (by decide)

theorem nested_derives : nested.Derives ["A"] ["C", "D"] ∧ nested.Derives ["A"] ["C"] := by
  have inner : Production.mk "A" ["C", "D"] ∈ nested.productions := by decide
  have vanishing : Production.mk "D" [] ∈ nested.productions := by decide
  have body := derives_of_mem inner
  exact ⟨body, body.trans ((derives_of_mem vanishing).append_left ["C"])⟩

theorem nested_reaches (other : String) (nonterminal : nested.isNonterminal other = true) :
    nested.Reaches other := by
  have outer : Production.mk "S" ["A", "d"] ∈ nested.productions := by decide
  have opened := derives_of_mem outer
  have further := opened.trans (nested_derives.1.append_right ["d"])
  have heads : ∀ production ∈ nested.productions, production.symbol ∈ ["S"] ∨
      production.symbol ∈ ["A", "d"] ∨ production.symbol ∈ ["C", "D", "d"] := by
    decide
  obtain ⟨production, member, rfl⟩ := (nested.isNonterminal_iff other).1 nonterminal
  rcases heads production member with here | here | here
  · exact ⟨["S"], Derives.refl _, here⟩
  · exact ⟨["A", "d"], opened, here⟩
  · exact ⟨["C", "D", "d"], further, here⟩

theorem nested_meets : nested.Meets "C" "d" := by
  have outer : Production.mk "S" ["A", "d"] ∈ nested.productions := by decide
  exact ⟨_, outer, [], "A", "d", [], rfl, by decide, ⟨[], nested_derives.2⟩, [], Derives.refl _⟩

theorem follow_sound_nested :
    nested.tables.InFollow "C" "d" ∧
      (∀ other, nested.isNonterminal other = true → nested.Reaches other) ∧
      nested.SideBySide nested.start "C" "d" := by
  have nonterminal : nested.isNonterminal "C" = true := by decide
  have follows := (inFollow_tables_iff nonterminal "d").2 (Or.inr ⟨by decide, nested_meets⟩)
  refine ⟨follows, nested_reaches, ?_⟩
  rcases follow_sound follows with ⟨_, _, reached⟩ | ⟨marker, _⟩
  · exact reached nested_reaches
  · exact absurd marker (by decide)

def Gapless (grammar : Grammar) : Prop :=
  ∀ production ∈ grammar.productions, ∀ before left right after,
    production.derivation = before ++ left :: right :: after →
      grammar.isNonterminal left = true → grammar.Derives [right] [] → after = []

theorem Gapless.meets (gapless : grammar.Gapless) {production : Production}
    (member : production ∈ grammar.productions) {symbol name : String}
    (nonterminal : grammar.isNonterminal symbol = true)
    (parts : grammar.Parts production.derivation symbol name) : grammar.Meets symbol name := by
  obtain ⟨front, back, split, ends, begins⟩ := parts
  obtain ⟨before, left, vanished, rfl, first, ends⟩ := derives_concat_iff.1 ends
  obtain ⟨erased, right, after, rfl, second, begins⟩ := derives_cons_iff.1 begins
  have whole : production.derivation =
      before ++ left :: ((vanished ++ erased) ++ right :: after) := by simp [split]
  have inner := isNonterminal_of_canEnd ends nonterminal
  have vanish := derives_nil_iff.1 (first.append second)
  cases between : vanished ++ erased with
  | nil =>
    rw [between, List.nil_append] at whole
    exact ⟨production, member, before, left, right, after, whole, inner, ends, begins⟩
  | cons head rest =>
    rw [between, List.cons_append] at whole
    have last := gapless production member before left head _ whole inner
      (vanish head (by simp [between]))
    simp at last

theorem follow_exact_of_gapless (gapless : grammar.Gapless) {symbol terminal : String}
    (nonterminal : grammar.isNonterminal symbol = true) (kind : grammar.kind terminal = .terminal)
    (named : terminal ≠ endMarker) :
    grammar.tables.InFollow symbol terminal ↔
      ∃ top, grammar.isNonterminal top = true ∧ grammar.SideBySide top symbol terminal := by
  rw [inFollow_tables_iff nonterminal, sideBySide_iff]
  constructor
  · rintro (⟨marker, _⟩ | ⟨_, meets⟩)
    · exact absurd marker named
    · exact meets.exists_parts
  · rintro ⟨production, member, parts⟩
    exact Or.inr ⟨kind, gapless.meets member nonterminal parts⟩

theorem gapless_nested : nested.Gapless := by
  intro production member before left right after split _ _
  have short : ∀ production ∈ nested.productions, production.derivation.length ≤ 2 := by decide
  have bound := short production member
  rw [split] at bound
  simp only [List.length_append, List.length_cons] at bound
  exact List.eq_nil_of_length_eq_zero (by omega)

theorem follow_exact_of_gapless_nested :
    nested.Gapless ∧ nested.isNonterminal "C" = true ∧ nested.kind "d" = .terminal ∧
      "d" ≠ endMarker ∧ nested.tables.InFollow "C" "d" := by
  have outer : Production.mk "S" ["A", "d"] ∈ nested.productions := by decide
  have nonterminal : nested.isNonterminal "C" = true := by decide
  have kind : nested.kind "d" = .terminal := by decide
  have named : "d" ≠ endMarker := by decide
  have derives := (derives_of_mem outer).trans (nested_derives.2.append_right ["d"])
  have follows := follow_exact_of_gapless gapless_nested nonterminal kind named
  exact ⟨gapless_nested, nonterminal, kind, named, follows.2 ⟨"S", by decide, [], [], derives⟩⟩

theorem inFollow_endMarker_iff (unused : grammar.kind endMarker ≠ .terminal) {symbol : String}
    (nonterminal : grammar.isNonterminal symbol = true) :
    grammar.tables.InFollow symbol endMarker ↔
      ∃ prior, grammar.Derives [grammar.start] (prior ++ [symbol]) := by
  rw [inFollow_tables_iff nonterminal]
  simp only [DerivesFollow, Ends, unused, false_and, or_false, true_and]

-- `S -> a $ U; $ -> b; U -> ε`: the end marker is a nonterminal, before one that vanishes.
def marked : Grammar :=
  ofPlain [⟨"S", ["a", "$", "U"]⟩, ⟨"$", ["b"]⟩, ⟨"U", []⟩] (by decide) (by decide) (by decide)

theorem inFollow_endMarker_iff_marked :
    marked.kind endMarker ≠ .terminal ∧ marked.isNonterminal endMarker = true ∧
      marked.tables.InFollow endMarker endMarker := by
  have unused : marked.kind endMarker ≠ .terminal := by decide
  have nonterminal : marked.isNonterminal endMarker = true := by decide
  have outer : Production.mk "S" ["a", "$", "U"] ∈ marked.productions := by decide
  have vanishing : Production.mk "U" [] ∈ marked.productions := by decide
  have ends : marked.Derives [marked.start] (["a"] ++ [endMarker]) :=
    (derives_of_mem outer).trans ((derives_of_mem vanishing).append_left ["a", "$"])
  have follows := inFollow_endMarker_iff unused nonterminal
  exact ⟨unused, nonterminal, follows.2 ⟨["a"], ends⟩⟩

end Lookahead.Grammar
