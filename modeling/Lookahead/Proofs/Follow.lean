import Mathlib.Data.List.Chain
import Lookahead.Proofs.DerivedSets

set_option autoImplicit false

namespace Lookahead.Grammar

variable {grammar : Grammar}

theorem isNonterminal_getLastD {symbol : String} {erased : List String}
    (nonterminal : grammar.isNonterminal symbol = true) (vanish : grammar.Derives erased []) :
    grammar.isNonterminal (erased.getLastD symbol) = true := by
  cases erased with
  | nil => exact nonterminal
  | cons head rest =>
    rw [derives_nil_iff] at vanish
    apply isNonterminal_of_derives_nil
    apply vanish
    simp [List.getLastD, List.getLast_mem]

theorem inFollow_neighbour {production : Production} (member : production ∈ grammar.productions)
    {before after : List String} {left right name : String}
    (split : production.derivation = before ++ left :: right :: after)
    (nonterminal : grammar.isNonterminal left = true) (terminal : grammar.kind name = .terminal)
    (begins : ∃ rest, grammar.Derives [right] (name :: rest)) :
    grammar.tables.InFollow left name :=
  (inFollow_tables_iff nonterminal name).2 (Or.inr ⟨terminal, production, member, before, left,
    right, after, split, nonterminal, ⟨[], Derives.refl _⟩, begins⟩)

/-- A terminal that the symbols after a nonterminal can derive as their first reaches the symbol
right before the one that brings it forth. It reaches the nonterminal itself if that is the one, and
over symbols that vanish in between only if the two meet as neighbours elsewhere. -/
theorem follow_at_neighbours {production : Production} (member : production ∈ grammar.productions)
    {before after : List String} {symbol terminal : String}
    (split : production.derivation = before ++ symbol :: after)
    (nonterminal : grammar.isNonterminal symbol = true) (kind : grammar.kind terminal = .terminal)
    {rest : List String} (derives : grammar.Derives after (terminal :: rest)) :
    (∃ erased source later, after = erased ++ source :: later ∧ grammar.Derives erased [] ∧
      ∃ rest, grammar.Derives [source] (terminal :: rest)) ∧
    (∀ erased source later, after = erased ++ source :: later → grammar.Derives erased [] →
      (∃ rest, grammar.Derives [source] (terminal :: rest)) →
      grammar.tables.InFollow (erased.getLastD symbol) terminal) ∧
    (grammar.tables.InFollow symbol terminal ↔
      grammar.Meets symbol terminal ∨ terminal = endMarker ∧ grammar.Ends symbol) := by
  refine ⟨derives_cons_iff.1 ⟨rest, derives⟩, ?_, ?_⟩
  · rintro erased source later rfl vanish begins
    have here := isNonterminal_getLastD nonterminal vanish
    rcases List.eq_nil_or_concat erased with rfl | ⟨earlier, last, rfl⟩
    · exact inFollow_neighbour member split nonterminal kind begins
    · rw [List.concat_eq_append] at split here ⊢
      rw [List.getLastD_concat] at here ⊢
      have apart : production.derivation =
          (before ++ symbol :: earlier) ++ last :: source :: later := by simp [split]
      exact inFollow_neighbour member apart here kind begins
  · rw [inFollow_tables_iff nonterminal]
    simp only [DerivesFollow, kind, true_and]
    exact Or.comm

-- `S -> A B c; A -> a; B -> ε`: the symbol between A and c vanishes.
def gapped : Grammar :=
  ofPlain [⟨"S", ["A", "B", "c"]⟩, ⟨"A", ["a"]⟩, ⟨"B", []⟩] (by decide) (by decide) (by decide)

theorem gapped_derives : gapped.Derives ["B", "c"] ["c"] := by
  have vanishing : Production.mk "B" [] ∈ gapped.productions := by decide
  exact (derives_of_mem vanishing).append_right ["c"]

theorem follow_at_neighbours_gapped :
    gapped.isNonterminal "A" = true ∧ gapped.kind "c" = .terminal ∧
      gapped.Derives ["B", "c"] ["c"] ∧ gapped.tables.InFollow "B" "c" := by
  have member : Production.mk "S" ["A", "B", "c"] ∈ gapped.productions := by decide
  have vanishing : Production.mk "B" [] ∈ gapped.productions := by decide
  have nonterminal : gapped.isNonterminal "A" = true := by decide
  have kind : gapped.kind "c" = .terminal := by decide
  have split : (Production.mk "S" ["A", "B", "c"]).derivation = [] ++ "A" :: ["B", "c"] := rfl
  have reached := follow_at_neighbours member split nonterminal kind gapped_derives
  exact ⟨nonterminal, kind, gapped_derives,
    reached.2.1 ["B"] "c" [] rfl (derives_of_mem vanishing) ⟨[], Derives.refl _⟩⟩

theorem gapped_derives_cases {word : List String} (derives : gapped.Derives ["B"] word) :
    word = ["B"] ∨ word = [] := by
  rcases derives_singleton_cases derives with same | ⟨production, member, same, further⟩
  · exact Or.inl same
  · have empty : ∀ production ∈ gapped.productions, production.symbol = "B" →
        production.derivation = [] := by decide
    rw [empty production member same] at further
    exact Or.inr (derives_nil_left further)

theorem not_meets_gapped : ¬gapped.Meets "A" "c" := by
  rintro ⟨production, member, before, left, right, after, split, _, ⟨prior, ends⟩, rest, begins⟩
  have pairs : ∀ production ∈ gapped.productions,
      production.derivation.IsChain fun left right =>
        left = "A" ∧ right = "B" ∨ left = "B" ∧ right = "c" := by
    decide
  have chain := pairs production member
  rw [split, List.isChain_append_cons_cons] at chain
  obtain ⟨rfl, rfl⟩ | ⟨rfl, rfl⟩ := chain.2.1
  · rcases gapped_derives_cases begins with word | word <;> simp at word
  · rcases gapped_derives_cases ends with word | word
    · have last := congrArg List.getLast? word
      simp at last
    · simp at word

theorem not_follow_over_gap :
    ¬∀ (grammar : Grammar) (production : Production), production ∈ grammar.productions →
      ∀ before symbol after, production.derivation = before ++ symbol :: after →
      grammar.isNonterminal symbol = true → ∀ terminal rest, grammar.kind terminal = .terminal →
      grammar.Derives after (terminal :: rest) → grammar.tables.InFollow symbol terminal := by
  intro complete
  have member : Production.mk "S" ["A", "B", "c"] ∈ gapped.productions := by decide
  have nonterminal : gapped.isNonterminal "A" = true := by decide
  have follows := complete gapped _ member [] "A" ["B", "c"] rfl nonterminal "c" [] (by decide)
    gapped_derives
  rcases (inFollow_tables_iff nonterminal "c").1 follows with ⟨ends, _⟩ | ⟨_, meets⟩
  · exact absurd ends (by decide)
  · exact not_meets_gapped meets

end Lookahead.Grammar
