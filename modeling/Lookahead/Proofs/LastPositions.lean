import Lookahead.Proofs.DerivedSets

set_option autoImplicit false

namespace Lookahead.Grammar

variable {grammar : Grammar} {top symbol name : String}

theorem CanEnd.trans {middle : String} (outer : grammar.CanEnd [top] middle)
    (inner : grammar.CanEnd [middle] symbol) : grammar.CanEnd [top] symbol := by
  obtain ⟨before, outer⟩ := outer
  obtain ⟨prior, inner⟩ := inner
  have joined := outer.trans (inner.append_left before)
  exact ⟨before ++ prior, by simpa using joined⟩

theorem canEnd_of_closesRule (link : grammar.ClosesRule grammar.tables.InFirst top symbol) :
    grammar.CanEnd [top] symbol := by
  obtain ⟨production, member, rfl, before, after, split, _, later⟩ := link
  have erased : grammar.Derives after [] := by
    refine derives_nil_iff.2 fun other inside => ?_
    simpa using (grammar.inFirst_tables_iff other epsilon).1 (later other inside).2
  have vanishes := (erased.append_left [symbol]).append_left before
  have body := derives_of_mem member
  rw [split] at body
  exact ⟨before, body.trans (by simpa using vanishes)⟩

theorem canEnd_of_chain
    (chain : Relation.ReflTransGen (grammar.ClosesRule grammar.tables.InFirst) top symbol) :
    grammar.CanEnd [top] symbol := by
  induction chain with
  | refl => exact ⟨[], Derives.refl _⟩
  | tail _ link ih => exact ih.trans (canEnd_of_closesRule link)

/-- A name enters FOLLOW at the symbol itself, and not through a symbol whose rule it closes: the
input may end after the start symbol, and a neighbour brings what it begins with. -/
def Enters (grammar : Grammar) (symbol name : String) : Prop :=
  (symbol = grammar.start ∧ name = endMarker) ∨
    ∃ production ∈ grammar.productions, ∃ before next after,
      production.derivation = before ++ symbol :: next :: after ∧
        grammar.tables.InFirst next name ∧ name ≠ epsilon

theorem Enters.inFollow (enters : grammar.Enters symbol name)
    (nonterminal : grammar.isNonterminal symbol = true) : grammar.tables.InFollow symbol name := by
  have satisfied := grammar.satisfied_tables
  rcases enters with ⟨rfl, rfl⟩ | ⟨production, member, before, next, after, split, begins, named⟩
  · exact satisfied.ends
  · exact satisfied.adjacent production member before symbol next after split nonterminal name
      begins named

theorem inFollow_iff_enters (nonterminal : grammar.isNonterminal symbol = true) :
    grammar.tables.InFollow symbol name ↔
      ∃ source, grammar.isNonterminal source = true ∧ grammar.CanEnd [source] symbol ∧
        grammar.Enters source name := by
  constructor
  · intro follows
    rcases (inFollow_tables_iff nonterminal name).1 follows with ⟨rfl, ends⟩ | ⟨terminal, meets⟩
    · exact ⟨grammar.start, grammar.isNonterminal_start, ends, Or.inl ⟨rfl, rfl⟩⟩
    · obtain ⟨production, member, before, left, right, after, split, inner, ends, begins⟩ := meets
      have first := (grammar.inFirst_tables_iff right name).2 (Or.inr ⟨terminal, begins⟩)
      exact ⟨left, inner, ends, Or.inr ⟨production, member, before, right, after, split, first,
        ne_epsilon_of_terminal terminal⟩⟩
  · rintro ⟨source, inner, ⟨prior, derives⟩, enters⟩
    exact grammar.satisfied_tables.follow_of_derives derives nonterminal (enters.inFollow inner)

theorem follow_included (nonterminal : grammar.isNonterminal symbol = true)
    (ends : grammar.CanEnd [top] symbol) :
    ∃ upper lower, grammar.tables.followOf? top = some upper ∧
      grammar.tables.followOf? symbol = some lower ∧ ∀ name ∈ upper, name ∈ lower := by
  have above := (grammar.isSome_tables_iff top).2
  have below := (grammar.isSome_tables_iff symbol).2
  rw [occurs_of_isNonterminal (isNonterminal_of_canEnd ends nonterminal)] at above
  rw [occurs_of_isNonterminal nonterminal] at below
  obtain ⟨upper, held⟩ := Option.isSome_iff_exists.1 above
  obtain ⟨lower, holding⟩ := Option.isSome_iff_exists.1 below
  obtain ⟨prior, derives⟩ := ends
  refine ⟨upper, lower, held, holding, fun name member => ?_⟩
  have follows : grammar.tables.InFollow symbol name :=
    grammar.satisfied_tables.follow_of_derives derives nonterminal ⟨upper, held, member⟩
  simpa [Tables.InFollow, holding] using follows

theorem follow_flows_down (nonterminal : grammar.isNonterminal symbol = true) :
    ((∃ prior, grammar.Derives [top] (prior ++ [symbol])) ↔
      Relation.ReflTransGen (grammar.ClosesRule grammar.tables.InFirst) top symbol) ∧
    ((∃ prior, grammar.Derives [top] (prior ++ [symbol])) →
      ∃ upper lower, grammar.tables.followOf? top = some upper ∧
        grammar.tables.followOf? symbol = some lower ∧ ∀ name ∈ upper, name ∈ lower) ∧
    ∀ name, grammar.tables.InFollow symbol name ↔
      ∃ source, grammar.isNonterminal source = true ∧
        (∃ prior, grammar.Derives [source] (prior ++ [symbol])) ∧ grammar.Enters source name := by
  refine ⟨⟨?_, canEnd_of_chain⟩, follow_included nonterminal,
    fun name => inFollow_iff_enters nonterminal⟩
  rintro ⟨prior, derives⟩
  exact grammar.satisfied_tables.chain_from_symbol derives nonterminal

-- `S -> x A E; A -> S | b; E -> ε | e`: S and A end with each other, over an E that vanishes.
def looped : Grammar :=
  ofPlain [⟨"S", ["x", "A", "E"]⟩, ⟨"A", ["S"]⟩, ⟨"A", ["b"]⟩, ⟨"E", []⟩, ⟨"E", ["e"]⟩]
    (by decide) (by decide) (by decide)

theorem follow_flows_down_looped :
    looped.isNonterminal "A" = true ∧ looped.Derives ["S"] (["x"] ++ ["A"]) ∧
      looped.tables.InFollow "A" endMarker ∧
      Relation.ReflTransGen (looped.ClosesRule looped.tables.InFirst) "S" "A" ∧
      looped.isNonterminal "S" = true ∧ looped.Derives ["A"] ([] ++ ["S"]) ∧
      ∃ upper lower, looped.tables.followOf? "A" = some upper ∧
        looped.tables.followOf? "S" = some lower ∧ ∀ name ∈ upper, name ∈ lower := by
  have outer : Production.mk "S" ["x", "A", "E"] ∈ looped.productions := by decide
  have inner : Production.mk "A" ["S"] ∈ looped.productions := by decide
  have vanishing : Production.mk "E" [] ∈ looped.productions := by decide
  have down : looped.Derives ["S"] (["x"] ++ ["A"]) :=
    (derives_of_mem outer).trans ((derives_of_mem vanishing).append_left ["x", "A"])
  have up : looped.Derives ["A"] ([] ++ ["S"]) := derives_of_mem inner
  have lower : looped.isNonterminal "A" = true := by decide
  have upper : looped.isNonterminal "S" = true := by decide
  obtain ⟨chain, _, enters⟩ := @follow_flows_down looped "S" "A" lower
  have follows := (enters endMarker).2 ⟨"S", upper, ⟨_, down⟩, Or.inl ⟨rfl, rfl⟩⟩
  exact ⟨lower, down, follows, chain.1 ⟨_, down⟩, upper, up,
    (follow_flows_down upper).2.1 ⟨_, up⟩⟩

end Lookahead.Grammar
