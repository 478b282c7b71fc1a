import Lookahead.Proofs.DerivedSets

set_option autoImplicit false

namespace Lookahead.Grammar

variable {grammar : Grammar}

theorem not_nonterminal_of_derivesFirst {symbol name : String}
    (derives : grammar.DerivesFirst symbol name) : grammar.isNonterminal name = false := by
  rcases derives with ⟨rfl, _⟩ | ⟨terminal, _⟩
  · rw [Bool.eq_false_iff]
    intro nonterminal
    have occurs := occurs_of_isNonterminal nonterminal
    rw [occurs_epsilon] at occurs
    cases occurs
  · exact ((grammar.kind_eq_terminal_iff name).1 terminal).1

theorem first_exact (grammar : Grammar) :
    (∀ symbol terminal, grammar.isNonterminal symbol = true → grammar.kind terminal = .terminal →
      (grammar.tables.InFirst symbol terminal ↔
        ∃ rest, grammar.Derives [symbol] (terminal :: rest))) ∧
    (∀ symbol name, grammar.tables.InFirst symbol name → grammar.isNonterminal name = false) ∧
    ∀ passes symbol name,
      ((Solver.ofGrammar grammar).run passes).tables.InFirst symbol name →
        grammar.isNonterminal name = false := by
  refine ⟨fun symbol terminal _ kind => ?_, fun symbol name begins => ?_,
    fun passes symbol name begins => ?_⟩
  · have named := ne_epsilon_of_terminal kind
    rw [inFirst_tables_iff]
    simp [DerivesFirst, named, kind]
  · exact not_nonterminal_of_derivesFirst ((grammar.inFirst_tables_iff _ _).1 begins)
  · have within := within_run_of_satisfied grammar.satisfied_derives passes
    exact not_nonterminal_of_derivesFirst (within.1 symbol name begins)

def cyclic : Grammar :=
  ofPlain [⟨"S", ["B", "a"]⟩, ⟨"B", ["S", "c"]⟩, ⟨"B", []⟩] (by decide) (by decide) (by decide)

theorem first_exact_cyclic :
    cyclic.isNonterminal "B" = true ∧ cyclic.kind "a" = .terminal ∧
      (∃ rest, cyclic.Derives ["B"] ("a" :: rest)) ∧ cyclic.tables.InFirst "B" "a" ∧
      cyclic.isNonterminal "a" = false := by
  have inside : Production.mk "B" ["S", "c"] ∈ cyclic.productions := by decide
  have outside : Production.mk "S" ["B", "a"] ∈ cyclic.productions := by decide
  have vanishing : Production.mk "B" [] ∈ cyclic.productions := by decide
  have derives : cyclic.Derives ["B"] ["a", "c"] :=
    (derives_of_mem inside).trans
      (((derives_of_mem outside).append_right ["c"]).trans
        ((derives_of_mem vanishing).append_right ["a", "c"]))
  have nonterminal : cyclic.isNonterminal "B" = true := by decide
  have terminal : cyclic.kind "a" = .terminal := by decide
  have exact := first_exact cyclic
  have begins := (exact.1 "B" "a" nonterminal terminal).2 ⟨["c"], derives⟩
  exact ⟨nonterminal, terminal, ⟨["c"], derives⟩, begins, exact.2.1 "B" "a" begins⟩

theorem isNullable_exact (grammar : Grammar) :
    (∀ symbol, grammar.tables.isNullable symbol = true ↔
      grammar.isNonterminal symbol = true ∧ grammar.Derives [symbol] []) ∧
    (∀ symbol, grammar.kind symbol ≠ .nonterminal → grammar.tables.isNullable symbol = false) ∧
    grammar.tables.isNullable epsilon = false := by
  have exact (symbol : String) : grammar.tables.isNullable symbol = true ↔
      grammar.isNonterminal symbol = true ∧ grammar.Derives [symbol] [] := by
    rw [Tables.isNullable_iff, inFirst_tables_iff, derivesFirst_epsilon_iff]
    exact ⟨fun derives => ⟨isNonterminal_of_derives_nil derives, derives⟩, And.right⟩
  have other (symbol : String) (kind : grammar.kind symbol ≠ .nonterminal) :
      grammar.tables.isNullable symbol = false := by
    rw [ne_eq, kind_eq_nonterminal_iff] at kind
    rw [← Bool.not_eq_true, exact]
    exact fun derives => kind derives.1
  exact ⟨exact, other, other epsilon (by simp [kind_epsilon])⟩

theorem isNullable_exact_cyclic :
    cyclic.tables.isNullable "B" = true ∧
      cyclic.kind endMarker ≠ .nonterminal ∧ cyclic.tables.isNullable endMarker = false := by
  have vanishing : Production.mk "B" [] ∈ cyclic.productions := by decide
  have exact := isNullable_exact cyclic
  have marker : cyclic.kind endMarker ≠ .nonterminal := by decide
  exact ⟨(exact.1 "B").2 ⟨by decide, derives_of_mem vanishing⟩, marker, exact.2.1 _ marker⟩

end Lookahead.Grammar
