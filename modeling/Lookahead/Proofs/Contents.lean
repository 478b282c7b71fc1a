import Lookahead.Proofs.Comparison
import Lookahead.Proofs.NamedRun

set_option autoImplicit false

namespace Lookahead

namespace Grammar

variable {grammar : Grammar} {symbol name : String}

theorem mem_symbols (grammar : Grammar) (symbol : String) :
    symbol ∈ grammar.symbols ↔ grammar.occurs symbol = true := by
  rw [symbols, List.mem_filter, and_iff_right_iff_imp, occurs_iff]
  exact mem_numbering_of_occurrence

theorem entries_symbolSets (grammar : Grammar) (sets : Nat → BitSet) :
    (Solver.symbolSets grammar.numbered sets).entries =
      grammar.numbered.symbols.map fun number => (grammar.numbered.name number,
        SymbolSet.ofList ((sets number).toList.map grammar.numbered.name)) := by
  apply OrderedMap.entries_ofList
  have names := grammar.nodup_symbols
  rw [← names_symbols] at names
  simpa [List.map_map, Function.comp_def] using names

theorem keys_symbolSets (grammar : Grammar) (sets : Nat → BitSet) :
    (Solver.symbolSets grammar.numbered sets).keys = grammar.symbols := by
  rw [OrderedMap.keys, entries_symbolSets, List.map_map, ← names_symbols]
  rfl

def MayBegin (grammar : Grammar) (symbol name : String) : Prop :=
  grammar.kind symbol = .terminal ∧ name = symbol ∨
    grammar.isNonterminal symbol = true ∧ (grammar.kind name = .terminal ∨ name = epsilon)

def MayFollow (grammar : Grammar) (symbol name : String) : Prop :=
  grammar.isNonterminal symbol = true ∧ name ≠ epsilon ∧
    (grammar.kind name = .terminal ∨ name = endMarker)

theorem MayBegin.terminal_or_epsilon (begins : grammar.MayBegin symbol name) :
    grammar.kind name = .terminal ∨ name = epsilon := by
  rcases begins with ⟨terminal, rfl⟩ | ⟨_, held⟩
  · exact Or.inl terminal
  · exact held

-- No rule brings a name into a set that may not hold it. FOLLOW takes no epsilon over, since FIRST
-- leaves it behind wherever it flows into FOLLOW.
theorem satisfied_may (grammar : Grammar) :
    grammar.Satisfied grammar.MayBegin grammar.MayFollow where
  terminal symbol terminal name := by
    have other := ((grammar.kind_eq_terminal_iff symbol).1 terminal).1
    simp [MayBegin, terminal, other]
  begins production member before symbol after _ _ name begins _ :=
    Or.inr ⟨isNonterminal_symbol member, begins.terminal_or_epsilon⟩
  vanishes production member _ := Or.inr ⟨isNonterminal_symbol member, Or.inr rfl⟩
  ends := ⟨grammar.isNonterminal_start, epsilon_ne_endMarker.symm, Or.inr rfl⟩
  adjacent production _ before previous symbol after _ nonterminal name begins named :=
    ⟨nonterminal, named, Or.inl (begins.terminal_or_epsilon.resolve_right named)⟩
  trailing production _ before symbol after _ nonterminal _ name follows :=
    ⟨nonterminal, follows.2⟩

end Grammar

namespace Solver

variable {grammar : Grammar} {symbol : String}

theorem inFirst_run_terminal (terminal : grammar.kind symbol = .terminal) (passes : Nat) :
    ((ofGrammar grammar).run passes).tables.InFirst symbol symbol := by
  have occurs := ((grammar.kind_eq_terminal_iff symbol).1 terminal).2
  have known := Grammar.mem_numbering_of_occurrence ((grammar.occurs_iff symbol).1 occurs)
  rw [inFirst_run_iff]
  refine ⟨occurs, known, (seeded_run grammar passes).begins _ _ ?_⟩
  rw [Estimate.begins_initial grammar.valid_numbered, Grammar.kind_number known]
  exact ⟨terminal, rfl⟩

theorem inFollow_run_start (grammar : Grammar) (passes : Nat) :
    ((ofGrammar grammar).run passes).tables.InFollow grammar.start endMarker := by
  have occurs := Grammar.occurs_of_isNonterminal grammar.isNonterminal_start
  rw [inFollow_run_iff]
  refine ⟨occurs, grammar.endMarker_mem, (seeded_run grammar passes).follows _ _ ?_⟩
  rw [Estimate.follows_initial grammar.valid_numbered, Grammar.number_endMarker]
  exact ⟨rfl, rfl⟩

theorem mem_sets_run_terminal (terminal : grammar.kind symbol = .terminal) (passes : Nat)
    (name : String) :
    (((ofGrammar grammar).run passes).tables.InFirst symbol name ↔ name = symbol) ∧
      ¬((ofGrammar grammar).run passes).tables.InFollow symbol name := by
  obtain ⟨other, _⟩ := (grammar.kind_eq_terminal_iff symbol).1 terminal
  have may := Grammar.within_run_of_satisfied grammar.satisfied_may passes
  refine ⟨⟨fun begins => ?_, ?_⟩, fun follows => ?_⟩
  · rcases may.1 symbol name begins with ⟨_, same⟩ | ⟨nonterminal, _⟩
    · exact same
    · simp [other] at nonterminal
  · rintro rfl
    exact inFirst_run_terminal terminal passes
  · have nonterminal := (may.2 symbol name follows).1
    simp [other] at nonterminal

theorem get?_sets_run_terminal (terminal : grammar.kind symbol = .terminal) (passes : Nat)
    (family : Family) :
    (((ofGrammar grammar).run passes).tables.sets family).get? symbol =
      some (if family = .first then SymbolSet.ofList [symbol] else SymbolSet.empty) := by
  have occurs := ((grammar.kind_eq_terminal_iff symbol).1 terminal).2
  have holds := mem_sets_run_terminal terminal passes
  apply SymbolSet.option_ext
  · simp [get?_sets_run, occurs]
  · intro name
    cases family with
    | first => simpa [Tables.InFirst, Tables.firstOf?, Tables.sets] using (holds name).1
    | follow => simpa [Tables.InFollow, Tables.followOf?, Tables.sets] using (holds name).2

theorem contents_run (grammar : Grammar) (passes : Nat) :
    let tables := ((ofGrammar grammar).run passes).tables
    tables.first.keys = grammar.symbols ∧ tables.follow.keys = grammar.symbols ∧
    grammar.symbols.Nodup ∧
    (∀ symbol, symbol ∈ grammar.symbols ↔ symbol ∈ grammar.occurrences) ∧
    (∀ symbol, grammar.kind symbol = .terminal →
      tables.firstOf? symbol = some (SymbolSet.ofList [symbol]) ∧
      tables.followOf? symbol = some SymbolSet.empty) ∧
    (∀ symbol name, grammar.isNonterminal symbol = true → tables.InFirst symbol name →
      grammar.kind name = .terminal ∨ name = epsilon) ∧
    (∀ symbol name, tables.InFollow symbol name →
      name ≠ epsilon ∧ (grammar.kind name = .terminal ∨ name = endMarker)) ∧
    tables.InFollow grammar.start endMarker := by
  intro tables
  have may := Grammar.within_run_of_satisfied grammar.satisfied_may passes
  have keys (family : Family) : (tables.sets family).keys = grammar.symbols := by
    rw [Solver.sets_tables, grammar_run]
    exact grammar.keys_symbolSets _
  refine ⟨keys .first, keys .follow, grammar.nodup_symbols, fun symbol => ?_,
    fun symbol terminal => ?_, fun symbol name _ begins => ?_, fun symbol name follows => ?_,
    inFollow_run_start grammar passes⟩
  · rw [grammar.mem_symbols, grammar.occurs_iff]
  · have sets := get?_sets_run_terminal terminal passes
    exact ⟨sets .first, sets .follow⟩
  · exact (may.1 symbol name begins).terminal_or_epsilon
  · exact (may.2 symbol name follows).2

-- `S -> A $; A -> a`: the end marker is a terminal.
def ended : Grammar :=
  Grammar.ofPlain [⟨"S", ["A", "$"]⟩, ⟨"A", ["a"]⟩] (by decide) (by decide) (by decide)

theorem contents_run_ended :
    let tables := ((ofGrammar ended).run 1).tables
    ended.kind "$" = .terminal ∧ tables.firstOf? "$" = some (SymbolSet.ofList ["$"]) ∧
      tables.followOf? "$" = some SymbolSet.empty ∧
      ended.isNonterminal "A" = true ∧ tables.InFirst "A" "a" ∧
      (ended.kind "a" = .terminal ∨ "a" = epsilon) ∧
      tables.InFollow "A" "$" ∧ "$" ≠ epsilon := by
  intro tables
  have terminal : ended.kind "$" = .terminal := by decide
  have nonterminal : ended.isNonterminal "A" = true := by decide
  have begins : tables.InFirst "A" "a" := by
    rw [inFirst_run_iff, Estimate.Begins]
    decide +kernel
  have follows : tables.InFollow "A" "$" := by
    rw [inFollow_run_iff, Estimate.Follows]
    decide +kernel
  obtain ⟨_, _, _, _, terminals, first, follow, _⟩ := contents_run ended 1
  have sets := terminals "$" terminal
  exact ⟨terminal, sets.1, sets.2, nonterminal, begins, first "A" "a" nonterminal begins, follows,
    (follow "A" "$" follows).1⟩

end Solver

end Lookahead
