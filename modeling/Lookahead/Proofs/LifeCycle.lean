import Lookahead.Proofs.Comparison
import Lookahead.Proofs.Convergence

set_option autoImplicit false

namespace Lookahead

theorem Tables.agrees_iff (a b : Tables) :
    a.agrees b = true ↔
      ∀ family symbol, (a.sets family).get? symbol = (b.sets family).get? symbol := by
  simp only [agrees, Bool.and_eq_true, OrderedMap.agrees_iff]
  constructor
  · rintro ⟨first, follow⟩ family
    cases family with
    | first => exact first
    | follow => exact follow
  · exact fun same => ⟨same .first, same .follow⟩

theorem Grammar.mem_symbols_of_kind {grammar : Grammar} {number : Nat}
    (kind : grammar.numbered.kind number ≠ .marker) : number ∈ grammar.numbered.symbols := by
  simp [NumberedGrammar.symbols, grammar.valid_numbered.lt_size kind, kind]

namespace Solver

variable {grammar : Grammar} {passes symbol name : Nat}

theorem run_add (solver : Solver) (first second : Nat) :
    solver.run (first + second) = (solver.run first).run second := by
  induction second with
  | zero => rfl
  | succ second ih => rw [← Nat.add_assoc, run_succ, run_succ, ih]

theorem changed_run (grammar : Grammar) (passes : Nat) :
    ((ofGrammar grammar).run (passes + 1)).changed = (known grammar (passes + 1)).grown := by
  rw [known, run_succ]
  rfl

theorem tables_run (grammar : Grammar) (passes : Nat) :
    ((ofGrammar grammar).run passes).tables =
      { first := symbolSets grammar.numbered ((known grammar passes).setOf .first)
        follow := symbolSets grammar.numbered ((known grammar passes).setOf .follow) } := by
  rw [tables, grammar_run]
  rfl

theorem mem_sets_name_iff {family : Family} (known : symbol ∈ grammar.numbered.symbols)
    (inside : name < grammar.numbered.size) :
    (∃ set, (((ofGrammar grammar).run passes).tables.sets family).get?
        (grammar.numbered.name symbol) = some set ∧ grammar.numbered.name name ∈ set) ↔
      ((Solver.known grammar passes).setOf family symbol).contains name = true := by
  obtain ⟨bound, occurs⟩ := Grammar.mem_symbols_iff.1 known
  rw [mem_sets_run_iff, Grammar.number_name bound, Grammar.number_name inside]
  simp [occurs, Grammar.name_mem inside, Solver.known]

theorem mem_symbols_of_contains {family : Family}
    (held : ((known grammar passes).setOf family symbol).contains name = true) :
    symbol ∈ grammar.numbered.symbols := by
  have within := within_nonterminals grammar passes
  apply Grammar.mem_symbols_of_kind
  intro marker
  cases family with
  | first =>
    rcases within.begins symbol name held with other | other
    · simp [NumberedGrammar.isNonterminal, marker] at other
    · simp [marker] at other
  | follow =>
    have other := within.follows symbol name held
    simp [NumberedGrammar.isNonterminal, marker] at other

-- The tables show all that the solver knows: where they stay as they are, no set has grown.
theorem grown_eq_false_of_agrees
    (same : ((ofGrammar grammar).run (passes + 1)).tables.agrees
      ((ofGrammar grammar).run passes).tables = true) :
    (known grammar (passes + 1)).grown = false := by
  have kept := kept_known grammar passes
  have shown := (Tables.agrees_iff _ _).1 same
  have back (family : Family) (symbol name : Nat)
      (later : ((known grammar (passes + 1)).setOf family symbol).contains name = true) :
      ((known grammar passes).setOf family symbol).contains name = true := by
    have listed := mem_symbols_of_contains later
    have bound := inside_setOf_run grammar (passes + 1) family symbol name later
    rw [← mem_sets_name_iff listed bound] at later ⊢
    rwa [shown family] at later
  have begins (symbol name : Nat) : (known grammar passes).Begins symbol name ↔
      (known grammar (passes + 1)).Begins symbol name :=
    ⟨kept.begins symbol name, back .first symbol name⟩
  have follows (symbol name : Nat) : (known grammar passes).Follows symbol name ↔
      (known grammar (passes + 1)).Follows symbol name :=
    ⟨kept.follows symbol name, back .follow symbol name⟩
  rw [known_succ]
  apply Estimate.grown_sweep_eq_false (fits_known grammar passes)
  intro name
  rw [← known_succ]
  exact ⟨⟨fun symbol => begins symbol epsilonNumber, fun symbol => begins symbol name⟩,
    fun symbol => follows symbol name⟩

theorem known_of_still {count : Nat} (still : (known grammar (count + 1)).grown = false)
    (later : Nat) : known grammar (count + 1 + later) = known grammar (count + 1) := by
  rw [known_succ] at still
  have unchanged : known grammar (count + 1) = { known grammar count with grown := false } := by
    rw [known_succ, Estimate.sweep_eq_of_still still]
  induction later with
  | zero => rfl
  | succ later ih =>
    calc known grammar (count + 1 + (later + 1))
      _ = (known grammar (count + 1 + later)).sweep grammar.numbered := known_succ grammar _
      _ = (known grammar count).sweep grammar.numbered := by
        rw [ih, unchanged]
        rfl
      _ = known grammar (count + 1) := (known_succ grammar count).symm

theorem tables_of_still {count : Nat} (still : (known grammar (count + 1)).grown = false)
    {later : Nat} (after : count ≤ later) :
    ((ofGrammar grammar).run later).tables = ((ofGrammar grammar).run count).tables := by
  have next : ((ofGrammar grammar).run (count + 1)).tables =
      ((ofGrammar grammar).run count).tables := by
    rw [known_succ] at still
    rw [tables_run, tables_run, known_succ, Estimate.sweep_eq_of_still still]
    rfl
  rcases Nat.eq_or_lt_of_le after with rfl | after
  · rfl
  · obtain ⟨more, rfl⟩ := Nat.exists_eq_add_of_le after
    rw [← next, tables_run, known_of_still still more, ← tables_run]

theorem tables_grow (grammar : Grammar) (passes : Nat) (symbol name : String) :
    (((ofGrammar grammar).run passes).tables.InFirst symbol name →
      ((ofGrammar grammar).run (passes + 1)).tables.InFirst symbol name) ∧
    (((ofGrammar grammar).run passes).tables.InFollow symbol name →
      ((ofGrammar grammar).run (passes + 1)).tables.InFollow symbol name) := by
  have kept := kept_known grammar passes
  simp only [inFirst_run_iff, inFollow_run_iff]
  constructor
  · rintro ⟨occurs, member, begins⟩
    exact ⟨occurs, member, kept.begins _ _ begins⟩
  · rintro ⟨occurs, member, follows⟩
    exact ⟨occurs, member, kept.follows _ _ follows⟩

theorem exists_grown_iff (grammar : Grammar) :
    ∃ count, ∀ passes, (known grammar (passes + 1)).grown = true ↔ passes < count := by
  obtain ⟨count, _, still, growing⟩ := settle_eq_run (ofGrammar grammar)
  refine ⟨count, fun passes => ⟨fun grown => ?_, growing passes⟩⟩
  by_contra late
  obtain ⟨more, rfl⟩ := Nat.exists_eq_add_of_le (Nat.not_lt.1 late)
  have same := known_of_still (show (known grammar (count + 1)).grown = false from still) more
  rw [Nat.add_right_comm, same, known, still] at grown
  cases grown

theorem exists_settle_run (grammar : Grammar) (passes : Nat) :
    ∃ count, ((ofGrammar grammar).run passes).settle = (ofGrammar grammar).run (count + 1) ∧
      (known grammar (count + 1)).grown = false := by
  obtain ⟨count, same, still, _⟩ := settle_eq_run ((ofGrammar grammar).run passes)
  rw [← run_add, ← Nat.add_assoc] at same still
  exact ⟨passes + count, same, still⟩

theorem changed_iff_tables_differ (grammar : Grammar) (passes : Nat) :
    ((ofGrammar grammar).run (passes + 1)).changed = true ↔
      ((ofGrammar grammar).run (passes + 1)).tables.agrees
        ((ofGrammar grammar).run passes).tables = false := by
  rw [changed_run, ← Bool.not_eq_true]
  constructor
  · intro grown same
    have still := grown_eq_false_of_agrees same
    rw [grown] at still
    cases still
  · intro differ
    by_contra still
    apply differ
    rw [tables_of_still (Bool.eq_false_iff.2 still) (Nat.le_succ passes), Tables.agrees_iff]
    exact fun _ _ => rfl

theorem tables_settle (grammar : Grammar) (passes : Nat) :
    ((ofGrammar grammar).run passes).settle.tables = grammar.tables := by
  obtain ⟨count, settled, still⟩ := exists_settle_run grammar passes
  obtain ⟨first, fresh, quiet⟩ := exists_settle_run grammar 0
  calc ((ofGrammar grammar).run passes).settle.tables
    _ = ((ofGrammar grammar).run (count + 1)).tables := by rw [settled]
    _ = ((ofGrammar grammar).run count).tables := tables_of_still still (Nat.le_succ count)
    _ = ((ofGrammar grammar).run (count + first)).tables :=
      (tables_of_still still (Nat.le_add_right count first)).symm
    _ = ((ofGrammar grammar).run first).tables :=
      tables_of_still quiet (Nat.le_add_left first count)
    _ = ((ofGrammar grammar).run (first + 1)).tables :=
      (tables_of_still quiet (Nat.le_succ first)).symm
    _ = grammar.tables := by
      rw [← fresh]
      rfl

theorem run_grows_until_settled (grammar : Grammar) :
    let after (passes : Nat) : Solver := (ofGrammar grammar).run passes
    (∃ count,
      (∀ passes, (after passes).pass.changed = true ↔ passes < count) ∧
      ∀ later, count ≤ later → (after later).tables = (after count).tables) ∧
    (∀ passes, (after passes).pass.changed = true ↔
      (after passes).pass.tables.agrees (after passes).tables = false) ∧
    (∀ passes symbol name,
      ((after passes).tables.InFirst symbol name →
        (after passes).pass.tables.InFirst symbol name) ∧
      ((after passes).tables.InFollow symbol name →
        (after passes).pass.tables.InFollow symbol name)) ∧
    (∀ passes, (after passes).settle.tables = grammar.tables) ∧
    ∀ passes, (after passes).passes = passes := by
  intro after
  have next (passes : Nat) : (after passes).pass = after (passes + 1) := (run_succ _ passes).symm
  have counted (passes : Nat) : (after passes).passes = passes := by
    rw [passes_run]
    exact Nat.zero_add passes
  obtain ⟨count, grown⟩ := exists_grown_iff grammar
  have changed (passes : Nat) : (after (passes + 1)).changed = true ↔ passes < count := by
    rw [changed_run, grown]
  have still : (known grammar (count + 1)).grown = false := by
    rw [← Bool.not_eq_true, grown]
    exact Nat.lt_irrefl count
  have stable (later : Nat) (late : count ≤ later) : (after later).tables = (after count).tables :=
    tables_of_still still late
  simp only [next]
  exact ⟨⟨count, changed, stable⟩, changed_iff_tables_differ grammar, tables_grow grammar,
    tables_settle grammar, counted⟩

theorem run_grows_until_settled_cyclic :
    let after (passes : Nat) : Solver := (ofGrammar Grammar.cyclic).run passes
    (after 1).pass.changed = true ∧ (after 1).pass.tables.agrees (after 1).tables = false ∧
      (after 1).tables.InFirst "B" epsilon ∧ (after 1).pass.tables.InFirst "B" epsilon ∧
      ∃ count, 1 < count ∧ (after (count + 5)).tables = (after count).tables := by
  intro after
  have second : (after 1).pass.changed = true := by decide +kernel
  have vanishes : (after 1).tables.InFirst "B" epsilon := by
    rw [inFirst_run_iff, Estimate.Begins]
    decide +kernel
  obtain ⟨⟨count, answers, stable⟩, shown, grows, _⟩ := run_grows_until_settled Grammar.cyclic
  exact ⟨second, (shown 1).1 second, vanishes, (grows 1 "B" epsilon).1 vanishes, count,
    (answers 1).1 second, stable (count + 5) (Nat.le_add_right count 5)⟩

end Solver

end Lookahead
