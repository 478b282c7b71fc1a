import Lookahead.Grammar.Constraints
import Lookahead.Proofs.TableEntries
import Mathlib.Order.Bounds.Defs
import Mathlib.Order.Lattice

set_option autoImplicit false

namespace Lookahead

namespace Grammar

variable {grammar : Grammar} {first follow : String → String → Prop}

theorem Satisfied.opens (satisfied : grammar.Satisfied first follow) {production : Production}
    (member : production ∈ grammar.productions) {name : String} (named : name ≠ epsilon)
    (opens : Opens first epsilon production.derivation name) : first production.symbol name := by
  obtain ⟨before, symbol, after, split, vanish, begins⟩ := opens_iff.1 opens
  exact satisfied.begins production member before symbol after split vanish name begins named

theorem Satisfied.closes (satisfied : grammar.Satisfied first follow) {production : Production}
    (member : production ∈ grammar.productions) {symbol name : String}
    (closes : Closes (fun other => grammar.isNonterminal other = true) first epsilon
      production.derivation symbol)
    (follows : follow production.symbol name) : follow symbol name := by
  obtain ⟨before, after, split, nonterminal, later⟩ := closes
  exact satisfied.trailing production member before symbol after split nonterminal later name
    follows

theorem name_ne_epsilon {number : Nat} (inside : number < grammar.numbered.size)
    (named : number ≠ epsilonNumber) : grammar.numbered.name number ≠ epsilon := by
  intro same
  rw [← number_name inside, same, number_epsilon] at named
  exact named rfl

def onNumbers (grammar : Grammar) (relation : String → String → Prop) (symbol name : Nat) : Prop :=
  name < grammar.numbered.size ∧
    relation (grammar.numbered.name symbol) (grammar.numbered.name name)

theorem Satisfied.closed (satisfied : grammar.Satisfied first follow) :
    grammar.numbered.Closed (grammar.onNumbers first) (grammar.onNumbers follow) where
  terminal symbol terminal := by
    have inside : symbol < grammar.numbered.size :=
      grammar.valid_numbered.lt_size (by simp [terminal])
    exact ⟨inside, (satisfied.terminal _ (by rw [kind_name inside, terminal]) _).2 rfl⟩
  begins rule member name named opens := by
    obtain ⟨production, known, rfl⟩ := mem_rules_iff.1 member
    obtain ⟨_, _, _, _, _, inside, _⟩ := opens_iff.1 opens
    have read := opens.map grammar.numbered.name fun _ _ related => related.2
    rw [names_right known, name_epsilonNumber] at read
    exact ⟨inside, name_left known ▸ satisfied.opens known (name_ne_epsilon inside named) read⟩
  vanishes rule member vanish := by
    obtain ⟨production, known, rfl⟩ := mem_rules_iff.1 member
    refine ⟨Nat.lt_of_lt_of_le (by decide : epsilonNumber < 2) grammar.valid_numbered.markers, ?_⟩
    rw [name_left known, name_epsilonNumber]
    apply satisfied.vanishes production known
    intro symbol inside
    have related := (vanish _ (List.mem_map_of_mem inside)).2
    rwa [name_number (derivation_mem known inside), name_epsilonNumber] at related
  ends := by
    refine ⟨grammar.valid_numbered.markers, ?_⟩
    rw [start_numbered, name_number grammar.start_mem, name_endNumber]
    exact satisfied.ends
  adjacent rule member before symbol next after split nonterminal name named related := by
    obtain ⟨production, known, rfl⟩ := mem_rules_iff.1 member
    have read := names_right known
    rw [split, List.map_append, List.map_cons, List.map_cons] at read
    have here := grammar.valid_numbered.lt_size_of_isNonterminal nonterminal
    exact ⟨related.1, satisfied.adjacent production known _ _ _ _ read.symm
      (by rw [isNonterminal_name here, nonterminal]) _ related.2 (name_ne_epsilon related.1 named)⟩
  trailing rule member symbol closes name related := by
    obtain ⟨production, known, rfl⟩ := mem_rules_iff.1 member
    have read : Closes (fun other => grammar.isNonterminal other = true) first epsilon
        production.derivation (grammar.numbered.name symbol) := by
      rw [← names_right known, ← name_epsilonNumber]
      refine closes.map _ (fun _ _ related => related.2) fun other inside nonterminal => ?_
      rw [isNonterminal_name (grammar.valid_numbered.right _ member other inside), nonterminal]
    refine ⟨related.1, satisfied.closes known read ?_⟩
    rw [← name_left known]
    exact related.2

theorem number_ne_epsilonNumber {name : String} (member : name ∈ grammar.numbering)
    (named : name ≠ epsilon) : grammar.number name ≠ epsilonNumber := by
  rw [← number_epsilon grammar]
  exact mt (number_inj member grammar.epsilon_mem).1 named

section

variable {count : Nat}

theorem satisfied_run_terminal
    (closed : grammar.numbered.Closed ((Solver.ofGrammar grammar).run count).estimate.Begins
      ((Solver.ofGrammar grammar).run count).estimate.Follows) {symbol : String}
    (terminal : grammar.kind symbol = .terminal) (name : String) :
    ((Solver.ofGrammar grammar).run count).tables.InFirst symbol name ↔ name = symbol := by
  have written := ((grammar.kind_eq_terminal_iff symbol).1 terminal).2
  have known := mem_numbering_of_occurrence ((grammar.occurs_iff symbol).1 written)
  have numbered : grammar.numbered.kind (grammar.number symbol) = .terminal := by
    rw [kind_number known, terminal]
  rw [Solver.inFirst_run_iff]
  constructor
  · rintro ⟨_, member, begins⟩
    have exact := Solver.within_run grammar.valid_numbered.closed_terminal count
    exact (number_inj member known).1 (exact.begins _ _ begins numbered)
  · rintro rfl
    exact ⟨written, known, closed.terminal _ numbered⟩

theorem begins_of_inFirst_run {symbol name : String}
    (begins : ((Solver.ofGrammar grammar).run count).tables.InFirst symbol name) :
    ((Solver.ofGrammar grammar).run count).estimate.Begins (grammar.number symbol)
      (grammar.number name) :=
  ((Solver.inFirst_run_iff grammar count symbol name).1 begins).2.2

theorem satisfied_run
    (closed : grammar.numbered.Closed ((Solver.ofGrammar grammar).run count).estimate.Begins
      ((Solver.ofGrammar grammar).run count).estimate.Follows) :
    grammar.Satisfied ((Solver.ofGrammar grammar).run count).tables.InFirst
      ((Solver.ofGrammar grammar).run count).tables.InFollow where
  terminal _ terminal name := satisfied_run_terminal closed terminal name
  begins production member before symbol after split vanish name begins named := by
    have known := ((Solver.inFirst_run_iff grammar count symbol name).1 begins).2.1
    have opens := opens_iff.2 ⟨before, symbol, after, split, vanish, begins⟩
    refine (Solver.inFirst_run_iff grammar count _ _).2 ⟨occurs_symbol member, known, ?_⟩
    apply closed.begins _ (numberedRule_mem member) _ (number_ne_epsilonNumber known named)
    rw [← number_epsilon grammar]
    exact opens.map grammar.number fun _ _ => begins_of_inFirst_run
  vanishes production member vanish := by
    refine (Solver.inFirst_run_iff grammar count _ _).2
      ⟨occurs_symbol member, grammar.epsilon_mem, ?_⟩
    rw [number_epsilon]
    apply closed.vanishes _ (numberedRule_mem member)
    intro number inside
    obtain ⟨symbol, written, rfl⟩ := List.mem_map.1 inside
    rw [← number_epsilon grammar]
    exact begins_of_inFirst_run (vanish symbol written)
  ends := by
    refine (Solver.inFollow_run_iff grammar count _ _).2
      ⟨occurs_of_isNonterminal grammar.isNonterminal_start, grammar.endMarker_mem, ?_⟩
    rw [number_endMarker, ← start_numbered]
    exact closed.ends
  adjacent production member before previous symbol after split nonterminal name begins named := by
    have known := ((Solver.inFirst_run_iff grammar count symbol name).1 begins).2.1
    have numbered : grammar.numbered.isNonterminal (grammar.number previous) = true := by
      rw [isNonterminal_number (derivation_mem member (by simp [split])), nonterminal]
    have apart : (grammar.numberedRule production).right =
        before.map grammar.number ++
          grammar.number previous :: grammar.number symbol :: after.map grammar.number := by
      simp [numberedRule, split]
    refine (Solver.inFollow_run_iff grammar count _ _).2
      ⟨occurs_of_isNonterminal nonterminal, known, ?_⟩
    exact closed.adjacent _ (numberedRule_mem member) _ _ _ _ apart numbered _
      (number_ne_epsilonNumber known named) (begins_of_inFirst_run begins)
  trailing production member before symbol after split nonterminal later name follows := by
    have found := ((Solver.inFollow_run_iff grammar count production.symbol name).1 follows).2
    have closes : Closes (fun other => grammar.isNonterminal other = true)
        ((Solver.ofGrammar grammar).run count).tables.InFirst epsilon production.derivation symbol :=
      ⟨before, after, split, nonterminal, later⟩
    refine (Solver.inFollow_run_iff grammar count _ _).2
      ⟨occurs_of_isNonterminal nonterminal, found.1, ?_⟩
    apply closed.trailing _ (numberedRule_mem member) _ _ _ found.2
    rw [← number_epsilon grammar]
    refine closes.map grammar.number (fun _ _ => begins_of_inFirst_run) ?_
    intro other inside nonterminal
    rw [isNonterminal_number (derivation_mem member inside), nonterminal]

end

theorem within_run_of_satisfied (satisfied : grammar.Satisfied first follow) (count : Nat) :
    (∀ symbol name, ((Solver.ofGrammar grammar).run count).tables.InFirst symbol name →
      first symbol name) ∧
    ∀ symbol name, ((Solver.ofGrammar grammar).run count).tables.InFollow symbol name →
      follow symbol name := by
  have within := Solver.within_run satisfied.closed count
  have named {symbol name : String} (occurs : grammar.occurs symbol = true)
      (member : name ∈ grammar.numbering) {relation : String → String → Prop}
      (related : grammar.onNumbers relation (grammar.number symbol) (grammar.number name)) :
      relation symbol name := by
    have known := mem_numbering_of_occurrence ((grammar.occurs_iff symbol).1 occurs)
    have there := related.2
    rwa [name_number known, name_number member] at there
  refine ⟨fun symbol name begins => ?_, fun symbol name follows => ?_⟩
  · obtain ⟨occurs, member, begins⟩ := (Solver.inFirst_run_iff grammar count symbol name).1 begins
    exact named occurs member (within.begins _ _ begins)
  · obtain ⟨occurs, member, follows⟩ :=
      (Solver.inFollow_run_iff grammar count symbol name).1 follows
    exact named occurs member (within.follows _ _ follows)

theorem satisfied_tables (grammar : Grammar) :
    grammar.Satisfied grammar.tables.InFirst grammar.tables.InFollow := by
  obtain ⟨count, same, closed⟩ := Solver.exists_closed_run grammar
  rw [same]
  exact satisfied_run closed

theorem tables_within (satisfied : grammar.Satisfied first follow) :
    (∀ symbol name, grammar.tables.InFirst symbol name → first symbol name) ∧
      ∀ symbol name, grammar.tables.InFollow symbol name → follow symbol name := by
  obtain ⟨count, same, _⟩ := Solver.exists_closed_run grammar
  rw [same]
  exact within_run_of_satisfied satisfied count

theorem isSome_tables_iff (grammar : Grammar) (symbol : String) :
    (grammar.tables.firstOf? symbol).isSome = grammar.occurs symbol ∧
      (grammar.tables.followOf? symbol).isSome = grammar.occurs symbol := by
  obtain ⟨count, same, _⟩ := Solver.exists_closed_run grammar
  have entries (family : Family) :
      (((Solver.ofGrammar grammar).run count).tables.sets family |>.get? symbol).isSome =
        grammar.occurs symbol := by
    rw [Solver.get?_sets_run]
    cases occurs : grammar.occurs symbol <;> simp
  rw [same]
  exact ⟨entries .first, entries .follow⟩

theorem tables_least (grammar : Grammar) :
    (∀ symbol, (grammar.tables.firstOf? symbol).isSome = grammar.occurs symbol ∧
      (grammar.tables.followOf? symbol).isSome = grammar.occurs symbol) ∧
    IsLeast {sets : (String → String → Prop) × (String → String → Prop) |
      grammar.Satisfied sets.1 sets.2} (grammar.tables.InFirst, grammar.tables.InFollow) := by
  refine ⟨grammar.isSome_tables_iff, grammar.satisfied_tables, ?_⟩
  intro sets satisfied
  have included := tables_within satisfied
  exact ⟨included.1, included.2⟩

end Grammar

end Lookahead
