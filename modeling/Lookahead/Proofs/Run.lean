import Lookahead.Proofs.Closure
import Lookahead.Proofs.Numbering

set_option autoImplicit false

namespace Lookahead

namespace Solver

theorem run_succ (solver : Solver) (count : Nat) : solver.run (count + 1) = (solver.run count).pass := by
  induction count generalizing solver with
  | zero => rfl
  | succ count ih => exact ih solver.pass

@[simp] theorem grammar_run (solver : Solver) (count : Nat) :
    (solver.run count).grammar = solver.grammar := by
  induction count with
  | zero => rfl
  | succ count ih => rw [run_succ, pass, ih]

theorem estimate_run_succ (solver : Solver) (count : Nat) :
    (solver.run (count + 1)).estimate = (solver.run count).estimate.sweep solver.grammar := by
  rw [run_succ, pass, grammar_run]

theorem answers_run (solver : Solver) (count : Nat) :
    (solver.run count).answers =
      ((List.range count).map fun earlier => (solver.run (earlier + 1)).estimate.grown).reverse ++
        solver.answers := by
  induction count with
  | zero => rfl
  | succ count ih =>
    have latest : (solver.run (count + 1)).answers =
        (solver.run (count + 1)).estimate.grown :: (solver.run count).answers := by
      rw [run_succ]
      rfl
    rw [latest, ih, List.range_succ, List.map_append, List.reverse_append]
    rfl

theorem settle_eq_run (solver : Solver) :
    ∃ count, solver.settle = solver.run (count + 1) ∧
      (solver.run (count + 1)).estimate.grown = false ∧
      ∀ earlier < count, (solver.run (earlier + 1)).estimate.grown = true := by
  fun_induction settle solver with
  | case1 solver next grown ih =>
    obtain ⟨count, same, still, growing⟩ := ih
    refine ⟨count + 1, same, still, fun earlier before => ?_⟩
    cases earlier with
    | zero => exact grown
    | succ earlier => exact growing earlier (by omega)
  | case2 solver next still => exact ⟨0, rfl, Bool.eq_false_iff.2 still, by simp⟩

variable {grammar : Grammar} {first follow : Nat → Nat → Prop}

theorem fits_run (grammar : Grammar) (count : Nat) :
    ((ofGrammar grammar).run count).estimate.Fits grammar.numbered := by
  induction count with
  | zero => exact Estimate.fits_initial grammar.numbered
  | succ count ih =>
    rw [estimate_run_succ]
    exact Estimate.fits_sweep ih

theorem within_run (closed : grammar.numbered.Closed first follow) (count : Nat) :
    ((ofGrammar grammar).run count).estimate.Within first follow := by
  induction count with
  | zero => exact Estimate.within_initial grammar.valid_numbered closed
  | succ count ih =>
    rw [estimate_run_succ]
    exact Estimate.within_sweep grammar.valid_numbered closed (fits_run grammar count) ih

theorem seeded_run (grammar : Grammar) (count : Nat) :
    (Estimate.initial grammar.numbered).Within
      ((ofGrammar grammar).run count).estimate.Begins
      ((ofGrammar grammar).run count).estimate.Follows := by
  induction count with
  | zero => exact ⟨fun _ _ => id, fun _ _ => id⟩
  | succ count ih =>
    have kept := Estimate.kept_sweep grammar.valid_numbered (fits_run grammar count)
    rw [estimate_run_succ]
    exact ⟨fun symbol name known => kept.begins _ _ (ih.begins _ _ known),
      fun symbol name known => kept.follows _ _ (ih.follows _ _ known)⟩

theorem exists_closed_run (grammar : Grammar) :
    ∃ count, grammar.tables = ((ofGrammar grammar).run count).tables ∧
      grammar.numbered.Closed ((ofGrammar grammar).run count).estimate.Begins
        ((ofGrammar grammar).run count).estimate.Follows := by
  obtain ⟨count, same, still, _⟩ := settle_eq_run (ofGrammar grammar)
  refine ⟨count + 1, by rw [Grammar.tables, same], ?_⟩
  rw [estimate_run_succ] at still ⊢
  have closed := Estimate.closed_of_still grammar.valid_numbered (fits_run grammar count)
    (seeded_run grammar count) still
  rw [Estimate.sweep_eq_of_still still]
  exact closed

end Solver

theorem NumberedGrammar.Valid.closed_terminal {grammar : NumberedGrammar} (valid : grammar.Valid) :
    grammar.Closed (fun symbol name => grammar.kind symbol = .terminal → name = symbol)
      (fun _ _ => True) := by
  have left {rule : NumberedRule} (member : rule ∈ grammar.rules) :
      grammar.kind rule.left ≠ .terminal := by
    have nonterminal := valid.left rule member
    rw [NumberedGrammar.isNonterminal, beq_iff_eq] at nonterminal
    simp [nonterminal]
  exact
    { terminal := fun _ _ _ => rfl
      begins := fun _ member _ _ _ terminal => absurd terminal (left member)
      vanishes := fun _ member _ terminal => absurd terminal (left member)
      ends := trivial
      adjacent := fun _ _ _ _ _ _ _ _ _ _ _ => trivial
      trailing := fun _ _ _ _ _ _ => trivial }

theorem NumberedGrammar.Valid.closed_nonterminals {grammar : NumberedGrammar}
    (valid : grammar.Valid) (start : grammar.isNonterminal grammar.start = true) :
    grammar.Closed
      (fun symbol name =>
        grammar.isNonterminal symbol = true ∨ grammar.kind symbol = .terminal ∧ name = symbol)
      (fun symbol _ => grammar.isNonterminal symbol = true) where
  terminal _ terminal := Or.inr ⟨terminal, rfl⟩
  begins rule member _ _ _ := Or.inl (valid.left rule member)
  vanishes rule member _ := Or.inl (valid.left rule member)
  ends := start
  adjacent _ _ _ _ _ _ _ nonterminal _ _ _ := nonterminal
  trailing _ _ _ closes _ _ := by
    obtain ⟨_, _, _, nonterminal, _⟩ := closes
    exact nonterminal

theorem NumberedGrammar.Valid.closed_inside {grammar : NumberedGrammar} (valid : grammar.Valid) :
    grammar.Closed (fun _ name => name < grammar.size) (fun _ name => name < grammar.size) where
  terminal _ terminal := valid.lt_size (by simp [terminal])
  begins _ _ _ _ opens := by
    obtain ⟨_, _, _, _, _, inside⟩ := opens_iff.1 opens
    exact inside
  vanishes _ _ _ := Nat.lt_of_lt_of_le (by decide : epsilonNumber < 2) valid.markers
  ends := valid.markers
  adjacent _ _ _ _ _ _ _ _ _ _ inside := inside
  trailing _ _ _ _ _ inside := inside

end Lookahead
