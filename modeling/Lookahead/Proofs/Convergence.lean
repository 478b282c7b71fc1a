import Lookahead.Proofs.Columns
import Mathlib.Data.Finset.Card

set_option autoImplicit false

namespace Lookahead

theorem settled_of_card (sets : Nat → Finset Nat) {whole : Finset Nat}
    (inside : ∀ step, sets step ⊆ whole) (grows : ∀ step, sets step ⊆ sets (step + 1))
    (lasts : ∀ step, sets step = sets (step + 1) → sets (step + 1) = sets (step + 2)) {step : Nat}
    (late : whole.card ≤ step) : sets step = sets (step + 1) := by
  have counted (step : Nat) : sets step = sets (step + 1) ∨ step < (sets (step + 1)).card := by
    induction step with
    | zero =>
      by_cases same : sets 0 = sets 1
      next => exact Or.inl same
      next =>
        have more := Finset.card_lt_card ((grows 0).ssubset_of_ne same)
        exact Or.inr (by omega)
    | succ step ih =>
      by_cases same : sets (step + 1) = sets (step + 2)
      next => exact Or.inl same
      next =>
        have more := Finset.card_lt_card ((grows (step + 1)).ssubset_of_ne same)
        rcases ih with settled | count
        · exact absurd (lasts step settled) same
        · exact Or.inr (by omega)
  rcases counted step with same | count
  · exact same
  · have bound := Finset.card_le_card (inside (step + 1))
    omega

namespace NumberedGrammar

variable {grammar : NumberedGrammar}

def nonterminals (grammar : NumberedGrammar) : Finset Nat :=
  (Finset.range grammar.size).filter fun symbol => grammar.isNonterminal symbol = true

theorem Valid.mem_nonterminals (valid : grammar.Valid) {symbol : Nat} :
    symbol ∈ grammar.nonterminals ↔ grammar.isNonterminal symbol = true := by
  rw [nonterminals, Finset.mem_filter, Finset.mem_range]
  exact ⟨And.right, fun nonterminal =>
    ⟨valid.lt_size_of_isNonterminal nonterminal, nonterminal⟩⟩

open Classical in
noncomputable def holders (grammar : NumberedGrammar) (column : Nat → Prop) : Finset Nat :=
  grammar.nonterminals.filter column

@[simp] theorem mem_holders {column : Nat → Prop} {symbol : Nat} :
    symbol ∈ grammar.holders column ↔ symbol ∈ grammar.nonterminals ∧ column symbol := by
  simp only [holders, Finset.mem_filter]

theorem holders_eq_iff {a b : Nat → Prop} :
    grammar.holders a = grammar.holders b ↔
      ∀ symbol ∈ grammar.nonterminals, a symbol ↔ b symbol := by
  simp only [Finset.ext_iff, mem_holders]
  grind

-- A column of the sets that goes on as it is once a pass has not changed it has come to its end
-- after as many passes as there are nonterminals.
theorem column_settles (column : Nat → Nat → Prop)
    (grows : ∀ pass symbol, column pass symbol → column (pass + 1) symbol)
    (others : ∀ pass, ∀ symbol ∉ grammar.nonterminals,
      column (pass + 1) symbol → column pass symbol)
    {start : Nat}
    (lasts : ∀ pass, start ≤ pass → (∀ symbol, column pass symbol ↔ column (pass + 1) symbol) →
      ∀ symbol, column (pass + 1) symbol ↔ column (pass + 2) symbol)
    {pass : Nat} (late : start + grammar.nonterminals.card ≤ pass) (symbol : Nat) :
    column pass symbol ↔ column (pass + 1) symbol := by
  have same_iff (pass : Nat) : grammar.holders (column pass) = grammar.holders (column (pass + 1)) ↔
      ∀ symbol, column pass symbol ↔ column (pass + 1) symbol := by
    rw [holders_eq_iff]
    refine ⟨fun same symbol => ?_, fun same symbol _ => same symbol⟩
    by_cases member : symbol ∈ grammar.nonterminals
    next => exact same symbol member
    next => exact ⟨grows pass symbol, others pass symbol member⟩
  obtain ⟨step, rfl⟩ := Nat.exists_eq_add_of_le (Nat.le_of_add_right_le late)
  refine (same_iff (start + step)).1 ?_ symbol
  apply settled_of_card (fun step => grammar.holders (column (start + step)))
  · intro step symbol member
    exact (mem_holders.1 member).1
  · intro step symbol member
    obtain ⟨nonterminal, holds⟩ := mem_holders.1 member
    exact mem_holders.2 ⟨nonterminal, grows (start + step) symbol holds⟩
  · intro step same
    exact (same_iff _).2 (lasts _ (Nat.le_add_right start step) ((same_iff _).1 same))
  · omega

end NumberedGrammar

namespace Solver

variable {grammar : Grammar}

def known (grammar : Grammar) (passes : Nat) : Estimate := ((ofGrammar grammar).run passes).estimate

theorem known_succ (grammar : Grammar) (passes : Nat) :
    known grammar (passes + 1) = (known grammar passes).sweep grammar.numbered :=
  estimate_run_succ (ofGrammar grammar) passes

theorem fits_known (grammar : Grammar) (passes : Nat) :
    (known grammar passes).Fits grammar.numbered :=
  fits_run grammar passes

theorem kept_known (grammar : Grammar) (passes : Nat) :
    (known grammar passes).Within (known grammar (passes + 1)).Begins
      (known grammar (passes + 1)).Follows := by
  rw [known_succ]
  exact Estimate.kept_sweep grammar.valid_numbered (fits_known grammar passes)

theorem within_nonterminals (grammar : Grammar) (passes : Nat) :
    (known grammar passes).Within
      (fun symbol name => grammar.numbered.isNonterminal symbol = true ∨
        grammar.numbered.kind symbol = .terminal ∧ name = symbol)
      (fun symbol _ => grammar.numbered.isNonterminal symbol = true) := by
  apply within_run (grammar.valid_numbered.closed_nonterminals ?_) passes
  rw [Grammar.start_numbered, Grammar.isNonterminal_number grammar.start_mem,
    grammar.isNonterminal_start]

theorem begins_known_of_other {passes symbol name : Nat}
    (other : symbol ∉ grammar.numbered.nonterminals)
    (begins : (known grammar (passes + 1)).Begins symbol name) :
    (known grammar passes).Begins symbol name := by
  rw [grammar.valid_numbered.mem_nonterminals] at other
  rcases (within_nonterminals grammar (passes + 1)).begins symbol name begins with
    nonterminal | terminal
  · exact absurd nonterminal other
  · exact (seeded_run grammar passes).begins symbol name
      ((Estimate.begins_initial grammar.valid_numbered symbol name).2 terminal)

theorem follows_known_of_other {passes symbol name : Nat}
    (other : symbol ∉ grammar.numbered.nonterminals)
    (follows : (known grammar (passes + 1)).Follows symbol name) :
    (known grammar passes).Follows symbol name := by
  rw [grammar.valid_numbered.mem_nonterminals] at other
  exact absurd ((within_nonterminals grammar (passes + 1)).follows symbol name follows) other

theorem beginsAlike_known {passes name : Nat}
    (alike : (known grammar passes).BeginsAlike (known grammar (passes + 1)) name) :
    (known grammar (passes + 1)).BeginsAlike (known grammar (passes + 2)) name := by
  have later := alike.sweep grammar.valid_numbered (fits_known grammar passes)
    (fits_known grammar (passes + 1))
  rwa [← known_succ, ← known_succ] at later

theorem alike_known {passes name : Nat}
    (alike : (known grammar passes).Alike (known grammar (passes + 1)) name) :
    (known grammar (passes + 1)).Alike (known grammar (passes + 2)) name := by
  have later := alike.sweep grammar.valid_numbered (fits_known grammar passes)
    (fits_known grammar (passes + 1))
  rwa [← known_succ, ← known_succ] at later

-- Which symbols vanish settles first, then where each name begins, which goes by what vanishes, and
-- last what each name follows, which goes by both.
theorem vanish_settles {passes : Nat} (late : grammar.numbered.nonterminals.card ≤ passes)
    (symbol : Nat) :
    (known grammar passes).Begins symbol epsilonNumber ↔
      (known grammar (passes + 1)).Begins symbol epsilonNumber := by
  apply NumberedGrammar.column_settles
    (fun passes symbol => (known grammar passes).Begins symbol epsilonNumber)
  · exact fun passes symbol => (kept_known grammar passes).begins symbol epsilonNumber
  · exact fun passes symbol other => begins_known_of_other other
  · exact fun passes _ same => (beginsAlike_known ⟨same, same⟩).begins
  · rwa [Nat.zero_add]

theorem beginsAlike_settles {passes : Nat}
    (late : 2 * grammar.numbered.nonterminals.card ≤ passes) (name : Nat) :
    (known grammar passes).BeginsAlike (known grammar (passes + 1)) name := by
  refine ⟨vanish_settles (by omega), ?_⟩
  apply NumberedGrammar.column_settles
    (fun passes symbol => (known grammar passes).Begins symbol name)
  · exact fun passes symbol => (kept_known grammar passes).begins symbol name
  · exact fun passes symbol other => begins_known_of_other other
  · exact fun passes late same => (beginsAlike_known ⟨vanish_settles late, same⟩).begins
  · rwa [← Nat.two_mul]

theorem alike_settles {passes : Nat} (late : 3 * grammar.numbered.nonterminals.card ≤ passes)
    (name : Nat) : (known grammar passes).Alike (known grammar (passes + 1)) name := by
  refine ⟨beginsAlike_settles (by omega) name, ?_⟩
  apply NumberedGrammar.column_settles
    (fun passes symbol => (known grammar passes).Follows symbol name)
  · exact fun passes symbol => (kept_known grammar passes).follows symbol name
  · exact fun passes symbol other => follows_known_of_other other
  · exact fun passes late same => (alike_known ⟨beginsAlike_settles late name, same⟩).follows
  · omega

theorem grown_known_eq_false (grammar : Grammar) {passes : Nat}
    (late : 3 * grammar.numbered.nonterminals.card ≤ passes) :
    (known grammar (passes + 1)).grown = false := by
  rw [known_succ]
  apply Estimate.grown_sweep_eq_false (fits_known grammar passes)
  intro name
  rw [← known_succ]
  exact alike_settles late name

end Solver

namespace Grammar

theorem card_nonterminals_le (grammar : Grammar) :
    grammar.numbered.nonterminals.card ≤ grammar.nonterminals.length := by
  have inside {symbol : Nat} (member : symbol ∈ grammar.numbered.nonterminals) :=
    grammar.valid_numbered.lt_size_of_isNonterminal
      (grammar.valid_numbered.mem_nonterminals.1 member)
  have named : Set.MapsTo grammar.numbered.name grammar.numbered.nonterminals
      grammar.nonterminals.toFinset := by
    intro symbol member
    rw [Finset.mem_coe] at member
    rw [Finset.mem_coe, List.mem_toFinset, nonterminals, ← OrderedMap.contains_iff]
    change grammar.isNonterminal _ = true
    rw [isNonterminal_name (inside member)]
    exact grammar.valid_numbered.mem_nonterminals.1 member
  have distinct : Set.InjOn grammar.numbered.name grammar.numbered.nonterminals := by
    intro a left b right same
    rw [← number_name (inside left), same, number_name (inside right)]
  exact (Finset.card_le_card_of_injOn _ named distinct).trans (List.toFinset_card_le _)

theorem settle_within (grammar : Grammar) :
    ∃ passes ≤ 3 * grammar.nonterminals.length,
      (Solver.ofGrammar grammar).settle = (Solver.ofGrammar grammar).run (passes + 1) ∧
        ((Solver.ofGrammar grammar).run (passes + 1)).answers =
          false :: List.replicate passes true := by
  obtain ⟨passes, same, still, growing⟩ := Solver.settle_eq_run (Solver.ofGrammar grammar)
  refine ⟨passes, ?_, same, ?_⟩
  · by_contra more
    have count := grammar.card_nonterminals_le
    have quiet := Solver.grown_known_eq_false grammar (le_refl _)
    have busy := growing (3 * grammar.numbered.nonterminals.card) (by omega)
    rw [Solver.known, busy] at quiet
    cases quiet
  · have earlier : (List.range passes).map (fun earlier =>
        ((Solver.ofGrammar grammar).run (earlier + 1)).estimate.grown) =
          List.replicate passes true := by
      rw [List.eq_replicate_iff]
      refine ⟨by simp, fun answer member => ?_⟩
      obtain ⟨pass, inside, rfl⟩ := List.mem_map.1 member
      exact growing pass (List.mem_range.1 inside)
    rw [Solver.answers_run, List.range_succ, List.map_append, earlier, List.reverse_append,
      List.reverse_replicate, List.map_singleton, still]
    exact List.append_nil _

end Grammar

end Lookahead
