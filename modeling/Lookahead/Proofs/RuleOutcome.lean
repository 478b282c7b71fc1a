import Lookahead.Proofs.Bounds
import Lookahead.Proofs.Places

set_option autoImplicit false

namespace Lookahead

-- `A -> B A C; B -> ε | b; C -> ε | c`: the left side stands between symbols that can vanish.
def Grammar.enclosed : Grammar :=
  ofPlain [⟨"A", ["B", "A", "C"]⟩, ⟨"B", []⟩, ⟨"B", ["b"]⟩, ⟨"C", []⟩, ⟨"C", ["c"]⟩]
    (by decide) (by decide) (by decide)

namespace Estimate

instance (estimate : Estimate) (symbol name : Nat) : Decidable (estimate.Begins symbol name) :=
  inferInstanceAs (Decidable (_ = true))

instance (estimate : Estimate) (symbol name : Nat) : Decidable (estimate.Follows symbol name) :=
  inferInstanceAs (Decidable (_ = true))

variable {grammar : NumberedGrammar} {estimate : Estimate} {rule : NumberedRule} {symbol : Nat}

theorem setOf_first_applyRule_of_ne (valid : grammar.Valid) (fits : estimate.Fits grammar)
    (member : rule ∈ grammar.rules) (other : symbol ≠ rule.left) :
    (applyRule grammar estimate rule).setOf .first symbol = estimate.setOf .first symbol := by
  apply ((raises_applyRule grammar estimate rule).fits fits).setOf_ext fits
  intro name
  have begins := begins_applyRule valid fits member symbol name
  rwa [or_iff_left fun left => other left.1] at begins

theorem setOf_follow_applyRule_of_outside (valid : grammar.Valid) (fits : estimate.Fits grammar)
    (member : rule ∈ grammar.rules)
    (outside : ¬(grammar.isNonterminal symbol = true ∧ symbol ∈ rule.right)) :
    (applyRule grammar estimate rule).setOf .follow symbol = estimate.setOf .follow symbol := by
  apply ((raises_applyRule grammar estimate rule).fits fits).setOf_ext fits
  intro name
  have follows := follows_applyRule valid fits member symbol name
  rwa [FollowsRead, or_iff_left fun trailing => outside trailing.2.mem,
    or_iff_left fun adjoining => outside ⟨adjoining.1, adjoining.2.2.mem⟩] at follows

theorem exists_begins_applyRule_left (valid : grammar.Valid) (fits : estimate.Fits grammar)
    (member : rule ∈ grammar.rules) :
    ∃ reach, IsGreatest {count | ReadsTo (estimate.Begins · epsilonNumber) rule.right count} reach ∧
      ∀ name, (applyRule grammar estimate rule).Begins rule.left name ↔
        estimate.Begins rule.left name ∨
          name ≠ epsilonNumber ∧
            (∃ symbol ∈ rule.right.take reach, estimate.Begins symbol name) ∨
          name = epsilonNumber ∧ ∀ symbol ∈ rule.right, estimate.Begins symbol epsilonNumber := by
  obtain ⟨reach, greatest⟩ := exists_reach (estimate.Begins · epsilonNumber) rule.right
  refine ⟨reach, greatest, fun name => ?_⟩
  rw [begins_applyRule valid fits member, opens_iff_of_reach greatest]
  simp only [true_and]

theorem first_after_rule {grammar : Grammar} {estimate : Estimate} {rule : NumberedRule}
    (fits : estimate.Fits grammar.numbered) (member : rule ∈ grammar.numbered.rules) :
    let after := applyRule grammar.numbered estimate rule
    applyRule? grammar.numbered estimate rule = some after ∧
    after.Fits grammar.numbered ∧
    (∀ symbol, symbol ≠ rule.left → after.setOf .first symbol = estimate.setOf .first symbol) ∧
    (∀ symbol, ¬(grammar.numbered.isNonterminal symbol = true ∧ symbol ∈ rule.right) →
      after.setOf .follow symbol = estimate.setOf .follow symbol) ∧
    (∃ reach,
      IsGreatest {count | ReadsTo (estimate.Begins · epsilonNumber) rule.right count} reach ∧
      ∀ name, after.Begins rule.left name ↔
        estimate.Begins rule.left name ∨
          name ≠ epsilonNumber ∧
            (∃ symbol ∈ rule.right.take reach, estimate.Begins symbol name) ∨
          name = epsilonNumber ∧ ∀ symbol ∈ rule.right, estimate.Begins symbol epsilonNumber) ∧
    (after.grown = true ↔ estimate.grown = true ∨
      ∃ symbol, after.setOf .first symbol ≠ estimate.setOf .first symbol ∨
        after.setOf .follow symbol ≠ estimate.setOf .follow symbol) := by
  intro after
  have valid := grammar.valid_numbered
  have raises : estimate.Raises after := raises_applyRule grammar.numbered estimate rule
  have kept : after.Fits grammar.numbered := raises.fits fits
  exact ⟨applyRule?_eq_some valid fits member, kept,
    fun _ other => setOf_first_applyRule_of_ne valid fits member other,
    fun _ outside => setOf_follow_applyRule_of_outside valid fits member outside,
    exists_begins_applyRule_left valid fits member, raises.grown_iff fits kept⟩

theorem first_after_rule_enclosed :
    let estimate := ((Solver.ofGrammar Grammar.enclosed).run 1).estimate
    let rule : NumberedRule := ⟨2, [3, 2, 4]⟩
    let after := applyRule Grammar.enclosed.numbered estimate rule
    estimate.Fits Grammar.enclosed.numbered ∧ rule ∈ Grammar.enclosed.numbered.rules ∧
      ¬estimate.Begins 2 5 ∧ after.Begins 2 5 ∧
      IsGreatest {count | ReadsTo (estimate.Begins · epsilonNumber) rule.right count} 2 ∧
      after.setOf .first 4 = estimate.setOf .first 4 ∧
      after.setOf .follow 5 = estimate.setOf .follow 5 ∧
      after.grown = true := by
  intro estimate rule after
  have fits : estimate.Fits Grammar.enclosed.numbered := Solver.fits_run Grammar.enclosed 1
  have member : rule ∈ Grammar.enclosed.numbered.rules := by decide +kernel
  have fresh : ¬estimate.Begins 2 5 := by decide +kernel
  have begun : estimate.Begins 3 5 := by decide +kernel
  have vanishes : estimate.Begins 3 epsilonNumber := by decide +kernel
  have stays : ¬estimate.Begins 2 epsilonNumber := by decide +kernel
  have outside :
      ¬(Grammar.enclosed.numbered.isNonterminal 5 = true ∧ 5 ∈ rule.right) := by decide +kernel
  have two : IsGreatest {count | ReadsTo (estimate.Begins · epsilonNumber) rule.right count} 2 := by
    refine ⟨⟨by decide, by simpa [rule] using vanishes⟩, fun count reads => ?_⟩
    by_contra more
    have further : 2 ≤ count - 1 := by omega
    exact stays (reads.2 2 (List.take_subset_take_left rule.right further (by simp [rule])))
  obtain ⟨_, _, first, follow, ⟨reach, greatest, begins⟩, grown⟩ := first_after_rule fits member
  obtain rfl : reach = 2 := greatest.unique two
  have added : after.Begins 2 5 :=
    (begins 5).2 (Or.inr (Or.inl ⟨by decide, 3, by decide, begun⟩))
  have changed : after.setOf .first 2 ≠ estimate.setOf .first 2 := by
    intro same
    rw [Begins, same] at added
    exact fresh added
  exact ⟨fits, member, fresh, added, two, first 4 (by decide), follow 5 outside,
    grown.2 (Or.inr ⟨2, Or.inl changed⟩)⟩

/-- A name begins the symbol at a place of the right side by the time the walk gets there. The left
side then also begins with what the symbols in front of that place have brought to it. -/
def BeginsAt (estimate : Estimate) (rule : NumberedRule) (place name : Nat) : Prop :=
  ∃ symbol, rule.right[place]? = some symbol ∧
    (estimate.Begins symbol name ∨
      symbol = rule.left ∧ name ≠ epsilonNumber ∧ ∃ earlier < place,
        (∃ other, rule.right[earlier]? = some other ∧ estimate.Begins other name) ∧
          ∀ before ∈ rule.right.take earlier, estimate.Begins before epsilonNumber)

def FollowsNeighbours (estimate : Estimate) (rule : NumberedRule) (symbol name : Nat) : Prop :=
  estimate.Follows symbol name ∨
    name ≠ epsilonNumber ∧
      ∃ place, rule.right[place]? = some symbol ∧ estimate.BeginsAt rule (place + 1) name

/-- Behind one of its places in the right side there are only nonterminals that can vanish. -/
def Trails (grammar : NumberedGrammar) (estimate : Estimate) (rule : NumberedRule) (symbol : Nat) :
    Prop :=
  grammar.isNonterminal symbol = true ∧
    ∃ place, rule.right[place]? = some symbol ∧
      ∀ later ∈ rule.right.drop (place + 1),
        grammar.isNonterminal later = true ∧ estimate.Begins later epsilonNumber

theorem followsRead_iff {name : Nat} (nonterminal : grammar.isNonterminal symbol = true) :
    FollowsRead grammar estimate rule symbol name ↔
      estimate.FollowsNeighbours rule symbol name := by
  rw [FollowsRead, FollowsNeighbours, adjoins_iff_getElem?]
  simp only [nonterminal, true_and]
  refine or_congr_right (and_congr_right fun named => exists_congr fun place => ?_)
  simp [BeginsAt, opens_take_iff, named]

theorem closes_iff_trails :
    Closes (fun other => grammar.isNonterminal other = true) estimate.Begins epsilonNumber
        rule.right symbol ↔
      estimate.Trails grammar rule symbol :=
  closes_iff_getElem?

/-- What a rule does to FOLLOW. First each nonterminal is followed by what begins the symbol right
behind it. Then what follows the left side, also by the first step, follows the nonterminals at the
end of the right side, from the last symbol on up to the first one that is a terminal, which is left
out, or cannot vanish. -/
theorem follow_after_rule {grammar : Grammar} {estimate : Estimate} {rule : NumberedRule}
    (fits : estimate.Fits grammar.numbered) (member : rule ∈ grammar.numbered.rules) :
    let after := applyRule grammar.numbered estimate rule
    applyRule? grammar.numbered estimate rule = some after ∧
    (∀ symbol, grammar.numbered.isNonterminal symbol = true → ∀ name,
      after.Follows symbol name ↔
        estimate.FollowsNeighbours rule symbol name ∨
          estimate.Trails grammar.numbered rule symbol ∧
            estimate.FollowsNeighbours rule rule.left name) ∧
    ∃ before run, rule.right = before ++ run ∧
      (∀ symbol ∈ run,
        grammar.numbered.isNonterminal symbol = true ∧ estimate.Begins symbol epsilonNumber) ∧
      (∀ stop, before.getLast? = some stop →
        ¬(grammar.numbered.isNonterminal stop = true ∧ estimate.Begins stop epsilonNumber)) ∧
      ∀ symbol, estimate.Trails grammar.numbered rule symbol ↔
        symbol ∈ run ∨
          before.getLast? = some symbol ∧ grammar.numbered.isNonterminal symbol = true := by
  intro after
  have valid := grammar.valid_numbered
  have left := valid.left rule member
  refine ⟨applyRule?_eq_some valid fits member, fun symbol nonterminal name => ?_, ?_⟩
  · rw [follows_applyRule valid fits member, followsRead_iff nonterminal, followsRead_iff left,
      closes_iff_trails, and_comm]
  · simp only [← closes_iff_trails]
    exact exists_closing_run _ _ _ _

-- What comes to begin A in this pass already follows the B in front of it.
theorem follow_after_rule_enclosed :
    let estimate := ((Solver.ofGrammar Grammar.enclosed).run 1).estimate
    let rule : NumberedRule := ⟨2, [3, 2, 4]⟩
    let after := applyRule Grammar.enclosed.numbered estimate rule
    estimate.Fits Grammar.enclosed.numbered ∧ rule ∈ Grammar.enclosed.numbered.rules ∧
      ¬estimate.Begins 2 5 ∧ ¬estimate.Follows 3 5 ∧ after.Follows 3 5 ∧
      ¬estimate.Follows 2 6 ∧ estimate.Trails Grammar.enclosed.numbered rule 4 ∧
      after.Follows 4 6 := by
  intro estimate rule after
  have fits : estimate.Fits Grammar.enclosed.numbered := Solver.fits_run Grammar.enclosed 1
  have member : rule ∈ Grammar.enclosed.numbered.rules := by decide +kernel
  have upper : Grammar.enclosed.numbered.isNonterminal 3 = true := by decide +kernel
  have lower : Grammar.enclosed.numbered.isNonterminal 4 = true := by decide +kernel
  have begun : estimate.Begins 3 5 := by decide +kernel
  have behind : estimate.Begins 4 6 := by decide +kernel
  obtain ⟨_, follows, _⟩ := follow_after_rule fits member
  have trails : estimate.Trails Grammar.enclosed.numbered rule 4 :=
    ⟨lower, 2, rfl, by simp [rule]⟩
  have running : estimate.FollowsNeighbours rule 3 5 :=
    Or.inr ⟨by decide, 0, rfl, 2, rfl,
      Or.inr ⟨rfl, by decide, 0, by decide, ⟨3, rfl, begun⟩, by simp⟩⟩
  have spread : estimate.FollowsNeighbours rule rule.left 6 :=
    Or.inr ⟨by decide, 1, rfl, 4, rfl, Or.inl behind⟩
  exact ⟨fits, member, by decide +kernel, by decide +kernel, (follows 3 upper 5).2 (Or.inl running),
    by decide +kernel, trails, (follows 4 lower 6).2 (Or.inr ⟨trails, spread⟩)⟩

end Estimate

end Lookahead
