import Lookahead.Estimate.Basic

set_option autoImplicit false

namespace Lookahead

structure BitSet.Widens (raise : BitSet → BitSet) : Prop where
  size : ∀ set, (raise set).words.size = set.words.size
  grows : ∀ set : BitSet, set.Grows (raise set)

namespace BitSet

theorem widens_insert (bit : Nat) : Widens fun set => set.insert bit :=
  ⟨fun set => size_insert set bit, fun set => set.grows_insert bit⟩

theorem widens_union (other : BitSet) : Widens fun set => set.union other :=
  ⟨fun set => size_union set other, fun set => set.grows_union other⟩

theorem widens_unionWithout (other : BitSet) (excluded : Nat) :
    Widens fun set => set.unionWithout other excluded :=
  ⟨fun set => size_unionWithout set other excluded, fun set => set.grows_unionWithout other excluded⟩

end BitSet

namespace Estimate

inductive Raises : Estimate → Estimate → Prop where
  | refl (estimate : Estimate) : Raises estimate estimate
  | raise {before after : Estimate} (earlier : Raises before after) (family : Family) (symbol : Nat)
      {change : BitSet → BitSet} (widens : BitSet.Widens change) :
      Raises before (after.raise family symbol change)

theorem Raises.trans {a b c : Estimate} (first : a.Raises b) (second : b.Raises c) :
    a.Raises c := by
  induction second with
  | refl => exact first
  | raise _ family symbol widens ih => exact ih.raise family symbol widens

variable {estimate before after : Estimate}

theorem setIfInBounds_getD_self (sets : Array BitSet) (symbol : Nat) :
    sets.setIfInBounds symbol (sets.getD symbol (BitSet.ofSize 0)) = sets := by
  apply Array.ext (by simp)
  intro index left right
  rw [Array.getElem_setIfInBounds right]
  split
  next same => subst same; simp [right]
  next => rfl

theorem raise_eq_self {family : Family} {symbol : Nat} {change : BitSet → BitSet}
    (same : change (estimate.setOf family symbol) = estimate.setOf family symbol) :
    estimate.raise family symbol change = estimate := by
  apply ext_sets
  · intro other
    rw [sets_raise, same, setOf, setIfInBounds_getD_self]
    split
    next here => rw [here]
    next => rfl
  · rw [grown_raise, same, bne_self_eq_false, Bool.or_false]

theorem Raises.eq_of_still (raises : before.Raises after) (still : after.grown = false) :
    after = before := by
  induction raises with
  | refl => rfl
  | raise _ family symbol widens ih =>
    rw [grown_raise, Bool.or_eq_false_iff, bne_eq_false_iff_eq] at still
    rw [raise_eq_self still.2, ih still.1]

theorem raises_beginLeft (estimate : Estimate) (left : Nat) (nullable : Bool) (begins : BitSet) :
    estimate.Raises (estimate.beginLeft left nullable begins) := by
  rw [beginLeft]
  split
  next => exact (Raises.refl estimate).raise .first left (BitSet.widens_unionWithout _ _)
  next => exact Raises.refl estimate

theorem raises_followPrevious (grammar : NumberedGrammar) (estimate : Estimate)
    (previous : Option Nat) (begins : BitSet) :
    estimate.Raises (followPrevious grammar estimate previous begins) := by
  cases previous with
  | none => exact Raises.refl estimate
  | some symbol =>
    simp only [followPrevious]
    split
    next => exact (Raises.refl estimate).raise .follow symbol (BitSet.widens_unionWithout _ _)
    next => exact Raises.refl estimate

theorem Walk.raises_step (grammar : NumberedGrammar) (left : Nat) (walk : Walk) (symbol : Nat) :
    walk.estimate.Raises (walk.step grammar left symbol).estimate :=
  (raises_beginLeft walk.estimate left walk.nullable _).trans
    (raises_followPrevious grammar _ walk.previous _)

theorem Walk.raises_foldl (grammar : NumberedGrammar) (left : Nat) (walk : Walk)
    (symbols : List Nat) :
    walk.estimate.Raises (symbols.foldl (Walk.step grammar left) walk).estimate := by
  induction symbols generalizing walk with
  | nil => exact Raises.refl _
  | cons symbol rest ih => exact (walk.raises_step grammar left symbol).trans (ih _)

theorem raises_trail (grammar : NumberedGrammar) (follows : BitSet) (estimate : Estimate)
    (symbols : List Nat) : estimate.Raises (trail grammar follows estimate symbols) := by
  induction symbols generalizing estimate with
  | nil => exact Raises.refl _
  | cons symbol before ih =>
    have raised := (Raises.refl estimate).raise .follow symbol (BitSet.widens_union follows)
    simp only [trail]
    split
    next =>
      split
      next => exact raised.trans (ih _)
      next => exact raised
    next => exact Raises.refl _

theorem raises_applyRule (grammar : NumberedGrammar) (estimate : Estimate) (rule : NumberedRule) :
    estimate.Raises (applyRule grammar estimate rule) := by
  have walked := Walk.raises_foldl grammar rule.left ⟨estimate, none, true⟩ rule.right
  have trailed (follows : BitSet) :=
    walked.trans (raises_trail grammar follows _ rule.right.reverse)
  simp only [applyRule]
  split
  next => exact (trailed _).raise .first rule.left (BitSet.widens_insert _)
  next => exact trailed _

theorem raises_applyRules (grammar : NumberedGrammar) (rules : List NumberedRule)
    (estimate : Estimate) : estimate.Raises (rules.foldl (applyRule grammar) estimate) := by
  induction rules generalizing estimate with
  | nil => exact Raises.refl _
  | cons rule rest ih => exact (raises_applyRule grammar estimate rule).trans (ih _)

end Estimate

end Lookahead
