import Lookahead.BitSet.Basic

set_option autoImplicit false

namespace Lookahead.BitSet

theorem word_boundary (index : Nat) : index < 64 * (index / 64 + 1) := by omega

def next? (set : BitSet) (position : Nat) : Option Nat :=
  if position < set.capacity then
    match Word.lowest? (set.word (position / 64) >>> UInt64.ofNat (position % 64)) with
    | some step => some (position + step)
    | none => set.next? (64 * (position / 64 + 1))
  else none
termination_by set.capacity - position
decreasing_by
  have boundary := word_boundary position
  omega

theorem contains_add (set : BitSet) {position step : Nat} (bound : position % 64 + step < 64) :
    set.contains (position + step) =
      Word.has (set.word (position / 64) >>> UInt64.ofNat (position % 64)) step := by
  have same : (position + step) / 64 = position / 64 := by omega
  have offset : (position + step) % 64 = position % 64 + step := by omega
  rw [Word.has_shiftRight _ (Nat.mod_lt _ (by decide)), contains, same, offset]

theorem next?_eq_some {set : BitSet} {position bit : Nat} (found : set.next? position = some bit) :
    position ≤ bit ∧ set.contains bit = true ∧
      ∀ other, position ≤ other → other < bit → set.contains other = false := by
  fun_induction next? set position with
  | case1 position inside step lowest =>
    cases found
    obtain ⟨here, below⟩ := Word.lowest?_eq_some_iff.1 lowest
    have bound : position % 64 + step < 64 := Decidable.byContradiction fun large => by
      rw [Word.has_shiftRight _ (Nat.mod_lt _ (by decide)), Word.has_eq_false (by omega)] at here
      simp at here
    refine ⟨Nat.le_add_right _ _, by rwa [contains_add set bound], fun other low high => ?_⟩
    obtain ⟨early, rfl⟩ := Nat.exists_eq_add_of_le low
    rw [contains_add set (by omega)]
    exact below early (by omega)
  | case2 position inside lowest ih =>
    obtain ⟨later, member, between⟩ := ih found
    have boundary := word_boundary position
    refine ⟨by omega, member, fun other low high => ?_⟩
    by_cases next : 64 * (position / 64 + 1) ≤ other
    next => exact between other next high
    next =>
      obtain ⟨step, rfl⟩ := Nat.exists_eq_add_of_le low
      rw [contains_add set (by omega), Word.lowest?_eq_none_iff.1 lowest, Word.has_zero]
  | case3 => cases found

theorem next?_eq_none {set : BitSet} {position : Nat} (exhausted : set.next? position = none) :
    ∀ other, position ≤ other → set.contains other = false := by
  fun_induction next? set position with
  | case1 => cases exhausted
  | case2 position inside lowest ih =>
    have boundary := word_boundary position
    intro other low
    by_cases next : 64 * (position / 64 + 1) ≤ other
    next => exact ih exhausted other next
    next =>
      obtain ⟨step, rfl⟩ := Nat.exists_eq_add_of_le low
      rw [contains_add set (by omega), Word.lowest?_eq_none_iff.1 lowest, Word.has_zero]
  | case3 position outside =>
    exact fun other low => contains_eq_false (by omega)

def membersFrom (set : BitSet) (position : Nat) : List Nat :=
  match found : set.next? position with
  | none => []
  | some bit => bit :: set.membersFrom (bit + 1)
termination_by set.capacity - position
decreasing_by
  have later := (next?_eq_some found).1
  have bound := lt_capacity (next?_eq_some found).2.1
  omega

def toList (set : BitSet) : List Nat := set.membersFrom 0

theorem mem_membersFrom {set : BitSet} {position bit : Nat} :
    bit ∈ set.membersFrom position ↔ position ≤ bit ∧ set.contains bit = true := by
  fun_induction membersFrom set position with
  | case1 position found =>
    simp only [List.not_mem_nil, false_iff, not_and, Bool.not_eq_true]
    exact next?_eq_none found bit
  | case2 position first found ih =>
    obtain ⟨low, member, between⟩ := next?_eq_some found
    rw [List.mem_cons, ih]
    constructor
    · rintro (rfl | ⟨later, inside⟩)
      · exact ⟨low, member⟩
      · exact ⟨by omega, inside⟩
    · rintro ⟨later, inside⟩
      by_cases early : bit < first
      next => rw [between bit later early] at inside; cases inside
      next =>
        by_cases same : bit = first
        next => exact Or.inl same
        next => exact Or.inr ⟨by omega, inside⟩

@[simp] theorem mem_toList {set : BitSet} {bit : Nat} :
    bit ∈ set.toList ↔ set.contains bit = true := by
  simp [toList, mem_membersFrom]

theorem membersFrom_rising (set : BitSet) (position : Nat) :
    (set.membersFrom position).Pairwise (· < ·) := by
  fun_induction membersFrom set position with
  | case1 => exact List.Pairwise.nil
  | case2 position first found ih =>
    refine List.pairwise_cons.2 ⟨fun bit member => ?_, ih⟩
    exact (mem_membersFrom.1 member).1

theorem toList_rising (set : BitSet) : set.toList.Pairwise (· < ·) := membersFrom_rising set 0

end Lookahead.BitSet
