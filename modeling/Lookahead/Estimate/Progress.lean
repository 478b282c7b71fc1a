import Lookahead.Estimate.Raises

set_option autoImplicit false

namespace Lookahead.Estimate

def room (estimate : Estimate) : Nat :=
  total BitSet.room estimate.first.toList + total BitSet.room estimate.follow.toList

def Advances (before after : Estimate) : Prop :=
  after.room ≤ before.room ∧
    (after.grown = true → before.grown = true ∨ after.room < before.room)

theorem Advances.refl (estimate : Estimate) : estimate.Advances estimate :=
  ⟨Nat.le_refl _, Or.inl⟩

theorem Advances.trans {a b c : Estimate} (first : a.Advances b) (second : b.Advances c) :
    a.Advances c := by
  refine ⟨Nat.le_trans second.1 first.1, fun grown => ?_⟩
  have bound := first.1
  have further := second.1
  rcases second.2 grown with earlier | less
  · rcases first.2 earlier with initially | less
    · exact Or.inl initially
    · exact Or.inr (by omega)
  · exact Or.inr (by omega)

theorem room_setIfInBounds (sets : Array BitSet) (symbol : Nat) (raised : BitSet)
    (grows : (sets.getD symbol (BitSet.ofSize 0)).Grows raised) :
    total BitSet.room (sets.setIfInBounds symbol raised).toList ≤ total BitSet.room sets.toList ∧
      (raised ≠ sets.getD symbol (BitSet.ofSize 0) →
        total BitSet.room (sets.setIfInBounds symbol raised).toList <
          total BitSet.room sets.toList) := by
  by_cases inside : symbol < sets.size
  next =>
    have known : sets.getD symbol (BitSet.ofSize 0) = sets[symbol] := by simp [inside]
    rw [known] at grows ⊢
    have compared := total_lt_of_pointwise BitSet.room sets.toList
      (sets.setIfInBounds symbol raised).toList (by simp)
      (by
        intro index left right
        by_cases same : symbol = index
        next => subst same; simpa [BitSet.Grows] using grows
        next => simp [same])
    rcases compared with same | less
    · refine ⟨Nat.le_of_eq (by rw [← same]), fun changed => absurd ?_ changed⟩
      have there := congrArg (fun list => list[symbol]?) same
      simpa [inside, eq_comm] using there
    · exact ⟨Nat.le_of_lt less, fun _ => less⟩
  next =>
    have known : sets.getD symbol (BitSet.ofSize 0) = BitSet.ofSize 0 := by simp [inside]
    rw [known] at grows ⊢
    have unchanged : sets.setIfInBounds symbol raised = sets :=
      Array.setIfInBounds_eq_of_size_le (Nat.not_lt.1 inside)
    rw [unchanged]
    refine ⟨Nat.le_refl _, fun changed => ?_⟩
    rcases grows with same | less
    · exact absurd same.symm changed
    · have full : (BitSet.ofSize 0).room = 0 := by
        simp [BitSet.room, BitSet.ofSize, BitSet.wordCount, total]
      omega

theorem advances_raise (estimate : Estimate) (family : Family) (symbol : Nat)
    {change : BitSet → BitSet} (grows : ∀ set : BitSet, set.Grows (change set)) :
    estimate.Advances (estimate.raise family symbol change) := by
  have changed := room_setIfInBounds (estimate.sets family) symbol _
    (grows (estimate.setOf family symbol))
  have others : (estimate.raise family symbol change).room +
      total BitSet.room (estimate.sets family).toList =
        estimate.room + total BitSet.room ((estimate.sets family).setIfInBounds symbol
          (change (estimate.setOf family symbol))).toList := by
    cases family <;> simp only [room, raise, withSets, sets] <;> omega
  refine ⟨by omega, fun grown => ?_⟩
  rw [grown_raise, Bool.or_eq_true, bne_iff_ne] at grown
  rcases grown with earlier | now
  · exact Or.inl earlier
  · have less := changed.2 now
    exact Or.inr (by omega)

theorem Raises.advances {before after : Estimate} (raises : before.Raises after) :
    before.Advances after := by
  induction raises with
  | refl => exact Advances.refl _
  | raise _ family symbol widens ih => exact ih.trans (advances_raise _ family symbol widens.grows)

theorem room_sweep_lt {grammar : NumberedGrammar} {estimate : Estimate}
    (grown : (estimate.sweep grammar).grown = true) :
    (estimate.sweep grammar).room < estimate.room := by
  have advanced := (raises_applyRules grammar grammar.rules { estimate with grown := false }).advances
  rcases advanced.2 grown with impossible | less
  · cases impossible
  · exact less

end Lookahead.Estimate
