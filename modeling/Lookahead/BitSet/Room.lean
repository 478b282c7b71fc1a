import Lookahead.BitSet.Basic

set_option autoImplicit false

namespace Lookahead

def total {α : Type} (weight : α → Nat) : List α → Nat
  | [] => 0
  | item :: rest => weight item + total weight rest

theorem total_lt_of_pointwise {α : Type} (weight : α → Nat) (before after : List α)
    (length : before.length = after.length)
    (falls : ∀ index (left : index < before.length) (right : index < after.length),
      before[index] = after[index] ∨ weight after[index] < weight before[index]) :
    before = after ∨ total weight after < total weight before := by
  induction before generalizing after with
  | nil => cases after with
    | nil => exact Or.inl rfl
    | cons y ys => simp at length
  | cons x xs ih => cases after with
    | nil => simp at length
    | cons y ys =>
      have head := falls 0 (by simp) (by simp)
      have tail := ih ys (by simpa using length) fun index left right => by
        simpa only [List.getElem_cons_succ] using
          falls (index + 1) (Nat.succ_lt_succ left) (Nat.succ_lt_succ right)
      simp only [List.getElem_cons_zero] at head
      rcases head with rfl | head <;> rcases tail with rfl | tail
      · exact Or.inl rfl
      · exact Or.inr (by simpa [total] using tail)
      · exact Or.inr (by simpa [total] using head)
      · exact Or.inr (by simp only [total]; omega)

namespace BitSet

def room (set : BitSet) : Nat := total (fun word => UInt64.size - word.toNat) set.words.toList

def Grows (before after : BitSet) : Prop := before = after ∨ after.room < before.room

theorem grows_of_words {before after : BitSet} (size : before.words.size = after.words.size)
    (grows : ∀ index, (before.word index).toNat ≤ (after.word index).toNat) :
    before.Grows after := by
  have compared := total_lt_of_pointwise (fun word : UInt64 => UInt64.size - word.toNat)
    before.words.toList after.words.toList (by simpa using size)
    (by
      intro index left right
      have inside : index < before.words.size := by simpa using left
      have also : index < after.words.size := by simpa using right
      have here := grows index
      simp only [word, Array.getD_eq_getD_getElem?, Array.getElem?_eq_getElem inside,
        Array.getElem?_eq_getElem also, Option.getD_some] at here
      simp only [Array.getElem_toList]
      rcases Nat.eq_or_lt_of_le here with same | less
      · exact Or.inl (UInt64.toNat_inj.1 same)
      · have bound := UInt64.toNat_lt_size after.words[index]
        exact Or.inr (by omega))
  rcases compared with same | less
  · refine Or.inl ?_
    cases before; cases after
    simpa using same
  · exact Or.inr less

theorem grows_insert (set : BitSet) (bit : Nat) : set.Grows (set.insert bit) := by
  refine grows_of_words (by simp) fun index => ?_
  rw [word_insert]
  split
  next => exact Word.le_or _ _
  next => exact Nat.le_refl _

theorem grows_union (set other : BitSet) : set.Grows (set.union other) := by
  refine grows_of_words (by simp) fun index => ?_
  rw [word_union]
  split
  next => exact Word.le_or _ _
  next outside => simp [word, outside]

theorem grows_unionWithout (set other : BitSet) (excluded : Nat) :
    set.Grows (set.unionWithout other excluded) :=
  grows_union set _

end BitSet

end Lookahead
