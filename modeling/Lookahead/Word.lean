set_option autoImplicit false

namespace Lookahead.Word

def bit (index : Nat) : UInt64 := 1 <<< UInt64.ofNat index

def has (word : UInt64) (index : Nat) : Bool := word.toBitVec.getLsbD index

def lowest? (word : UInt64) : Option Nat :=
  if word = 0 then none else (List.range 64).find? (has word)

theorem ext {a b : UInt64} (same : ∀ index < 64, has a index = has b index) : a = b := by
  apply UInt64.toBitVec_inj.1
  apply BitVec.eq_of_getLsbD_eq
  exact same

@[simp] theorem has_zero (index : Nat) : has 0 index = false := by simp [has]

@[simp] theorem has_or (a b : UInt64) (index : Nat) :
    has (a ||| b) index = (has a index || has b index) := by simp [has]

@[simp] theorem has_and (a b : UInt64) (index : Nat) :
    has (a &&& b) index = (has a index && has b index) := by simp [has]

theorem has_not (a : UInt64) {index : Nat} (bound : index < 64) :
    has (~~~a) index = !has a index := by simp [has, bound]

theorem has_eq_false {word : UInt64} {index : Nat} (bound : 64 ≤ index) :
    has word index = false :=
  BitVec.getLsbD_of_ge _ _ bound

theorem toNat_amount {index : Nat} (bound : index < 64) :
    (UInt64.ofNat index).toNat % 64 = index := by
  rw [UInt64.toNat_ofNat', Nat.mod_eq_of_lt (Nat.lt_of_lt_of_le bound (by decide)),
    Nat.mod_eq_of_lt bound]

theorem has_eq_testBit (word : UInt64) (index : Nat) : has word index = word.toNat.testBit index :=
  (BitVec.testBit_toNat _).symm

theorem has_bit {index other : Nat} (bound : index < 64) :
    has (bit index) other = decide (other = index) := by
  rw [has_eq_testBit, bit, UInt64.toNat_shiftLeft, toNat_amount bound, Nat.testBit_mod_two_pow,
    Nat.testBit_shiftLeft]
  show (decide (other < 64) && (decide (index ≤ other) && (1 : Nat).testBit (other - index))) = _
  by_cases same : other = index
  next => simp [same, bound]
  next =>
    by_cases below : index ≤ other
    next =>
      have apart : other - index ≠ 0 := by omega
      have clear : (1 : Nat).testBit (other - index) = false := by
        rw [← Bool.not_eq_true, Nat.testBit_one_eq_true_iff_self_eq_zero]
        exact apart
      simp [same, clear]
    next => simp [below, same]

theorem has_shiftRight (word : UInt64) {amount : Nat} (bound : amount < 64) (index : Nat) :
    has (word >>> UInt64.ofNat amount) index = has word (amount + index) := by
  rw [has_eq_testBit, has_eq_testBit, UInt64.toNat_shiftRight, toNat_amount bound,
    Nat.testBit_shiftRight]

theorem le_or (a b : UInt64) : a.toNat ≤ (a ||| b).toNat := by
  rw [UInt64.toNat_or]
  exact Nat.left_le_or

theorem lowest?_eq_some_iff {word : UInt64} {index : Nat} :
    lowest? word = some index ↔
      has word index = true ∧ ∀ below < index, has word below = false := by
  by_cases zero : word = 0
  next => simp [lowest?, zero]
  next =>
    simp only [lowest?, zero, if_false, List.find?_range_eq_some, List.mem_range]
    constructor
    · rintro ⟨here, _, below⟩
      exact ⟨here, fun other bound => by simpa using below other bound⟩
    · rintro ⟨here, below⟩
      refine ⟨here, ?_, fun other bound => by simpa using below other bound⟩
      exact Decidable.byContradiction fun large => by
        rw [has_eq_false (by omega)] at here
        simp at here

theorem lowest?_eq_none_iff {word : UInt64} : lowest? word = none ↔ word = 0 := by
  by_cases zero : word = 0
  next => simp [lowest?, zero]
  next =>
    simp only [lowest?, zero, if_false, List.find?_eq_none, List.mem_range, iff_false]
    intro absent
    exact zero (ext fun index bound => by simpa using absent index bound)

end Lookahead.Word
