import Lookahead.BitSet.ByWord

set_option autoImplicit false

namespace Lookahead

theorem Word.and_bit_eq_zero_iff (word : UInt64) {index : Nat} (bound : index < 64) :
    word &&& Word.bit index = 0 ↔ Word.has word index = false := by
  constructor
  · intro zero
    have here := congrArg (fun word => Word.has word index) zero
    simpa [Word.has_bit bound] using here
  · intro absent
    apply Word.ext
    intro other _
    by_cases same : other = index
    next => simp [same, absent]
    next => simp [Word.has_bit bound, same]

theorem foldlM_eq_none {α β : Type} {f : β → α → Option β} {items : List α} {item : α}
    (member : item ∈ items) (fails : ∀ state, f state item = none) (state : β) :
    items.foldlM f state = none := by
  induction items generalizing state with
  | nil => cases member
  | cons head rest ih =>
    rw [List.foldlM_cons]
    rcases List.mem_cons.1 member with rfl | later
    · simp [fails]
    · cases f state head with
      | none => rfl
      | some next => exact ih later next

namespace BitSet

variable {set other : BitSet} {bit index : Nat}

theorem getElem?_words (set : BitSet) (index : Nat) :
    set.words[index]? = if index < set.words.size then some (set.word index) else none := by
  by_cases inside : index < set.words.size <;> simp [word, inside]

theorem div_lt_size_iff : bit / 64 < set.words.size ↔ bit < set.capacity := by
  unfold capacity
  omega

theorem wordCount_eq_toNat {size : Nat} (fits : size + 63 < UInt64.size) :
    wordCount size = ((UInt64.ofNat size + 63) / 64).toNat := by
  have rounded : (UInt64.ofNat size + 63).toNat = size + 63 := by
    simp only [UInt64.toNat_add, UInt64.toNat_ofNat', UInt64.reduceToNat]
    unfold UInt64.size at fits
    omega
  rw [UInt64.toNat_div, rounded]
  rfl

theorem probe?_eq (set : BitSet) (bit : Nat) : set.probe? bit = set.contains? bit := by
  have offset : bit % 64 < 64 := Nat.mod_lt _ (by decide)
  have same : (set.word (bit / 64) &&& Word.bit (bit % 64) != 0) = set.contains bit := by
    rw [contains, bne, Bool.eq_iff_iff, Bool.not_eq_true', beq_eq_false_iff_ne, ne_eq,
      Word.and_bit_eq_zero_iff _ offset, Bool.not_eq_false]
  simp only [probe?, contains?, getElem?_words, div_lt_size_iff]
  split <;> simp [same]

theorem eq_of_words {a b : BitSet} (size : a.words.size = b.words.size)
    (same : ∀ index < a.words.size, a.word index = b.word index) : a = b := by
  have equal : a.words = b.words := Array.ext size fun index left right => by
    simpa [word, left, right] using same index left
  cases a; cases b; simp_all

def setWord (set : BitSet) (index : Nat) (word : UInt64) : BitSet :=
  ⟨set.words.setIfInBounds index word⟩

@[simp] theorem size_setWord (set : BitSet) (index : Nat) (word : UInt64) :
    (set.setWord index word).words.size = set.words.size := by
  simp [setWord]

theorem word_setWord (set : BitSet) {index : Nat} (inside : index < set.words.size) (target : Nat)
    (word : UInt64) :
    (set.setWord target word).word index = if target = index then word else set.word index := by
  by_cases same : target = index <;>
    simp [setWord, BitSet.word, same, inside]

theorem insert_eq_setWord (set : BitSet) (bit : Nat) :
    set.insert bit = set.setWord (bit / 64) (set.word (bit / 64) ||| Word.bit (bit % 64)) := by
  refine eq_of_words (by simp) fun index inside => ?_
  rw [size_insert] at inside
  rw [word_insert, word_setWord set inside]
  by_cases same : bit / 64 = index <;> simp [same, inside]

theorem enter?_eq (set : BitSet) (bit : Nat) :
    set.enter? bit = (set.insert? bit).map fun next => (!set.contains bit, next) := by
  have offset : bit % 64 < 64 := Nat.mod_lt _ (by decide)
  have new : (set.word (bit / 64) &&& Word.bit (bit % 64) == 0) = !set.contains bit := by
    rw [contains, Bool.eq_iff_iff, beq_iff_eq, Word.and_bit_eq_zero_iff _ offset,
      Bool.not_eq_true']
  simp only [enter?, insert?, getElem?_words, div_lt_size_iff, insert_eq_setWord]
  split <;> simp [new, setWord]

theorem wipe_eq (set : BitSet) : set.wipe = set.clear := by
  refine eq_of_words (by simp [wipe]) fun index inside => ?_
  have bound : index < set.words.size := by simpa [wipe] using inside
  simp [wipe, clear, word, bound]

def without (set : BitSet) (excluded : Option Nat) : BitSet :=
  match excluded with
  | some bit => set.erase bit
  | none => set

def joined (set other : BitSet) (count : Nat) : BitSet :=
  ⟨set.words.mapIdx fun index word => if index < count then word ||| other.word index else word⟩

@[simp] theorem size_joined (set other : BitSet) (count : Nat) :
    (set.joined other count).words.size = set.words.size := by
  simp [joined]

theorem word_joined (set other : BitSet) (inside : index < set.words.size) (count : Nat) :
    (set.joined other count).word index =
      if index < count then set.word index ||| other.word index else set.word index := by
  simp [joined, word, inside]

theorem joined_zero (set other : BitSet) : set.joined other 0 = set := by
  refine eq_of_words (by simp) fun index inside => ?_
  rw [size_joined] at inside
  simp [word_joined set other inside]

theorem joined_size (set other : BitSet) : set.joined other set.words.size = set.union other := by
  refine eq_of_words (by simp) fun index inside => ?_
  rw [size_joined] at inside
  simp [word_joined set other inside, word_union, inside]

theorem joined_succ (set other : BitSet) (count : Nat) :
    set.joined other (count + 1) =
      (set.joined other count).setWord count (set.word count ||| other.word count) := by
  refine eq_of_words (by simp) fun index inside => ?_
  have bound : index < (set.joined other count).words.size := by simpa using inside
  rw [size_joined] at inside
  rw [word_setWord _ bound, word_joined set other inside, word_joined set other inside]
  by_cases here : count = index
  next => simp [here]
  next =>
    have same : index < count + 1 ↔ index < count := by omega
    simp [here, same]

theorem joined_eq_iff (set other : BitSet) (count : Nat) :
    set.joined other count = set ↔ ∀ index < set.words.size, index < count →
      set.word index ||| other.word index = set.word index := by
  constructor
  · intro same index inside early
    have here := word_joined set other inside count
    rw [same, if_pos early] at here
    exact here.symm
  · intro kept
    refine eq_of_words (by simp) fun index inside => ?_
    rw [size_joined] at inside
    rw [word_joined set other inside]
    split
    next early => exact kept index inside early
    next => rfl

theorem joined_succ_bne (set other : BitSet) {count : Nat} (inside : count < set.words.size) :
    (set.joined other (count + 1) != set) =
      ((set.joined other count != set) ||
        set.word count != set.word count ||| other.word count) := by
  have step : set.joined other (count + 1) = set ↔
      set.joined other count = set ∧ set.word count = set.word count ||| other.word count := by
    rw [joined_eq_iff, joined_eq_iff]
    constructor
    · intro kept
      exact ⟨fun index bound early => kept index bound (by omega),
        (kept count inside (by omega)).symm⟩
    · rintro ⟨kept, here⟩ index bound early
      by_cases same : index = count
      next => rw [same, ← here]
      next => exact kept index bound (by omega)
  rw [Bool.eq_iff_iff]
  simp only [bne_iff_ne, ne_eq, Bool.or_eq_true, step, Classical.not_and_iff_not_or_not]

theorem word_without (other : BitSet) (excluded : Option Nat) (index : Nat) :
    (other.without excluded).word index = offered excluded index (other.word index) := by
  cases excluded with
  | none => rfl
  | some bit => simp only [without, offered, word_erase, eq_comm]

-- What the loop of a union holds when it has gone through the first words.
def reached (set other : BitSet) (excluded : Option Nat) (count : Nat) : Bool × BitSet :=
  let partway := set.joined (other.without excluded) count
  (partway != set, partway)

theorem joinWord?_reached (set other : BitSet) (excluded : Option Nat) {count : Nat}
    (inside : count < set.words.size) (present : count < other.words.size) :
    joinWord? other excluded (set.reached other excluded count) count =
      some (set.reached other excluded (count + 1)) := by
  have old := word_joined set (other.without excluded) inside count
  rw [if_neg (Nat.lt_irrefl count)] at old
  have found : (set.joined (other.without excluded) count).words[count]? =
      some (set.word count) := by
    rw [getElem?_words, size_joined, if_pos inside, old]
  have given : other.words[count]? = some (other.word count) := by
    rw [getElem?_words, if_pos present]
  have changed := joined_succ_bne set (other.without excluded) inside
  rw [joined_succ, word_without, setWord] at changed
  simp [joinWord?, reached, found, given, joined_succ, word_without, setWord, changed]

theorem foldlM_joinWord? (set other : BitSet) (excluded : Option Nat) {count : Nat}
    (inside : count ≤ set.words.size) (present : count ≤ other.words.size) :
    (List.range count).foldlM (joinWord? other excluded) (false, set) =
      some (set.reached other excluded count) := by
  induction count with
  | zero => simp [reached, joined_zero]
  | succ count ih =>
    have earlier := ih (by omega) (by omega)
    have step := joinWord?_reached set other excluded (by omega : count < _) (by omega)
    simp [List.range_succ, List.foldlM_append, earlier, step]

theorem join?_eq (set other : BitSet) (excluded : Option Nat) :
    set.join? other excluded =
      if set.words.size ≤ other.words.size then
        some (set.union (other.without excluded) != set, set.union (other.without excluded))
      else none := by
  split
  next present =>
    rw [join?, foldlM_joinWord? set other excluded (by omega) present, reached, joined_size]
  next short =>
    -- The first word that the other set does not have ends the run.
    have member : other.words.size ∈ List.range set.words.size := by simpa using short
    exact foldlM_eq_none member (fun state => by simp [joinWord?]) _

example :
    let low := (ofSize 65).insert 63
    let high := (ofSize 128).insert 64
    low.join? high (some 64) = some (false, low) ∧
      low.join? high none = some (true, low.insert 64) ∧ low.join? (ofSize 64) none = none := by
  decide

end BitSet

end Lookahead
