import Lookahead.Word

set_option autoImplicit false

namespace Lookahead

structure BitSet where
  words : Array UInt64
deriving DecidableEq

namespace BitSet

def wordCount (size : Nat) : Nat := (size + 63) / 64

def capacity (set : BitSet) : Nat := 64 * set.words.size

def word (set : BitSet) (index : Nat) : UInt64 := set.words.getD index 0

def contains (set : BitSet) (bit : Nat) : Bool := Word.has (set.word (bit / 64)) (bit % 64)

def ofSize (size : Nat) : BitSet := ⟨Array.replicate (wordCount size) 0⟩

def clear (set : BitSet) : BitSet := ⟨Array.replicate set.words.size 0⟩

def insert (set : BitSet) (bit : Nat) : BitSet :=
  ⟨set.words.modify (bit / 64) fun word => word ||| Word.bit (bit % 64)⟩

def erase (set : BitSet) (bit : Nat) : BitSet :=
  ⟨set.words.modify (bit / 64) fun word => word &&& ~~~Word.bit (bit % 64)⟩

def union (set other : BitSet) : BitSet :=
  ⟨set.words.mapIdx fun index word => word ||| other.word index⟩

def unionWithout (set other : BitSet) (excluded : Nat) : BitSet := set.union (other.erase excluded)

@[simp] theorem size_ofSize (size : Nat) : (ofSize size).words.size = wordCount size := by
  simp [ofSize]

@[simp] theorem size_clear (set : BitSet) : set.clear.words.size = set.words.size := by
  simp [clear]

@[simp] theorem size_insert (set : BitSet) (bit : Nat) :
    (set.insert bit).words.size = set.words.size := by
  simp [insert]

@[simp] theorem size_erase (set : BitSet) (bit : Nat) :
    (set.erase bit).words.size = set.words.size := by
  simp [erase]

@[simp] theorem size_union (set other : BitSet) :
    (set.union other).words.size = set.words.size := by
  simp [union]

@[simp] theorem size_unionWithout (set other : BitSet) (excluded : Nat) :
    (set.unionWithout other excluded).words.size = set.words.size := by
  simp [unionWithout]

theorem word_insert (set : BitSet) (bit index : Nat) :
    (set.insert bit).word index =
      if bit / 64 = index ∧ index < set.words.size then set.word index ||| Word.bit (bit % 64)
      else set.word index := by
  by_cases inside : index < set.words.size <;>
    by_cases here : bit / 64 = index <;>
      simp [insert, word, Array.getElem_modify, inside, here]

theorem word_erase (set : BitSet) (bit index : Nat) :
    (set.erase bit).word index =
      if bit / 64 = index then set.word index &&& ~~~Word.bit (bit % 64)
      else set.word index := by
  by_cases inside : index < set.words.size <;>
    by_cases here : bit / 64 = index <;>
      simp [erase, word, Array.getElem_modify, inside, here]

theorem word_union (set other : BitSet) (index : Nat) :
    (set.union other).word index =
      if index < set.words.size then set.word index ||| other.word index else 0 := by
  by_cases inside : index < set.words.size <;> simp [union, word, inside]

theorem contains_eq_false {set : BitSet} {bit : Nat} (outside : set.capacity ≤ bit) :
    set.contains bit = false := by
  have missing : set.words.size ≤ bit / 64 := by unfold capacity at outside; omega
  simp [contains, word, missing]

theorem lt_capacity {set : BitSet} {bit : Nat} (member : set.contains bit = true) :
    bit < set.capacity :=
  Decidable.byContradiction fun outside => by
    rw [contains_eq_false (Nat.not_lt.1 outside)] at member
    simp at member

@[simp] theorem contains_ofSize (size bit : Nat) : (ofSize size).contains bit = false := by
  by_cases inside : bit / 64 < wordCount size <;> simp [contains, ofSize, word, inside]

@[simp] theorem contains_clear (set : BitSet) (bit : Nat) : set.clear.contains bit = false := by
  by_cases inside : bit / 64 < set.words.size <;> simp [contains, clear, word, inside]

theorem contains_insert (set : BitSet) (bit other : Nat) :
    (set.insert bit).contains other =
      (set.contains other || decide (other = bit ∧ bit < set.capacity)) := by
  have offset : bit % 64 < 64 := Nat.mod_lt _ (by decide)
  rw [contains, word_insert, capacity]
  split
  next here =>
    have same : other % 64 = bit % 64 ↔ other = bit ∧ bit < 64 * set.words.size := by omega
    simp [contains, Word.has_bit offset, same]
  next apart =>
    have different : ¬(other = bit ∧ bit < 64 * set.words.size) := by omega
    simp [contains, different]

theorem contains_erase (set : BitSet) (bit other : Nat) :
    (set.erase bit).contains other = (set.contains other && decide (other ≠ bit)) := by
  have offset : bit % 64 < 64 := Nat.mod_lt _ (by decide)
  rw [contains, word_erase]
  split
  next here =>
    have same : other % 64 = bit % 64 ↔ other = bit := by omega
    simp [contains, Word.has_not _ (Nat.mod_lt other (by decide)), Word.has_bit offset, same]
  next apart =>
    have different : other ≠ bit := by omega
    simp [contains, different]

theorem contains_union (set other : BitSet) (bit : Nat) :
    (set.union other).contains bit =
      (set.contains bit || (other.contains bit && decide (bit < set.capacity))) := by
  rw [contains, word_union, capacity]
  split
  next inside =>
    have bound : bit < 64 * set.words.size := by omega
    simp [contains, bound]
  next outside =>
    have beyond : ¬bit < 64 * set.words.size := by omega
    have absent : set.contains bit = false := contains_eq_false (by unfold capacity; omega)
    simp [absent, beyond]

theorem ext {a b : BitSet} (size : a.words.size = b.words.size)
    (same : ∀ bit, a.contains bit = b.contains bit) : a = b := by
  have equal : a.words = b.words := by
    apply Array.ext size
    intro index left right
    apply Word.ext
    intro offset bound
    have there := same (64 * index + offset)
    have place : (64 * index + offset) / 64 = index := by omega
    have within : (64 * index + offset) % 64 = offset := by omega
    simpa [contains, place, within, word, left, right] using there
  cases a; cases b; simp_all

def contains? (set : BitSet) (bit : Nat) : Option Bool :=
  if bit < set.capacity then some (set.contains bit) else none

def insert? (set : BitSet) (bit : Nat) : Option BitSet :=
  if bit < set.capacity then some (set.insert bit) else none

def ofBit? (size bit : Nat) : Option BitSet := (ofSize size).insert? bit

def union? (set other : BitSet) : Option BitSet :=
  if set.words.size ≤ other.words.size then some (set.union other) else none

def unionWithout? (set other : BitSet) (excluded : Nat) : Option BitSet :=
  if set.words.size ≤ other.words.size then some (set.unionWithout other excluded) else none

end BitSet

end Lookahead
