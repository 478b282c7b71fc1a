import Lookahead.BitSet.Members
import Lookahead.SetMachine

set_option autoImplicit false

namespace Lookahead.BitSet

def probe? (set : BitSet) (bit : Nat) : Option Bool := do
  let word ← set.words[bit / 64]?
  return word &&& Word.bit (bit % 64) != 0

def enter? (set : BitSet) (bit : Nat) : Option (Bool × BitSet) := do
  let word ← set.words[bit / 64]?
  let mask := Word.bit (bit % 64)
  return (word &&& mask == 0, ⟨set.words.setIfInBounds (bit / 64) (word ||| mask)⟩)

def wipe (set : BitSet) : BitSet := ⟨set.words.map fun _ => 0⟩

def offered (excluded : Option Nat) (index : Nat) (word : UInt64) : UInt64 :=
  match excluded with
  | some bit => if index = bit / 64 then word &&& ~~~Word.bit (bit % 64) else word
  | none => word

def joinWord? (other : BitSet) (excluded : Option Nat) (state : Bool × BitSet) (index : Nat) :
    Option (Bool × BitSet) := do
  let (changed, set) := state
  let old ← set.words[index]?
  let given ← other.words[index]?
  let new := old ||| offered excluded index given
  return (changed || old != new, ⟨set.words.setIfInBounds index new⟩)

def join? (set other : BitSet) (excluded : Option Nat) : Option (Bool × BitSet) :=
  (List.range set.words.size).foldlM (joinWord? other excluded) (false, set)

def byWord : SetOperations BitSet where
  ofSize := ofSize
  clear := wipe
  insert? := enter?
  contains? := probe?
  union? := join?
  equal set other := set == other
  toList := toList

end Lookahead.BitSet
