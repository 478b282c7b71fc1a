import Lookahead.SetMachine
import Mathlib.Algebra.Order.Floor.Div
import Mathlib.Data.Finset.Sort

set_option autoImplicit false

namespace Lookahead

@[ext] structure NumberSet where
  blocks : Nat
  members : Finset Nat
  bound : ∀ number ∈ members, number < 64 * blocks

namespace NumberSet

def ofSize (size : Nat) : NumberSet := ⟨size ⌈/⌉ 64, ∅, by simp⟩

def clear (set : NumberSet) : NumberSet := ⟨set.blocks, ∅, by simp⟩

def add (set : NumberSet) (number : Nat) (room : number < 64 * set.blocks) : NumberSet where
  blocks := set.blocks
  members := insert number set.members
  bound := Finset.forall_mem_insert .. |>.2 ⟨room, set.bound⟩

def insert? (set : NumberSet) (number : Nat) : Option (Bool × NumberSet) :=
  if room : number < 64 * set.blocks then
    some (decide (number ∉ set.members), set.add number room)
  else none

def contains? (set : NumberSet) (number : Nat) : Option Bool :=
  if number < 64 * set.blocks then some (decide (number ∈ set.members)) else none

def union (set other : NumberSet) (excluded : Option Nat) : NumberSet where
  blocks := set.blocks
  members := set.members ∪
    other.members.filter fun number => number < 64 * set.blocks ∧ some number ≠ excluded
  bound := by
    intro number member
    simp only [Finset.mem_union, Finset.mem_filter] at member
    rcases member with here | there
    · exact set.bound number here
    · exact there.2.1

def union? (set other : NumberSet) (excluded : Option Nat) : Option (Bool × NumberSet) :=
  if set.blocks ≤ other.blocks then
    some (decide ((set.union other excluded).members ≠ set.members), set.union other excluded)
  else none

def equal (set other : NumberSet) : Bool :=
  decide (set.blocks = other.blocks ∧ set.members = other.members)

def operations : SetOperations NumberSet where
  ofSize := ofSize
  clear := clear
  insert? := insert?
  contains? := contains?
  union? := union?
  equal := equal
  toList set := set.members.sort

end NumberSet

end Lookahead
