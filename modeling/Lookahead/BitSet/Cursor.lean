import Lookahead.BitSet.Members

set_option autoImplicit false

namespace Lookahead

namespace Word

def shiftLeft? (word : UInt64) (amount : Nat) : Option UInt64 :=
  if amount < 64 then some (word <<< UInt64.ofNat amount) else none

def sub? (word other : UInt64) : Option UInt64 :=
  if other ≤ word then some (word - other) else none

def trailingZeros (word : UInt64) : Nat := word.toBitVec.ctz.toNat

def atOrAbove? (word : UInt64) (index : Nat) : Option UInt64 := do
  let mask ← shiftLeft? 1 (index % 64)
  let below ← sub? mask 1
  return word &&& ~~~below

end Word

namespace BitSet

structure Cursor where
  index : Nat
  bit : Nat
deriving DecidableEq

namespace Cursor

def start : Cursor := ⟨0, 0⟩

def found? (set : BitSet) (cursor : Cursor) : Option (Option Nat) :=
  if cursor.bit < 64 then do
    let word ← set.words[cursor.index]?
    let rest ← Word.atOrAbove? word cursor.bit
    let bit := Word.trailingZeros rest
    return if bit < 64 then some bit else none
  else some none

def next? (set : BitSet) (cursor : Cursor) : Option (Option Nat × Cursor) :=
  if _inside : cursor.index < set.words.size then
    match cursor.found? set with
    | none => none
    | some (some bit) => some (some (cursor.index * 64 + bit), { cursor with bit := bit + 1 })
    | some none => next? set ⟨cursor.index + 1, 0⟩
  else some (none, cursor)
termination_by set.words.size - cursor.index

def calls? (set : BitSet) : Cursor → Nat → Option (List (Option Nat))
  | _, 0 => some []
  | cursor, count + 1 => do
    let (member, after) ← cursor.next? set
    let later ← calls? set after count
    return member :: later

end Cursor

end BitSet

end Lookahead
