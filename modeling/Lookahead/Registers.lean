import Lookahead.BitSet.Members
import Lookahead.SetMachine

set_option autoImplicit false

namespace Lookahead

def BitSet.operations : SetOperations BitSet where
  ofSize := ofSize
  clear := clear
  insert? set bit := (set.insert? bit).map fun next => (!set.contains bit, next)
  contains? := contains?
  union?
    | set, other, none => (set.union? other).map fun joined => (joined != set, joined)
    | set, other, some excluded =>
      (set.unionWithout? other excluded).map fun joined => (joined != set, joined)
  equal set other := set == other
  toList := toList

abbrev Registers := Nat → BitSet

namespace Registers

def initial : Registers := fun _ => BitSet.ofSize 0

def execute? : Registers → Command → Option (Value × Registers) := BitSet.operations.execute?

def run : Registers → List Command → List Reply := BitSet.operations.run

end Registers

end Lookahead
