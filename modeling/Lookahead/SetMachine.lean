set_option autoImplicit false

namespace Lookahead

namespace Registers

inductive Command where
  | ofSize (target size : Nat)
  | ofBit (target size bit : Nat)
  | copy (target source : Nat)
  | clear (target : Nat)
  | insert (target bit : Nat)
  | contains (target bit : Nat)
  | union (target source : Nat)
  | unionWithout (target source excluded : Nat)
  | equal (target source : Nat)
  | render (target : Nat)

def Command.target : Command → Nat
  | .ofSize target _ | .ofBit target _ _ | .copy target _ | .clear target | .insert target _
  | .contains target _ | .union target _ | .unionWithout target _ _ | .equal target _
  | .render target => target

def Command.Renews (index : Nat) : Command → Prop
  | .ofSize target _ | .ofBit target _ _ | .copy target _ => target = index
  | _ => False

inductive Value where
  | nothing
  | flag (flag : Bool)
  | text (text : String)

inductive Reply where
  | done (value : Value) (members : List Nat)
  | outOfBounds

end Registers

/-- What can be done with sets of numbers of some kind. An operation on a number or a set for which
there is no room gives none; one that may change a set says whether it did. -/
structure SetOperations (σ : Type) where
  ofSize : Nat → σ
  clear : σ → σ
  insert? : σ → Nat → Option (Bool × σ)
  contains? : σ → Nat → Option Bool
  union? : σ → σ → Option Nat → Option (Bool × σ)
  equal : σ → σ → Bool
  toList : σ → List Nat

namespace SetOperations

open Registers

variable {σ : Type}

def render (operations : SetOperations σ) (set : σ) : String :=
  "\x7b" ++ String.intercalate ", " ((operations.toList set).map toString) ++ "\x7d"

def put (registers : Nat → σ) (target : Nat) (set : σ) : Nat → σ :=
  fun index => if index = target then set else registers index

def execute? (operations : SetOperations σ) (registers : Nat → σ) :
    Command → Option (Value × (Nat → σ))
  | .ofSize target size => some (.nothing, put registers target (operations.ofSize size))
  | .ofBit target size bit =>
    (operations.insert? (operations.ofSize size) bit).map fun (_, set) =>
      (.nothing, put registers target set)
  | .copy target source => some (.nothing, put registers target (registers source))
  | .clear target => some (.nothing, put registers target (operations.clear (registers target)))
  | .insert target bit =>
    (operations.insert? (registers target) bit).map fun (new, set) =>
      (.flag new, put registers target set)
  | .contains target bit =>
    (operations.contains? (registers target) bit).map fun found => (.flag found, registers)
  | .union target source =>
    (operations.union? (registers target) (registers source) none).map fun (changed, set) =>
      (.flag changed, put registers target set)
  | .unionWithout target source excluded =>
    (operations.union? (registers target) (registers source) (some excluded)).map
      fun (changed, set) => (.flag changed, put registers target set)
  | .equal target source =>
    some (.flag (operations.equal (registers target) (registers source)), registers)
  | .render target => some (.text (operations.render (registers target)), registers)

def run (operations : SetOperations σ) : (Nat → σ) → List Command → List Reply
  | _, [] => []
  | registers, command :: rest =>
    match operations.execute? registers command with
    | none => [.outOfBounds]
    | some (value, after) =>
      .done value (operations.toList (after command.target)) :: operations.run after rest

def after? (operations : SetOperations σ) (registers : Nat → σ) (commands : List Command) :
    Option (Nat → σ) :=
  commands.foldlM (fun registers command => (operations.execute? registers command).map Prod.snd)
    registers

end SetOperations

end Lookahead
