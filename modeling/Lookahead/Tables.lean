import Lookahead.Grammar.Numbering
import Lookahead.SymbolSet

set_option autoImplicit false

namespace Lookahead

inductive Family where
  | first
  | follow
deriving DecidableEq

structure Tables where
  first : OrderedMap SymbolSet
  follow : OrderedMap SymbolSet

namespace Tables

def sets (tables : Tables) : Family → OrderedMap SymbolSet
  | .first => tables.first
  | .follow => tables.follow

theorem ext_sets {a b : Tables} (same : ∀ family, a.sets family = b.sets family) : a = b := by
  have first : a.first = b.first := same .first
  have follow : a.follow = b.follow := same .follow
  cases a
  cases b
  rw [mk.injEq]
  exact ⟨first, follow⟩

def firstOf? (tables : Tables) (symbol : String) : Option SymbolSet := tables.first.get? symbol

def followOf? (tables : Tables) (symbol : String) : Option SymbolSet := tables.follow.get? symbol

def InFirst (tables : Tables) (symbol name : String) : Prop :=
  ∃ set, tables.firstOf? symbol = some set ∧ name ∈ set

def InFollow (tables : Tables) (symbol name : String) : Prop :=
  ∃ set, tables.followOf? symbol = some set ∧ name ∈ set

def isNullable (tables : Tables) (symbol : String) : Bool :=
  (tables.firstOf? symbol).any fun set => epsilon ∈ set

theorem isNullable_iff (tables : Tables) (symbol : String) :
    tables.isNullable symbol = true ↔ tables.InFirst symbol epsilon := by
  simp [isNullable, InFirst, Option.any_eq_true]

def agrees (a b : Tables) : Bool := a.first.agrees b.first && a.follow.agrees b.follow

structure Entry where
  symbol : String
  first : Option SymbolSet
  follow : Option SymbolSet
  nullable : Bool
deriving DecidableEq

def entry (tables : Tables) (symbol : String) : Entry where
  symbol := symbol
  first := tables.firstOf? symbol
  follow := tables.followOf? symbol
  nullable := tables.isNullable symbol

end Tables

end Lookahead
