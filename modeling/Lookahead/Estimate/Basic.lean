import Lookahead.BitSet.Room
import Lookahead.Tables

set_option autoImplicit false

namespace Lookahead

/-- FIRST and FOLLOW as far as they are known, by symbol number. -/
structure Estimate where
  first : Array BitSet
  follow : Array BitSet
  -- whether a set has grown since the sweep began
  grown : Bool

namespace Estimate

def sets (estimate : Estimate) : Family → Array BitSet
  | .first => estimate.first
  | .follow => estimate.follow

def withSets (estimate : Estimate) (family : Family) (sets : Array BitSet) : Estimate :=
  match family with
  | .first => { estimate with first := sets }
  | .follow => { estimate with follow := sets }

def setOf (estimate : Estimate) (family : Family) (symbol : Nat) : BitSet :=
  (estimate.sets family).getD symbol (BitSet.ofSize 0)

def initial (grammar : NumberedGrammar) : Estimate where
  first := (Array.range grammar.size).map fun symbol =>
    let empty := BitSet.ofSize grammar.size
    if grammar.kind symbol = .terminal then empty.insert symbol else empty
  follow := (Array.replicate grammar.size (BitSet.ofSize grammar.size)).modify grammar.start
    fun set => set.insert endNumber
  grown := false

def raise (estimate : Estimate) (family : Family) (symbol : Nat) (change : BitSet → BitSet) :
    Estimate :=
  let known := estimate.setOf family symbol
  let raised := change known
  { estimate.withSets family ((estimate.sets family).setIfInBounds symbol raised) with
    grown := estimate.grown || raised != known }

def beginLeft (estimate : Estimate) (left : Nat) (nullable : Bool) (begins : BitSet) : Estimate :=
  if nullable then estimate.raise .first left fun set => set.unionWithout begins epsilonNumber
  else estimate

def followPrevious (grammar : NumberedGrammar) (estimate : Estimate) (previous : Option Nat)
    (begins : BitSet) : Estimate :=
  match previous with
  | none => estimate
  | some symbol =>
    if grammar.isNonterminal symbol then
      estimate.raise .follow symbol fun set => set.unionWithout begins epsilonNumber
    else estimate

structure Walk where
  estimate : Estimate
  previous : Option Nat
  -- whether every symbol read so far is known to derive the empty string
  nullable : Bool

def Walk.step (grammar : NumberedGrammar) (left : Nat) (walk : Walk) (symbol : Nat) : Walk :=
  let begins := walk.estimate.setOf .first symbol
  { estimate := followPrevious grammar (walk.estimate.beginLeft left walk.nullable begins)
      walk.previous begins
    previous := some symbol
    nullable := walk.nullable && begins.contains epsilonNumber }

/-- Reads a right side from its end: what follows the left side follows each nonterminal, up to
the first that cannot vanish. -/
def trail (grammar : NumberedGrammar) (follows : BitSet) : Estimate → List Nat → Estimate
  | estimate, [] => estimate
  | estimate, symbol :: before =>
    if grammar.isNonterminal symbol then
      let raised := estimate.raise .follow symbol fun set => set.union follows
      if (raised.setOf .first symbol).contains epsilonNumber then trail grammar follows raised before
      else raised
    else estimate

def applyRule (grammar : NumberedGrammar) (estimate : Estimate) (rule : NumberedRule) : Estimate :=
  let walk := rule.right.foldl (Walk.step grammar rule.left) ⟨estimate, none, true⟩
  let trailed :=
    trail grammar (walk.estimate.setOf .follow rule.left) walk.estimate rule.right.reverse
  if walk.nullable then trailed.raise .first rule.left fun set => set.insert epsilonNumber
  else trailed

def sweep (grammar : NumberedGrammar) (estimate : Estimate) : Estimate :=
  grammar.rules.foldl (applyRule grammar) { estimate with grown := false }

section

variable {estimate : Estimate} {family other : Family} {symbol : Nat} {change : BitSet → BitSet}

@[simp] theorem sets_raise :
    (estimate.raise family symbol change).sets other =
      if other = family then
        (estimate.sets family).setIfInBounds symbol (change (estimate.setOf family symbol))
      else estimate.sets other := by
  cases family <;> cases other <;> rfl

@[simp] theorem grown_raise :
    (estimate.raise family symbol change).grown =
      (estimate.grown || change (estimate.setOf family symbol) != estimate.setOf family symbol) :=
  rfl

theorem setOf_raise_of_ne (apart : other ≠ family) :
    (estimate.raise family symbol change).setOf other = estimate.setOf other := by
  funext symbol
  simp [setOf, apart]

theorem setOf_raise (inside : symbol < (estimate.sets family).size) (target : Nat) :
    (estimate.raise family symbol change).setOf family target =
      if target = symbol then change (estimate.setOf family symbol)
      else estimate.setOf family target := by
  by_cases same : target = symbol
  next => simp [setOf, same, inside]
  next => simp [setOf, same, Ne.symm same]

end

theorem sets_cleared (estimate : Estimate) :
    sets { estimate with grown := false } = estimate.sets := by
  funext family
  cases family <;> rfl

theorem ext_sets {a b : Estimate} (same : ∀ family, a.sets family = b.sets family)
    (flag : a.grown = b.grown) : a = b := by
  have first : a.first = b.first := same .first
  have follow : a.follow = b.follow := same .follow
  cases a
  cases b
  rw [mk.injEq]
  exact ⟨first, follow, flag⟩

end Estimate

end Lookahead
