import Lookahead.Estimate.Raises
import Lookahead.Proofs.Positions

set_option autoImplicit false

namespace Lookahead

namespace BitSet

theorem contains_union_of_size {set other : BitSet} (size : set.words.size = other.words.size)
    (bit : Nat) : (set.union other).contains bit = (set.contains bit || other.contains bit) := by
  have room : other.contains bit = true → bit < set.capacity := by
    intro member
    have bound := lt_capacity member
    rwa [capacity, ← size] at bound
  rw [contains_union]
  cases member : other.contains bit with
  | false => simp
  | true => simp [room member]

theorem contains_unionWithout_of_size {set other : BitSet}
    (size : set.words.size = other.words.size) (excluded bit : Nat) :
    (set.unionWithout other excluded).contains bit =
      (set.contains bit || (other.contains bit && decide (bit ≠ excluded))) := by
  rw [unionWithout, contains_union_of_size (by simpa using size), contains_erase]

end BitSet

structure NumberedGrammar.Valid (grammar : NumberedGrammar) : Prop where
  kindsSize : grammar.kinds.size = grammar.names.size
  markers : 2 ≤ grammar.size
  start : grammar.start < grammar.size
  left : ∀ rule ∈ grammar.rules, grammar.isNonterminal rule.left = true
  right : ∀ rule ∈ grammar.rules, ∀ symbol ∈ rule.right, symbol < grammar.size

theorem NumberedGrammar.Valid.lt_size {grammar : NumberedGrammar} (valid : grammar.Valid)
    {symbol : Nat} (kind : grammar.kind symbol ≠ .marker) : symbol < grammar.size := by
  refine Decidable.byContradiction fun outside => kind ?_
  have missing : grammar.kinds.size ≤ symbol := by
    rw [valid.kindsSize]
    exact Nat.not_lt.1 outside
  simp [NumberedGrammar.kind, missing]

theorem NumberedGrammar.Valid.lt_size_of_isNonterminal {grammar : NumberedGrammar}
    (valid : grammar.Valid) {symbol : Nat} (nonterminal : grammar.isNonterminal symbol = true) :
    symbol < grammar.size := by
  refine valid.lt_size fun marker => ?_
  simp [NumberedGrammar.isNonterminal, marker] at nonterminal

namespace Estimate

def Begins (estimate : Estimate) (symbol name : Nat) : Prop :=
  (estimate.setOf .first symbol).contains name = true

def Follows (estimate : Estimate) (symbol name : Nat) : Prop :=
  (estimate.setOf .follow symbol).contains name = true

structure Fits (grammar : NumberedGrammar) (estimate : Estimate) : Prop where
  size : ∀ family, (estimate.sets family).size = grammar.size
  words : ∀ family, ∀ symbol < grammar.size,
    (estimate.setOf family symbol).words.size = BitSet.wordCount grammar.size

@[simp] theorem begins_raise_follow (estimate : Estimate) (symbol : Nat)
    (change : BitSet → BitSet) : (estimate.raise .follow symbol change).Begins = estimate.Begins :=
  rfl

variable {grammar : NumberedGrammar} {estimate before after : Estimate}

theorem Raises.fits (raises : before.Raises after) (fits : before.Fits grammar) :
    after.Fits grammar := by
  induction raises with
  | refl => exact fits
  | @raise known _ family symbol change widens ih =>
    obtain ⟨size, words⟩ := ih
    refine ⟨fun other => ?_, fun other target inside => ?_⟩
    · rw [sets_raise]
      split
      next => rw [Array.size_setIfInBounds, size]
      next => exact size other
    · by_cases same : other = family
      next =>
        subst same
        by_cases bound : symbol < grammar.size
        next =>
          rw [setOf_raise (size other ▸ bound)]
          split
          next => rw [widens.size, words other symbol bound]
          next => exact words other target inside
        next =>
          have different : symbol ≠ target := by omega
          have kept := words other target inside
          simpa [setOf, different] using kept
      next =>
        rw [setOf_raise_of_ne same]
        exact words other target inside

theorem Fits.setOf_ext {family : Family} {symbol : Nat} (left : before.Fits grammar)
    (right : after.Fits grammar)
    (same : ∀ name, (before.setOf family symbol).contains name = true ↔
      (after.setOf family symbol).contains name = true) :
    before.setOf family symbol = after.setOf family symbol := by
  by_cases inside : symbol < grammar.size
  next =>
    apply BitSet.ext
    · rw [left.words family symbol inside, right.words family symbol inside]
    · exact fun name => Bool.eq_iff_iff.2 (same name)
  next => simp [setOf, left.size, right.size, inside]

/-- What the read part of a right side has done to the sets. -/
structure Walk.Account (grammar : NumberedGrammar) (before : Estimate) (left : Nat)
    (read : List Nat) (walk : Walk) : Prop where
  fits : walk.estimate.Fits grammar
  begins : ∀ symbol name, walk.estimate.Begins symbol name ↔
    before.Begins symbol name ∨
      symbol = left ∧ name ≠ epsilonNumber ∧ Opens before.Begins epsilonNumber read name
  follows : ∀ symbol name, walk.estimate.Follows symbol name ↔
    before.Follows symbol name ∨
      grammar.isNonterminal symbol = true ∧ name ≠ epsilonNumber ∧
        Adjoins before.Begins epsilonNumber left read symbol name
  previous : walk.previous = read.getLast?
  nullable : walk.nullable = true ↔ ∀ symbol ∈ read, before.Begins symbol epsilonNumber

theorem begins_beginLeft {left : Nat} {nullable : Bool} {begins : BitSet}
    (fits : estimate.Fits grammar) (inside : left < grammar.size)
    (words : begins.words.size = BitSet.wordCount grammar.size) (symbol name : Nat) :
    (estimate.beginLeft left nullable begins).Begins symbol name ↔
      estimate.Begins symbol name ∨
        nullable = true ∧ symbol = left ∧ begins.contains name = true ∧ name ≠ epsilonNumber := by
  cases nullable with
  | false => simp [beginLeft]
  | true =>
    have size : (estimate.setOf .first left).words.size = begins.words.size := by
      rw [fits.words .first left inside, words]
    rw [beginLeft, if_pos rfl, Begins, setOf_raise (fits.size .first ▸ inside)]
    by_cases same : symbol = left
    next => simp [same, BitSet.contains_unionWithout_of_size size, Begins]
    next => simp [same, Begins]

@[simp] theorem follows_beginLeft (left : Nat) (nullable : Bool) (begins : BitSet)
    (symbol name : Nat) :
    (estimate.beginLeft left nullable begins).Follows symbol name ↔
      estimate.Follows symbol name := by
  cases nullable <;> rfl

theorem follows_followPrevious {previous : Option Nat} {begins : BitSet}
    (valid : grammar.Valid) (fits : estimate.Fits grammar)
    (words : begins.words.size = BitSet.wordCount grammar.size) (symbol name : Nat) :
    (followPrevious grammar estimate previous begins).Follows symbol name ↔
      estimate.Follows symbol name ∨
        previous = some symbol ∧ grammar.isNonterminal symbol = true ∧
          begins.contains name = true ∧ name ≠ epsilonNumber := by
  cases previous with
  | none => simp [followPrevious]
  | some last =>
    by_cases nonterminal : grammar.isNonterminal last = true
    next =>
      have inside := valid.lt_size_of_isNonterminal nonterminal
      have size : (estimate.setOf .follow last).words.size = begins.words.size := by
        rw [fits.words .follow last inside, words]
      rw [followPrevious, if_pos nonterminal, Follows,
        setOf_raise (fits.size .follow ▸ inside)]
      by_cases same : symbol = last
      next => simp [same, nonterminal, BitSet.contains_unionWithout_of_size size, Follows]
      next => simp [same, Ne.symm same, Follows]
    next =>
      rw [followPrevious, if_neg nonterminal]
      refine ⟨Or.inl, ?_⟩
      rintro (known | ⟨same, also, _⟩)
      · exact known
      · cases same
        exact absurd also nonterminal

@[simp] theorem begins_followPrevious (previous : Option Nat) (begins : BitSet)
    (symbol name : Nat) :
    (followPrevious grammar estimate previous begins).Begins symbol name ↔
      estimate.Begins symbol name := by
  cases previous with
  | none => rfl
  | some last =>
    rw [followPrevious]
    split <;> rfl

theorem Walk.account_step {left symbol : Nat} {read : List Nat} {walk : Walk}
    (valid : grammar.Valid) (nonterminal : grammar.isNonterminal left = true)
    (inside : symbol < grammar.size) (account : walk.Account grammar before left read) :
    (walk.step grammar left symbol).Account grammar before left (read ++ [symbol]) := by
  have words := account.fits.words .first symbol inside
  have opened :=
    raises_beginLeft walk.estimate left walk.nullable (walk.estimate.setOf .first symbol)
  refine ⟨(walk.raises_step grammar left symbol).fits account.fits, fun other name => ?_,
    fun other name => ?_, by simp [step], ?_⟩
  · have now := account.begins symbol name
    simp only [step, begins_followPrevious, opens_append, Opens]
    rw [begins_beginLeft account.fits (valid.lt_size_of_isNonterminal nonterminal) words,
      account.begins, account.nullable]
    simp only [Begins] at now ⊢
    grind
  · have now := account.begins symbol name
    simp only [step, adjoins_concat]
    rw [follows_followPrevious valid (opened.fits account.fits) words, follows_beginLeft,
      account.follows, account.previous]
    simp only [Begins] at now ⊢
    grind
  · have now := account.begins symbol epsilonNumber
    simp only [step, Bool.and_eq_true, account.nullable, List.mem_append, List.mem_singleton]
    simp only [Begins] at now ⊢
    grind

theorem Walk.account_foldl {left : Nat} {read symbols : List Nat} {walk : Walk}
    (valid : grammar.Valid) (nonterminal : grammar.isNonterminal left = true)
    (inside : ∀ symbol ∈ symbols, symbol < grammar.size)
    (account : walk.Account grammar before left read) :
    (symbols.foldl (Walk.step grammar left) walk).Account grammar before left (read ++ symbols) := by
  induction symbols generalizing read walk with
  | nil => simpa using account
  | cons symbol rest ih =>
    have next := account_step valid nonterminal (inside symbol (by simp)) account
    simpa using ih (fun later member => inside later (by simp [member])) next

@[simp] theorem begins_trail (follows : BitSet) (symbols : List Nat) (symbol name : Nat) :
    (trail grammar follows estimate symbols).Begins symbol name ↔ estimate.Begins symbol name := by
  induction symbols generalizing estimate with
  | nil => rfl
  | cons last rest ih =>
    simp only [trail]
    split
    next =>
      split
      next => rw [ih]; rfl
      next => rfl
    next => rfl

theorem follows_raise_union {follows : BitSet} {last : Nat} (fits : estimate.Fits grammar)
    (inside : last < grammar.size) (words : follows.words.size = BitSet.wordCount grammar.size)
    (symbol name : Nat) :
    (estimate.raise .follow last fun set => set.union follows).Follows symbol name ↔
      estimate.Follows symbol name ∨ symbol = last ∧ follows.contains name = true := by
  have size : (estimate.setOf .follow last).words.size = follows.words.size := by
    rw [fits.words .follow last inside, words]
  rw [Follows, setOf_raise (fits.size .follow ▸ inside)]
  by_cases same : symbol = last
  next => simp [same, BitSet.contains_union_of_size size, Follows]
  next => simp [same, Follows]

theorem follows_trail {follows : BitSet} (valid : grammar.Valid) (fits : estimate.Fits grammar)
    (words : follows.words.size = BitSet.wordCount grammar.size) (symbols : List Nat)
    (symbol name : Nat) :
    (trail grammar follows estimate symbols).Follows symbol name ↔
      estimate.Follows symbol name ∨
        follows.contains name = true ∧
          Closes (fun other => grammar.isNonterminal other = true) estimate.Begins epsilonNumber
            symbols.reverse symbol := by
  induction symbols generalizing estimate with
  | nil => simp [trail, Closes]
  | cons last rest ih =>
    simp only [List.reverse_cons, closes_concat, trail]
    split
    next nonterminal =>
      have inside := valid.lt_size_of_isNonterminal nonterminal
      have raised := (Raises.refl estimate).raise .follow last (BitSet.widens_union follows)
      have spread := follows_raise_union fits inside words symbol name
      split
      next vanishes =>
        have also : estimate.Begins last epsilonNumber := vanishes
        rw [ih (raised.fits fits), spread, begins_raise_follow]
        grind
      next remains =>
        have never : ¬estimate.Begins last epsilonNumber := remains
        rw [spread]
        grind
    next terminal => simp [terminal]

def FollowsRead (grammar : NumberedGrammar) (estimate : Estimate) (rule : NumberedRule)
    (symbol name : Nat) : Prop :=
  estimate.Follows symbol name ∨
    grammar.isNonterminal symbol = true ∧ name ≠ epsilonNumber ∧
      Adjoins estimate.Begins epsilonNumber rule.left rule.right symbol name

def walked (grammar : NumberedGrammar) (estimate : Estimate) (rule : NumberedRule) : Walk :=
  rule.right.foldl (Walk.step grammar rule.left) ⟨estimate, none, true⟩

theorem applyRule_eq (grammar : NumberedGrammar) (estimate : Estimate) (rule : NumberedRule) :
    applyRule grammar estimate rule =
      let walk := walked grammar estimate rule
      let trailed :=
        trail grammar (walk.estimate.setOf .follow rule.left) walk.estimate rule.right.reverse
      if walk.nullable then trailed.raise .first rule.left fun set => set.insert epsilonNumber
      else trailed :=
  rfl

theorem account_walked {rule : NumberedRule} (valid : grammar.Valid) (fits : estimate.Fits grammar)
    (member : rule ∈ grammar.rules) :
    (walked grammar estimate rule).Account grammar estimate rule.left rule.right := by
  have start : Walk.Account grammar estimate rule.left [] ⟨estimate, none, true⟩ := by
    refine ⟨fits, ?_, ?_, rfl, ?_⟩ <;> simp [Opens, Adjoins]
  exact Walk.account_foldl valid (valid.left rule member) (valid.right rule member) start

theorem begins_insert_epsilon {left : Nat} (valid : grammar.Valid) (fits : estimate.Fits grammar)
    (inside : left < grammar.size) (symbol name : Nat) :
    (estimate.raise .first left fun set => set.insert epsilonNumber).Begins symbol name ↔
      estimate.Begins symbol name ∨ symbol = left ∧ name = epsilonNumber := by
  have room : epsilonNumber < (estimate.setOf .first left).capacity := by
    have markers := valid.markers
    rw [BitSet.capacity, fits.words .first left inside, BitSet.wordCount, epsilonNumber]
    omega
  rw [Begins, setOf_raise (fits.size .first ▸ inside)]
  by_cases same : symbol = left
  next => simp [same, BitSet.contains_insert, room, Begins]
  next => simp [same, Begins]

theorem begins_applyRule {rule : NumberedRule} (valid : grammar.Valid)
    (fits : estimate.Fits grammar) (member : rule ∈ grammar.rules) (symbol name : Nat) :
    (applyRule grammar estimate rule).Begins symbol name ↔
      estimate.Begins symbol name ∨
        symbol = rule.left ∧
          (name ≠ epsilonNumber ∧ Opens estimate.Begins epsilonNumber rule.right name ∨
            name = epsilonNumber ∧ ∀ other ∈ rule.right, estimate.Begins other epsilonNumber) := by
  have account := account_walked valid fits member
  have inside := valid.lt_size_of_isNonterminal (valid.left rule member)
  rw [applyRule_eq]
  by_cases nullable : (walked grammar estimate rule).nullable = true
  next =>
    have trailed (follows : BitSet) :=
      (raises_trail grammar follows (walked grammar estimate rule).estimate rule.right.reverse).fits
        account.fits
    have vanish := account.nullable.1 nullable
    simp only [nullable, if_true]
    rw [begins_insert_epsilon valid (trailed _) inside, begins_trail, account.begins]
    grind
  next =>
    have remains := mt account.nullable.2 nullable
    simp only [nullable]
    rw [if_neg (by simp), begins_trail, account.begins]
    grind

theorem follows_applyRule {rule : NumberedRule} (valid : grammar.Valid)
    (fits : estimate.Fits grammar) (member : rule ∈ grammar.rules) (symbol name : Nat) :
    (applyRule grammar estimate rule).Follows symbol name ↔
      FollowsRead grammar estimate rule symbol name ∨
        FollowsRead grammar estimate rule rule.left name ∧
          Closes (fun other => grammar.isNonterminal other = true) estimate.Begins epsilonNumber
            rule.right symbol := by
  have account := account_walked valid fits member
  have inside := valid.lt_size_of_isNonterminal (valid.left rule member)
  have words := account.fits.words .follow rule.left inside
  have trailed := follows_trail valid account.fits words rule.right.reverse symbol name
  have vanishing (other : Nat) :
      (walked grammar estimate rule).estimate.Begins other epsilonNumber ↔
        estimate.Begins other epsilonNumber := by
    simp [account.begins]
  rw [List.reverse_reverse, closes_congr vanishing, account.follows] at trailed
  have left := account.follows rule.left name
  rw [applyRule_eq]
  simp only [FollowsRead, ← left]
  split <;> exact trailed

end Estimate

end Lookahead
