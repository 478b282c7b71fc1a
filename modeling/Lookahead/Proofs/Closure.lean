import Lookahead.Proofs.RuleEffect
import Lookahead.Solver

set_option autoImplicit false

namespace Lookahead

/-- Two relations to which no rule of the solver adds anything: first x y says that y is in FIRST
of x, and follow x y that it is in FOLLOW. -/
structure NumberedGrammar.Closed (grammar : NumberedGrammar) (first follow : Nat → Nat → Prop) :
    Prop where
  terminal : ∀ symbol, grammar.kind symbol = .terminal → first symbol symbol
  begins : ∀ rule ∈ grammar.rules, ∀ name, name ≠ epsilonNumber →
    Opens first epsilonNumber rule.right name → first rule.left name
  vanishes : ∀ rule ∈ grammar.rules, (∀ symbol ∈ rule.right, first symbol epsilonNumber) →
    first rule.left epsilonNumber
  ends : follow grammar.start endNumber
  adjacent : ∀ rule ∈ grammar.rules, ∀ before symbol next after,
    rule.right = before ++ symbol :: next :: after → grammar.isNonterminal symbol = true →
    ∀ name, name ≠ epsilonNumber → first next name → follow symbol name
  trailing : ∀ rule ∈ grammar.rules, ∀ symbol,
    Closes (fun other => grammar.isNonterminal other = true) first epsilonNumber rule.right symbol →
    ∀ name, follow rule.left name → follow symbol name

theorem NumberedGrammar.Closed.adjoins {grammar : NumberedGrammar} {first follow : Nat → Nat → Prop}
    (closed : grammar.Closed first follow) {rule : NumberedRule} (member : rule ∈ grammar.rules)
    {symbol name : Nat} (nonterminal : grammar.isNonterminal symbol = true)
    (named : name ≠ epsilonNumber)
    (adjoins : Adjoins first epsilonNumber rule.left rule.right symbol name) :
    follow symbol name := by
  obtain ⟨before, next, after, split, begins⟩ := adjoins
  apply closed.adjacent rule member before symbol next after split nonterminal name named
  rcases begins with here | ⟨rfl, opens⟩
  · exact here
  · apply closed.begins rule member name named
    have apart : rule.right = (before ++ [symbol]) ++ rule.left :: after := by simp [split]
    rw [apart]
    exact opens_append.2 (Or.inl opens)

namespace Estimate

variable {grammar : NumberedGrammar} {estimate : Estimate} {first follow : Nat → Nat → Prop}

structure Within (estimate : Estimate) (first follow : Nat → Nat → Prop) : Prop where
  begins : ∀ symbol name, estimate.Begins symbol name → first symbol name
  follows : ∀ symbol name, estimate.Follows symbol name → follow symbol name

theorem le_capacity_ofSize (size : Nat) : size ≤ (BitSet.ofSize size).capacity := by
  rw [BitSet.capacity, BitSet.size_ofSize, BitSet.wordCount]
  omega

theorem setOf_first_initial {symbol : Nat} (inside : symbol < grammar.size) :
    (initial grammar).setOf .first symbol =
      if grammar.kind symbol = .terminal then (BitSet.ofSize grammar.size).insert symbol
      else BitSet.ofSize grammar.size := by
  simp [setOf, sets, initial, inside]

theorem setOf_follow_initial {symbol : Nat} (inside : symbol < grammar.size) :
    (initial grammar).setOf .follow symbol =
      if grammar.start = symbol then (BitSet.ofSize grammar.size).insert endNumber
      else BitSet.ofSize grammar.size := by
  simp [setOf, sets, initial, inside, Array.getElem_modify]

theorem fits_initial (grammar : NumberedGrammar) : (initial grammar).Fits grammar := by
  refine ⟨fun family => by cases family <;> simp [sets, initial], fun family symbol inside => ?_⟩
  cases family with
  | first =>
    rw [setOf_first_initial inside]
    split <;> simp
  | follow =>
    rw [setOf_follow_initial inside]
    split <;> simp

theorem begins_initial (valid : grammar.Valid) (symbol name : Nat) :
    (initial grammar).Begins symbol name ↔ grammar.kind symbol = .terminal ∧ name = symbol := by
  by_cases inside : symbol < grammar.size
  next =>
    have room := Nat.lt_of_lt_of_le inside (le_capacity_ofSize grammar.size)
    rw [Begins, setOf_first_initial inside]
    split
    next terminal => simp [BitSet.contains_insert, room, terminal]
    next other => simp [other]
  next =>
    have empty : (initial grammar).setOf .first symbol = BitSet.ofSize 0 := by
      simp [setOf, sets, initial, Nat.not_lt.1 inside]
    have other : grammar.kind symbol ≠ .terminal := fun terminal =>
      inside (valid.lt_size (by simp [terminal]))
    simp [Begins, empty, other]

theorem follows_initial (valid : grammar.Valid) (symbol name : Nat) :
    (initial grammar).Follows symbol name ↔ symbol = grammar.start ∧ name = endNumber := by
  by_cases inside : symbol < grammar.size
  next =>
    have markers : endNumber < grammar.size := valid.markers
    have room := Nat.lt_of_lt_of_le markers (le_capacity_ofSize grammar.size)
    rw [Follows, setOf_follow_initial inside]
    split
    next here => simp [BitSet.contains_insert, room, here]
    next other => simp [Ne.symm other]
  next =>
    have other : symbol ≠ grammar.start := fun same => inside (same ▸ valid.start)
    have empty : (initial grammar).setOf .follow symbol = BitSet.ofSize 0 := by
      simp [setOf, sets, initial, Nat.not_lt.1 inside]
    simp [Follows, empty, other]

theorem within_initial (valid : grammar.Valid) (closed : grammar.Closed first follow) :
    (initial grammar).Within first follow := by
  refine ⟨fun symbol name begins => ?_, fun symbol name follows => ?_⟩
  · obtain ⟨terminal, rfl⟩ := (begins_initial valid symbol name).1 begins
    exact closed.terminal _ terminal
  · obtain ⟨rfl, rfl⟩ := (follows_initial valid symbol name).1 follows
    exact closed.ends

theorem within_applyRule {rule : NumberedRule} (valid : grammar.Valid)
    (closed : grammar.Closed first follow) (fits : estimate.Fits grammar)
    (member : rule ∈ grammar.rules) (within : estimate.Within first follow) :
    (applyRule grammar estimate rule).Within first follow := by
  have read (symbol name : Nat) (follows : FollowsRead grammar estimate rule symbol name) :
      follow symbol name := by
    rcases follows with known | ⟨nonterminal, named, adjoins⟩
    · exact within.follows symbol name known
    · exact closed.adjoins member nonterminal named (adjoins.mono within.begins)
  refine ⟨fun symbol name begins => ?_, fun symbol name follows => ?_⟩
  · rcases (begins_applyRule valid fits member symbol name).1 begins with
      known | ⟨rfl, ⟨named, opens⟩ | ⟨rfl, vanish⟩⟩
    · exact within.begins symbol name known
    · exact closed.begins rule member name named (opens.mono within.begins)
    · exact closed.vanishes rule member fun other inside => within.begins _ _ (vanish other inside)
  · rcases (follows_applyRule valid fits member symbol name).1 follows with here | ⟨passed, closes⟩
    · exact read symbol name here
    · exact closed.trailing rule member symbol (closes.mono within.begins) name (read _ name passed)

theorem within_applyRules {rules : List NumberedRule} (valid : grammar.Valid)
    (closed : grammar.Closed first follow) (fits : estimate.Fits grammar)
    (members : ∀ rule ∈ rules, rule ∈ grammar.rules) (within : estimate.Within first follow) :
    (rules.foldl (applyRule grammar) estimate).Within first follow := by
  induction rules generalizing estimate with
  | nil => exact within
  | cons rule rest ih =>
    have member := members rule List.mem_cons_self
    exact ih ((raises_applyRule grammar estimate rule).fits fits)
      (fun later inside => members later (List.mem_cons_of_mem _ inside))
      (within_applyRule valid closed fits member within)

theorem Fits.cleared (fits : estimate.Fits grammar) :
    Fits grammar { estimate with grown := false } := by
  refine ⟨fun family => ?_, fun family symbol inside => ?_⟩
  · rw [sets_cleared]
    exact fits.size family
  · rw [setOf, sets_cleared]
    exact fits.words family symbol inside

theorem fits_sweep (fits : estimate.Fits grammar) : (estimate.sweep grammar).Fits grammar :=
  (raises_applyRules grammar grammar.rules _).fits fits.cleared

theorem within_sweep (valid : grammar.Valid) (closed : grammar.Closed first follow)
    (fits : estimate.Fits grammar) (within : estimate.Within first follow) :
    (estimate.sweep grammar).Within first follow :=
  within_applyRules valid closed fits.cleared (fun _ member => member)
    ⟨within.begins, within.follows⟩

theorem kept_applyRules {rules : List NumberedRule} (valid : grammar.Valid)
    (fits : estimate.Fits grammar) (members : ∀ rule ∈ rules, rule ∈ grammar.rules) :
    estimate.Within (rules.foldl (applyRule grammar) estimate).Begins
      (rules.foldl (applyRule grammar) estimate).Follows := by
  induction rules generalizing estimate with
  | nil => exact ⟨fun _ _ => id, fun _ _ => id⟩
  | cons rule rest ih =>
    have member := members rule List.mem_cons_self
    have later := ih ((raises_applyRule grammar estimate rule).fits fits)
      (fun later inside => members later (List.mem_cons_of_mem _ inside))
    exact ⟨fun symbol name known =>
        later.begins _ _ ((begins_applyRule valid fits member _ _).2 (Or.inl known)),
      fun symbol name known =>
        later.follows _ _ ((follows_applyRule valid fits member _ _).2 (Or.inl (Or.inl known)))⟩

theorem kept_sweep (valid : grammar.Valid) (fits : estimate.Fits grammar) :
    estimate.Within (estimate.sweep grammar).Begins (estimate.sweep grammar).Follows := by
  have kept := kept_applyRules valid fits.cleared fun _ member => member
  exact ⟨kept.begins, kept.follows⟩

theorem applyRule_eq_of_still {rules : List NumberedRule}
    (still : (rules.foldl (applyRule grammar) estimate).grown = false) :
    ∀ rule ∈ rules, applyRule grammar estimate rule = estimate := by
  induction rules generalizing estimate with
  | nil => simp
  | cons rule rest ih =>
    have unchanged := (raises_applyRules grammar rest (applyRule grammar estimate rule)).eq_of_still
      still
    rw [List.foldl_cons, unchanged] at still
    have here := (raises_applyRule grammar estimate rule).eq_of_still still
    intro other member
    rcases List.mem_cons.1 member with rfl | later
    · exact here
    · rw [← unchanged, here] at still
      exact ih still other later

theorem sweep_eq_of_still (still : (estimate.sweep grammar).grown = false) :
    estimate.sweep grammar = { estimate with grown := false } :=
  (raises_applyRules grammar grammar.rules _).eq_of_still still

theorem closed_of_still (valid : grammar.Valid) (fits : estimate.Fits grammar)
    (seeded : (initial grammar).Within estimate.Begins estimate.Follows)
    (still : (estimate.sweep grammar).grown = false) :
    grammar.Closed estimate.Begins estimate.Follows := by
  have same := applyRule_eq_of_still still
  have begins {rule : NumberedRule} (member : rule ∈ grammar.rules) (symbol name : Nat) :=
    begins_applyRule valid fits.cleared member symbol name
  have follows {rule : NumberedRule} (member : rule ∈ grammar.rules) (symbol name : Nat) :=
    follows_applyRule valid fits.cleared member symbol name
  refine ⟨fun symbol terminal => ?_, fun rule member name named opens => ?_,
    fun rule member vanish => ?_, ?_, ?_, fun rule member symbol closes name known => ?_⟩
  · exact seeded.begins _ _ ((begins_initial valid symbol symbol).2 ⟨terminal, rfl⟩)
  · have reached := (begins member rule.left name).2 (Or.inr ⟨rfl, Or.inl ⟨named, opens⟩⟩)
    rwa [same rule member] at reached
  · have reached := (begins member rule.left epsilonNumber).2 (Or.inr ⟨rfl, Or.inr ⟨rfl, vanish⟩⟩)
    rwa [same rule member] at reached
  · exact seeded.follows _ _ ((follows_initial valid _ _).2 ⟨rfl, rfl⟩)
  · intro rule member before symbol next after split nonterminal name named known
    have reached := (follows member symbol name).2
      (Or.inl (Or.inr ⟨nonterminal, named, before, next, after, split, Or.inl known⟩))
    rwa [same rule member] at reached
  · have reached := (follows member symbol name).2 (Or.inr ⟨Or.inl known, closes⟩)
    rwa [same rule member] at reached

end Estimate

end Lookahead
