import Lookahead.Proofs.Run

set_option autoImplicit false

namespace Lookahead.Estimate

variable {grammar : NumberedGrammar} {a b estimate : Estimate} {name : Nat}

structure BeginsAlike (a b : Estimate) (name : Nat) : Prop where
  vanish : ∀ symbol, a.Begins symbol epsilonNumber ↔ b.Begins symbol epsilonNumber
  begins : ∀ symbol, a.Begins symbol name ↔ b.Begins symbol name

structure Alike (a b : Estimate) (name : Nat) : Prop extends BeginsAlike a b name where
  follows : ∀ symbol, a.Follows symbol name ↔ b.Follows symbol name

theorem BeginsAlike.applyRule {rule : NumberedRule} (valid : grammar.Valid)
    (left : a.Fits grammar) (right : b.Fits grammar) (member : rule ∈ grammar.rules)
    (alike : a.BeginsAlike b name) :
    (a.applyRule grammar rule).BeginsAlike (b.applyRule grammar rule) name := by
  constructor
  · intro symbol
    rw [begins_applyRule valid left member, begins_applyRule valid right member,
      opens_congr alike.vanish alike.vanish]
    simp only [alike.vanish]
  · intro symbol
    rw [begins_applyRule valid left member, begins_applyRule valid right member,
      opens_congr alike.vanish alike.begins]
    simp only [alike.vanish, alike.begins]

theorem Alike.applyRule {rule : NumberedRule} (valid : grammar.Valid)
    (left : a.Fits grammar) (right : b.Fits grammar) (member : rule ∈ grammar.rules)
    (alike : a.Alike b name) :
    (a.applyRule grammar rule).Alike (b.applyRule grammar rule) name := by
  refine ⟨alike.toBeginsAlike.applyRule valid left right member, fun symbol => ?_⟩
  have read (other : Nat) :
      FollowsRead grammar a rule other name ↔ FollowsRead grammar b rule other name := by
    simp only [FollowsRead, alike.follows, adjoins_congr alike.vanish alike.begins]
  rw [follows_applyRule valid left member, follows_applyRule valid right member,
    closes_congr alike.vanish, read, read]

theorem related_sweep (related : Estimate → Estimate → Prop)
    (step : ∀ rule ∈ grammar.rules, ∀ a b : Estimate, a.Fits grammar → b.Fits grammar →
      related a b → related (a.applyRule grammar rule) (b.applyRule grammar rule))
    (left : a.Fits grammar) (right : b.Fits grammar)
    (start : related { a with grown := false } { b with grown := false }) :
    related (a.sweep grammar) (b.sweep grammar) := by
  have fold (rules : List NumberedRule) (members : ∀ rule ∈ rules, rule ∈ grammar.rules)
      (x y : Estimate) (left : x.Fits grammar) (right : y.Fits grammar) (known : related x y) :
      related (rules.foldl (Estimate.applyRule grammar) x)
        (rules.foldl (Estimate.applyRule grammar) y) := by
    induction rules generalizing x y with
    | nil => exact known
    | cons rule rest ih =>
      apply ih fun later inside => members later (List.mem_cons_of_mem _ inside)
      · exact (raises_applyRule grammar x rule).fits left
      · exact (raises_applyRule grammar y rule).fits right
      · exact step rule (members rule List.mem_cons_self) x y left right known
  exact fold grammar.rules (fun _ member => member) _ _ left.cleared right.cleared start

theorem BeginsAlike.sweep (valid : grammar.Valid) (left : a.Fits grammar) (right : b.Fits grammar)
    (alike : a.BeginsAlike b name) : (a.sweep grammar).BeginsAlike (b.sweep grammar) name := by
  apply related_sweep (fun a b => a.BeginsAlike b name) ?_ left right
  · exact ⟨alike.vanish, alike.begins⟩
  · exact fun rule member a b left right known => known.applyRule valid left right member

theorem Alike.sweep (valid : grammar.Valid) (left : a.Fits grammar) (right : b.Fits grammar)
    (alike : a.Alike b name) : (a.sweep grammar).Alike (b.sweep grammar) name := by
  apply related_sweep (fun a b => a.Alike b name) ?_ left right
  · exact ⟨⟨alike.vanish, alike.begins⟩, alike.follows⟩
  · exact fun rule member a b left right known => known.applyRule valid left right member

theorem Fits.sets_ext {family : Family} (left : a.Fits grammar) (right : b.Fits grammar)
    (same : ∀ symbol, a.setOf family symbol = b.setOf family symbol) :
    a.sets family = b.sets family := by
  apply Array.ext ((left.size family).trans (right.size family).symm)
  intro symbol here there
  simpa [setOf, here, there] using same symbol

theorem Raises.grown_iff (raises : a.Raises b) (left : a.Fits grammar) (right : b.Fits grammar) :
    b.grown = true ↔ a.grown = true ∨
      ∃ symbol, b.setOf .first symbol ≠ a.setOf .first symbol ∨
        b.setOf .follow symbol ≠ a.setOf .follow symbol := by
  constructor
  · intro grown
    by_contra unchanged
    simp only [not_or, not_exists, ne_eq, not_not] at unchanged
    obtain ⟨still, same⟩ := unchanged
    have first : b.first = a.first := right.sets_ext left fun symbol => (same symbol).1
    have follow : b.follow = a.follow := right.sets_ext left fun symbol => (same symbol).2
    have less := (raises.advances.2 grown).resolve_left still
    rw [room, room, first, follow] at less
    exact Nat.lt_irrefl _ less
  · intro changed
    by_contra still
    rw [raises.eq_of_still (Bool.eq_false_iff.2 still)] at changed still
    rcases changed with grown | ⟨symbol, differs | differs⟩
    · exact still grown
    · exact differs rfl
    · exact differs rfl

theorem grown_sweep_eq_false (fits : estimate.Fits grammar)
    (alike : ∀ name, estimate.Alike (estimate.sweep grammar) name) :
    (estimate.sweep grammar).grown = false := by
  have raises : Raises { estimate with grown := false } (estimate.sweep grammar) :=
    raises_applyRules grammar grammar.rules _
  have cleared := fits.cleared
  have later := fits_sweep fits
  rw [← Bool.not_eq_true, raises.grown_iff cleared later]
  rintro (grown | ⟨symbol, differs | differs⟩)
  · cases grown
  · exact differs (later.setOf_ext cleared fun name => ((alike name).begins symbol).symm)
  · exact differs (later.setOf_ext cleared fun name => ((alike name).follows symbol).symm)

end Lookahead.Estimate
