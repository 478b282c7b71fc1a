import Lookahead.Proofs.Derivations

set_option autoImplicit false

namespace Lookahead.Grammar

variable {grammar : Grammar}

def SideBySide (grammar : Grammar) (top left right : String) : Prop :=
  ∃ before after, grammar.Derives [top] (before ++ [left, right] ++ after)

def Reaches (grammar : Grammar) (symbol : String) : Prop :=
  ∃ word, grammar.Derives [grammar.start] word ∧ symbol ∈ word

theorem SideBySide.from_start {top left right : String}
    (together : grammar.SideBySide top left right) (reaches : grammar.Reaches top) :
    grammar.SideBySide grammar.start left right := by
  obtain ⟨before, after, derives⟩ := together
  obtain ⟨word, reached, member⟩ := reaches
  obtain ⟨prior, rest, rfl⟩ := List.append_of_mem member
  refine ⟨prior ++ before, after ++ rest, reached.trans ?_⟩
  simpa using (derives.append_right rest).append_left prior

/-- The list can be cut in two so that the front can end with the one symbol and the back can begin
with the other. -/
def Parts (grammar : Grammar) (symbols : List String) (left right : String) : Prop :=
  ∃ front back, symbols = front ++ back ∧ grammar.CanEnd front left ∧ grammar.CanBegin back right

theorem Parts.sideBySide {production : Production} (member : production ∈ grammar.productions)
    {left right : String} (parts : grammar.Parts production.derivation left right) :
    grammar.SideBySide production.symbol left right := by
  obtain ⟨front, back, split, ⟨prior, ends⟩, ⟨rest, begins⟩⟩ := parts
  have body := derives_of_mem member
  rw [split] at body
  exact ⟨prior, rest, body.trans (by simpa using ends.append begins)⟩

-- A cut inside a derivation: if the front of it vanishes, the cut can be made before the symbol
-- that gave way to it, if the back vanishes, after it, and if neither does, the derivation parts.
theorem parts_of_cut {production : Production} (member : production ∈ grammar.productions)
    {before first second after : List String} {left right : String}
    (cut : production.derivation = first ++ second)
    (ends : grammar.CanEnd (before ++ first) left)
    (begins : grammar.CanBegin (second ++ after) right) :
    grammar.Parts (before ++ production.symbol :: after) left right ∨
      grammar.Parts production.derivation left right := by
  have body := derives_of_mem member
  rw [cut] at body
  rcases canEnd_append.1 ends with inner | ⟨vanish, outer⟩
  · rcases canBegin_append.1 begins with also | ⟨vanish, outer⟩
    · exact Or.inr ⟨first, second, cut, inner, also⟩
    · have shrinks := body.trans (vanish.append_left first)
      rw [List.append_nil] at shrinks
      refine Or.inl ⟨before ++ [production.symbol], after, by simp, ?_, outer⟩
      exact canEnd_append.2 (Or.inl (inner.of_derives shrinks))
  · have shrinks := body.trans (vanish.append_right second)
    exact Or.inl ⟨before, production.symbol :: after, rfl, outer,
      begins.of_derives (shrinks.append_right after)⟩

theorem Parts.of_rewrites {source target : List String} {left right : String}
    (parts : grammar.Parts target left right) (rewrites : grammar.Rewrites source target) :
    grammar.Parts source left right ∨
      ∃ production ∈ grammar.productions, grammar.Parts production.derivation left right := by
  obtain ⟨production, member, before, after, rfl, rfl⟩ := rewrites_iff.1 rewrites
  obtain ⟨front, back, split, ends, begins⟩ := parts
  have body := derives_of_mem member
  rcases List.append_eq_append_iff.1 split with ⟨gap, rfl, rfl⟩ | ⟨gap, inner, rfl⟩
  · refine Or.inl ⟨before ++ [production.symbol] ++ gap, back, by simp, ?_, begins⟩
    exact ends.of_derives ((body.append_left before).append_right gap)
  rcases List.append_eq_append_iff.1 inner with ⟨first, rfl, cut⟩ | ⟨second, rfl, rfl⟩
  · rcases parts_of_cut member cut ends begins with here | there
    · exact Or.inl here
    · exact Or.inr ⟨production, member, there⟩
  · refine Or.inl ⟨front, second ++ [production.symbol] ++ after, by simp, ends, ?_⟩
    exact begins.of_derives ((body.append_left second).append_right after)

theorem parts_of_derives {source before after : List String} {left right : String}
    (derives : grammar.Derives source (before ++ [left, right] ++ after)) :
    grammar.Parts source left right ∨
      ∃ production ∈ grammar.productions, grammar.Parts production.derivation left right := by
  induction derives using Relation.ReflTransGen.head_induction_on with
  | refl =>
    exact Or.inl ⟨before ++ [left], right :: after, by simp, ⟨before, Derives.refl _⟩,
      after, Derives.refl _⟩
  | head step _ ih =>
    rcases ih with parts | found
    · exact parts.of_rewrites step
    · exact Or.inr found

theorem not_parts_singleton {symbol left right : String} : ¬grammar.Parts [symbol] left right := by
  rintro ⟨front, back, split, ⟨prior, ends⟩, rest, begins⟩
  rcases List.cons_eq_append_iff.1 split with ⟨rfl, _⟩ | ⟨front, rfl, nothing⟩
  · have empty := derives_nil_left ends
    simp at empty
  · obtain ⟨_, rfl⟩ := List.append_eq_nil_iff.1 nothing.symm
    cases derives_nil_left begins

theorem sideBySide_iff {left right : String} :
    (∃ top, grammar.isNonterminal top = true ∧ grammar.SideBySide top left right) ↔
      ∃ production ∈ grammar.productions, grammar.Parts production.derivation left right := by
  constructor
  · rintro ⟨top, _, before, after, derives⟩
    rcases parts_of_derives derives with parts | found
    · exact absurd parts not_parts_singleton
    · exact found
  · rintro ⟨production, member, parts⟩
    have nonterminal := (grammar.isNonterminal_iff _).2 ⟨production, member, rfl⟩
    exact ⟨production.symbol, nonterminal, parts.sideBySide member⟩

end Lookahead.Grammar
