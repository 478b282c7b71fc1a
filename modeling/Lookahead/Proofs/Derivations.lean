import Lookahead.Grammar.Derivation
import Lookahead.Grammar.Numbering

set_option autoImplicit false

namespace Lookahead.Grammar

variable {grammar : Grammar}

theorem rewrites_iff {source target : List String} :
    grammar.Rewrites source target ↔
      ∃ production ∈ grammar.productions, ∃ before after,
        source = before ++ production.symbol :: after ∧
          target = before ++ production.derivation ++ after := by
  constructor
  · rintro ⟨before, after, member⟩
    exact ⟨_, member, before, after, rfl, rfl⟩
  · rintro ⟨production, member, before, after, rfl, rfl⟩
    exact Rewrites.replace before after member

theorem Rewrites.of_append {a b target : List String} (rewrites : grammar.Rewrites (a ++ b) target) :
    (∃ left, grammar.Rewrites a left ∧ target = left ++ b) ∨
      ∃ right, grammar.Rewrites b right ∧ target = a ++ right := by
  obtain ⟨production, member, before, after, split, rfl⟩ := rewrites_iff.1 rewrites
  rcases List.append_eq_append_iff.1 split with ⟨gap, rfl, rest⟩ | ⟨gap, rfl, rest⟩
  · exact Or.inr ⟨gap ++ production.derivation ++ after,
      rewrites_iff.2 ⟨production, member, gap, after, rest, rfl⟩, by simp⟩
  · cases gap with
    | nil =>
      have whole : b = production.symbol :: after := by simpa using rest.symm
      exact Or.inr ⟨production.derivation ++ after,
        rewrites_iff.2 ⟨production, member, [], after, by simp [whole], by simp⟩, by simp⟩
    | cons head gap =>
      obtain ⟨rfl, rfl⟩ := List.cons.inj rest
      exact Or.inl ⟨before ++ production.derivation ++ gap,
        rewrites_iff.2 ⟨production, member, before, gap, rfl, rfl⟩, by simp⟩

theorem derives_append_iff {a b word : List String} :
    grammar.Derives (a ++ b) word ↔
      ∃ left right, word = left ++ right ∧ grammar.Derives a left ∧ grammar.Derives b right := by
  constructor
  · intro derives
    generalize start : a ++ b = source at derives
    induction derives using Relation.ReflTransGen.head_induction_on generalizing a b with
    | refl => exact ⟨a, b, start.symm, Derives.refl a, Derives.refl b⟩
    | head step _ ih =>
      subst start
      rcases step.of_append with ⟨next, rewrites, rfl⟩ | ⟨next, rewrites, rfl⟩
      · obtain ⟨left, right, rfl, first, second⟩ := ih rfl
        exact ⟨left, right, rfl, Relation.ReflTransGen.head rewrites first, second⟩
      · obtain ⟨left, right, rfl, first, second⟩ := ih rfl
        exact ⟨left, right, rfl, first, Relation.ReflTransGen.head rewrites second⟩
  · rintro ⟨left, right, rfl, first, second⟩
    exact first.append second

theorem derives_nil_left {word : List String} (derives : grammar.Derives [] word) : word = [] := by
  rcases Relation.ReflTransGen.cases_head derives with same | ⟨next, step, _⟩
  · exact same.symm
  · obtain ⟨_, _, before, after, split, _⟩ := rewrites_iff.1 step
    simp at split

theorem derives_nil_iff {symbols : List String} :
    grammar.Derives symbols [] ↔ ∀ symbol ∈ symbols, grammar.Derives [symbol] [] := by
  induction symbols with
  | nil => simp [Derives.refl]
  | cons symbol rest ih =>
    rw [← List.singleton_append, derives_append_iff, List.forall_mem_append, ← ih]
    constructor
    · rintro ⟨left, right, nothing, first, second⟩
      obtain ⟨rfl, rfl⟩ := List.append_eq_nil_iff.1 nothing.symm
      exact ⟨by simpa using first, second⟩
    · rintro ⟨first, second⟩
      exact ⟨[], [], rfl, first symbol (by simp), second⟩

theorem derives_singleton_cases {symbol : String} {word : List String}
    (derives : grammar.Derives [symbol] word) :
    word = [symbol] ∨ ∃ production ∈ grammar.productions, production.symbol = symbol ∧
      grammar.Derives production.derivation word := by
  rcases Relation.ReflTransGen.cases_head derives with same | ⟨next, step, further⟩
  · exact Or.inl same.symm
  · obtain ⟨production, member, before, after, split, rfl⟩ := rewrites_iff.1 step
    obtain ⟨rfl, rest⟩ | ⟨_, _, nothing⟩ := List.cons_eq_append_iff.1 split
    · obtain ⟨same, rfl⟩ := List.cons.inj rest
      rw [List.nil_append, List.append_nil] at further
      exact Or.inr ⟨production, member, same, further⟩
    · simp at nothing

theorem eq_of_derives_terminal {symbol : String} (terminal : grammar.isNonterminal symbol = false)
    {word : List String} (derives : grammar.Derives [symbol] word) : word = [symbol] := by
  rcases derives_singleton_cases derives with same | ⟨production, member, same, _⟩
  · exact same
  · rw [Bool.eq_false_iff, ne_eq, isNonterminal_iff] at terminal
    exact absurd ⟨production, member, same⟩ terminal

theorem isNonterminal_of_derives_nil {symbol : String} (derives : grammar.Derives [symbol] []) :
    grammar.isNonterminal symbol = true := by
  refine Decidable.byContradiction fun terminal => ?_
  have same := eq_of_derives_terminal (Bool.eq_false_iff.2 terminal) derives
  simp at same

def CanBegin (grammar : Grammar) (symbols : List String) (name : String) : Prop :=
  ∃ rest, grammar.Derives symbols (name :: rest)

def CanEnd (grammar : Grammar) (symbols : List String) (name : String) : Prop :=
  ∃ prior, grammar.Derives symbols (prior ++ [name])

theorem CanBegin.of_derives {a b : List String} {name : String} (begins : grammar.CanBegin b name)
    (derives : grammar.Derives a b) : grammar.CanBegin a name := by
  obtain ⟨rest, further⟩ := begins
  exact ⟨rest, derives.trans further⟩

theorem CanEnd.of_derives {a b : List String} {name : String} (ends : grammar.CanEnd b name)
    (derives : grammar.Derives a b) : grammar.CanEnd a name := by
  obtain ⟨prior, further⟩ := ends
  exact ⟨prior, derives.trans further⟩

theorem canBegin_append {a b : List String} {name : String} :
    grammar.CanBegin (a ++ b) name ↔
      grammar.CanBegin a name ∨ grammar.Derives a [] ∧ grammar.CanBegin b name := by
  constructor
  · rintro ⟨rest, derives⟩
    obtain ⟨left, right, split, first, second⟩ := derives_append_iff.1 derives
    cases left with
    | nil =>
      rw [List.nil_append] at split
      exact Or.inr ⟨first, rest, split ▸ second⟩
    | cons head left =>
      obtain ⟨rfl, _⟩ := List.cons.inj split
      exact Or.inl ⟨left, first⟩
  · rintro (⟨rest, derives⟩ | ⟨vanish, rest, derives⟩)
    · exact ⟨rest ++ b, derives.append_right b⟩
    · exact ⟨rest, vanish.append derives⟩

theorem canEnd_append {a b : List String} {name : String} :
    grammar.CanEnd (a ++ b) name ↔
      grammar.CanEnd b name ∨ grammar.Derives b [] ∧ grammar.CanEnd a name := by
  constructor
  · rintro ⟨prior, derives⟩
    obtain ⟨left, right, split, first, second⟩ := derives_append_iff.1 derives
    rcases List.eq_nil_or_concat right with rfl | ⟨right, last, rfl⟩
    · rw [List.append_nil] at split
      exact Or.inr ⟨second, prior, split ▸ first⟩
    · rw [List.concat_eq_append, ← List.append_assoc] at split
      obtain ⟨_, same⟩ := List.append_inj' split rfl
      obtain ⟨rfl, _⟩ := List.cons.inj same
      exact Or.inl ⟨right, by simpa using second⟩
  · rintro (⟨prior, derives⟩ | ⟨vanish, prior, derives⟩)
    · refine ⟨a ++ prior, ?_⟩
      rw [List.append_assoc]
      exact derives.append_left a
    · have joined := derives.append vanish
      rw [List.append_nil] at joined
      exact ⟨prior, joined⟩

theorem derives_cons_iff {symbols : List String} {name : String} :
    (∃ rest, grammar.Derives symbols (name :: rest)) ↔
      ∃ erased source later, symbols = erased ++ source :: later ∧ grammar.Derives erased [] ∧
        ∃ rest, grammar.Derives [source] (name :: rest) := by
  constructor
  · intro begins
    induction symbols with
    | nil =>
      obtain ⟨rest, derives⟩ := begins
      cases derives_nil_left derives
    | cons symbol more ih =>
      rcases canBegin_append.1 (List.singleton_append ▸ begins) with here | ⟨vanish, later⟩
      · exact ⟨[], symbol, more, rfl, Derives.refl [], here⟩
      · obtain ⟨erased, source, rest, rfl, also, found⟩ := ih later
        exact ⟨symbol :: erased, source, rest, rfl, vanish.append also, found⟩
  · rintro ⟨erased, source, later, rfl, vanish, found⟩
    have tail : grammar.CanBegin ([source] ++ later) name := canBegin_append.2 (Or.inl found)
    exact canBegin_append.2 (Or.inr ⟨vanish, tail⟩)

theorem derives_concat_iff {symbols : List String} {name : String} :
    (∃ prior, grammar.Derives symbols (prior ++ [name])) ↔
      ∃ before source erased, symbols = before ++ source :: erased ∧ grammar.Derives erased [] ∧
        ∃ prior, grammar.Derives [source] (prior ++ [name]) := by
  constructor
  · intro ends
    induction symbols with
    | nil =>
      obtain ⟨prior, derives⟩ := ends
      have nothing := derives_nil_left derives
      simp at nothing
    | cons symbol more ih =>
      rcases canEnd_append.1 (List.singleton_append ▸ ends) with later | ⟨vanish, here⟩
      · obtain ⟨before, source, erased, rfl, vanish, found⟩ := ih later
        exact ⟨symbol :: before, source, erased, rfl, vanish, found⟩
      · exact ⟨[], symbol, more, rfl, vanish, here⟩
  · rintro ⟨before, source, erased, rfl, vanish, found⟩
    have tail : grammar.CanEnd ([source] ++ erased) name := canEnd_append.2 (Or.inr ⟨vanish, found⟩)
    exact canEnd_append.2 (Or.inl tail)

theorem isNonterminal_of_canEnd {symbol name : String} (ends : grammar.CanEnd [symbol] name)
    (nonterminal : grammar.isNonterminal name = true) : grammar.isNonterminal symbol = true := by
  obtain ⟨prior, derives⟩ := ends
  refine Decidable.byContradiction fun terminal => ?_
  have same := eq_of_derives_terminal (Bool.eq_false_iff.2 terminal) derives
  have last := congrArg List.getLast? same
  simp only [List.getLast?_append, List.getLast?_singleton, Option.some_or, Option.some.injEq] at last
  exact terminal (last ▸ nonterminal)

end Lookahead.Grammar
