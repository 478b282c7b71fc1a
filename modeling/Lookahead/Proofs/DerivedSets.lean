import Lookahead.Proofs.Derivations
import Lookahead.Proofs.LeastSolution

set_option autoImplicit false

namespace Lookahead.Grammar

variable {grammar : Grammar} {first follow : String → String → Prop}

/-- What derivations ask of FIRST: the terminals that a symbol can begin with, and epsilon if it
can derive nothing. -/
def DerivesFirst (grammar : Grammar) (symbol name : String) : Prop :=
  (name = epsilon ∧ grammar.Derives [symbol] []) ∨
    (grammar.kind name = .terminal ∧ ∃ rest, grammar.Derives [symbol] (name :: rest))

/-- The symbol ends what a nonterminal derives, and the name begins what the neighbour to the right
of that nonterminal derives. -/
def Meets (grammar : Grammar) (symbol name : String) : Prop :=
  ∃ production ∈ grammar.productions, ∃ before left right after,
    production.derivation = before ++ left :: right :: after ∧
      grammar.isNonterminal left = true ∧ (∃ prior, grammar.Derives [left] (prior ++ [symbol])) ∧
      ∃ rest, grammar.Derives [right] (name :: rest)

def Ends (grammar : Grammar) (symbol : String) : Prop :=
  ∃ prior, grammar.Derives [grammar.start] (prior ++ [symbol])

/-- What derivations ask of FOLLOW as the solver understands it, by neighbours in one production. -/
def DerivesFollow (grammar : Grammar) (symbol name : String) : Prop :=
  (name = endMarker ∧ grammar.Ends symbol) ∨
    (grammar.kind name = .terminal ∧ grammar.Meets symbol name)

theorem kind_epsilon (grammar : Grammar) : grammar.kind epsilon = .marker :=
  (grammar.kind_eq_marker_iff epsilon).2 grammar.occurs_epsilon

theorem ne_epsilon_of_terminal {name : String} (terminal : grammar.kind name = .terminal) :
    name ≠ epsilon := by
  rintro rfl
  rw [kind_epsilon] at terminal
  cases terminal

@[simp] theorem derivesFirst_epsilon_iff {symbol : String} :
    grammar.DerivesFirst symbol epsilon ↔ grammar.Derives [symbol] [] := by
  simp [DerivesFirst, kind_epsilon]

theorem derives_nil_of_derivesFirst {symbols : List String}
    (vanish : ∀ symbol ∈ symbols, grammar.DerivesFirst symbol epsilon) :
    grammar.Derives symbols [] :=
  derives_nil_iff.2 fun symbol member => derivesFirst_epsilon_iff.1 (vanish symbol member)

theorem derivesFirst_terminal_iff {symbol name : String}
    (terminal : grammar.kind symbol = .terminal) :
    grammar.DerivesFirst symbol name ↔ name = symbol := by
  have stuck := ((grammar.kind_eq_terminal_iff symbol).1 terminal).1
  constructor
  · rintro (⟨rfl, derives⟩ | ⟨_, rest, derives⟩)
    · cases eq_of_derives_terminal stuck derives
    · exact (List.cons.inj (eq_of_derives_terminal stuck derives)).1
  · rintro rfl
    exact Or.inr ⟨terminal, [], Derives.refl _⟩

theorem satisfied_derives (grammar : Grammar) :
    grammar.Satisfied grammar.DerivesFirst grammar.DerivesFollow where
  terminal _ terminal _ := derivesFirst_terminal_iff terminal
  begins production member before symbol after split vanish name begins named := by
    have erased := derives_nil_of_derivesFirst vanish
    rcases begins with ⟨rfl, _⟩ | ⟨terminal, rest, derives⟩
    · exact absurd rfl named
    · have found := derives_cons_iff.2 ⟨before, symbol, after, split, erased, rest, derives⟩
      obtain ⟨rest, derives⟩ := found
      exact Or.inr ⟨terminal, rest, (derives_of_mem member).trans derives⟩
  vanishes production member vanish :=
    derivesFirst_epsilon_iff.2
      ((derives_of_mem member).trans (derives_nil_of_derivesFirst vanish))
  ends := Or.inl ⟨rfl, [], Derives.refl _⟩
  adjacent production member before previous symbol after split nonterminal name begins named := by
    rcases begins with ⟨rfl, _⟩ | ⟨terminal, found⟩
    · exact absurd rfl named
    · exact Or.inr ⟨terminal, production, member, before, previous, symbol, after, split,
        nonterminal, ⟨[], Derives.refl _⟩, found⟩
  trailing production member before symbol after split nonterminal later name follows := by
    have erased := derives_nil_of_derivesFirst fun other inside => (later other inside).2
    have last : grammar.Derives [production.symbol] (before ++ [symbol]) := by
      have body := derives_of_mem member
      rw [split] at body
      exact body.trans ((Derives.refl before).append ((Derives.refl [symbol]).append erased))
    have extend {top : String} (ends : ∃ prior, grammar.Derives [top] (prior ++ [production.symbol])) :
        ∃ prior, grammar.Derives [top] (prior ++ [symbol]) := by
      obtain ⟨prior, derives⟩ := ends
      refine ⟨prior ++ before, derives.trans ?_⟩
      rw [List.append_assoc]
      exact last.append_left prior
    rcases follows with ⟨rfl, ends⟩ | ⟨terminal, meets⟩
    · exact Or.inl ⟨rfl, extend ends⟩
    · obtain ⟨source, known, prior, left, right, rest, apart, inner, ends, begins⟩ := meets
      exact Or.inr ⟨terminal, source, known, prior, left, right, rest, apart, inner, extend ends,
        begins⟩

theorem Satisfied.vanish_of_derives (satisfied : grammar.Satisfied first follow)
    {source target : List String} (derives : grammar.Derives source target)
    (vanish : ∀ symbol ∈ target, first symbol epsilon) : ∀ symbol ∈ source, first symbol epsilon := by
  induction derives using Relation.ReflTransGen.head_induction_on with
  | refl => exact vanish
  | head step _ ih =>
    obtain ⟨production, member, before, after, rfl, rfl⟩ := rewrites_iff.1 step
    simp only [List.forall_mem_append, List.forall_mem_cons] at ih ⊢
    exact ⟨ih.1.1, satisfied.vanishes production member ih.1.2, ih.2⟩

theorem Satisfied.opens_of_derives (satisfied : grammar.Satisfied first follow)
    {source target : List String} (derives : grammar.Derives source target) {name : String}
    (named : name ≠ epsilon) (opens : Opens first epsilon target name) :
    Opens first epsilon source name := by
  induction derives using Relation.ReflTransGen.head_induction_on with
  | refl => exact opens
  | head step _ ih =>
    obtain ⟨production, member, before, after, rfl, rfl⟩ := rewrites_iff.1 step
    have begins (opens : Opens first epsilon production.derivation name) :=
      satisfied.opens member named opens
    have vanishes := satisfied.vanishes production member
    rw [List.append_assoc, opens_append, opens_append] at ih
    rw [opens_append, Opens]
    rcases ih with early | ⟨vanish, here | ⟨erased, late⟩⟩
    · exact Or.inl early
    · exact Or.inr ⟨vanish, Or.inl (begins here)⟩
    · exact Or.inr ⟨vanish, Or.inr ⟨vanishes erased, late⟩⟩

theorem Satisfied.includes_first (satisfied : grammar.Satisfied first follow)
    {symbol name : String} (derives : grammar.DerivesFirst symbol name) : first symbol name := by
  rcases derives with ⟨rfl, derives⟩ | ⟨terminal, rest, derives⟩
  · exact satisfied.vanish_of_derives derives (by simp) symbol (by simp)
  · have named := ne_epsilon_of_terminal terminal
    have itself := (satisfied.terminal name terminal name).2 rfl
    simpa [Opens] using satisfied.opens_of_derives derives named (Or.inl itself)

def ClosesRule (grammar : Grammar) (first : String → String → Prop) (top symbol : String) : Prop :=
  ∃ production ∈ grammar.productions, production.symbol = top ∧
    Closes (fun other => grammar.isNonterminal other = true) first epsilon production.derivation
      symbol

-- A derivation that ends with a nonterminal starts with a list that a nonterminal closes, from
-- which rule after rule is closed down to the last one.
theorem Satisfied.chain_of_derives (satisfied : grammar.Satisfied first follow)
    {source prior : List String} {symbol : String}
    (derives : grammar.Derives source (prior ++ [symbol]))
    (nonterminal : grammar.isNonterminal symbol = true) :
    ∃ closing, Closes (fun other => grammar.isNonterminal other = true) first epsilon source closing ∧
      Relation.ReflTransGen (grammar.ClosesRule first) closing symbol := by
  induction derives using Relation.ReflTransGen.head_induction_on with
  | refl => exact ⟨symbol, ⟨prior, [], rfl, nonterminal, by simp⟩, Relation.ReflTransGen.refl⟩
  | head step _ ih =>
    obtain ⟨closing, closes, chain⟩ := ih
    obtain ⟨production, member, before, after, rfl, rfl⟩ := rewrites_iff.1 step
    have left := isNonterminal_symbol member
    rw [List.append_assoc, closes_append, closes_append, List.forall_mem_append] at closes
    rcases closes with (late | ⟨erased, inner⟩) | ⟨⟨vanish, erased⟩, early⟩
    · exact ⟨closing, closes_append.2 (Or.inl (closes_cons.2 (Or.inr late))), chain⟩
    · have link : grammar.ClosesRule first production.symbol closing :=
        ⟨production, member, rfl, inner⟩
      exact ⟨production.symbol,
        closes_append.2 (Or.inl (closes_cons.2 (Or.inl ⟨rfl, left, erased⟩))), chain.head link⟩
    · have gone := satisfied.vanishes production member fun other inside => (vanish other inside).2
      refine ⟨closing, closes_append.2 (Or.inr ⟨?_, early⟩), chain⟩
      exact List.forall_mem_cons.2 ⟨⟨left, gone⟩, erased⟩

theorem Satisfied.follow_of_chain (satisfied : grammar.Satisfied first follow) {top symbol : String}
    (chain : Relation.ReflTransGen (grammar.ClosesRule first) top symbol) {name : String}
    (follows : follow top name) : follow symbol name := by
  induction chain with
  | refl => exact follows
  | tail _ link ih =>
    obtain ⟨production, member, rfl, closes⟩ := link
    exact satisfied.closes member closes ih

theorem Satisfied.chain_from_symbol (satisfied : grammar.Satisfied first follow)
    {top symbol : String} {prior : List String}
    (derives : grammar.Derives [top] (prior ++ [symbol]))
    (nonterminal : grammar.isNonterminal symbol = true) :
    Relation.ReflTransGen (grammar.ClosesRule first) top symbol := by
  obtain ⟨closing, closes, chain⟩ := satisfied.chain_of_derives derives nonterminal
  rcases closes_cons.1 closes with ⟨rfl, _⟩ | nothing
  · exact chain
  · exact absurd nothing closes_nil

theorem Satisfied.follow_of_derives (satisfied : grammar.Satisfied first follow)
    {top symbol : String} {prior : List String}
    (derives : grammar.Derives [top] (prior ++ [symbol]))
    (nonterminal : grammar.isNonterminal symbol = true) {name : String}
    (follows : follow top name) : follow symbol name :=
  satisfied.follow_of_chain (satisfied.chain_from_symbol derives nonterminal) follows

theorem Satisfied.includes_follow (satisfied : grammar.Satisfied first follow)
    {symbol name : String} (nonterminal : grammar.isNonterminal symbol = true)
    (derives : grammar.DerivesFollow symbol name) : follow symbol name := by
  rcases derives with ⟨rfl, prior, derives⟩ | ⟨terminal, production, member, before, left, right,
    after, split, inner, ⟨prior, derives⟩, begins⟩
  · exact satisfied.follow_of_derives derives nonterminal satisfied.ends
  · have first := satisfied.includes_first (Or.inr ⟨terminal, begins⟩)
    have named := ne_epsilon_of_terminal terminal
    exact satisfied.follow_of_derives derives nonterminal
      (satisfied.adjacent production member before left right after split inner name first named)

theorem inFirst_tables_iff (grammar : Grammar) (symbol name : String) :
    grammar.tables.InFirst symbol name ↔ grammar.DerivesFirst symbol name :=
  ⟨(tables_within grammar.satisfied_derives).1 symbol name,
    grammar.satisfied_tables.includes_first⟩

theorem inFollow_tables_iff {symbol : String}
    (nonterminal : grammar.isNonterminal symbol = true) (name : String) :
    grammar.tables.InFollow symbol name ↔ grammar.DerivesFollow symbol name :=
  ⟨(tables_within grammar.satisfied_derives).2 symbol name,
    grammar.satisfied_tables.includes_follow nonterminal⟩

end Lookahead.Grammar
