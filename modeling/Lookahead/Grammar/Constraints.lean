import Lookahead.Grammar.Numbering

set_option autoImplicit false

namespace Lookahead.Grammar

structure Satisfied (grammar : Grammar) (first follow : String → String → Prop) : Prop where
  terminal : ∀ symbol, grammar.kind symbol = .terminal → ∀ name, first symbol name ↔ name = symbol
  begins : ∀ production ∈ grammar.productions, ∀ before symbol after,
    production.derivation = before ++ symbol :: after →
    (∀ earlier ∈ before, first earlier epsilon) →
    ∀ name, first symbol name → name ≠ epsilon → first production.symbol name
  vanishes : ∀ production ∈ grammar.productions,
    (∀ symbol ∈ production.derivation, first symbol epsilon) → first production.symbol epsilon
  ends : follow grammar.start endMarker
  adjacent : ∀ production ∈ grammar.productions, ∀ before previous symbol after,
    production.derivation = before ++ previous :: symbol :: after →
    grammar.isNonterminal previous = true →
    ∀ name, first symbol name → name ≠ epsilon → follow previous name
  trailing : ∀ production ∈ grammar.productions, ∀ before symbol after,
    production.derivation = before ++ symbol :: after →
    grammar.isNonterminal symbol = true →
    (∀ later ∈ after, grammar.isNonterminal later = true ∧ first later epsilon) →
    ∀ name, follow production.symbol name → follow symbol name

end Lookahead.Grammar
