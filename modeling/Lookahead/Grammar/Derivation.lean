import Lookahead.Grammar.Basic
import Mathlib.Logic.Relation

set_option autoImplicit false

namespace Lookahead.Grammar

inductive Rewrites (grammar : Grammar) : List String → List String → Prop where
  | replace (before after : List String) {production : Production}
      (member : production ∈ grammar.productions) :
      Rewrites grammar (before ++ production.symbol :: after)
        (before ++ production.derivation ++ after)

def Derives (grammar : Grammar) : List String → List String → Prop :=
  Relation.ReflTransGen grammar.Rewrites

variable {grammar : Grammar}

theorem Rewrites.append_left {source target : List String}
    (rewrites : grammar.Rewrites source target) (before : List String) :
    grammar.Rewrites (before ++ source) (before ++ target) := by
  cases rewrites with
  | replace inner after member =>
    simpa using Rewrites.replace (before ++ inner) after member

theorem Rewrites.append_right {source target : List String}
    (rewrites : grammar.Rewrites source target) (after : List String) :
    grammar.Rewrites (source ++ after) (target ++ after) := by
  cases rewrites with
  | replace before inner member =>
    simpa using Rewrites.replace before (inner ++ after) member

theorem Derives.refl (symbols : List String) : grammar.Derives symbols symbols :=
  Relation.ReflTransGen.refl

theorem Derives.trans {a b c : List String} (first : grammar.Derives a b)
    (second : grammar.Derives b c) : grammar.Derives a c :=
  Relation.ReflTransGen.trans first second

theorem derives_of_mem {production : Production} (member : production ∈ grammar.productions) :
    grammar.Derives [production.symbol] production.derivation :=
  Relation.ReflTransGen.single (by simpa using Rewrites.replace [] [] member)

theorem Derives.append_left {a b : List String} (derives : grammar.Derives a b)
    (before : List String) : grammar.Derives (before ++ a) (before ++ b) := by
  induction derives with
  | refl => exact Derives.refl _
  | tail _ step ih => exact Relation.ReflTransGen.tail ih (step.append_left before)

theorem Derives.append_right {a b : List String} (derives : grammar.Derives a b)
    (after : List String) : grammar.Derives (a ++ after) (b ++ after) := by
  induction derives with
  | refl => exact Derives.refl _
  | tail _ step ih => exact Relation.ReflTransGen.tail ih (step.append_right after)

theorem Derives.append {a b c d : List String} (left : grammar.Derives a b)
    (right : grammar.Derives c d) : grammar.Derives (a ++ c) (b ++ d) :=
  (left.append_right c).trans (right.append_left b)

end Lookahead.Grammar
