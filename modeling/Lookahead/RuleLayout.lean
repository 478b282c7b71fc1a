import Lookahead.RuleText

set_option autoImplicit false

namespace Lookahead.RuleText

def arrows : List (List Char) := [['-', '>'], ['→']]

def ArrowFree (text : List Char) : Prop := ∀ arrow ∈ arrows, ¬arrow <:+: text

structure IsToken (token : String) : Prop where
  named : isSymbolName token = true
  whole : ';' ∉ token.toList
  unbarred : ∀ c ∈ token.toList, isBar c = false
  unmarked : ∀ c ∈ token.toList, isEpsilonMark c = false

theorem isToken_iff {token : String} :
    IsToken token ↔ isSymbolName token = true ∧ ';' ∉ token.toList ∧
      (∀ c ∈ token.toList, isBar c = false) ∧ ∀ c ∈ token.toList, isEpsilonMark c = false :=
  ⟨fun ⟨named, whole, unbarred, unmarked⟩ => ⟨named, whole, unbarred, unmarked⟩,
    fun ⟨named, whole, unbarred, unmarked⟩ => ⟨named, whole, unbarred, unmarked⟩⟩

instance : DecidablePred IsToken := fun token =>
  decidable_of_iff (isSymbolName token = true ∧ ';' ∉ token.toList ∧
    token.toList.all (!isBar ·) = true ∧ token.toList.all (!isEpsilonMark ·) = true)
    (by simp [isToken_iff])

structure Rule where
  symbol : String
  alternatives : List (List String)
  named : isSymbolName symbol = true
  whole : ';' ∉ symbol.toList
  arrowless : ArrowFree symbol.toList
  nonempty : alternatives ≠ []
  tokens : ∀ alternative ∈ alternatives, ∀ token ∈ alternative, IsToken token

def Rule.productions (rule : Rule) : List Production :=
  rule.alternatives.map (Production.mk rule.symbol)

def Gap (text : List Char) : Prop := Text.Blanks text ∧ '\n' ∉ text

instance : DecidablePred Gap := fun text =>
  decidable_of_iff (text.all Text.isBlank = true ∧ '\n' ∉ text) (by simp [Gap, Text.Blanks])

def Break (text : List Char) : Prop := ∀ c ∈ text, Text.isBlank c = true ∨ c = ';'

instance : DecidablePred Break := fun text =>
  decidable_of_iff ((text.all fun c => Text.isBlank c || c == ';') = true) (by simp [Break])

structure Separates (text : List Char) : Prop where
  breaks : Break text
  ends : ∃ c ∈ text, isSeparator c = true

instance : DecidablePred Separates := fun text =>
  decidable_of_iff (Break text ∧ text.any isSeparator = true)
    ⟨fun ⟨breaks, ends⟩ => ⟨breaks, List.any_eq_true.1 ends⟩,
      fun ⟨breaks, ends⟩ => ⟨breaks, List.any_eq_true.2 ends⟩⟩

inductive WritesTokens : List String → List Char → Prop where
  | nil {gap : List Char} (blank : Gap gap) : WritesTokens [] gap
  | last {before after : List Char} (token : String) (leading : Gap before) (trailing : Gap after) :
      WritesTokens [token] (before ++ token.toList ++ after)
  | more {before between text : List Char} {tokens : List String} (token : String)
      (leading : Gap before) (apart : Gap between) (nonempty : between ≠ [])
      (rest : WritesTokens tokens text) :
      WritesTokens (token :: tokens) (before ++ token.toList ++ between ++ text)

inductive WritesAlternatives : List (List String) → List Char → Prop where
  | last {tokens : List String} {text : List Char} (written : WritesTokens tokens text) :
      WritesAlternatives [tokens] text
  | more {tokens : List String} {alternatives : List (List String)} {text others : List Char}
      {bar : Char} (written : WritesTokens tokens text) (bars : isBar bar = true)
      (rest : WritesAlternatives alternatives others) :
      WritesAlternatives (tokens :: alternatives) (text ++ bar :: others)

/-- The second text is the first with epsilon marks put in, any number of them and anywhere. -/
inductive Marked : List Char → List Char → Prop where
  | nil : Marked [] []
  | keep {text marked : List Char} (c : Char) (rest : Marked text marked) :
      Marked (c :: text) (c :: marked)
  | mark {text marked : List Char} {c : Char} (mark : isEpsilonMark c = true)
      (rest : Marked text marked) : Marked text (c :: marked)

inductive Rule.Writes (rule : Rule) : List Char → Prop where
  | rule {before between arrow plain right : List Char} (leading : Gap before) (apart : Gap between)
      (arrow_mem : arrow ∈ arrows) (alternatives : WritesAlternatives rule.alternatives plain)
      (marked : Marked plain right) :
      rule.Writes (before ++ rule.symbol.toList ++ between ++ arrow ++ right)

inductive WritesRules : List Rule → List Char → Prop where
  | last {rule : Rule} {text after : List Char} (written : rule.Writes text)
      (trailing : Break after) : WritesRules [rule] (text ++ after)
  | more {rule : Rule} {rules : List Rule} {text between others : List Char}
      (written : rule.Writes text) (apart : Break between)
      (ends : ∃ c ∈ between, isSeparator c = true) (rest : WritesRules rules others) :
      WritesRules (rule :: rules) (text ++ between ++ others)

def LaysOut (rules : List Rule) (text : String) : Prop :=
  ∃ before body, text.toList = before ++ body ∧ Break before ∧ WritesRules rules body

end Lookahead.RuleText
