import Lookahead.Proofs.Lines

set_option autoImplicit false

namespace Lookahead

theorem isSymbolName_iff {name : String} :
    isSymbolName name = true ↔
      name.toList ≠ [] ∧ ∀ c ∈ name.toList, Text.isBlank c = false := by
  simp [isSymbolName]

theorem isSymbolName_ofList {letters : List Char} :
    isSymbolName (String.ofList letters) = true ↔
      letters ≠ [] ∧ ∀ c ∈ letters, Text.isBlank c = false := by
  rw [isSymbolName_iff, String.toList_ofList]

namespace Grammar

theorem ofProductions_of_named {given : List Production} (nonempty : given ≠ [])
    (named : ∀ production ∈ given, isSymbolName production.symbol = true) :
    ∃ grammar, ofProductions given = .ok grammar ∧
      grammar.productions = given.map Production.withoutEpsilon := by
  unfold ofProductions
  split
  next bad found =>
    have fault := List.find?_some found
    rw [named bad (List.mem_of_find?_eq_some found)] at fault
    cases fault
  next =>
    rw [dif_neg nonempty]
    exact ⟨_, rfl, rfl⟩

theorem ofProductions_of_plain {given : List Production} (nonempty : given ≠ [])
    (named : ∀ production ∈ given, isSymbolName production.symbol = true)
    (plain : ∀ production ∈ given, production.withoutEpsilon = production) :
    ∃ grammar, ofProductions given = .ok grammar ∧ grammar.productions = given := by
  obtain ⟨grammar, made, productions⟩ := ofProductions_of_named nonempty named
  exact ⟨grammar, made, by simp [productions, List.map_congr_left plain]⟩

end Grammar

namespace RuleText

variable {line left right arrow : List Char} {lines : List (List Char)}

def IsRule (line : List Char) : Prop :=
  ∃ left arrow right, line = left ++ arrow ++ right ∧ arrow ∈ arrows ∧ ArrowFree left ∧
    Text.trim left ≠ [] ∧ ∀ c ∈ Text.trim left, Text.isBlank c = false

theorem readLine?_eq_some_iff {productions : List Production} :
    readLine? line = some productions ↔
      ∃ left right, splitArrow? line = some (left, right) ∧
        isSymbolName (String.ofList (Text.trim left)) = true ∧
        (derivations right).map (Production.mk (String.ofList (Text.trim left))) = productions := by
  cases split : splitArrow? line with
  | none => simp [readLine?, split]
  | some sides =>
    obtain ⟨left, right⟩ := sides
    simp [readLine?, split, and_assoc]

theorem isRule_iff : IsRule line ↔ ∃ productions, readLine? line = some productions := by
  simp only [readLine?_eq_some_iff, splitArrow?_eq_some_iff]
  constructor
  · rintro ⟨left, arrow, right, split, member, free, named⟩
    exact ⟨_, left, right, ⟨arrow, member, split, free⟩, isSymbolName_ofList.2 named, rfl⟩
  · rintro ⟨productions, left, right, ⟨arrow, member, split, free⟩, named, _⟩
    exact ⟨left, arrow, right, split, member, free, isSymbolName_ofList.1 named⟩

theorem readLine?_eq_none_iff : readLine? line = none ↔ ¬IsRule line := by
  rw [isRule_iff, ← Option.isSome_iff_exists, Option.not_isSome_iff_eq_none]

theorem derivations_ne_nil (right : List Char) : derivations right ≠ [] := by
  simp [derivations, List.splitOnP_ne_nil]

theorem named_of_readLine? {productions : List Production}
    (read : readLine? line = some productions) :
    productions ≠ [] ∧ ∀ production ∈ productions, isSymbolName production.symbol = true := by
  obtain ⟨left, right, _, named, rfl⟩ := readLine?_eq_some_iff.1 read
  refine ⟨by simpa using derivations_ne_nil right, fun production member => ?_⟩
  obtain ⟨derivation, _, rfl⟩ := List.mem_map.1 member
  exact named

theorem fault_readLines_eq_none_iff :
    (readLines lines).fault = none ↔ ∀ line ∈ lines, IsRule line := by
  induction lines with
  | nil => simp [readLines]
  | cons line rest ih =>
    rw [List.forall_mem_cons, ← ih, readLines]
    split
    next bad => simp [readLine?_eq_none_iff.1 bad]
    next productions read => simp [isRule_iff.2 ⟨productions, read⟩]

theorem fault_readLines_eq_some_iff {fault : String} :
    (readLines lines).fault = some fault ↔
      ∃ before line after, lines = before ++ line :: after ∧
        (∀ earlier ∈ before, IsRule earlier) ∧ ¬IsRule line ∧ fault = String.ofList line := by
  induction lines with
  | nil => simp [readLines]
  | cons head rest ih =>
    rw [readLines]
    constructor
    · split
      next bad =>
        rintro ⟨⟩
        exact ⟨[], head, rest, rfl, by simp, readLine?_eq_none_iff.1 bad, rfl⟩
      next productions read =>
        intro later
        obtain ⟨before, line, after, rfl, rules, bad, same⟩ := ih.1 later
        have rule := isRule_iff.2 ⟨productions, read⟩
        exact ⟨head :: before, line, after, rfl, List.forall_mem_cons.2 ⟨rule, rules⟩, bad, same⟩
    · rintro ⟨before, line, after, split, rules, bad, rfl⟩
      cases before with
      | nil =>
        obtain ⟨rfl, rfl⟩ := List.cons.inj split
        rw [readLine?_eq_none_iff.2 bad]
      | cons _ before =>
        obtain ⟨rfl, rfl⟩ := List.cons.inj split
        rw [List.forall_mem_cons] at rules
        obtain ⟨productions, read⟩ := isRule_iff.1 rules.1
        rw [read]
        exact ih.2 ⟨before, line, after, rfl, rules.2, bad, rfl⟩

theorem named_readLines :
    ∀ production ∈ (readLines lines).productions, isSymbolName production.symbol = true := by
  induction lines with
  | nil => simp [readLines]
  | cons line rest ih =>
    rw [readLines]
    split
    next => simp
    next productions read =>
      exact List.forall_mem_append.2 ⟨(named_of_readLine? read).2, ih⟩

theorem productions_readLines_ne_nil (nonempty : lines ≠ [])
    (sound : (readLines lines).fault = none) :
    (readLines lines).productions ≠ [] := by
  cases lines with
  | nil => exact absurd rfl nonempty
  | cons line rest =>
    rw [readLines] at sound ⊢
    split
    next bad => simp [bad] at sound
    next productions read => simp [(named_of_readLine? read).1]

end RuleText

namespace Grammar

open RuleText

theorem parse_of_fault {text : String} {fault : String} (bad : (read text).fault = some fault) :
    parse text = .error (.invalidRule fault) := by
  rw [parse, Reading.grammar, bad]

theorem parse_of_sound {text : String} (sound : (read text).fault = none) :
    (lines text.toList = [] ∧ parse text = .error .emptyGrammar) ∨
      lines text.toList ≠ [] ∧ ∃ grammar, parse text = .ok grammar ∧
        grammar.productions = (read text).productions.map Production.withoutEpsilon := by
  have same : parse text = ofProductions (read text).productions := by
    rw [parse, Reading.grammar, sound]
  rw [same]
  by_cases empty : lines text.toList = []
  next =>
    refine Or.inl ⟨empty, ?_⟩
    rw [RuleText.read, empty]
    rfl
  next =>
    have nonempty := productions_readLines_ne_nil empty sound
    exact Or.inr ⟨empty, ofProductions_of_named nonempty named_readLines⟩

theorem parse_eq_ok_iff (text : String) :
    (∃ grammar, parse text = .ok grammar) ↔
      lines text.toList ≠ [] ∧ (RuleText.read text).fault = none := by
  cases fault : (RuleText.read text).fault with
  | some rule => simp [parse_of_fault fault]
  | none =>
    rcases parse_of_sound fault with ⟨empty, refused⟩ | ⟨nonempty, grammar, parsed, _⟩
    · simp [empty, refused]
    · simp [nonempty, parsed]

theorem parse_eq_emptyGrammar_iff (text : String) :
    parse text = .error .emptyGrammar ↔ lines text.toList = [] := by
  cases fault : (RuleText.read text).fault with
  | some rule =>
    obtain ⟨before, line, after, split, _⟩ := fault_readLines_eq_some_iff.1 fault
    simp [parse_of_fault fault, split]
  | none =>
    rcases parse_of_sound fault with ⟨empty, refused⟩ | ⟨nonempty, grammar, parsed, _⟩
    · simp [empty, refused]
    · simp [nonempty, parsed]

theorem parse_eq_invalidRule_iff (text rule : String) :
    parse text = .error (.invalidRule rule) ↔ (RuleText.read text).fault = some rule := by
  cases fault : (RuleText.read text).fault with
  | some rule => simp [parse_of_fault fault]
  | none =>
    rcases parse_of_sound fault with ⟨empty, refused⟩ | ⟨nonempty, grammar, parsed, _⟩
    · simp [refused]
    · simp [parsed]

theorem parse_rule_alone {text rule : String} (bad : parse text = .error (.invalidRule rule)) :
    parse rule = .error (.invalidRule rule) := by
  rw [parse_eq_invalidRule_iff] at bad ⊢
  obtain ⟨before, line, after, split, _, other, rfl⟩ := fault_readLines_eq_some_iff.1 bad
  have alone : lines (String.ofList line).toList = [line] := by
    rw [String.toList_ofList]
    exact lines_of_mem (show line ∈ lines text.toList by simp [split])
  exact fault_readLines_eq_some_iff.2 ⟨[], line, [], alone, by simp, other, rfl⟩

theorem parse_outcome (text : String) :
    ((∃ grammar, parse text = .ok grammar) ↔
      lines text.toList ≠ [] ∧ ∀ line ∈ lines text.toList, IsRule line) ∧
    (parse text = .error .emptyGrammar ↔ lines text.toList = []) ∧
    (∀ rule, parse text = .error (.invalidRule rule) ↔
      ∃ before line after, lines text.toList = before ++ line :: after ∧
        (∀ earlier ∈ before, IsRule earlier) ∧ ¬IsRule line ∧ rule = String.ofList line) ∧
    (∀ rule, parse text = .error (.invalidRule rule) →
      parse rule = .error (.invalidRule rule)) ∧
    ∀ rule, ofProductions (RuleText.read text).productions ≠ .error (.invalidRule rule) := by
  refine ⟨?_, parse_eq_emptyGrammar_iff text, fun rule => ?_, fun rule => parse_rule_alone, ?_⟩
  · rw [parse_eq_ok_iff, RuleText.read, fault_readLines_eq_none_iff]
  · rw [parse_eq_invalidRule_iff, RuleText.read, fault_readLines_eq_some_iff]
  · intro rule
    by_cases empty : (RuleText.read text).productions = []
    next =>
      rw [empty]
      exact fun bad => nomatch bad
    next =>
      obtain ⟨grammar, made, _⟩ := ofProductions_of_named empty named_readLines
      simp [made]

theorem parse_outcome_headless :
    parse "A -> a\n  -> b ;; C" = .error (.invalidRule "-> b") ∧
      parse "-> b" = .error (.invalidRule "-> b") := by
  have bad : parse "A -> a\n  -> b ;; C" = .error (.invalidRule "-> b") := by
    rfl
  exact ⟨bad, (parse_outcome _).2.2.2.1 _ bad⟩

end Grammar

end Lookahead
