import Lookahead.Proofs.Contents
import Lookahead.Proofs.EpsilonMarks

set_option autoImplicit false

namespace Lookahead

section

variable {α : Type} (mark : α → Bool)

theorem exists_first_piece (text : List α) :
    ∃ first others, text.splitOnP mark = first :: others ∧ first <+: text := by
  induction text with
  | nil => exact ⟨[], [], by simp, List.prefix_rfl⟩
  | cons x rest ih =>
    obtain ⟨first, others, cut, begins⟩ := ih
    by_cases here : mark x = true
    next =>
      exact ⟨[], first :: others, by simp [List.splitOnP_cons_eq_if_modifyHead, here, cut],
        List.nil_prefix⟩
    next =>
      exact ⟨x :: first, others, by simp [List.splitOnP_cons_eq_if_modifyHead, here, cut],
        List.cons_prefix_cons.2 ⟨rfl, begins⟩⟩

-- Where two lists meet, the last piece of the one and the first of the other are one piece.
theorem splitOnP_append (left right : List α) :
    ∃ pieces last first others,
      left.splitOnP mark = pieces ++ [last] ∧ right.splitOnP mark = first :: others ∧
      (left ++ right).splitOnP mark = pieces ++ (last ++ first) :: others ∧
      last <:+ left ∧ first <+: right := by
  suffices joined : ∃ pieces last first others,
      left.splitOnP mark = pieces ++ [last] ∧ right.splitOnP mark = first :: others ∧
      (left ++ right).splitOnP mark = pieces ++ (last ++ first) :: others ∧
      (pieces = [] → last = left) ∧ last <:+ left ∧ first <+: right by
    obtain ⟨pieces, last, first, others, front, back, joined, _, ends, begins⟩ := joined
    exact ⟨pieces, last, first, others, front, back, joined, ends, begins⟩
  induction left with
  | nil =>
    obtain ⟨first, others, cut, begins⟩ := exists_first_piece mark right
    exact ⟨[], [], first, others, by simp, cut, cut, fun _ => rfl, List.suffix_rfl, begins⟩
  | cons x rest ih =>
    obtain ⟨pieces, last, first, others, front, back, joined, single, ends, begins⟩ := ih
    have later := ends.trans (List.suffix_cons x rest)
    by_cases here : mark x = true
    next =>
      refine ⟨[] :: pieces, last, first, others, ?_, back, ?_, by simp, later, begins⟩
      · simp [List.splitOnP_cons_eq_if_modifyHead, here, front]
      · simp [List.splitOnP_cons_eq_if_modifyHead, here, joined]
    next =>
      cases pieces with
      | nil =>
        have whole : x :: last = x :: rest := by rw [single rfl]
        refine ⟨[], x :: last, first, others, ?_, back, ?_, fun _ => whole, ?_, begins⟩
        · simp [List.splitOnP_cons_eq_if_modifyHead, here, front]
        · simp [List.splitOnP_cons_eq_if_modifyHead, here, joined]
        · exact whole ▸ List.suffix_rfl
      | cons piece pieces =>
        refine ⟨(x :: piece) :: pieces, last, first, others, ?_, back, ?_, by simp, later, begins⟩
        · simp [List.splitOnP_cons_eq_if_modifyHead, here, front]
        · simp [List.splitOnP_cons_eq_if_modifyHead, here, joined]

end

namespace Text

variable {before field after : List Char}

theorem fields_append_of_opens (opens : ∀ c ∈ before.getLast?, isBlank c = true)
    (text : List Char) : fields (before ++ text) = fields before ++ fields text := by
  rcases List.eq_nil_or_concat before with rfl | ⟨front, c, rfl⟩
  · simp
  · have blank : isBlank c = true := opens c (by simp)
    have whole := fields_append_cons blank front text
    have alone := fields_append_cons blank front []
    simp only [fields_nil, List.append_nil] at alone
    simpa [alone] using whole

theorem fields_append_of_closes (closes : ∀ c ∈ after.head?, isBlank c = true)
    (text : List Char) : fields (text ++ after) = fields text ++ fields after := by
  cases after with
  | nil => simp
  | cons c rest =>
    have blank : isBlank c = true := closes c (by simp)
    have alone := fields_append_cons blank [] rest
    simp only [fields_nil, List.nil_append] at alone
    rw [fields_append_cons blank, alone]

end Text

namespace RuleText

variable {line before after : List Char} {token symbol : String}

theorem stands_of_checked
    (checked : token ≠ "" ∧ token.toList.any endsToken = false ∧
      before.getLast?.all endsToken = true ∧ after.head?.all endsToken = true) :
    Stands before token after := by
  obtain ⟨nonempty, inside, opens, closes⟩ := checked
  constructor
  · exact nonempty
  · simpa using inside
  · intro c last
    simpa [Option.mem_def.1 last] using opens
  · intro c first
    simpa [Option.mem_def.1 first] using closes

-- A piece that ends where the text before it ends can only end in a blank: it has no bars in it.
theorem blank_of_getLast? {text piece : List Char} {c : Char}
    (opens : ∀ c ∈ text.getLast?, endsToken c = true) (cut : piece ∈ text.splitOnP isBar)
    (ends : piece <:+ text) (last : c ∈ piece.getLast?) : Text.isBlank c = true := by
  obtain ⟨front, rfl⟩ := ends
  have ending := opens c (by simp [List.getLast?_append, Option.mem_def.1 last])
  have unbarred := (Text.of_mem_splitOnP cut (List.mem_of_getLast? last)).2
  simpa [endsToken, unbarred] using ending

theorem blank_of_head? {text piece : List Char} {c : Char}
    (closes : ∀ c ∈ text.head?, endsToken c = true) (cut : piece ∈ text.splitOnP isBar)
    (begins : piece <+: text) (first : c ∈ piece.head?) : Text.isBlank c = true := by
  obtain ⟨rest, rfl⟩ := begins
  have beginning := closes c (by simp [List.head?_append, Option.mem_def.1 first])
  have unbarred := (Text.of_mem_splitOnP cut (List.mem_of_mem_head? first)).2
  simpa [endsToken, unbarred] using beginning

theorem rawAlternatives_around (stands : Stands before token after) :
    ∃ alternatives head tail others,
      rawAlternatives before = alternatives ++ [head] ∧ rawAlternatives after = tail :: others ∧
      rawAlternatives (before ++ token.toList ++ after) =
        alternatives ++ (head ++ token :: tail) :: others := by
  have plain : ∀ c ∈ token.toList, Text.isBlank c = false ∧ isBar c = false := by
    simpa [endsToken] using stands.inside
  have nonempty : token.toList ≠ [] := by simpa using stands.nonempty
  have alone : token.toList.splitOnP isBar = [token.toList] :=
    List.splitOnP_eq_singleton fun c inside => (plain c inside).2
  obtain ⟨pieces, last, middle, later, front, single, joined, ends, _⟩ :=
    splitOnP_append isBar before token.toList
  obtain ⟨others, ending, first, rest, whole, back, all, _, begins⟩ :=
    splitOnP_append isBar (before ++ token.toList) after
  rw [alone, List.cons.injEq] at single
  obtain ⟨rfl, rfl⟩ := single
  rw [joined] at whole
  obtain ⟨rfl, same⟩ := List.append_inj' whole rfl
  obtain ⟨rfl, _⟩ := List.cons.inj same
  have opens (c : Char) (back : c ∈ last.getLast?) : Text.isBlank c = true :=
    blank_of_getLast? stands.opens (by simp [front]) ends back
  have closes (c : Char) (start : c ∈ first.head?) : Text.isBlank c = true :=
    blank_of_head? stands.closes (by simp [back]) begins start
  have fields : Text.fields (last ++ token.toList ++ first) =
      Text.fields last ++ token.toList :: Text.fields first := by
    rw [Text.fields_append_of_closes closes, Text.fields_append_of_opens opens,
      Text.fields_of_plain nonempty fun c inside => (plain c inside).1]
    simp
  simp only [rawAlternatives, front, back, all, List.map_append, List.map_cons, fields,
    String.ofList_toList]
  exact ⟨_, _, _, _, rfl, rfl, rfl⟩

end RuleText

theorem unmarkedSymbols_append (first later : List String) :
    unmarkedSymbols (first ++ later) = unmarkedSymbols first ++ unmarkedSymbols later := by
  simp [unmarkedSymbols]

theorem unmarkedSymbols_cons {name : String} (letters : isEpsilonName name = false)
    (symbols : List String) :
    unmarkedSymbols (name :: symbols) = unmarkedName name :: unmarkedSymbols symbols := by
  have kept : unmarkedName name ≠ "" := by simp [unmarkedName_eq_empty_iff, letters]
  simp [unmarkedSymbols, kept]

namespace Grammar

open RuleText

variable {grammar : Grammar} {text name : String}

theorem isNonterminal_of_cuts (parsed : parse text = .ok grammar)
    (leftSide : ∃ line ∈ lines text.toList, ∃ right, Cuts line name right) :
    grammar.isNonterminal name = true := by
  obtain ⟨line, listed, right, cut⟩ := leftSide
  obtain ⟨first, _, pieces, _⟩ := exists_first_piece isBar right
  have written : Production.mk name ((Text.fields first).map String.ofList) ∈ raw text := by
    refine List.mem_flatMap.2 ⟨line, listed, ?_⟩
    simp [rawLine_of_cuts cut, rawAlternatives, pieces]
  rw [isNonterminal_iff, productions_eq_raw parsed]
  exact ⟨_, List.mem_map_of_mem written, rfl⟩

theorem productions_around (parsed : parse text = .ok grammar)
    (letters : isEpsilonName name = false) (token : Occurrence text name) :
    ∃ alternatives head tail others,
      rawAlternatives token.before = alternatives ++ [head] ∧
      rawAlternatives token.after = tail :: others ∧
      grammar.productions =
        (token.earlier.flatMap rawLine).map Production.unmarked ++
        (alternatives.map unmarkedSymbols ++
          (unmarkedSymbols head ++ unmarkedName name :: unmarkedSymbols tail) ::
            others.map unmarkedSymbols).map (Production.mk token.symbol) ++
        (token.later.flatMap rawLine).map Production.unmarked := by
  obtain ⟨alternatives, head, tail, others, front, back, whole⟩ :=
    rawAlternatives_around token.stands
  refine ⟨alternatives, head, tail, others, front, back, ?_⟩
  have line := rawLine_of_cuts token.cut
  rw [whole] at line
  rw [productions_eq_raw parsed, raw, token.split]
  simp [line, Production.unmarked, Function.comp_def, unmarkedSymbols_append,
    unmarkedSymbols_cons letters]

/-- A token that is spelled like a left side of the text is read, in its place, as that name without
its epsilon marks. That is the nonterminal itself if the name has no marks. -/
theorem symbol_of_token (parsed : parse text = .ok grammar)
    (leftSide : ∃ line ∈ lines text.toList, ∃ right, Cuts line name right)
    (letters : isEpsilonName name = false) (token : Occurrence text name) :
    (∃ alternatives head tail others,
      rawAlternatives token.before = alternatives ++ [head] ∧
      rawAlternatives token.after = tail :: others ∧
      grammar.productions =
        (token.earlier.flatMap rawLine).map Production.unmarked ++
        (alternatives.map unmarkedSymbols ++
          (unmarkedSymbols head ++ unmarkedName name :: unmarkedSymbols tail) ::
            others.map unmarkedSymbols).map (Production.mk token.symbol) ++
        (token.later.flatMap rawLine).map Production.unmarked) ∧
    (unmarkedName name = name ↔ ∀ c ∈ name.toList, isEpsilonMark c = false) ∧
    grammar.isNonterminal name = true ∧
    (grammar.tables.firstOf? name).isSome = true ∧
    (grammar.tables.followOf? name).isSome = true := by
  have nonterminal := isNonterminal_of_cuts parsed leftSide
  have entries := grammar.isSome_tables_iff name
  rw [occurs_of_isNonterminal nonterminal] at entries
  exact ⟨productions_around parsed letters token, unmarkedName_eq_self_iff, nonterminal, entries⟩

def dashedToken : Occurrence "A- -> x\nB → ε y A-|A- z" "A-" where
  earlier := ["A- -> x".toList]
  line := "B → ε y A-|A- z".toList
  later := []
  symbol := "B"
  before := " ε y ".toList
  after := "|A- z".toList
  split := by decide +kernel
  cut := ⟨"B ".toList, ['→'], by simp [arrows], rfl,
    by simp [ArrowFree, arrows, List.infix_cons_iff], rfl⟩
  stands := stands_of_checked (by decide +kernel)

theorem symbol_of_token_dashed :
    ∃ grammar, parse "A- -> x\nB → ε y A-|A- z" = .ok grammar ∧
      (∃ line ∈ lines "A- -> x\nB → ε y A-|A- z".toList, ∃ right, Cuts line "A-" right) ∧
      isEpsilonName "A-" = false ∧ unmarkedName "A-" = "A-" ∧
      rawAlternatives dashedToken.before = [["ε", "y"]] ∧
      grammar.productions = [⟨"A-", ["x"]⟩, ⟨"B", ["y", "A-"]⟩, ⟨"B", ["A-", "z"]⟩] ∧
      grammar.isNonterminal "A-" = true ∧ (grammar.tables.firstOf? "A-").isSome = true := by
  have parsed : ∃ grammar, parse "A- -> x\nB → ε y A-|A- z" = .ok grammar := ⟨_, rfl⟩
  obtain ⟨grammar, parsed⟩ := parsed
  have leftSide : ∃ line ∈ lines "A- -> x\nB → ε y A-|A- z".toList,
      ∃ right, Cuts line "A-" right :=
    ⟨"A- -> x".toList, by decide, " x".toList, "A- ".toList, ['-', '>'], by simp [arrows], rfl,
      by simp [ArrowFree, arrows, List.infix_cons_iff], rfl⟩
  have letters : isEpsilonName "A-" = false := by decide
  obtain ⟨placed, _, nonterminal, first, _⟩ :=
    symbol_of_token parsed leftSide letters dashedToken
  obtain ⟨alternatives, head, tail, others, front, back, productions⟩ := placed
  have before : rawAlternatives dashedToken.before = [] ++ [["ε", "y"]] := rfl
  have after : rawAlternatives dashedToken.after = [] :: [["A-", "z"]] := rfl
  obtain ⟨rfl, same⟩ := List.append_inj' (front.symm.trans before) rfl
  obtain ⟨rfl, _⟩ := List.cons.inj same
  obtain ⟨rfl, rfl⟩ := List.cons.inj (back.symm.trans after)
  exact ⟨grammar, parsed, leftSide, letters, rfl, before, productions.trans rfl,
    nonterminal, first⟩

def markedToken : Occurrence "aε -> x; B -> aε" "aε" where
  earlier := ["aε -> x".toList]
  line := "B -> aε".toList
  later := []
  symbol := "B"
  before := [' ']
  after := []
  split := by decide +kernel
  cut := ⟨"B ".toList, ['-', '>'], by simp [arrows], rfl,
    by simp [ArrowFree, arrows, List.infix_cons_iff], rfl⟩
  stands := stands_of_checked (by decide +kernel)

theorem not_symbol_of_marked_token :
    ∃ grammar, parse "aε -> x; B -> aε" = .ok grammar ∧
      (∃ line ∈ lines "aε -> x; B -> aε".toList, ∃ right, Cuts line "aε" right) ∧
      isEpsilonName "aε" = false ∧
      ¬(∃ production ∈ grammar.productions,
        production.symbol = markedToken.symbol ∧ "aε" ∈ production.derivation) ∧
      ⟨"B", ["a"]⟩ ∈ grammar.productions ∧ grammar.isNonterminal "a" = false := by
  have parsed : ∃ grammar, parse "aε -> x; B -> aε" = .ok grammar ∧
      grammar.productions = [⟨"aε", ["x"]⟩, ⟨"B", ["a"]⟩] ∧ grammar.isNonterminal "a" = false :=
    ⟨_, rfl, rfl, rfl⟩
  obtain ⟨grammar, parsed, productions, terminal⟩ := parsed
  have cut : Cuts "aε -> x".toList "aε" " x".toList :=
    ⟨"aε ".toList, ['-', '>'], by simp [arrows], rfl,
      by simp [ArrowFree, arrows, List.infix_cons_iff], rfl⟩
  have listed : "aε -> x".toList ∈ lines "aε -> x; B -> aε".toList := by decide
  refine ⟨grammar, parsed, ⟨_, listed, _, cut⟩, by decide, ?_, by simp [productions], terminal⟩
  simp [productions]

end Grammar

end Lookahead
