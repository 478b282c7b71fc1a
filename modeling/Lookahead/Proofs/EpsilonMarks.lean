import Lookahead.RawRules
import Lookahead.Proofs.Printing

set_option autoImplicit false

namespace Lookahead

theorem splitOnP_filter {mark keep : Char → Bool} (kept : ∀ c, mark c = true → keep c = true)
    (text : List Char) :
    (text.filter keep).splitOnP mark = (text.splitOnP mark).map (List.filter keep) := by
  induction text with
  | nil => simp
  | cons c rest ih =>
    obtain ⟨first, others, pieces⟩ := List.exists_cons_of_ne_nil (List.splitOnP_ne_nil mark rest)
    rw [pieces] at ih
    by_cases here : mark c = true
    next => simp [kept c here, List.splitOnP_cons_eq_if_modifyHead, here, ih, pieces]
    next =>
      by_cases stays : keep c = true
      next => simp [stays, List.splitOnP_cons_eq_if_modifyHead, here, ih, pieces]
      next => simp [stays, List.splitOnP_cons_eq_if_modifyHead, here, ih, pieces]

theorem unmarkedName_eq_empty_iff {name : String} :
    unmarkedName name = "" ↔ isEpsilonName name = true := by
  simp [unmarkedName, isEpsilonName, String.ext_iff]

theorem unmarkedName_eq_self_iff {name : String} :
    unmarkedName name = name ↔ ∀ c ∈ name.toList, isEpsilonMark c = false := by
  simp [unmarkedName, String.ext_iff]

theorem unmarkedSymbols_eq (symbols : List String) :
    unmarkedSymbols symbols =
      (symbols.filter fun name => !isEpsilonName name).map unmarkedName := by
  have same (name : String) : (unmarkedName name != "") = !isEpsilonName name := by
    rw [Bool.eq_iff_iff]
    simp [unmarkedName_eq_empty_iff]
  rw [unmarkedSymbols, List.filter_map]
  simp [Function.comp_def, same]

namespace RuleText

variable {line right : List Char} {text symbol : String} {productions : List Production}

theorem fields_filter (text : List Char) :
    Text.fields (text.filter fun c => !isEpsilonMark c) =
      ((Text.fields text).map (List.filter fun c => !isEpsilonMark c)).filter
        fun field => !field.isEmpty := by
  have kept (c : Char) (blank : Text.isBlank c = true) : (!isEpsilonMark c) = true := by
    simp [not_mark_of_isBlank blank]
  simp only [Text.fields, splitOnP_filter kept]
  generalize text.splitOnP Text.isBlank = pieces
  induction pieces with
  | nil => rfl
  | cons piece rest ih =>
    by_cases empty : piece = []
    next => simp [empty, ih]
    next => simp [empty, List.filter_cons, ih]

theorem map_ofList_fields (part : List Char) :
    (Text.fields (part.filter fun c => !isEpsilonMark c)).map String.ofList =
      unmarkedSymbols ((Text.fields part).map String.ofList) := by
  have same (field : List Char) : (String.ofList field != "") = !field.isEmpty := by
    rw [Bool.eq_iff_iff]
    simp
  rw [fields_filter, unmarkedSymbols, List.filter_map, List.filter_map, List.filter_map]
  simp [Function.comp_def, unmarkedName, same]

theorem derivations_eq (right : List Char) :
    derivations right = (rawAlternatives right).map unmarkedSymbols := by
  have kept (c : Char) (bar : isBar c = true) : (!isEpsilonMark c) = true := by
    simp [not_of_isBar (p := isEpsilonMark) rfl rfl bar]
  simp only [derivations, rawAlternatives, splitOnP_filter kept, List.map_map, Function.comp_def,
    map_ofList_fields]

theorem rawLine_of_cuts (cut : Cuts line symbol right) :
    rawLine line = (rawAlternatives right).map (Production.mk symbol) := by
  obtain ⟨left, arrow, member, rfl, free, rfl⟩ := cut
  simp only [rawLine, splitArrow?_complete member free]

theorem exists_cuts_of_isRule (rule : IsRule line) : ∃ symbol right, Cuts line symbol right := by
  obtain ⟨left, arrow, right, split, member, free, _⟩ := rule
  exact ⟨_, right, left, arrow, member, split, free, rfl⟩

theorem readLine?_eq_rawLine (reads : readLine? line = some productions) :
    productions = (rawLine line).map Production.unmarked := by
  obtain ⟨left, right, split, _, rfl⟩ := readLine?_eq_some_iff.1 reads
  simp [rawLine, split, derivations_eq, Production.unmarked, Function.comp_def]

theorem productions_readLines_eq {lines : List (List Char)}
    (sound : (readLines lines).fault = none) :
    (readLines lines).productions = (lines.flatMap rawLine).map Production.unmarked := by
  induction lines with
  | nil => rfl
  | cons line rest ih =>
    rw [readLines] at sound ⊢
    split at sound
    next => simp at sound
    next productions reads => simp [readLine?_eq_rawLine reads, ih sound]

end RuleText

namespace Production

variable {production : Production}

theorem withoutEpsilon_eq_unmarked
    (uniform : ∀ token ∈ production.derivation,
      (∀ c ∈ token.toList, isEpsilonMark c = false) ∨ isEpsilonName token = true) :
    production.withoutEpsilon = production.unmarked := by
  have plain : ∀ token ∈ production.derivation.filter fun name => !isEpsilonName name,
      unmarkedName token = token := by
    intro token member
    obtain ⟨inside, other⟩ := List.mem_filter.1 member
    have whole := (uniform token inside).resolve_right (by simpa using other)
    exact unmarkedName_eq_self_iff.2 whole
  rw [withoutEpsilon, Production.unmarked, unmarkedSymbols_eq, List.map_congr_left plain]
  simp

end Production

namespace Grammar

open RuleText

variable {grammar : Grammar} {text : String}

theorem productions_eq_raw (parsed : parse text = .ok grammar) :
    grammar.productions = (raw text).map Production.unmarked := by
  have sound := ((parse_eq_ok_iff text).1 ⟨grammar, parsed⟩).2
  rw [productions_of_parse parsed]
  exact productions_readLines_eq sound

theorem named_raw (parsed : parse text = .ok grammar) :
    ∀ production ∈ raw text, isSymbolName production.symbol = true := by
  intro production member
  have named := grammar.named production.unmarked
  rw [productions_eq_raw parsed] at named
  exact named (List.mem_map_of_mem member)

theorem ofProductions_raw (parsed : parse text = .ok grammar)
    (uniform : ∀ production ∈ raw text, ∀ token ∈ production.derivation,
      (∀ c ∈ token.toList, isEpsilonMark c = false) ∨ isEpsilonName token = true) :
    ofProductions (raw text) = .ok grammar := by
  have nonempty : raw text ≠ [] := by
    intro empty
    have productions := productions_eq_raw parsed
    exact grammar.nonempty (by simpa [empty] using productions)
  have same : (raw text).map Production.withoutEpsilon = (raw text).map Production.unmarked :=
    List.map_congr_left fun production member =>
      Production.withoutEpsilon_eq_unmarked (uniform production member)
  obtain ⟨made, built, productions⟩ := ofProductions_of_named nonempty (named_raw parsed)
  have equal : made = grammar := by
    apply Grammar.ext
    rw [productions, same, productions_eq_raw parsed]
  rw [built, equal]

theorem parse_eq_raw (parsed : parse text = .ok grammar) :
    (∀ line ∈ lines text.toList, ∃ symbol right, Cuts line symbol right ∧
      rawLine line = (rawAlternatives right).map (Production.mk symbol)) ∧
    grammar.productions = (raw text).map Production.unmarked ∧
    ((∀ production ∈ raw text, ∀ token ∈ production.derivation,
        (∀ c ∈ token.toList, isEpsilonMark c = false) ∨ isEpsilonName token = true) →
      ofProductions (raw text) = .ok grammar) := by
  refine ⟨fun line member => ?_, productions_eq_raw parsed, ofProductions_raw parsed⟩
  have sound := ((parse_eq_ok_iff text).1 ⟨grammar, parsed⟩).2
  obtain ⟨symbol, right, cut⟩ :=
    exists_cuts_of_isRule (fault_readLines_eq_none_iff.1 sound line member)
  exact ⟨symbol, right, cut, rawLine_of_cuts cut⟩

theorem parse_eq_raw_runs :
    ∃ grammar mixed, parse "A->ε|x ϵε∣ε y ϵ\nB → A|" = .ok grammar ∧
      raw "A->ε|x ϵε∣ε y ϵ\nB → A|" = [⟨"A", ["ε"]⟩, ⟨"A", ["x", "ϵε"]⟩,
        ⟨"A", ["ε", "y", "ϵ"]⟩, ⟨"B", ["A"]⟩, ⟨"B", []⟩] ∧
      (∀ production ∈ raw "A->ε|x ϵε∣ε y ϵ\nB → A|", ∀ token ∈ production.derivation,
        (∀ c ∈ token.toList, isEpsilonMark c = false) ∨ isEpsilonName token = true) ∧
      ofProductions (raw "A->ε|x ϵε∣ε y ϵ\nB → A|") = .ok grammar ∧
      parse "A-> aεb ε|ϵ" = .ok mixed ∧ mixed.productions = [⟨"A", ["ab"]⟩, ⟨"A", []⟩] ∧
      raw "A-> aεb ε|ϵ" = [⟨"A", ["aεb", "ε"]⟩, ⟨"A", ["ϵ"]⟩] := by
  have written : raw "A->ε|x ϵε∣ε y ϵ\nB → A|" = [⟨"A", ["ε"]⟩, ⟨"A", ["x", "ϵε"]⟩,
      ⟨"A", ["ε", "y", "ϵ"]⟩, ⟨"B", ["A"]⟩, ⟨"B", []⟩] := rfl
  have uniform : ∀ production ∈ raw "A->ε|x ϵε∣ε y ϵ\nB → A|", ∀ token ∈ production.derivation,
      (∀ c ∈ token.toList, isEpsilonMark c = false) ∨ isEpsilonName token = true := by
    simp only [written, ← unmarkedName_eq_self_iff]
    decide
  have parsed : ∃ grammar, parse "A->ε|x ϵε∣ε y ϵ\nB → A|" = .ok grammar := ⟨_, rfl⟩
  have also : ∃ mixed, parse "A-> aεb ε|ϵ" = .ok mixed := ⟨_, rfl⟩
  obtain ⟨grammar, parsed⟩ := parsed
  obtain ⟨mixed, also⟩ := also
  exact ⟨grammar, mixed, parsed, written, uniform, (parse_eq_raw parsed).2.2 uniform, also,
    (parse_eq_raw also).2.1.trans rfl, rfl⟩

end Grammar

end Lookahead
