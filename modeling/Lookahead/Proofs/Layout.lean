import Lookahead.Proofs.Acceptance

set_option autoImplicit false

namespace Lookahead

namespace RuleText

variable {c : Char} {text plain right after arrow : List Char} {tokens : List String}
  {alternatives : List (List String)} {p : Char → Bool}

theorem not_of_isBar (first : p '|' = false) (second : p '∣' = false) (bar : isBar c = true) :
    p c = false := by
  simp only [isBar, Bool.or_eq_true, beq_iff_eq] at bar
  rcases bar with rfl | rfl
  · exact first
  · exact second

theorem not_of_isEpsilonMark (first : p 'ε' = false) (second : p 'ϵ' = false)
    (mark : isEpsilonMark c = true) : p c = false := by
  simp only [isEpsilonMark, Bool.or_eq_true, beq_iff_eq] at mark
  rcases mark with rfl | rfl
  · exact first
  · exact second

theorem not_of_mem_arrow (dash : p '-' = false) (head : p '>' = false) (single : p '→' = false)
    (member : arrow ∈ arrows) : ∀ c ∈ arrow, p c = false := by
  simp only [arrows, List.mem_cons, List.not_mem_nil, or_false] at member
  rcases member with rfl | rfl
  · simp [dash, head]
  · simpa using single

theorem not_bar_of_isBlank (blank : Text.isBlank c = true) : isBar c = false := by
  rw [← Bool.not_eq_true]
  intro bar
  rw [not_of_isBar (p := Text.isBlank) rfl rfl bar] at blank
  cases blank

theorem not_mark_of_isBlank (blank : Text.isBlank c = true) : isEpsilonMark c = false := by
  rw [← Bool.not_eq_true]
  intro mark
  rw [not_of_isEpsilonMark (p := Text.isBlank) rfl rfl mark] at blank
  cases blank

theorem arrowFree_append_blanks (free : ArrowFree text) (blanks : Text.Blanks after) :
    ArrowFree (text ++ after) := by
  induction text with
  | nil =>
    intro arrow member inside
    obtain ⟨c, rest, rfl⟩ : ∃ c rest, arrow = c :: rest := List.exists_cons_of_ne_nil <| by
      rintro rfl
      simp [arrows] at member
    have blank := blanks c (inside.subset List.mem_cons_self)
    rw [not_of_mem_arrow (p := Text.isBlank) rfl rfl rfl member c List.mem_cons_self] at blank
    cases blank
  | cons c rest ih =>
    obtain ⟨other, apart, free⟩ := arrowFree_cons.1 free
    refine arrowFree_cons.2 ⟨other, ?_, ih free⟩
    rintro ⟨dash, later, same⟩
    cases rest with
    | nil => exact absurd (blanks '>' (by simp_all)) (by decide)
    | cons d rest =>
      obtain ⟨rfl, _⟩ := List.cons.inj same
      exact apart ⟨dash, rest, rfl⟩

theorem exists_trim_of_arrow {before left : List Char} (right : List Char)
    (leading : Text.Blanks before) (nonempty : left ≠ [])
    (plain : ∀ c ∈ left, Text.isBlank c = false) (between : List Char) (member : arrow ∈ arrows) :
    ∃ kept after, right = kept ++ after ∧ Text.Blanks after ∧
      Text.trim (before ++ left ++ between ++ arrow ++ right) = left ++ between ++ arrow ++ kept := by
  have solid := not_of_mem_arrow (p := Text.isBlank) rfl rfl rfl member
  obtain ⟨after, split, blanks, last⟩ := Text.exists_append_blanks right
  generalize (right.reverse.dropWhile Text.isBlank).reverse = kept at split last
  have closed : ∀ c ∈ (arrow ++ kept).getLast?, Text.isBlank c = false := by
    intro c back
    simp only [List.getLast?_append, Option.mem_def, Option.or_eq_some_iff] at back
    rcases back with back | ⟨_, back⟩
    · exact last c back
    · exact solid c (List.mem_of_getLast? back)
  have arrowed : arrow ++ kept ≠ [] := by
    rintro empty
    rw [(List.append_eq_nil_iff.1 empty).1] at member
    exact absurd member (by decide)
  have bare : Text.Bare (left ++ between ++ (arrow ++ kept)) :=
    Text.bare_append nonempty arrowed (fun c front => plain c (List.mem_of_mem_head? front)) closed
  refine ⟨kept, after, split, blanks, ?_⟩
  have trimmed := Text.trim_append leading bare blanks
  simpa only [split, List.append_assoc] using trimmed

theorem derivations_append_blanks (text : List Char) (blanks : Text.Blanks after) :
    derivations (text ++ after) = derivations text := by
  have unmarked : after.filter (fun c => !isEpsilonMark c) = after :=
    List.filter_eq_self.2 fun c inside => by simp [not_mark_of_isBlank (blanks c inside)]
  obtain ⟨pieces, last, cut, longer⟩ :=
    Text.splitOnP_append_of_plain (text.filter fun c => !isEpsilonMark c)
      fun c inside => not_bar_of_isBlank (blanks c inside)
  have same := Text.fields_append_blanks last blanks
  rw [derivations, List.filter_append, unmarked, longer, derivations, cut, List.map_append,
    List.map_append, List.map_singleton, List.map_singleton, same]

theorem fields_of_named {token : String} (named : isSymbolName token = true) :
    Text.fields token.toList = [token.toList] := by
  obtain ⟨nonempty, plain⟩ := isSymbolName_iff.1 named
  exact Text.fields_of_plain nonempty plain

theorem WritesTokens.fields_eq (written : WritesTokens tokens text)
    (named : ∀ token ∈ tokens, isSymbolName token = true) :
    Text.fields text = tokens.map String.toList := by
  induction written with
  | nil blank => simpa using Text.fields_append_blanks [] blank.1
  | last token leading trailing =>
    rw [Text.fields_append_blanks _ trailing.1, Text.fields_blanks_append leading.1,
      fields_of_named (named token (by simp))]
    rfl
  | more token leading apart nonempty rest ih =>
    rw [List.forall_mem_cons] at named
    obtain ⟨c, gap, rfl⟩ := List.exists_cons_of_ne_nil nonempty
    obtain ⟨blank, blanks⟩ := List.forall_mem_cons.1 apart.1
    rw [List.append_assoc, List.cons_append, Text.fields_append_cons blank,
      Text.fields_blanks_append leading.1, Text.fields_blanks_append blanks,
      fields_of_named named.1, ih named.2]
    rfl

theorem WritesTokens.forall_mem (written : WritesTokens tokens text)
    (gaps : ∀ gap, Gap gap → ∀ c ∈ gap, p c = false)
    (letters : ∀ token ∈ tokens, ∀ c ∈ token.toList, p c = false) : ∀ c ∈ text, p c = false := by
  induction written with
  | nil blank => exact gaps _ blank
  | last token leading trailing =>
    simp only [List.forall_mem_append]
    exact ⟨⟨gaps _ leading, letters token (by simp)⟩, gaps _ trailing⟩
  | more token leading apart nonempty rest ih =>
    rw [List.forall_mem_cons] at letters
    simp only [List.forall_mem_append]
    exact ⟨⟨⟨gaps _ leading, letters.1⟩, gaps _ apart⟩, ih letters.2⟩

theorem WritesAlternatives.forall_mem (written : WritesAlternatives alternatives text)
    (gaps : ∀ gap, Gap gap → ∀ c ∈ gap, p c = false) (bars : ∀ c, isBar c = true → p c = false)
    (letters : ∀ tokens ∈ alternatives, ∀ token ∈ tokens, ∀ c ∈ token.toList, p c = false) :
    ∀ c ∈ text, p c = false := by
  induction written with
  | last written => exact written.forall_mem gaps (letters _ (by simp))
  | more written bar rest ih =>
    rw [List.forall_mem_cons] at letters
    rw [List.forall_mem_append, List.forall_mem_cons]
    exact ⟨written.forall_mem gaps letters.1, bars _ bar, ih letters.2⟩

theorem Marked.forall_mem (marked : Marked plain right)
    (marks : ∀ c, isEpsilonMark c = true → p c = false) (letters : ∀ c ∈ plain, p c = false) :
    ∀ c ∈ right, p c = false := by
  induction marked with
  | nil => exact letters
  | keep c rest ih =>
    rw [List.forall_mem_cons] at letters ⊢
    exact ⟨letters.1, ih letters.2⟩
  | mark mark rest ih => exact List.forall_mem_cons.2 ⟨marks _ mark, ih letters⟩

theorem Marked.filter_eq (marked : Marked plain right)
    (unmarked : ∀ c ∈ plain, isEpsilonMark c = false) :
    right.filter (fun c => !isEpsilonMark c) = plain := by
  induction marked with
  | nil => rfl
  | keep c rest ih =>
    rw [List.forall_mem_cons] at unmarked
    rw [List.filter_cons_of_pos (by simp [unmarked.1]), ih unmarked.2]
  | mark mark rest ih => rw [List.filter_cons_of_neg (by simp [mark]), ih unmarked]

theorem marked_filter (text : List Char) :
    Marked (text.filter fun c => !isEpsilonMark c) text := by
  induction text with
  | nil => exact .nil
  | cons c rest ih =>
    by_cases mark : isEpsilonMark c = true
    next =>
      rw [List.filter_cons_of_neg (by simp [mark])]
      exact .mark mark ih
    next =>
      rw [List.filter_cons_of_pos (by simp [mark])]
      exact .keep c ih

theorem WritesAlternatives.fields_eq (written : WritesAlternatives alternatives plain)
    (sound : ∀ tokens ∈ alternatives, ∀ token ∈ tokens, IsToken token) :
    (plain.splitOnP isBar).map Text.fields = alternatives.map (List.map String.toList) := by
  have unbarred {tokens : List String} {text : List Char} (written : WritesTokens tokens text)
      (sound : ∀ token ∈ tokens, IsToken token) : ∀ c ∈ text, isBar c = false :=
    written.forall_mem (fun gap blank c inside => not_bar_of_isBlank (blank.1 c inside))
      fun token member => (sound token member).unbarred
  have named {tokens : List String} (sound : ∀ token ∈ tokens, IsToken token) :
      ∀ token ∈ tokens, isSymbolName token = true :=
    fun token member => (sound token member).named
  induction written with
  | last written =>
    rw [List.forall_mem_singleton] at sound
    rw [List.splitOnP_eq_singleton (unbarred written sound), List.map_singleton,
      written.fields_eq (named sound)]
    rfl
  | more written bar rest ih =>
    rw [List.forall_mem_cons] at sound
    rw [List.splitOnP_append_cons_of_forall_mem (unbarred written sound.1) _ bar, List.map_cons,
      written.fields_eq (named sound.1), ih sound.2]
    rfl

theorem derivations_of_written (written : WritesAlternatives alternatives plain)
    (marked : Marked plain right)
    (sound : ∀ tokens ∈ alternatives, ∀ token ∈ tokens, IsToken token) :
    derivations right = alternatives := by
  have unmarked : ∀ c ∈ plain, isEpsilonMark c = false :=
    written.forall_mem (fun gap blank c inside => not_mark_of_isBlank (blank.1 c inside))
      (fun c => not_of_isBar rfl rfl) fun tokens member token inside =>
        (sound tokens member token inside).unmarked
  have read := congrArg (List.map (List.map String.ofList)) (written.fields_eq sound)
  rw [derivations, marked.filter_eq unmarked]
  simpa [Function.comp_def] using read

theorem not_separator_of_gap {gap : List Char} (blank : Gap gap) :
    ∀ c ∈ gap, isSeparator c = false := by
  intro c inside
  have other : c ≠ ';' := by
    rintro rfl
    exact absurd (blank.1 _ inside) (by decide)
  have same : c ≠ '\n' := fun newline => blank.2 (newline ▸ inside)
  simp [isSeparator, other, same]

theorem not_separator_of_named {name : String} (named : isSymbolName name = true)
    (whole : ';' ∉ name.toList) : ∀ c ∈ name.toList, isSeparator c = false := by
  intro c inside
  have plain := (isSymbolName_iff.1 named).2 c inside
  have other : c ≠ ';' := fun semicolon => whole (semicolon ▸ inside)
  have same : c ≠ '\n' := by
    rintro rfl
    exact absurd plain (by decide)
  simp [isSeparator, other, same]

theorem IsToken.not_isEpsilonName {token : String} (sound : IsToken token) :
    isEpsilonName token = false := by
  obtain ⟨c, rest, letters⟩ := List.exists_cons_of_ne_nil (isSymbolName_iff.1 sound.named).1
  have first := sound.unmarked c (by simp [letters])
  simp [isEpsilonName, letters, first]

variable {rule : Rule} {rules : List Rule} {body : List Char}

theorem Rule.Writes.not_separator (written : rule.Writes text) :
    ∀ c ∈ text, isSeparator c = false := by
  cases written with
  | @rule before between arrow plain right leading apart member alternatives marked =>
  have right : ∀ c ∈ right, isSeparator c = false := by
    refine marked.forall_mem (fun c => not_of_isEpsilonMark rfl rfl) ?_
    refine alternatives.forall_mem (fun gap => not_separator_of_gap)
      (fun c => not_of_isBar rfl rfl) fun tokens member token inside => ?_
    have sound := rule.tokens tokens member token inside
    exact not_separator_of_named sound.named sound.whole
  simp only [List.forall_mem_append]
  exact ⟨⟨⟨⟨not_separator_of_gap leading, not_separator_of_named rule.named rule.whole⟩,
    not_separator_of_gap apart⟩, not_of_mem_arrow rfl rfl rfl member⟩, right⟩

theorem Rule.Writes.readLine? (written : rule.Writes text) :
    readLine? (Text.trim text) = some rule.productions := by
  cases written with
  | @rule before between arrow plain right leading apart member alternatives marked =>
  obtain ⟨nonempty, unbroken⟩ := isSymbolName_iff.1 rule.named
  obtain ⟨kept, after, rfl, blanks, trimmed⟩ :=
    exists_trim_of_arrow right leading.1 nonempty unbroken between member
  have symbol := Text.trim_append_blanks rule.symbol.toList apart.1
  rw [Text.trim_of_bare (Text.bare_of_plain unbroken)] at symbol
  have split : splitArrow? (rule.symbol.toList ++ between ++ arrow ++ kept) = _ :=
    splitArrow?_complete member (arrowFree_append_blanks rule.arrowless apart.1)
  rw [trimmed, readLine?_eq_some_iff]
  refine ⟨_, _, split, ?_, ?_⟩
  · rw [symbol, String.ofList_toList]
    exact rule.named
  · rw [symbol, String.ofList_toList, ← derivations_append_blanks kept blanks,
      derivations_of_written alternatives marked rule.tokens]
    rfl

theorem Rule.Writes.trim_ne_nil (written : rule.Writes text) : Text.trim text ≠ [] := by
  intro empty
  have read := written.readLine?
  rw [empty] at read
  cases read

theorem Rule.Writes.lines_eq (written : rule.Writes text) : lines text = [Text.trim text] :=
  lines_of_whole written.not_separator written.trim_ne_nil

theorem readLines_of_written (written : WritesRules rules body) :
    lines body ≠ [] ∧ readLines (lines body) = ⟨rules.flatMap Rule.productions, none⟩ := by
  induction written with
  | @last rule text after written trailing =>
    rw [lines_append_of_break text trailing, written.lines_eq, readLines, written.readLine?]
    simp [readLines]
  | more written apart ends rest ih =>
    rw [lines_append_separates ⟨apart, ends⟩, written.lines_eq, List.singleton_append, readLines,
      written.readLine?, ih.2]
    simp

end RuleText

namespace Grammar

open RuleText

theorem parse_of_laysOut {rules : List Rule} {text : String} (laid : LaysOut rules text) :
    ∃ grammar, parse text = .ok grammar ∧
      grammar.productions = rules.flatMap Rule.productions := by
  obtain ⟨before, body, split, breaks, written⟩ := laid
  have cut : lines text.toList = lines body := by rw [split, lines_break_append breaks]
  obtain ⟨nonempty, reading⟩ := readLines_of_written written
  have same : RuleText.read text = ⟨rules.flatMap Rule.productions, none⟩ := by
    rw [RuleText.read, cut, reading]
  have sound : (RuleText.read text).fault = none := by rw [same]
  rcases parse_of_sound sound with ⟨empty, _⟩ | ⟨_, grammar, parsed, made⟩
  · exact absurd (cut ▸ empty) nonempty
  refine ⟨grammar, parsed, ?_⟩
  have kept : ∀ production ∈ rules.flatMap Rule.productions,
      production.withoutEpsilon = production := by
    intro production member
    obtain ⟨rule, _, member⟩ := List.mem_flatMap.1 member
    obtain ⟨tokens, among, rfl⟩ := List.mem_map.1 member
    exact Production.withoutEpsilon_eq_self fun token inside =>
      (rule.tokens tokens among token inside).not_isEpsilonName
  rw [made, same, List.map_congr_left kept, List.map_id']

def dashed : Rule where
  symbol := "A-"
  alternatives := [["b->", "c"], []]
  named := rfl
  whole := by decide
  arrowless := by simp [ArrowFree, arrows, List.infix_cons_iff]
  nonempty := by decide
  tokens := by decide

def joined : Rule where
  symbol := "B"
  alternatives := [["ab"]]
  named := rfl
  whole := by decide
  arrowless := by simp [ArrowFree, arrows, List.infix_cons_iff]
  nonempty := by decide
  tokens := by decide

theorem parse_of_laysOut_tight :
    LaysOut [dashed, joined] "; A-->b-> ε c∣ε ;\n B\u2003→ aεb" ∧
      ∃ grammar, parse "; A-->b-> ε c∣ε ;\n B\u2003→ aεb" = .ok grammar ∧
        grammar.productions = [⟨"A-", ["b->", "c"]⟩, ⟨"A-", []⟩, ⟨"B", ["ab"]⟩] := by
  have plain : WritesAlternatives [["b->", "c"], []]
      ([] ++ "b->".toList ++ [' ', ' '] ++ ([] ++ "c".toList ++ []) ++ '∣' :: [' ']) :=
    .more (.more _ (by decide) (by decide) (by decide) (.last _ (by decide) (by decide))) rfl
      (.last (.nil (by decide)))
  have tight : dashed.Writes ([] ++ "A-".toList ++ [] ++ ['-', '>'] ++ "b-> ε c∣ε ".toList) :=
    .rule (by decide) (by decide) (by decide) plain (marked_filter "b-> ε c∣ε ".toList)
  have single : WritesAlternatives [["ab"]] ([' '] ++ "ab".toList ++ []) :=
    .last (.last _ (by decide) (by decide))
  have loose : joined.Writes ([' '] ++ "B".toList ++ ['\u2003'] ++ ['→'] ++ " aεb".toList) :=
    .rule (by decide) (by decide) (by decide) single (marked_filter " aεb".toList)
  have apart : Break [';', '\n'] := by decide
  have trailing : Break [] := by decide
  have body := WritesRules.more tight apart ⟨';', by decide, rfl⟩ (.last loose trailing)
  have laid : LaysOut [dashed, joined] "; A-->b-> ε c∣ε ;\n B\u2003→ aεb" :=
    ⟨[';', ' '], _, by simp, by decide, body⟩
  exact ⟨laid, parse_of_laysOut laid⟩

end Grammar

end Lookahead
