import Lookahead.RuleLayout

set_option autoImplicit false

namespace Lookahead

namespace Text

variable {core text : List Char}

theorem bare_of_plain (plain : ∀ c ∈ text, isBlank c = false) : Bare text :=
  ⟨fun c member => plain c (List.mem_of_mem_head? member),
    fun c member => plain c (List.mem_of_getLast? member)⟩

theorem bare_append {left middle right : List Char} (nonempty : left ≠ []) (solid : right ≠ [])
    (first : ∀ c ∈ left.head?, isBlank c = false) (last : ∀ c ∈ right.getLast?, isBlank c = false) :
    Bare (left ++ middle ++ right) := by
  obtain ⟨c, rest, rfl⟩ := List.exists_cons_of_ne_nil nonempty
  refine ⟨first, fun d back => ?_⟩
  simp only [List.getLast?_append, Option.mem_def, Option.or_eq_some_iff] at back
  rcases back with back | ⟨empty, _⟩
  · exact last d back
  · exact absurd (List.getLast?_eq_none_iff.1 empty) solid

theorem blanks_nil : Blanks [] := by simp [Blanks]

theorem trim_of_bare (bare : Bare core) : trim core = core := by
  simpa using trim_append blanks_nil bare blanks_nil

theorem trim_append_blanks (text : List Char) {after : List Char} (blanks : Blanks after) :
    trim (text ++ after) = trim text := by
  obtain ⟨leading, trailing, split, front, back, bare⟩ := exists_trim text
  have whole : text ++ after = leading ++ trim text ++ (trailing ++ after) := by
    rw [← List.append_assoc, ← split]
  rw [whole, trim_append front bare (List.forall_mem_append.2 ⟨back, blanks⟩)]

theorem trim_cons_blank {c : Char} (blank : isBlank c = true) : trim (c :: text) = trim text := by
  rw [trim, List.dropWhile_cons_of_pos blank, trim]

theorem mem_of_mem_trim {c : Char} (member : c ∈ trim text) : c ∈ text := by
  obtain ⟨leading, trailing, split, _⟩ := exists_trim text
  rw [split]
  simp [member]

end Text

namespace RuleText

variable {c : Char} {text left right rest arrow : List Char}

theorem arrowFree_nil : ArrowFree [] := by simp [ArrowFree, arrows]

theorem arrowFree_cons :
    ArrowFree (c :: rest) ↔
      c ≠ '→' ∧ ¬(c = '-' ∧ ∃ later, rest = '>' :: later) ∧ ArrowFree rest := by
  have opens : ['-', '>'] <+: c :: rest ↔ c = '-' ∧ ∃ later, rest = '>' :: later := by
    rw [List.cons_prefix_cons, eq_comm]
    exact and_congr_right fun _ =>
      ⟨fun ⟨later, same⟩ => ⟨later, same.symm⟩, fun ⟨later, same⟩ => ⟨later, same.symm⟩⟩
  have single : ['→'] <+: c :: rest ↔ c = '→' := by
    rw [List.cons_prefix_cons, eq_comm]
    simp
  simp only [ArrowFree, arrows, List.forall_mem_cons, List.not_mem_nil, List.infix_cons_iff, opens,
    single]
  grind

theorem splitArrow?_cons (other : c ≠ '→') (apart : ¬(c = '-' ∧ ∃ later, rest = '>' :: later)) :
    splitArrow? (c :: rest) = (splitArrow? rest).map fun (left, right) => (c :: left, right) := by
  rw [splitArrow?]
  · exact other
  · exact fun later dash same => apart ⟨dash, later, same⟩

theorem splitArrow?_sound (split : splitArrow? text = some (left, right)) :
    ∃ arrow ∈ arrows, text = left ++ arrow ++ right ∧ ArrowFree left := by
  fun_induction splitArrow? text generalizing left with
  | case1 => cases split
  | case2 rest =>
    cases split
    exact ⟨['→'], by simp [arrows], rfl, arrowFree_nil⟩
  | case3 rest =>
    cases split
    exact ⟨['-', '>'], by simp [arrows], rfl, arrowFree_nil⟩
  | case4 c rest other apart ih =>
    obtain ⟨⟨front, back⟩, found, same⟩ := Option.map_eq_some_iff.1 split
    cases same
    obtain ⟨arrow, member, rfl, free⟩ := ih found
    refine ⟨arrow, member, rfl, arrowFree_cons.2 ⟨other, ?_, free⟩⟩
    rintro ⟨dash, later, rfl⟩
    exact apart _ dash rfl

theorem splitArrow?_complete (member : arrow ∈ arrows) (free : ArrowFree left) :
    splitArrow? (left ++ arrow ++ right) = some (left, right) := by
  induction left with
  | nil =>
    simp only [arrows, List.mem_cons, List.not_mem_nil, or_false] at member
    rcases member with rfl | rfl <;> rfl
  | cons c rest ih =>
    obtain ⟨other, apart, free⟩ := arrowFree_cons.1 free
    -- The arrow itself does not begin with the second letter of an arrow.
    have apart : ¬(c = '-' ∧ ∃ later, rest ++ arrow ++ right = '>' :: later) := by
      rintro ⟨dash, later, same⟩
      cases rest with
      | nil =>
        simp only [arrows, List.mem_cons, List.not_mem_nil, or_false] at member
        rcases member with rfl | rfl <;> simp at same
      | cons d rest =>
        obtain ⟨rfl, _⟩ := List.cons.inj same
        exact apart ⟨dash, rest, rfl⟩
    rw [List.cons_append, List.cons_append, splitArrow?_cons other apart, ih free]
    rfl

theorem splitArrow?_eq_some_iff :
    splitArrow? text = some (left, right) ↔
      ∃ arrow ∈ arrows, text = left ++ arrow ++ right ∧ ArrowFree left := by
  constructor
  · exact splitArrow?_sound
  · rintro ⟨arrow, member, rfl, free⟩
    exact splitArrow?_complete member free

variable {before between others line : List Char}

theorem lines_append_separator (separator : isSeparator c = true) (left right : List Char) :
    lines (left ++ c :: right) = lines left ++ lines right := by
  rw [lines, List.splitOnP_append_cons left right separator, List.map_append, List.filter_append]
  rfl

@[simp] theorem lines_nil : lines [] = [] := rfl

theorem lines_of_whole (whole : ∀ c ∈ text, isSeparator c = false)
    (nonempty : Text.trim text ≠ []) : lines text = [Text.trim text] := by
  rw [lines, List.splitOnP_eq_singleton whole]
  simp [nonempty]

theorem lines_cons_blank (blank : Text.isBlank c = true) : lines (c :: text) = lines text := by
  by_cases separator : isSeparator c = true
  next => exact lines_append_separator separator [] text
  next =>
    obtain ⟨head, rest, pieces⟩ := List.exists_cons_of_ne_nil (List.splitOnP_ne_nil isSeparator text)
    rw [lines, lines, List.splitOnP_cons_eq_if_modifyHead, if_neg separator, pieces,
      List.modifyHead_cons, List.map_cons, List.map_cons, Text.trim_cons_blank blank]

theorem lines_break_append (breaks : Break before) (text : List Char) :
    lines (before ++ text) = lines text := by
  induction before with
  | nil => rfl
  | cons c rest ih =>
    rw [Break, List.forall_mem_cons] at breaks
    rw [List.cons_append]
    rcases breaks.1 with blank | rfl
    · rw [lines_cons_blank blank, ih breaks.2]
    · exact (lines_append_separator rfl [] _).trans (ih breaks.2)

theorem lines_append_blank (text : List Char) (blank : Text.isBlank c = true)
    (inside : isSeparator c = false) : lines (text ++ [c]) = lines text := by
  have plain : ∀ d ∈ [c], isSeparator d = false := by simpa using inside
  obtain ⟨pieces, last, cut, longer⟩ := Text.splitOnP_append_of_plain text plain
  have same : Text.trim (last ++ [c]) = Text.trim last :=
    Text.trim_append_blanks last (by simpa [Text.Blanks] using blank)
  simp [lines, cut, longer, same]

theorem lines_append_of_break (text : List Char) (breaks : Break between) :
    lines (text ++ between) = lines text := by
  induction between generalizing text with
  | nil => simp
  | cons c rest ih =>
    rw [Break, List.forall_mem_cons] at breaks
    by_cases separator : isSeparator c = true
    next =>
      have nothing := lines_break_append breaks.2 []
      simp only [List.append_nil, lines_nil] at nothing
      simp [lines_append_separator separator, nothing]
    next =>
      have blank : Text.isBlank c = true := by
        cases breaks.1 with
        | inl blank => exact blank
        | inr semicolon => simp [semicolon, isSeparator] at separator
      have longer := ih (text ++ [c]) breaks.2
      have same := lines_append_blank text blank (by simpa using separator)
      simpa [same] using longer

theorem lines_append_separates (separates : Separates between) (left right : List Char) :
    lines (left ++ between ++ right) = lines left ++ lines right := by
  obtain ⟨c, member, separator⟩ := separates.ends
  obtain ⟨before, after, split⟩ := List.append_of_mem member
  have breaks : Break (before ++ c :: after) := split ▸ separates.breaks
  rw [Break, List.forall_mem_append, List.forall_mem_cons] at breaks
  have apart : left ++ between ++ right = (left ++ before) ++ c :: (after ++ right) := by
    simp [split]
  rw [apart, lines_append_separator separator, lines_append_of_break left breaks.1,
    lines_break_append breaks.2.2]

theorem exists_piece (member : line ∈ lines text) :
    ∃ piece ∈ text.splitOnP isSeparator, Text.trim piece = line ∧ line ≠ [] := by
  obtain ⟨trimmed, nonempty⟩ := List.mem_filter.1 member
  obtain ⟨piece, cut, same⟩ := List.mem_map.1 trimmed
  exact ⟨piece, cut, same, by simpa using nonempty⟩

theorem not_separator_of_mem_lines (member : line ∈ lines text) :
    ∀ c ∈ line, isSeparator c = false := by
  obtain ⟨piece, cut, rfl, _⟩ := exists_piece member
  exact fun c inside => (Text.of_mem_splitOnP cut (Text.mem_of_mem_trim inside)).2

theorem lines_of_mem (member : line ∈ lines text) : lines line = [line] := by
  have whole := not_separator_of_mem_lines member
  obtain ⟨piece, _, rfl, nonempty⟩ := exists_piece member
  obtain ⟨_, _, _, _, _, bare⟩ := Text.exists_trim piece
  have same := Text.trim_of_bare bare
  rw [lines_of_whole whole (same.symm ▸ nonempty), same]

end RuleText

end Lookahead
