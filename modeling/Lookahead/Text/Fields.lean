import Lookahead.Text.Blank

set_option autoImplicit false

namespace Lookahead.Text

def trim (text : List Char) : List Char :=
  ((text.dropWhile isBlank).reverse.dropWhile isBlank).reverse

def fields (text : List Char) : List (List Char) :=
  (text.splitOnP isBlank).filter fun field => !field.isEmpty

theorem of_mem_splitOnP {α : Type} {mark : α → Bool} {text piece : List α} {x : α}
    (cut : piece ∈ text.splitOnP mark) (member : x ∈ piece) : x ∈ text ∧ mark x = false := by
  induction text generalizing piece with
  | nil => simp_all
  | cons c rest ih =>
    rw [List.splitOnP_cons_eq_if_modifyHead] at cut
    split at cut
    next =>
      rcases List.mem_cons.1 cut with rfl | later
      · simp at member
      · simp [ih later member]
    next plain =>
      cases pieces : rest.splitOnP mark with
      | nil => simp [pieces] at cut
      | cons head tail =>
        rw [pieces] at cut ih
        rcases List.mem_cons.1 cut with rfl | later
        · rcases List.mem_cons.1 member with rfl | inside
          · simpa using plain
          · simp [ih (List.mem_cons_self ..) inside]
        · simp [ih (List.mem_cons_of_mem _ later) member]

theorem splitOnP_append_of_plain {α : Type} {mark : α → Bool} (text : List α) {after : List α}
    (plain : ∀ x ∈ after, mark x = false) :
    ∃ pieces last, text.splitOnP mark = pieces ++ [last] ∧
      (text ++ after).splitOnP mark = pieces ++ [last ++ after] := by
  induction text with
  | nil => exact ⟨[], [], by simp, by simp [List.splitOnP_eq_singleton plain]⟩
  | cons x rest ih =>
    obtain ⟨pieces, last, cut, longer⟩ := ih
    rw [List.cons_append, List.splitOnP_cons_eq_if_modifyHead, List.splitOnP_cons_eq_if_modifyHead,
      cut, longer]
    split
    next => exact ⟨[] :: pieces, last, rfl, rfl⟩
    next => cases pieces with
      | nil => exact ⟨[], x :: last, rfl, rfl⟩
      | cons piece pieces => exact ⟨(x :: piece) :: pieces, last, rfl, rfl⟩

theorem ne_nil_of_mem_fields {text field : List Char} (member : field ∈ fields text) :
    field ≠ [] := by
  simpa using (List.mem_filter.1 member).2

theorem not_blank_of_mem_fields {text field : List Char} (member : field ∈ fields text) :
    field.any isBlank = false := by
  simp only [List.any_eq_false, Bool.not_eq_true]
  exact fun c inside => (of_mem_splitOnP (List.mem_filter.1 member).1 inside).2

theorem mem_of_mem_fields {text field : List Char} {c : Char} (member : field ∈ fields text)
    (inside : c ∈ field) : c ∈ text :=
  (of_mem_splitOnP (List.mem_filter.1 member).1 inside).1

variable {text core before after field : List Char}

def Blanks (text : List Char) : Prop := ∀ c ∈ text, isBlank c = true

structure Bare (text : List Char) : Prop where
  first : ∀ c ∈ text.head?, isBlank c = false
  last : ∀ c ∈ text.getLast?, isBlank c = false

theorem dropWhile_blanks_append (blanks : Blanks before)
    (first : ∀ c ∈ text.head?, isBlank c = false) :
    (before ++ text).dropWhile isBlank = text := by
  rw [List.dropWhile_append_of_pos blanks]
  cases text with
  | nil => rfl
  | cons c rest => rw [List.dropWhile_cons_of_neg (by simpa using first)]

theorem exists_blanks (text : List Char) :
    ∃ before, text = before ++ text.dropWhile isBlank ∧ Blanks before ∧
      ∀ c ∈ (text.dropWhile isBlank).head?, isBlank c = false := by
  refine ⟨text.takeWhile isBlank, List.takeWhile_append_dropWhile.symm, ?_, fun c member => ?_⟩
  · exact List.all_eq_true.1 List.all_takeWhile
  · have there := List.head?_dropWhile_not isBlank text
    rwa [Option.mem_def.1 member] at there

theorem exists_append_blanks (text : List Char) :
    ∃ after, text = (text.reverse.dropWhile isBlank).reverse ++ after ∧ Blanks after ∧
      ∀ c ∈ (text.reverse.dropWhile isBlank).reverse.getLast?, isBlank c = false := by
  obtain ⟨after, split, blanks, last⟩ := exists_blanks text.reverse
  refine ⟨after.reverse, ?_, ?_, ?_⟩
  · rw [← List.reverse_append, ← split, List.reverse_reverse]
  · simpa [Blanks] using blanks
  · rwa [List.getLast?_reverse]

theorem trim_append (leading : Blanks before) (bare : Bare core) (trailing : Blanks after) :
    trim (before ++ core ++ after) = core := by
  have reversed : Blanks after.reverse := by simpa [Blanks] using trailing
  cases core with
  | nil =>
    have blanks : Blanks (before ++ after) := List.forall_mem_append.2 ⟨leading, trailing⟩
    have nothing := @dropWhile_blanks_append [] _ blanks (by simp)
    rw [List.append_nil] at nothing ⊢
    rw [trim, nothing]
    rfl
  | cons c rest =>
    have first : ∀ d ∈ (c :: rest ++ after).head?, isBlank d = false := bare.first
    have last : ∀ d ∈ (c :: rest).reverse.head?, isBlank d = false := by
      rw [List.head?_reverse]
      exact bare.last
    rw [trim, List.append_assoc, dropWhile_blanks_append leading first, List.reverse_append,
      dropWhile_blanks_append reversed last, List.reverse_reverse]

theorem exists_trim (text : List Char) :
    ∃ before after, text = before ++ trim text ++ after ∧ Blanks before ∧ Blanks after ∧
      Bare (trim text) := by
  obtain ⟨before, split, leading, first⟩ := exists_blanks text
  obtain ⟨after, kept, trailing, last⟩ := exists_append_blanks (text.dropWhile isBlank)
  rw [← trim] at kept last
  refine ⟨before, after, ?_, leading, trailing, fun c member => first c ?_, last⟩
  · rw [List.append_assoc, ← kept, ← split]
  · rw [kept, List.head?_append, Option.mem_def.1 member]
    rfl

theorem fields_append_cons {c : Char} (blank : isBlank c = true) (left right : List Char) :
    fields (left ++ c :: right) = fields left ++ fields right := by
  rw [fields, List.splitOnP_append_cons left right blank, List.filter_append]
  rfl

@[simp] theorem fields_nil : fields [] = [] := rfl

theorem fields_blanks_append (blanks : Blanks before) (text : List Char) :
    fields (before ++ text) = fields text := by
  induction before with
  | nil => rfl
  | cons c rest ih =>
    rw [Blanks, List.forall_mem_cons] at blanks
    rw [List.cons_append, ← List.nil_append (c :: (rest ++ text)), fields_append_cons blanks.1,
      fields_nil, List.nil_append, ih blanks.2]

theorem fields_append_blanks (text : List Char) (blanks : Blanks after) :
    fields (text ++ after) = fields text := by
  cases after with
  | nil => rw [List.append_nil]
  | cons c rest =>
    rw [Blanks, List.forall_mem_cons] at blanks
    have skipped := fields_blanks_append blanks.2 []
    rw [fields_append_cons blanks.1, ← List.append_nil rest, skipped, fields_nil, List.append_nil]

theorem fields_of_plain (nonempty : field ≠ []) (plain : ∀ c ∈ field, isBlank c = false) :
    fields field = [field] := by
  rw [fields, List.splitOnP_eq_singleton plain]
  simp [nonempty]

end Lookahead.Text
