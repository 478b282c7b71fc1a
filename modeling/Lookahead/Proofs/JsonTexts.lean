import Lookahead.Json.Reader
import Mathlib.Data.List.Basic

set_option autoImplicit false

namespace Lookahead

namespace Json

variable {outer : List Frame}

theorem itemChars_eq (items : List Json) : itemChars items = items.map chars := by
  induction items with
  | nil => rfl
  | cons item rest ih => rw [itemChars, ih, List.map_cons]

def fieldText (field : String × Json) : List Char := quote field.1 ++ ':' :: chars field.2

theorem fieldChars_eq (fields : List (String × Json)) : fieldChars fields = fields.map fieldText := by
  induction fields with
  | nil => rfl
  | cons field rest ih =>
    rw [fieldChars, ih, List.map_cons]
    rfl

theorem intercalate_cons (separator first : List Char) (rest : List (List Char)) :
    separator.intercalate (first :: rest) = first ++ rest.flatMap (separator ++ ·) := by
  induction rest generalizing first with
  | nil => simp
  | cons second rest ih =>
    rw [List.intercalate_cons_cons, ih, List.flatMap_cons, List.append_assoc, List.append_assoc]

namespace Reader

theorem run?_cons (reader : Reader) (c : Char) (rest : List Char) :
    reader.run? (c :: rest) = (reader.step? c).bind fun next => next.run? rest := by
  rw [run?, List.foldlM_cons]
  rfl

theorem run?_append (reader : Reader) (a b : List Char) :
    reader.run? (a ++ b) = (reader.run? a).bind fun next => next.run? b := by
  rw [run?, List.foldlM_append]
  rfl

theorem run?_append_of_eq {reader next : Reader} {a : List Char} (reached : reader.run? a = some next)
    (b : List Char) : reader.run? (a ++ b) = next.run? b := by
  rw [run?_append, reached, Option.bind_some]

end Reader

theorem hexDigit?_digitChar : ∀ digit < 16, hexDigit? (Nat.digitChar digit) = some digit := by
  decide

theorem not_surrogate (c : Char) : ¬(0xd800 ≤ c.toNat ∧ c.toNat < 0xe000) := by
  have valid : c.toNat < 0xd800 ∨ 0xdfff < c.toNat ∧ c.toNat < 0x110000 := c.valid
  omega

namespace Quoted

theorem step?_of_plain {quoted : Quoted} {c : Char} (half : quoted.half = none)
    (escape : quoted.escape = .outside) (backslash : c ≠ '\\') (printed : 0x20 ≤ c.toNat) :
    quoted.step? c = some (quoted.push c) := by
  simp [step?, half, escape, backslash, printed]

theorem step?_digit {quoted : Quoted} {c : Char} {later value digit : Nat}
    (escape : quoted.escape = .code (later + 1) value) (known : hexDigit? c = some digit) :
    quoted.step? c = some { quoted with escape := .code later (16 * value + digit) } := by
  rw [step?, escape]
  simp only [known, Option.bind_eq_bind, Option.bind_some]

theorem step?_last_digit {quoted : Quoted} {c : Char} {value digit : Nat}
    (escape : quoted.escape = .code 0 value) (known : hexDigit? c = some digit) :
    quoted.step? c = quoted.enter? (16 * value + digit) := by
  rw [step?, escape]
  simp only [known, Option.bind_eq_bind, Option.bind_some]

theorem enter?_toNat {quoted : Quoted} (half : quoted.half = none) (c : Char) :
    quoted.enter? c.toNat = some (quoted.push c) := by
  have whole := not_surrogate c
  have first : ¬(0xd800 ≤ c.toNat ∧ c.toNat < 0xdc00) := by omega
  have second : ¬(0xdc00 ≤ c.toNat ∧ c.toNat < 0xe000) := by omega
  simp only [enter?, half, first, second, if_false, Char.ofNat_toNat]

end Quoted

namespace Reader

variable {read : List Char} {fields : Option (List (String × Json))} {outer : List Frame}

theorem step?_inText {quoted : Quoted} {c : Char} (inside : ¬(c = '"' ∧ quoted.complete)) :
    (Reader.inText quoted fields outer).step? c =
      (quoted.step? c).map fun quoted => .inText quoted fields outer := by
  rw [step?, inGap, if_neg (by simp), advance?, if_neg inside]

theorem step?_close {quoted : Quoted} (complete : quoted.complete = true) :
    (Reader.inText quoted fields outer).step? '"' = some (closeText quoted.text fields outer) := by
  rw [step?, inGap, if_neg (by simp), advance?, if_pos ⟨rfl, complete⟩]

theorem run?_digits {c : Char} (control : c.toNat < 0x20) :
    (Reader.inText { read, escape := .code 1 0 } fields outer).run?
        [Nat.digitChar (c.toNat / 16), Nat.digitChar (c.toNat % 16)] =
      some (.inText { read := c :: read } fields outer) := by
  have high := hexDigit?_digitChar (c.toNat / 16) (by omega)
  have low := hexDigit?_digitChar (c.toNat % 16) (by omega)
  have value : 16 * (c.toNat / 16) + c.toNat % 16 = c.toNat := Nat.div_add_mod _ _
  rw [run?_cons, step?_inText (by rintro ⟨_, ⟨⟩⟩),
    Quoted.step?_digit rfl high, Option.map_some, Option.bind_some, run?_cons,
    step?_inText (by rintro ⟨_, ⟨⟩⟩), Quoted.step?_last_digit rfl low,
    Nat.mul_zero, Nat.zero_add, value, Quoted.enter?_toNat rfl c]
  rfl

-- A case for each way to write a character. Only where it is written by its number does the way of
-- reading it depend on which one it is.
theorem run?_escape (c : Char) :
    (Reader.inText { read } fields outer).run? (escape c) =
      some (.inText { read := c :: read } fields outer) := by
  rw [escape]
  split
  next same => rw [same]; rfl
  next quote =>
  split
  next same => rw [same]; rfl
  next backslash =>
  split
  next same => rw [same]; rfl
  split
  next same => rw [same]; rfl
  split
  next same => rw [same]; rfl
  split
  next same => rw [same]; rfl
  split
  next same => rw [same]; rfl
  split
  next control =>
    have begun : (Reader.inText { read } fields outer).run? ['\\', 'u', '0', '0'] =
        some (.inText { read, escape := .code 1 0 } fields outer) := rfl
    exact (run?_append_of_eq begun _).trans (run?_digits control)
  next printed =>
    rw [run?_cons, step?_inText (fun inside => quote inside.1),
      Quoted.step?_of_plain rfl rfl backslash (Nat.not_lt.1 printed)]
    rfl

theorem run?_escapes (text : List Char) :
    (Reader.inText { read } fields outer).run? (text.flatMap escape) =
      some (.inText { read := text.reverse ++ read } fields outer) := by
  induction text generalizing read with
  | nil => rfl
  | cons c rest ih =>
    rw [List.flatMap_cons, run?_append_of_eq (run?_escape c), ih, List.reverse_cons,
      List.append_assoc, List.singleton_append]

theorem run?_quote {reader : Reader} (opened : reader.run? ['"'] = some (.inText {} fields outer))
    (text : String) : reader.run? (quote text) = some (closeText text fields outer) := by
  have split : quote text = ['"'] ++ (text.toList.flatMap escape ++ ['"']) := rfl
  have whole : ({ read := text.toList.reverse } : Quoted).text = text := by
    rw [Quoted.text, List.reverse_reverse, String.ofList_toList]
  rw [split, run?_append_of_eq opened, run?_append_of_eq (run?_escapes text.toList),
    List.append_nil, run?_cons, step?_close rfl, whole]
  rfl

end Reader

/-- In any place where a value may stand, the text of this value is read, and then the value has
been read and nothing more. -/
def Reads (value : Json) : Prop :=
  ∀ outer, (Reader.beforeValue outer).run? value.chars = some (.afterValue value outer)

namespace Reader

theorem run?_first_item {value : Json} {stack : List Frame} {text : List Char}
    (reached : (Reader.beforeValue (.items [] :: outer)).run? text =
      some (.afterValue value stack)) :
    (Reader.beforeFirstItem outer).run? text = some (.afterValue value stack) := by
  induction text with
  | nil => cases reached
  | cons c rest ih =>
    rw [run?_cons] at reached ⊢
    by_cases gap : isGap c = true
    next =>
      simp only [step?, inGap, gap, if_true, Option.bind_some] at reached ⊢
      exact ih reached
    next =>
      by_cases closed : c = ']'
      next =>
        subst closed
        cases reached
      next => simpa [step?, inGap, gap, advance?, closed] using reached

theorem run?_items {first : Json} {rest read : List Json} (reads : ∀ item ∈ rest, item.Reads) :
    (Reader.afterValue first (.items read :: outer)).run?
        ((rest.map chars).flatMap ([','] ++ ·) ++ [']']) =
      some (.afterValue (.array (read.reverse ++ first :: rest)) outer) := by
  induction rest generalizing first read with
  | nil =>
    rw [List.append_cons, List.append_nil, ← List.reverse_cons]
    rfl
  | cons second rest ih =>
    rw [List.forall_mem_cons] at reads
    have comma : (Reader.afterValue first (.items read :: outer)).run? [','] =
        some (.beforeValue (.items (first :: read) :: outer)) := rfl
    rw [List.map_cons, List.flatMap_cons, List.append_assoc, List.append_assoc,
      run?_append_of_eq comma, run?_append_of_eq (reads.1 _), ih reads.2, List.reverse_cons,
      List.append_assoc, List.singleton_append]

theorem run?_field {reader : Reader} {name : String} {value : Json} {read : List (String × Json)}
    (opened : reader.run? ['"'] = some (.inText {} (some read) outer)) (reads : value.Reads) :
    reader.run? (fieldText (name, value)) =
      some (.afterValue value (.fields read name :: outer)) := by
  rw [fieldText, run?_append_of_eq (run?_quote opened name), run?_cons]
  exact reads _

theorem run?_fields {name : String} {first : Json} {rest read : List (String × Json)}
    (reads : ∀ field ∈ rest, field.2.Reads) :
    (Reader.afterValue first (.fields read name :: outer)).run?
        ((rest.map fieldText).flatMap ([','] ++ ·) ++ ['\x7d']) =
      some (.afterValue (.object (read.reverse ++ (name, first) :: rest)) outer) := by
  induction rest generalizing name first read with
  | nil =>
    rw [List.append_cons, List.append_nil, ← List.reverse_cons]
    rfl
  | cons second rest ih =>
    rw [List.forall_mem_cons] at reads
    have comma : (Reader.afterValue first (.fields read name :: outer)).run? [','] =
        some (.beforeField ((name, first) :: read) outer) := rfl
    rw [List.map_cons, List.flatMap_cons, List.append_assoc, List.append_assoc,
      run?_append_of_eq comma, run?_append_of_eq (run?_field rfl reads.1), ih reads.2,
      List.reverse_cons, List.append_assoc, List.singleton_append]

end Reader

theorem reads_text (text : String) : (Json.text text).Reads := by
  intro outer
  have opened : (Reader.beforeValue outer).run? ['"'] = some (.inText {} none outer) := rfl
  rw [chars, Reader.run?_quote opened]
  rfl

theorem reads_array {items : List Json} (reads : ∀ item ∈ items, item.Reads) :
    (Json.array items).Reads := by
  intro outer
  rw [chars, itemChars_eq]
  cases items with
  | nil => rfl
  | cons first rest =>
    rw [List.forall_mem_cons] at reads
    have opened : (Reader.beforeValue outer).run? ['['] = some (.beforeFirstItem outer) := rfl
    rw [List.map_cons, intercalate_cons, ← List.singleton_append, List.append_assoc,
      List.append_assoc, Reader.run?_append_of_eq opened,
      Reader.run?_append_of_eq (Reader.run?_first_item (reads.1 _)), Reader.run?_items reads.2]
    rfl

theorem reads_object {fields : List (String × Json)} (reads : ∀ field ∈ fields, field.2.Reads) :
    (Json.object fields).Reads := by
  intro outer
  rw [chars, fieldChars_eq]
  cases fields with
  | nil => rfl
  | cons first rest =>
    rw [List.forall_mem_cons] at reads
    have opened : (Reader.beforeValue outer).run? ['\x7b'] = some (.beforeFirstField outer) := rfl
    rw [List.map_cons, intercalate_cons, ← List.singleton_append, List.append_assoc,
      List.append_assoc, Reader.run?_append_of_eq opened,
      Reader.run?_append_of_eq (Reader.run?_field rfl reads.1), Reader.run?_fields reads.2]
    rfl

theorem read?_render {value : Json} (reads : value.Reads) : read? value.render = some value := by
  rw [read?, render, String.toList_ofList, reads]

theorem eq_of_render_eq {a b : Json} (left : a.Reads) (right : b.Reads)
    (same : a.render = b.render) : a = b := by
  have read := congrArg read? same
  rwa [read?_render left, read?_render right, Option.some.injEq] at read

example : (read? " [ \"\\u00e9\\ud83d\\ude00\\/\" , \x7b\"a\" : []\x7d ]").map render =
    some "[\"é😀/\",\x7b\"a\":[]\x7d]" := by
  decide +kernel

end Json

end Lookahead
