import Lookahead.BitSet.Cursor
import Lookahead.Proofs.WordOperations

set_option autoImplicit false

namespace Lookahead

namespace Word

variable {index : Nat}

theorem toNat_bit (bound : index < 64) : (bit index).toNat = 1 <<< index := by
  have fits : 1 <<< index < 2 ^ 64 := by
    rw [Nat.one_shiftLeft]
    exact Nat.pow_lt_pow_right (by decide) bound
  rw [bit, UInt64.toNat_shiftLeft, toNat_amount bound, UInt64.toNat_one, Nat.mod_eq_of_lt fits]

theorem one_le_bit (bound : index < 64) : 1 ≤ bit index := by
  have positive : 1 ≤ 1 <<< index := by
    rw [Nat.one_shiftLeft]
    exact Nat.one_le_two_pow
  rw [UInt64.le_iff_toNat_le, toNat_bit bound]
  exact positive

theorem has_bit_sub_one (bound : index < 64) (other : Nat) :
    has (bit index - 1) other = decide (other < index) := by
  rw [has_eq_testBit, UInt64.toNat_sub_of_le _ _ (one_le_bit bound), toNat_bit bound,
    Nat.one_shiftLeft]
  exact Nat.testBit_two_pow_sub_one ..

theorem atOrAbove?_eq (word : UInt64) (index : Nat) :
    atOrAbove? word index = some (word &&& ~~~(bit (index % 64) - 1)) := by
  have offset : index % 64 < 64 := Nat.mod_lt _ (by decide)
  have mask : shiftLeft? 1 (index % 64) = some (bit (index % 64)) := by
    simp [shiftLeft?, offset, bit]
  simp [atOrAbove?, mask, sub?, one_le_bit offset]

theorem has_and_not_below (word : UInt64) (bound : index < 64) (other : Nat) :
    has (word &&& ~~~(bit index - 1)) other = (has word other && decide (index ≤ other)) := by
  by_cases within : other < 64
  next =>
    have rest : (!decide (other < index)) = decide (index ≤ other) := by
      rw [← decide_not]
      exact decide_eq_decide.2 Nat.not_lt
    rw [has_and, has_not _ within, has_bit_sub_one bound, rest]
  next => simp [has_eq_false (Nat.not_lt.1 within)]

theorem trailingZeros_lt_iff (word : UInt64) : trailingZeros word < 64 ↔ word ≠ 0 := by
  have below := @BitVec.ctz_lt_iff_ne_zero 64 word.toBitVec
  rw [← UInt64.toBitVec_zero, ne_eq, UInt64.toBitVec_inj, BitVec.lt_def] at below
  exact below

theorem lowest?_eq_trailingZeros (word : UInt64) :
    lowest? word = if trailingZeros word < 64 then some (trailingZeros word) else none := by
  split
  next low =>
    have nonzero : word.toBitVec ≠ 0 := by
      rw [trailingZeros_lt_iff] at low
      simpa [← UInt64.toBitVec_inj] using low
    exact lowest?_eq_some_iff.2
      ⟨BitVec.getLsbD_true_ctz_of_ne_zero nonzero, fun _ => BitVec.getLsbD_false_of_lt_ctz⟩
  next all =>
    rw [trailingZeros_lt_iff, ne_eq, Decidable.not_not] at all
    exact lowest?_eq_none_iff.2 all

end Word

namespace BitSet

variable {set : BitSet} {position later bit : Nat}

theorem next?_eq_some_iff :
    set.next? position = some bit ↔
      position ≤ bit ∧ set.contains bit = true ∧
        ∀ other, position ≤ other → other < bit → set.contains other = false := by
  constructor
  · exact next?_eq_some
  · intro least
    obtain ⟨low, member, gap⟩ := least
    cases found : set.next? position with
    | none => simp [next?_eq_none found bit low] at member
    | some other =>
      obtain ⟨first, inside, between⟩ := next?_eq_some found
      have above : ¬bit < other := fun early => by simp [between bit low early] at member
      have below : ¬other < bit := fun early => by simp [gap other first early] at inside
      have same : other = bit := by omega
      rw [same]

theorem membersFrom_eq (set : BitSet) (position : Nat) :
    set.membersFrom position =
      match set.next? position with
      | none => []
      | some bit => bit :: set.membersFrom (bit + 1) := by
  rw [membersFrom]
  split <;> simp [*]

theorem membersFrom_of_least (low : position ≤ bit) (member : set.contains bit = true)
    (gap : ∀ other, position ≤ other → other < bit → set.contains other = false) :
    set.membersFrom position = bit :: set.membersFrom (bit + 1) := by
  rw [membersFrom_eq, next?_eq_some_iff.2 ⟨low, member, gap⟩]

theorem membersFrom_of_gap (low : position ≤ later)
    (gap : ∀ other, position ≤ other → other < later → set.contains other = false) :
    set.membersFrom position = set.membersFrom later := by
  have same : set.next? position = set.next? later := by
    cases found : set.next? later with
    | none =>
      rw [Option.eq_none_iff_forall_ne_some]
      intro bit early
      obtain ⟨first, member, _⟩ := next?_eq_some early
      by_cases before : bit < later
      next => simp [gap bit first before] at member
      next => simp [next?_eq_none found bit (Nat.not_lt.1 before)] at member
    | some bit =>
      obtain ⟨first, member, between⟩ := next?_eq_some found
      refine next?_eq_some_iff.2 ⟨Nat.le_trans low first, member, fun other start early => ?_⟩
      by_cases before : other < later
      next => exact gap other start before
      next => exact between other (Nat.not_lt.1 before) early
  rw [membersFrom_eq, same, ← membersFrom_eq]

theorem membersFrom_outside (outside : set.capacity ≤ position) :
    set.membersFrom position = [] := by
  rw [List.eq_nil_iff_forall_not_mem]
  intro bit member
  obtain ⟨low, inside⟩ := mem_membersFrom.1 member
  have bound := lt_capacity inside
  omega

namespace Cursor

variable {cursor : Cursor}

def place (cursor : Cursor) : Nat := cursor.index * 64 + cursor.bit

theorem contains_in_word (set : BitSet) (index : Nat) (bound : bit < 64) :
    set.contains (index * 64 + bit) = Word.has (set.word index) bit := by
  have word : (index * 64 + bit) / 64 = index := by omega
  have offset : (index * 64 + bit) % 64 = bit := by omega
  rw [contains, word, offset]

theorem found?_eq (inside : cursor.index < set.words.size) :
    cursor.found? set = some (if cursor.bit < 64 then
      Word.lowest? (set.word cursor.index &&& ~~~(Word.bit cursor.bit - 1)) else none) := by
  have word : set.words[cursor.index]? = some (set.word cursor.index) := by
    rw [getElem?_words, if_pos inside]
  by_cases bound : cursor.bit < 64
  next =>
    simp [found?, bound, word, Word.atOrAbove?_eq, Nat.mod_eq_of_lt bound,
      Word.lowest?_eq_trailingZeros]
  next => simp [found?, bound]

theorem of_found?_some (inside : cursor.index < set.words.size)
    (found : cursor.found? set = some (some bit)) :
    bit < 64 ∧ cursor.bit ≤ bit ∧ set.contains (cursor.index * 64 + bit) = true ∧
      ∀ other, cursor.bit ≤ other → other < bit →
        set.contains (cursor.index * 64 + other) = false := by
  rw [found?_eq inside, Option.some.injEq, Option.ite_none_right_eq_some,
    Word.lowest?_eq_some_iff] at found
  obtain ⟨bound, here, below⟩ := found
  simp only [Word.has_and_not_below _ bound, Bool.and_eq_true, decide_eq_true_eq] at here below
  have within : bit < 64 := Decidable.byContradiction fun large => by
    simp [Word.has_eq_false (Nat.not_lt.1 large)] at here
  refine ⟨within, here.2, (contains_in_word set _ within).trans here.1, fun other low early => ?_⟩
  have absent := below other early
  rw [contains_in_word set _ (Nat.lt_trans early within)]
  simpa [low] using absent

theorem of_found?_none (inside : cursor.index < set.words.size)
    (found : cursor.found? set = some none) :
    ∀ other, cursor.bit ≤ other → other < 64 →
      set.contains (cursor.index * 64 + other) = false := by
  intro other low within
  have bound : cursor.bit < 64 := Nat.lt_of_le_of_lt low within
  rw [found?_eq inside, if_pos bound, Option.some.injEq, Word.lowest?_eq_none_iff] at found
  have absent := Word.has_and_not_below (set.word cursor.index) bound other
  rw [found, Word.has_zero] at absent
  rw [contains_in_word set _ within]
  simpa [low] using absent

theorem next?_eq (set : BitSet) (bound : cursor.bit ≤ 64) :
    ∃ after : Cursor, cursor.next? set = some ((set.membersFrom cursor.place).head?, after) ∧
      after.bit ≤ 64 ∧ set.membersFrom after.place = (set.membersFrom cursor.place).tail := by
  fun_induction next? set cursor with
  | case1 cursor inside failed => simp [found?_eq inside] at failed
  | case2 cursor inside bit found =>
    obtain ⟨within, low, member, gap⟩ := of_found?_some inside found
    have rest : set.membersFrom cursor.place =
        (cursor.index * 64 + bit) :: set.membersFrom (cursor.index * 64 + bit + 1) := by
      refine membersFrom_of_least (by simp [place, low]) member fun other first early => ?_
      unfold place at first
      have absent := gap (other - cursor.index * 64) (by omega) (by omega)
      rwa [Nat.add_sub_cancel' (by omega)] at absent
    refine ⟨⟨cursor.index, bit + 1⟩, by simp [rest], within, ?_⟩
    rw [rest]
    rfl
  | case3 cursor inside found ih =>
    have rest : set.membersFrom cursor.place = set.membersFrom (place ⟨cursor.index + 1, 0⟩) := by
      refine membersFrom_of_gap ?_ fun other first early => ?_
      · simp only [place]
        omega
      · simp only [place] at first early
        have absent := of_found?_none inside found (other - cursor.index * 64) (by omega) (by omega)
        rwa [Nat.add_sub_cancel' (by omega)] at absent
    rw [rest]
    exact ih (Nat.zero_le 64)
  | case4 cursor outside =>
    have rest : set.membersFrom cursor.place = [] :=
      membersFrom_outside (by simp only [capacity, place]; omega)
    exact ⟨cursor, by simp [rest], bound, by simp [rest]⟩

theorem calls?_eq (set : BitSet) (bound : cursor.bit ≤ 64) (count : Nat) :
    cursor.calls? set count =
      some ((List.range count).map fun call => (set.membersFrom cursor.place)[call]?) := by
  induction count generalizing cursor with
  | zero => rfl
  | succ count ih =>
    obtain ⟨after, called, still, rest⟩ := next?_eq set bound
    simp [calls?, called, ih still, rest, List.range_succ_eq_map, List.head?_eq_getElem?,
      Function.comp_def]

end Cursor

def enterAll? (items : List Nat) (set : BitSet) : Option BitSet :=
  items.foldlM (fun known bit => (known.enter? bit).map Prod.snd) set

theorem enterAll?_eq_some {items : List Nat} (inside : ∀ bit ∈ items, bit < set.capacity) :
    ∃ filled, enterAll? items set = some filled ∧ filled.words.size = set.words.size ∧
      ∀ bit, filled.contains bit = (set.contains bit || decide (bit ∈ items)) := by
  induction items generalizing set with
  | nil => exact ⟨set, rfl, rfl, by simp⟩
  | cons first rest ih =>
    rw [List.forall_mem_cons] at inside
    have step : (set.enter? first).map Prod.snd = some (set.insert first) := by
      simp [enter?_eq, insert?, inside.1]
    have room : (set.insert first).capacity = set.capacity := by simp [capacity]
    obtain ⟨filled, entered, size, members⟩ := ih (room ▸ inside.2)
    refine ⟨filled, ?_, by simpa using size, fun bit => ?_⟩
    · simpa [enterAll?, step] using entered
    · simp [members, contains_insert, inside.1, Bool.or_assoc]

theorem probe?_eq_true_iff : set.probe? bit = some true ↔ set.contains bit = true := by
  rw [probe?_eq, contains?, Option.ite_none_right_eq_some, Option.some.injEq]
  exact and_iff_right_of_imp lt_capacity

theorem iteration_exact (set : BitSet) :
    set.toList.Pairwise (· < ·) ∧
    (∀ bit, bit ∈ set.toList ↔ set.probe? bit = some true) ∧
    (∀ count, Cursor.start.calls? set count =
      some ((List.range count).map fun call => set.toList[call]?)) ∧
    ∀ empty : BitSet, empty.words.size = set.words.size →
      (∀ bit, empty.probe? bit ≠ some true) → enterAll? set.toList empty = some set := by
  refine ⟨set.toList_rising, fun bit => ?_, fun count => ?_, fun empty size vacant => ?_⟩
  · rw [mem_toList, probe?_eq_true_iff]
  · have bound : Cursor.start.bit ≤ 64 := Nat.zero_le 64
    exact Cursor.calls?_eq set bound count
  · have inside : ∀ bit ∈ set.toList, bit < empty.capacity := by
      intro bit member
      rw [capacity, size]
      exact lt_capacity (mem_toList.1 member)
    obtain ⟨filled, entered, room, members⟩ := enterAll?_eq_some inside
    have same : filled = set := by
      refine ext (room.trans size) fun bit => ?_
      have absent : empty.contains bit = false := by
        simpa [probe?_eq_true_iff] using vacant bit
      simp [members, absent]
    rw [entered, same]

theorem iteration_exact_crossing :
    let set := (((ofSize 256).insert 255).insert 64).insert 63
    Cursor.start.calls? set 5 = some [some 63, some 64, some 255, none, none] ∧
      (ofSize 200).words.size = set.words.size ∧
      (∀ bit, (ofSize 200).probe? bit ≠ some true) ∧
      enterAll? [63, 64, 255] (ofSize 200) = some set := by
  intro set
  have members : set.toList = [63, 64, 255] := by decide +kernel
  have size : (ofSize 200).words.size = set.words.size := by decide
  have vacant (bit : Nat) : (ofSize 200).probe? bit ≠ some true := by
    simp [probe?_eq_true_iff]
  obtain ⟨_, _, calls, again⟩ := iteration_exact set
  rw [members] at calls again
  exact ⟨calls 5, size, vacant, again (ofSize 200) size vacant⟩

end BitSet

end Lookahead
