import Lookahead.Proofs.Positions
import Mathlib.Order.Lattice.Nat

set_option autoImplicit false

namespace Lookahead

variable {α : Type} {first : α → α → Prop} {empty left symbol name : α} {symbols : List α}

theorem eq_split_iff_getElem? {before after : List α} :
    symbols = before ++ symbol :: after ↔
      ∃ place, symbols[place]? = some symbol ∧ before = symbols.take place ∧
        after = symbols.drop (place + 1) := by
  constructor
  · rintro rfl
    exact ⟨before.length, by simp, by simp, by simp⟩
  · rintro ⟨place, here, rfl, rfl⟩
    obtain ⟨inside, rfl⟩ := List.getElem?_eq_some_iff.1 here
    simp

theorem Adjoins.mem (adjoins : Adjoins first empty left symbols symbol name) : symbol ∈ symbols := by
  obtain ⟨before, next, after, rfl, _⟩ := adjoins
  simp

theorem Closes.mem {nonterminal : α → Prop} (closes : Closes nonterminal first empty symbols symbol) :
    nonterminal symbol ∧ symbol ∈ symbols := by
  obtain ⟨before, after, rfl, here, _⟩ := closes
  exact ⟨here, by simp⟩

theorem opens_take_iff {place : Nat} :
    Opens first empty (symbols.take place) name ↔
      ∃ earlier < place, (∃ symbol, symbols[earlier]? = some symbol ∧ first symbol name) ∧
        ∀ before ∈ symbols.take earlier, first before empty := by
  induction place with
  | zero => simp [Opens]
  | succ place ih =>
    rw [List.take_add_one, opens_append, ih]
    cases found : symbols[place]? <;> grind [Opens]

theorem adjoins_iff_getElem? :
    Adjoins first empty left symbols symbol name ↔
      ∃ place next, symbols[place]? = some symbol ∧ symbols[place + 1]? = some next ∧
        (first next name ∨ next = left ∧ Opens first empty (symbols.take (place + 1)) name) := by
  constructor
  · rintro ⟨before, next, after, rfl, begins⟩
    refine ⟨before.length, next, by simp, by simp, ?_⟩
    simpa [List.take_add_one] using begins
  · rintro ⟨place, next, here, there, begins⟩
    obtain ⟨inside, rfl⟩ := List.getElem?_eq_some_iff.1 there
    have before : symbols.take (place + 1) = symbols.take place ++ [symbol] := by
      rw [List.take_add_one, here]
      rfl
    have split : symbols = symbols.take (place + 1) ++ symbols[place + 1] ::
        symbols.drop (place + 2) := by simp
    rw [before] at split begins
    exact ⟨symbols.take place, _, symbols.drop (place + 2), by simpa using split, begins⟩

theorem closes_iff_getElem? {nonterminal : α → Prop} :
    Closes nonterminal first empty symbols symbol ↔
      nonterminal symbol ∧ ∃ place, symbols[place]? = some symbol ∧
        ∀ later ∈ symbols.drop (place + 1), nonterminal later ∧ first later empty := by
  simp only [Closes, eq_split_iff_getElem?]
  grind

-- So many symbols of a list are read for what the list begins with: all of them but the last one
-- can vanish.
def ReadsTo (vanishes : α → Prop) (symbols : List α) (count : Nat) : Prop :=
  count ≤ symbols.length ∧ ∀ symbol ∈ symbols.take (count - 1), vanishes symbol

theorem exists_reach (vanishes : α → Prop) (symbols : List α) :
    ∃ reach, IsGreatest {count | ReadsTo vanishes symbols count} reach := by
  have bounded : BddAbove {count | ReadsTo vanishes symbols count} :=
    ⟨symbols.length, fun _ reads => reads.1⟩
  have reached : {count | ReadsTo vanishes symbols count}.Nonempty := ⟨0, by simp [ReadsTo]⟩
  exact ⟨_, Nat.sSup_mem reached bounded, fun _ reads => le_csSup bounded reads⟩

theorem opens_iff_of_reach {reach : Nat}
    (greatest : IsGreatest {count | ReadsTo (first · empty) symbols count} reach) :
    Opens first empty symbols name ↔ ∃ symbol ∈ symbols.take reach, first symbol name := by
  have whole : Opens first empty (symbols.take symbols.length) name ↔ _ := opens_take_iff
  rw [List.take_length] at whole
  rw [whole]
  constructor
  · rintro ⟨place, inside, ⟨symbol, here, begins⟩, vanish⟩
    have reads : ReadsTo (first · empty) symbols (place + 1) := ⟨inside, vanish⟩
    have within : place < reach := greatest.2 reads
    exact ⟨symbol, List.mem_iff_getElem?.2 ⟨place, by simp [within, here]⟩, begins⟩
  · rintro ⟨symbol, member, begins⟩
    obtain ⟨place, here⟩ := List.mem_iff_getElem?.1 member
    rw [List.getElem?_take] at here
    split at here
    next within =>
      have earlier : place ≤ reach - 1 := Nat.le_sub_one_of_lt within
      exact ⟨place, (List.getElem?_eq_some_iff.1 here).1, ⟨symbol, here, begins⟩, fun before inside =>
        greatest.1.2 before (List.take_subset_take_left symbols earlier inside)⟩
    next => cases here

theorem exists_closing_run (nonterminal : α → Prop) (first : α → α → Prop) (empty : α)
    (symbols : List α) :
    ∃ before run, symbols = before ++ run ∧
      (∀ symbol ∈ run, nonterminal symbol ∧ first symbol empty) ∧
      (∀ stop, before.getLast? = some stop → ¬(nonterminal stop ∧ first stop empty)) ∧
      ∀ symbol, Closes nonterminal first empty symbols symbol ↔
        symbol ∈ run ∨ before.getLast? = some symbol ∧ nonterminal symbol := by
  induction symbols using List.reverseRecOn with
  | nil => exact ⟨[], [], rfl, by simp, by simp, by simp⟩
  | append_singleton symbols last ih =>
    by_cases passed : nonterminal last ∧ first last empty
    next =>
      obtain ⟨before, run, rfl, vanish, stops, closes⟩ := ih
      refine ⟨before, run ++ [last], by simp, ?_, stops, fun symbol => ?_⟩
      · exact List.forall_mem_append.2 ⟨vanish, by simpa using passed⟩
      · rw [closes_concat, closes, List.mem_append, List.mem_singleton]
        grind
    next =>
      refine ⟨symbols ++ [last], [], by simp, by simp, ?_, fun symbol => ?_⟩
      · rintro stop ends
        obtain rfl : last = stop := by simpa using ends
        exact passed
      · rw [closes_concat, List.getLast?_concat]
        grind

end Lookahead
