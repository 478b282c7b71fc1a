import Lookahead.NumberSet
import Lookahead.Proofs.WordOperations
import Lookahead.Registers

set_option autoImplicit false

namespace Lookahead

structure SetOperations.Refines {σ τ : Type} (fine : SetOperations σ) (coarse : SetOperations τ)
    (view : σ → τ) : Prop where
  ofSize : ∀ size, view (fine.ofSize size) = coarse.ofSize size
  clear : ∀ set, view (fine.clear set) = coarse.clear (view set)
  insert? : ∀ set bit,
    (fine.insert? set bit).map (Prod.map id view) = coarse.insert? (view set) bit
  contains? : ∀ set bit, fine.contains? set bit = coarse.contains? (view set) bit
  union? : ∀ set other excluded,
    (fine.union? set other excluded).map (Prod.map id view) =
      coarse.union? (view set) (view other) excluded
  equal : ∀ set other, fine.equal set other = coarse.equal (view set) (view other)
  toList : ∀ set, fine.toList set = coarse.toList (view set)

namespace SetOperations

open Registers

variable {σ τ : Type} {fine : SetOperations σ} {coarse : SetOperations τ} {view : σ → τ}

theorem view_put (view : σ → τ) (registers : Nat → σ) (target : Nat) (set : σ) (index : Nat) :
    view (put registers target set index) =
      put (fun index => view (registers index)) target (view set) index := by
  by_cases same : index = target <;> simp [put, same]

def viewAll (view : σ → τ) : Value × (Nat → σ) → Value × (Nat → τ) :=
  Prod.map id fun registers index => view (registers index)

theorem Refines.execute? (refines : fine.Refines coarse view) (registers : Nat → σ)
    (command : Command) :
    (fine.execute? registers command).map (viewAll view) =
      coarse.execute? (fun index => view (registers index)) command := by
  cases command with
  | ofSize target size => simp [SetOperations.execute?, viewAll, view_put, refines.ofSize]
  | ofBit target size bit =>
    have step := refines.insert? (fine.ofSize size) bit
    rw [refines.ofSize] at step
    simp [SetOperations.execute?, viewAll, ← step, Function.comp_def, view_put]
  | copy target source => simp [SetOperations.execute?, viewAll, view_put]
  | clear target => simp [SetOperations.execute?, viewAll, view_put, refines.clear]
  | insert target bit =>
    simp [SetOperations.execute?, viewAll, ← refines.insert?, Function.comp_def, view_put]
  | contains target bit =>
    simp [SetOperations.execute?, viewAll, refines.contains?, Function.comp_def]
  | union target source =>
    simp [SetOperations.execute?, viewAll, ← refines.union?, Function.comp_def, view_put]
  | unionWithout target source excluded =>
    simp [SetOperations.execute?, viewAll, ← refines.union?, Function.comp_def, view_put]
  | equal target source => simp [SetOperations.execute?, viewAll, refines.equal]
  | render target => simp [SetOperations.execute?, SetOperations.render, viewAll, refines.toList]

theorem Refines.run (refines : fine.Refines coarse view) (registers : Nat → σ)
    (commands : List Command) :
    fine.run registers commands = coarse.run (fun index => view (registers index)) commands := by
  induction commands generalizing registers with
  | nil => rfl
  | cons command rest ih =>
    have step := refines.execute? registers command
    rw [SetOperations.run, SetOperations.run, ← step]
    cases fine.execute? registers command with
    | none => rfl
    | some outcome => simp [viewAll, ih, refines.toList]

theorem Refines.after? (refines : fine.Refines coarse view) (registers : Nat → σ)
    (commands : List Command) :
    (fine.after? registers commands).map (fun registers index => view (registers index)) =
      coarse.after? (fun index => view (registers index)) commands := by
  induction commands generalizing registers with
  | nil => rfl
  | cons command rest ih =>
    have step := refines.execute? registers command
    simp only [SetOperations.after?, List.foldlM_cons] at ih ⊢
    rw [← step]
    cases fine.execute? registers command with
    | none => rfl
    | some outcome => simpa [viewAll] using ih outcome.2

end SetOperations

namespace BitSet

variable {set other : BitSet}

def view (set : BitSet) : NumberSet where
  blocks := set.words.size
  members := set.toList.toFinset
  bound := by
    intro number member
    exact lt_capacity (mem_toList.1 (List.mem_toFinset.1 member))

theorem mem_members_view {number : Nat} :
    number ∈ set.view.members ↔ set.contains number = true := by
  simp [view]

theorem view_inj : set.view = other.view ↔ set = other := by
  constructor
  · intro same
    have blocks : set.words.size = other.words.size := congrArg NumberSet.blocks same
    refine BitSet.ext blocks fun bit => ?_
    rw [Bool.eq_iff_iff, ← mem_members_view, ← mem_members_view, same]
  · exact congrArg view

theorem view_ofSize (size : Nat) : (ofSize size).view = NumberSet.ofSize size := by
  refine NumberSet.ext ?_ (Finset.ext fun number => ?_)
  · simp [view, NumberSet.ofSize, wordCount, Nat.ceilDiv_eq_add_pred_div]
  · simp [mem_members_view, NumberSet.ofSize]

theorem view_clear (set : BitSet) : set.clear.view = set.view.clear := by
  refine NumberSet.ext (by simp [view, NumberSet.clear]) (Finset.ext fun number => ?_)
  simp [mem_members_view, NumberSet.clear]

theorem view_insert? (set : BitSet) (bit : Nat) :
    set.view.insert? bit = (set.insert? bit).map fun next => (!set.contains bit, next.view) := by
  unfold insert? NumberSet.insert?
  split
  next room =>
    have inside : bit < set.capacity := room
    have next : (set.insert bit).view = set.view.add bit room := by
      refine NumberSet.ext (by simp [view, NumberSet.add]) (Finset.ext fun number => ?_)
      simp [NumberSet.add, mem_members_view, contains_insert, inside, or_comm]
    have absent : decide (bit ∉ set.view.members) = !set.contains bit := by
      simp [mem_members_view]
    simp [inside, next, absent]
  next full =>
    have outside : ¬bit < set.capacity := full
    simp [outside]

theorem view_contains? (set : BitSet) (bit : Nat) : set.view.contains? bit = set.contains? bit := by
  simp only [NumberSet.contains?, contains?, mem_members_view, Bool.decide_eq_true]
  rfl

theorem view_union (set other : BitSet) (excluded : Option Nat) :
    (set.union (other.without excluded)).view = set.view.union other.view excluded := by
  refine NumberSet.ext (by simp [view, NumberSet.union]) (Finset.ext fun number => ?_)
  have there : (other.without excluded).contains number = true ↔
      other.contains number = true ∧ some number ≠ excluded := by
    cases excluded with
    | none => simp [without]
    | some bit => simp [without, contains_erase]
  have bound : number < 64 * set.view.blocks ↔ number < set.capacity := Iff.rfl
  simp only [NumberSet.union, Finset.mem_union, Finset.mem_filter, mem_members_view,
    contains_union, Bool.or_eq_true, Bool.and_eq_true, decide_eq_true_eq, there, bound]
  rw [and_right_comm, and_assoc]

-- As the two sets have the same room, they are the same once they have the same members.
theorem union_changes_iff (set other : BitSet) (excluded : Option Nat) :
    (set.union (other.without excluded) != set) =
      decide ((set.view.union other.view excluded).members ≠ set.view.members) := by
  have same : set.union (other.without excluded) = set ↔
      (set.view.union other.view excluded).members = set.view.members := by
    rw [← view_inj, view_union, NumberSet.ext_iff]
    simp [NumberSet.union]
  rw [Bool.eq_iff_iff]
  simp [same]

theorem toList_eq_sort (set : BitSet) : set.toList = set.view.members.sort := by
  have rising := set.toList_rising
  have distinct : set.toList.Nodup := rising.imp Nat.ne_of_lt
  exact ((List.toFinset_sort (· ≤ ·) distinct).2 (rising.imp Nat.le_of_lt)).symm

theorem byWord_refines : byWord.Refines NumberSet.operations view where
  ofSize := view_ofSize
  clear set := by simp only [byWord, NumberSet.operations, wipe_eq, view_clear]
  insert? set bit := by
    simp only [byWord, NumberSet.operations, enter?_eq, view_insert?, Option.map_map]
    rfl
  contains? set bit := by
    simp only [byWord, NumberSet.operations, probe?_eq, view_contains?]
  union? set other excluded := by
    simp only [byWord, NumberSet.operations, join?_eq, NumberSet.union?, union_changes_iff]
    split
    next present =>
      have blocks : set.view.blocks ≤ other.view.blocks := present
      simp [blocks, view_union]
    next short =>
      have blocks : ¬set.view.blocks ≤ other.view.blocks := short
      simp [blocks]
  equal set other := by
    simp only [byWord, NumberSet.operations, NumberSet.equal, ← NumberSet.ext_iff, view_inj]
    rfl
  toList := toList_eq_sort

theorem byWord_eq : byWord = operations := by
  have inserted : enter? = operations.insert? := funext₂ enter?_eq
  have united : join? = operations.union? := by
    funext set other excluded
    rw [join?_eq]
    cases excluded with
    | none =>
      simp only [operations, union?, without]
      split <;> rfl
    | some bit =>
      simp only [operations, unionWithout?, unionWithout, without]
      split <;> rfl
  rw [byWord, funext wipe_eq, inserted, funext₂ probe?_eq, united]
  rfl

end BitSet

namespace NumberSet

open Registers (Command Value)
open SetOperations

variable {registers after : Nat → NumberSet} {command : Command} {value : Value} {index : Nat}

theorem blocks_of_insert? {set next : NumberSet} {number : Nat} {new : Bool}
    (done : set.insert? number = some (new, next)) : next.blocks = set.blocks := by
  simp only [insert?, Option.dite_none_right_eq_some, Option.some.injEq, Prod.mk.injEq] at done
  obtain ⟨_, _, rfl⟩ := done
  rfl

theorem blocks_of_union? {set other next : NumberSet} {excluded : Option Nat} {changed : Bool}
    (done : set.union? other excluded = some (changed, next)) : next.blocks = set.blocks := by
  simp only [union?, Option.ite_none_right_eq_some, Option.some.injEq, Prod.mk.injEq] at done
  obtain ⟨_, _, rfl⟩ := done
  rfl

theorem blocks_put {target : Nat} {set : NumberSet}
    (kept : set.blocks = (registers target).blocks) :
    (put registers target set index).blocks = (registers index).blocks := by
  by_cases same : index = target <;> simp [put, same, kept]

theorem put_other {target : Nat} {set : NumberSet} (other : target ≠ index) :
    put registers target set index = registers index := by
  simp [put, other.symm]

theorem blocks_of_execute? (done : operations.execute? registers command = some (value, after))
    (old : ¬command.Renews index) : (after index).blocks = (registers index).blocks := by
  cases command with
  | ofSize target size =>
    cases done
    exact congrArg blocks (put_other old)
  | ofBit target size bit =>
    obtain ⟨_, _, outcome⟩ := Option.map_eq_some_iff.1 done
    cases outcome
    exact congrArg blocks (put_other old)
  | copy target source =>
    cases done
    exact congrArg blocks (put_other old)
  | clear target =>
    cases done
    exact blocks_put rfl
  | insert target bit =>
    obtain ⟨_, inserted, outcome⟩ := Option.map_eq_some_iff.1 done
    cases outcome
    exact blocks_put (blocks_of_insert? inserted)
  | contains target bit =>
    obtain ⟨_, _, outcome⟩ := Option.map_eq_some_iff.1 done
    cases outcome
    rfl
  | union target source =>
    obtain ⟨_, united, outcome⟩ := Option.map_eq_some_iff.1 done
    cases outcome
    exact blocks_put (blocks_of_union? united)
  | unionWithout target source excluded =>
    obtain ⟨_, united, outcome⟩ := Option.map_eq_some_iff.1 done
    cases outcome
    exact blocks_put (blocks_of_union? united)
  | equal target source => cases done; rfl
  | render target => cases done; rfl

theorem blocks_of_after? {commands : List Command}
    (done : operations.after? registers commands = some after)
    (old : ∀ command ∈ commands, ¬command.Renews index) :
    (after index).blocks = (registers index).blocks := by
  induction commands generalizing registers with
  | nil => cases done; rfl
  | cons command rest ih =>
    simp only [after?, List.foldlM_cons, Option.bind_eq_bind, Option.bind_eq_some_iff,
      Option.map_eq_some_iff] at done
    obtain ⟨_, ⟨⟨value, next⟩, first, rfl⟩, later⟩ := done
    calc (after index).blocks
        = (next index).blocks := ih later fun command member => old command (by simp [member])
      _ = (registers index).blocks := blocks_of_execute? first (old command (by simp))

end NumberSet

namespace Registers

variable (registers : Registers)

def view : Nat → NumberSet := fun index => (registers index).view

/-- Registers of bit sets behave as registers of sets of numbers. Every command leaves its bounds
for both or for neither, gives the same value for both and leaves registers that stand for the
sets it leaves; so the replies to any commands are the same, and the bit sets after them stand for
the sets after them. The replies are also those of bit sets whose operations go from word to word,
and a register keeps its number of words as long as no command gives it a new set. A new set has as
many words as its size needs, also when they are counted in words of the machine. -/
theorem run_refines_number_sets (commands : List Command) :
    (∀ command, (registers.execute? command).map (Prod.map id view) =
      NumberSet.operations.execute? registers.view command) ∧
    registers.run commands = NumberSet.operations.run registers.view commands ∧
    registers.run commands = BitSet.byWord.run registers commands ∧
    (BitSet.byWord.after? registers commands).map view =
      NumberSet.operations.after? registers.view commands ∧
    (∀ after ∈ BitSet.byWord.after? registers commands, ∀ index,
      (∀ command ∈ commands, ¬command.Renews index) →
        (after index).words.size = (registers index).words.size) ∧
    ∀ size, size + 63 < UInt64.size →
      (BitSet.ofSize size).words.size = ((UInt64.ofNat size + 63) / 64).toNat := by
  have refines := BitSet.byWord_refines
  have last := refines.after? registers commands
  have replies : registers.run commands = BitSet.byWord.run registers commands := by
    rw [BitSet.byWord_eq, run]
  refine ⟨fun command => ?_, ?_, replies, last, ?_, fun size fits => ?_⟩
  · rw [execute?, ← BitSet.byWord_eq]
    exact refines.execute? registers command
  · rw [replies]
    exact refines.run registers commands
  · intro after done index old
    rw [Option.mem_def.1 done] at last
    exact NumberSet.blocks_of_after? last.symm old
  · rw [BitSet.size_ofSize, BitSet.wordCount_eq_toNat fits]

def atBoundary : Registers :=
  fun index => if index = 0 then BitSet.ofSize 65 else (BitSet.ofSize 128).insert 64

def crossing : List Command :=
  [.insert 0 63, .unionWithout 0 1 64, .contains 0 64, .union 0 1, .equal 0 1]

theorem run_refines_number_sets_crossing :
    (∀ command ∈ crossing, ¬command.Renews 0) ∧
    atBoundary.run crossing = NumberSet.operations.run atBoundary.view crossing ∧
    ∃ after, BitSet.byWord.after? atBoundary crossing = some after ∧
      after 0 = ((BitSet.ofSize 65).insert 63).insert 64 ∧
      NumberSet.operations.after? atBoundary.view crossing = some (view after) ∧
      (after 0).words.size = (atBoundary 0).words.size ∧
      (BitSet.ofSize 65).words.size = ((UInt64.ofNat 65 + 63) / 64).toNat := by
  have old : ∀ command ∈ crossing, ¬command.Renews 0 := by simp [crossing, Command.Renews]
  have outcome : (BitSet.byWord.after? atBoundary crossing).map (fun after => after 0) =
      some (((BitSet.ofSize 65).insert 63).insert 64) := by decide
  obtain ⟨after, done, zero⟩ := Option.map_eq_some_iff.1 outcome
  obtain ⟨_, replies, _, last, kept, counted⟩ := run_refines_number_sets atBoundary crossing
  rw [done] at last
  exact ⟨old, replies, after, done, zero, last.symm, kept after done 0 old, counted 65 (by decide)⟩

end Registers

end Lookahead
