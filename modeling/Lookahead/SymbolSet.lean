set_option autoImplicit false

namespace Lookahead

structure SymbolSet where
  toList : List String
  rising : toList.Pairwise (· < ·)
deriving DecidableEq

namespace SymbolSet

instance : Membership String SymbolSet := ⟨fun set symbol => symbol ∈ set.toList⟩

instance (symbol : String) (set : SymbolSet) : Decidable (symbol ∈ set) :=
  inferInstanceAs (Decidable (symbol ∈ set.toList))

theorem mem_toList {symbol : String} {set : SymbolSet} : symbol ∈ set.toList ↔ symbol ∈ set :=
  Iff.rfl

def empty : SymbolSet := ⟨[], List.Pairwise.nil⟩

def insertInto (symbol : String) : List String → List String
  | [] => [symbol]
  | head :: rest =>
    if symbol < head then symbol :: head :: rest
    else if symbol = head then head :: rest
    else head :: insertInto symbol rest

theorem mem_insertInto {symbol other : String} {symbols : List String} :
    other ∈ insertInto symbol symbols ↔ other = symbol ∨ other ∈ symbols := by
  induction symbols with
  | nil => simp [insertInto]
  | cons head rest ih =>
    simp only [insertInto]
    split
    next => simp
    next =>
      split
      next same => simp [same]
      next => simp only [List.mem_cons, ih]; grind

theorem rising_insertInto {symbol : String} {symbols : List String}
    (rising : symbols.Pairwise (· < ·)) : (insertInto symbol symbols).Pairwise (· < ·) := by
  induction symbols with
  | nil => simp [insertInto]
  | cons head rest ih =>
    rw [List.pairwise_cons] at rising
    simp only [insertInto]
    split
    next below =>
      refine List.pairwise_cons.2 ⟨?_, List.pairwise_cons.2 rising⟩
      intro other member
      rcases List.mem_cons.1 member with rfl | later
      · exact below
      · exact String.lt_trans below (rising.1 other later)
    next above =>
      split
      next => exact List.pairwise_cons.2 rising
      next different =>
        refine List.pairwise_cons.2 ⟨?_, ih rising.2⟩
        intro other member
        rcases mem_insertInto.1 member with rfl | later
        · exact Decidable.byContradiction fun stuck =>
            different (String.le_antisymm (String.not_lt.1 stuck) (String.not_lt.1 above))
        · exact rising.1 other later

def insert (set : SymbolSet) (symbol : String) : SymbolSet :=
  ⟨insertInto symbol set.toList, rising_insertInto set.rising⟩

def ofList (symbols : List String) : SymbolSet :=
  symbols.foldr (fun symbol set => set.insert symbol) empty

@[simp] theorem not_mem_empty (symbol : String) : symbol ∉ empty := by simp [← mem_toList, empty]

@[simp] theorem mem_insert {symbol other : String} {set : SymbolSet} :
    other ∈ set.insert symbol ↔ other = symbol ∨ other ∈ set :=
  mem_insertInto

@[simp] theorem mem_ofList {symbol : String} {symbols : List String} :
    symbol ∈ ofList symbols ↔ symbol ∈ symbols := by
  induction symbols with
  | nil => simp [ofList]
  | cons head rest ih => simpa [ofList] using or_congr_right ih

def union (set other : SymbolSet) : SymbolSet :=
  other.toList.foldr (fun symbol known => known.insert symbol) set

@[simp] theorem mem_union {symbol : String} {set other : SymbolSet} :
    symbol ∈ set.union other ↔ symbol ∈ set ∨ symbol ∈ other := by
  rw [union, ← @mem_toList _ other]
  induction other.toList with
  | nil => simp
  | cons head rest ih => simp [ih]; grind

def erase (set : SymbolSet) (symbol : String) : SymbolSet :=
  ⟨set.toList.filter (· != symbol), set.rising.filter _⟩

@[simp] theorem mem_erase {symbol other : String} {set : SymbolSet} :
    other ∈ set.erase symbol ↔ other ∈ set ∧ other ≠ symbol := by
  simp [← mem_toList, erase]

theorem eq_of_rising {a b : List String} (left : a.Pairwise (· < ·)) (right : b.Pairwise (· < ·))
    (same : ∀ symbol, symbol ∈ a ↔ symbol ∈ b) : a = b := by
  induction a generalizing b with
  | nil => cases b with
    | nil => rfl
    | cons y ys => exact absurd ((same y).2 (List.mem_cons_self ..)) (by simp)
  | cons x xs ih => cases b with
    | nil => exact absurd ((same x).1 (List.mem_cons_self ..)) (by simp)
    | cons y ys =>
      rw [List.pairwise_cons] at left right
      have first : x = y := by
        rcases List.mem_cons.1 ((same x).1 (List.mem_cons_self ..)) with equal | later
        · exact equal
        · rcases List.mem_cons.1 ((same y).2 (List.mem_cons_self ..)) with equal | also
          · exact equal.symm
          · exact absurd (left.1 y also) (String.lt_asymm (right.1 x later))
      subst first
      congr 1
      refine ih left.2 right.2 fun symbol => ⟨fun member => ?_, fun member => ?_⟩
      · rcases List.mem_cons.1 ((same symbol).1 (List.mem_cons_of_mem _ member)) with equal | later
        · exact absurd (left.1 symbol member) (equal ▸ String.lt_irrefl _)
        · exact later
      · rcases List.mem_cons.1 ((same symbol).2 (List.mem_cons_of_mem _ member)) with equal | later
        · exact absurd (right.1 symbol member) (equal ▸ String.lt_irrefl _)
        · exact later

theorem ext {a b : SymbolSet} (same : ∀ symbol, symbol ∈ a ↔ symbol ∈ b) : a = b := by
  obtain ⟨xs, left⟩ := a
  obtain ⟨ys, right⟩ := b
  have equal : xs = ys := eq_of_rising left right same
  subst equal
  rfl

end SymbolSet

end Lookahead
