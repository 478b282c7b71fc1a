set_option autoImplicit false

namespace Lookahead

structure OrderedMap (α : Type) where
  entries : List (String × α)
  nodup : (entries.map Prod.fst).Nodup

namespace OrderedMap

variable {α : Type}

def empty : OrderedMap α := ⟨[], List.nodup_nil⟩

def keys (map : OrderedMap α) : List String := map.entries.map Prod.fst

def get? (map : OrderedMap α) (key : String) : Option α := map.entries.lookup key

def contains (map : OrderedMap α) (key : String) : Bool := (map.get? key).isSome

theorem ext {a b : OrderedMap α} (same : a.entries = b.entries) : a = b := by
  cases a; cases b; simp_all

def place (key : String) (update : Option α → α) : List (String × α) → List (String × α)
  | [] => [(key, update none)]
  | (k, value) :: rest =>
    if k = key then (k, update (some value)) :: rest else (k, value) :: place key update rest

theorem keys_place (key : String) (update : Option α → α) (entries : List (String × α)) :
    (place key update entries).map Prod.fst =
      if key ∈ entries.map Prod.fst then entries.map Prod.fst
      else entries.map Prod.fst ++ [key] := by
  induction entries with
  | nil => simp [place]
  | cons entry rest ih =>
    obtain ⟨k, value⟩ := entry
    by_cases same : k = key
    next => simp [place, same]
    next =>
      by_cases member : key ∈ rest.map Prod.fst <;>
        simp_all [place, Ne.symm same]

theorem lookup_cons (key k : String) (value : α) (rest : List (String × α)) :
    ((k, value) :: rest).lookup key = if key = k then some value else rest.lookup key := by
  by_cases same : key = k
  next => simp [same]
  next => simp [List.lookup_cons, same, beq_eq_false_iff_ne.2 same]

theorem lookup_place (key other : String) (update : Option α → α) (entries : List (String × α)) :
    (place key update entries).lookup other =
      if other = key then some (update (entries.lookup key)) else entries.lookup other := by
  induction entries with
  | nil => simp [place, lookup_cons]
  | cons entry rest ih =>
    obtain ⟨k, value⟩ := entry
    by_cases here : k = key
    next =>
      subst here
      by_cases same : other = k <;> simp [place, lookup_cons, same]
    next =>
      by_cases same : other = key
      next =>
        subst same
        simp [place, here, lookup_cons, ih, Ne.symm here]
      next => simp [place, here, lookup_cons, ih, same]

def upsert (map : OrderedMap α) (key : String) (update : Option α → α) : OrderedMap α where
  entries := place key update map.entries
  nodup := by
    rw [keys_place]
    split
    next => exact map.nodup
    next absent =>
      rw [List.nodup_append]
      refine ⟨map.nodup, by simp, ?_⟩
      intro k member l last same
      simp_all

def insert (map : OrderedMap α) (key : String) (value : α) : OrderedMap α :=
  map.upsert key fun _ => value

/-- The map of a list of pairs: a repeated key keeps its first place and takes its last value. -/
def ofList (pairs : List (String × α)) : OrderedMap α :=
  pairs.foldl (fun map (key, value) => map.insert key value) empty

def map {β : Type} (f : α → β) (source : OrderedMap α) : OrderedMap β where
  entries := source.entries.map fun (key, value) => (key, f value)
  nodup := by simpa [List.map_map, Function.comp_def] using source.nodup

theorem keys_upsert (map : OrderedMap α) (key : String) (update : Option α → α) :
    (map.upsert key update).keys =
      if key ∈ map.keys then map.keys else map.keys ++ [key] :=
  keys_place key update map.entries

theorem get?_upsert (map : OrderedMap α) (key other : String) (update : Option α → α) :
    (map.upsert key update).get? other =
      if other = key then some (update (map.get? key)) else map.get? other :=
  lookup_place key other update map.entries

@[simp] theorem get?_insert (map : OrderedMap α) (key other : String) (value : α) :
    (map.insert key value).get? other = if other = key then some value else map.get? other :=
  get?_upsert map key other _

@[simp] theorem get?_empty (key : String) : (empty : OrderedMap α).get? key = none := rfl

theorem contains_iff (map : OrderedMap α) (key : String) :
    map.contains key = true ↔ key ∈ map.keys := by
  obtain ⟨entries, nodup⟩ := map
  simp only [contains, get?, keys]
  clear nodup
  induction entries with
  | nil => simp
  | cons entry rest ih =>
    obtain ⟨k, value⟩ := entry
    by_cases same : key = k
    next => simp [same]
    next => rw [lookup_cons, if_neg same, ih]; simp [same]

def agrees [BEq α] (a b : OrderedMap α) : Bool :=
  a.entries.length == b.entries.length &&
    a.entries.all fun (key, value) => b.get? key == some value

end OrderedMap

end Lookahead
