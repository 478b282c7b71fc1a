set_option autoImplicit false

namespace Lookahead

variable {α : Type}

/-- A name begins a list of symbols: it begins one of them, and those before that one can vanish. -/
def Opens (first : α → α → Prop) (empty : α) : List α → α → Prop
  | [], _ => False
  | symbol :: rest, name =>
    first symbol name ∨ first symbol empty ∧ Opens first empty rest name

/-- A name begins what stands right after a symbol. If that is the left side, then so does all
that was found to begin the left side up to there. -/
def Adjoins (first : α → α → Prop) (empty left : α) (symbols : List α) (symbol name : α) : Prop :=
  ∃ before next after, symbols = before ++ symbol :: next :: after ∧
    (first next name ∨ next = left ∧ Opens first empty (before ++ [symbol]) name)

/-- A nonterminal of the list has only nonterminals after it, and they can vanish. -/
def Closes (nonterminal : α → Prop) (first : α → α → Prop) (empty : α) (symbols : List α)
    (symbol : α) : Prop :=
  ∃ before after, symbols = before ++ symbol :: after ∧ nonterminal symbol ∧
    ∀ later ∈ after, nonterminal later ∧ first later empty

variable {nonterminal : α → Prop} {first other : α → α → Prop} {empty : α}

theorem concat_eq_split {read before after : List α} {last symbol : α} :
    read ++ [last] = before ++ symbol :: after ↔
      (read = before ∧ last = symbol ∧ after = []) ∨
        ∃ later, after = later ++ [last] ∧ read = before ++ symbol :: later := by
  rcases List.eq_nil_or_concat after with rfl | ⟨later, final, rfl⟩
  · simp
  · have apart : before ++ symbol :: (later ++ [final]) = (before ++ symbol :: later) ++ [final] := by
      simp
    rw [List.concat_eq_append, apart]
    constructor
    · intro same
      obtain ⟨whole, end_⟩ := List.append_inj' same rfl
      simp_all
    · rintro (⟨_, _, nothing⟩ | ⟨rest, same, rfl⟩)
      · simp at nothing
      · obtain ⟨rfl, end_⟩ := List.append_inj' same rfl
        simp_all

theorem opens_append {a b : List α} {name : α} :
    Opens first empty (a ++ b) name ↔
      Opens first empty a name ∨ (∀ symbol ∈ a, first symbol empty) ∧ Opens first empty b name := by
  induction a with
  | nil => simp [Opens]
  | cons symbol rest ih =>
    simp only [List.cons_append, Opens, ih, List.mem_cons, forall_eq_or_imp]
    grind

theorem opens_iff {symbols : List α} {name : α} :
    Opens first empty symbols name ↔
      ∃ before symbol after, symbols = before ++ symbol :: after ∧
        (∀ earlier ∈ before, first earlier empty) ∧ first symbol name := by
  constructor
  · intro opens
    induction symbols with
    | nil => exact opens.elim
    | cons symbol rest ih =>
      rcases opens with here | ⟨vanishes, later⟩
      · exact ⟨[], symbol, rest, rfl, by simp, here⟩
      · obtain ⟨before, next, after, rfl, earlier, begins⟩ := ih later
        exact ⟨symbol :: before, next, after, rfl, by simpa [vanishes] using earlier, begins⟩
  · rintro ⟨before, symbol, after, rfl, earlier, begins⟩
    exact opens_append.2 (Or.inr ⟨earlier, Or.inl begins⟩)

theorem Opens.map {β : Type} {image : β → β → Prop} (rename : α → β)
    (kept : ∀ symbol name, first symbol name → image (rename symbol) (rename name))
    {symbols : List α} {name : α} (opens : Opens first empty symbols name) :
    Opens image (rename empty) (symbols.map rename) (rename name) := by
  induction symbols with
  | nil => exact opens.elim
  | cons symbol rest ih =>
    rcases opens with here | ⟨vanishes, later⟩
    · exact Or.inl (kept _ _ here)
    · exact Or.inr ⟨kept _ _ vanishes, ih later⟩

theorem Opens.mono {symbols : List α} {name : α} (opens : Opens first empty symbols name)
    (included : ∀ symbol name, first symbol name → other symbol name) :
    Opens other empty symbols name := by
  simpa using opens.map id included

theorem Closes.map {β : Type} {image : β → β → Prop} {target : β → Prop} (rename : α → β)
    (kept : ∀ symbol name, first symbol name → image (rename symbol) (rename name))
    {symbols : List α} {symbol : α} (closes : Closes nonterminal first empty symbols symbol)
    (targets : ∀ symbol ∈ symbols, nonterminal symbol → target (rename symbol)) :
    Closes target image (rename empty) (symbols.map rename) (rename symbol) := by
  obtain ⟨before, after, rfl, here, later⟩ := closes
  refine ⟨before.map rename, after.map rename, by simp, targets symbol (by simp) here, ?_⟩
  intro next member
  obtain ⟨source, inside, rfl⟩ := List.mem_map.1 member
  have known := later source inside
  exact ⟨targets source (by simp [inside]) known.1, kept _ _ known.2⟩

theorem Adjoins.mono {left symbol name : α} {symbols : List α}
    (adjoins : Adjoins first empty left symbols symbol name)
    (included : ∀ symbol name, first symbol name → other symbol name) :
    Adjoins other empty left symbols symbol name := by
  obtain ⟨before, next, after, split, here | ⟨same, opens⟩⟩ := adjoins
  · exact ⟨before, next, after, split, Or.inl (included _ _ here)⟩
  · exact ⟨before, next, after, split, Or.inr ⟨same, opens.mono included⟩⟩

theorem Closes.mono {symbols : List α} {symbol : α}
    (closes : Closes nonterminal first empty symbols symbol)
    (included : ∀ symbol name, first symbol name → other symbol name) :
    Closes nonterminal other empty symbols symbol := by
  simpa using closes.map id included fun _ _ nonterminal => nonterminal

theorem adjoins_concat {left last symbol name : α} {read : List α} :
    Adjoins first empty left (read ++ [last]) symbol name ↔
      Adjoins first empty left read symbol name ∨
        read.getLast? = some symbol ∧
          (first last name ∨ last = left ∧ Opens first empty read name) := by
  constructor
  · rintro ⟨before, next, after, split, begins⟩
    rcases concat_eq_split.1 split with ⟨_, _, nothing⟩ | ⟨later, rest, rfl⟩
    · cases nothing
    · cases later with
      | nil =>
        obtain ⟨rfl, rfl⟩ := List.cons.inj rest
        exact Or.inr ⟨by simp, begins⟩
      | cons second later =>
        obtain ⟨rfl, rfl⟩ := List.cons.inj rest
        exact Or.inl ⟨before, next, later, rfl, begins⟩
  · rintro (⟨before, next, after, rfl, begins⟩ | ⟨ends, begins⟩)
    · exact ⟨before, next, after ++ [last], by simp, begins⟩
    · obtain ⟨before, rfl⟩ := List.getLast?_eq_some_iff.1 ends
      exact ⟨before, last, [], by simp, begins⟩

@[simp] theorem closes_nil {symbol : α} : ¬Closes nonterminal first empty [] symbol := by
  simp [Closes]

theorem closes_cons {head symbol : α} {rest : List α} :
    Closes nonterminal first empty (head :: rest) symbol ↔
      (symbol = head ∧ nonterminal head ∧ ∀ later ∈ rest, nonterminal later ∧ first later empty) ∨
        Closes nonterminal first empty rest symbol := by
  constructor
  · rintro ⟨before, after, split, here, later⟩
    cases before with
    | nil =>
      obtain ⟨rfl, rfl⟩ := List.cons.inj split
      exact Or.inl ⟨rfl, here, later⟩
    | cons _ before =>
      obtain ⟨rfl, rfl⟩ := List.cons.inj split
      exact Or.inr ⟨before, after, rfl, here, later⟩
  · rintro (⟨rfl, here, later⟩ | ⟨before, after, rfl, here, later⟩)
    · exact ⟨[], rest, rfl, here, later⟩
    · exact ⟨head :: before, after, rfl, here, later⟩

theorem closes_append {a b : List α} {symbol : α} :
    Closes nonterminal first empty (a ++ b) symbol ↔
      Closes nonterminal first empty b symbol ∨
        (∀ later ∈ b, nonterminal later ∧ first later empty) ∧
          Closes nonterminal first empty a symbol := by
  induction a with
  | nil => simp
  | cons head rest ih =>
    rw [List.cons_append, closes_cons, closes_cons, ih, List.forall_mem_append]
    grind

theorem closes_concat {last symbol : α} {symbols : List α} :
    Closes nonterminal first empty (symbols ++ [last]) symbol ↔
      nonterminal last ∧
        (symbol = last ∨ first last empty ∧ Closes nonterminal first empty symbols symbol) := by
  rw [closes_append, closes_cons]
  simp only [closes_nil, List.mem_singleton, forall_eq, List.not_mem_nil, false_implies,
    implies_true, and_true, or_false]
  grind

theorem opens_congr {symbols : List α} {name : α}
    (vanish : ∀ symbol, first symbol empty ↔ other symbol empty)
    (begins : ∀ symbol, first symbol name ↔ other symbol name) :
    Opens first empty symbols name ↔ Opens other empty symbols name := by
  induction symbols with
  | nil => rfl
  | cons symbol rest ih => simp only [Opens, vanish, begins, ih]

theorem adjoins_congr {left symbol name : α} {symbols : List α}
    (vanish : ∀ symbol, first symbol empty ↔ other symbol empty)
    (begins : ∀ symbol, first symbol name ↔ other symbol name) :
    Adjoins first empty left symbols symbol name ↔ Adjoins other empty left symbols symbol name := by
  simp only [Adjoins, begins, opens_congr vanish begins]

theorem closes_congr {symbols : List α} {symbol : α}
    (same : ∀ later, first later empty ↔ other later empty) :
    Closes nonterminal first empty symbols symbol ↔ Closes nonterminal other empty symbols symbol := by
  simp only [Closes, same]

end Lookahead
