import Lookahead.Grammar.Interning
import Lookahead.Proofs.Numbering

set_option autoImplicit false

namespace Lookahead

theorem eraseDups_concat (names : List String) (name : String) :
    (names ++ [name]).eraseDups =
      if name ∈ names then names.eraseDups else names.eraseDups ++ [name] := by
  rw [List.eraseDups_append]
  split <;> simp_all [List.removeAll, List.eraseDups_cons]

theorem set_map_idxOf {α : Type} (f g : String → α) {names : List String} (distinct : names.Nodup)
    (name : String) (agree : ∀ other, other ≠ name → g other = f other) :
    (names.map f).set (names.idxOf name) (g name) = names.map g := by
  induction names with
  | nil => rfl
  | cons head rest ih =>
    rw [List.nodup_cons] at distinct
    by_cases same : head = name
    next =>
      subst same
      have others : rest.map f = rest.map g := by
        apply List.map_congr_left
        intro other member
        refine (agree other ?_).symm
        rintro rfl
        exact distinct.1 member
      simp [others]
    next => simp [List.idxOf_cons_ne rest same, ih distinct.2, agree head same]

namespace Grammar

variable {grammar : Grammar} {seen rest : List String} {name : String}

def namesAfter (seen : List String) : List String := (epsilon :: endMarker :: seen).eraseDups

def kindAfter (grammar : Grammar) (seen : List String) (name : String) : SymbolKind :=
  if name ∈ seen then grammar.writtenKind name else .marker

-- The table once the given names have got their numbers in turn.
def tableAfter (grammar : Grammar) (seen : List String) : SymbolTable where
  names := namesAfter seen
  kinds := (namesAfter seen).map (grammar.kindAfter seen)

theorem namesAfter_concat (seen : List String) (name : String) :
    namesAfter (seen ++ [name]) =
      if name ∈ namesAfter seen then namesAfter seen else namesAfter seen ++ [name] := by
  have concat := eraseDups_concat (epsilon :: endMarker :: seen) name
  simpa only [namesAfter, List.cons_append, List.mem_eraseDups] using concat

theorem kindAfter_concat (grammar : Grammar) (seen : List String) (name other : String) :
    grammar.kindAfter (seen ++ [name]) other =
      if other = name then grammar.writtenKind name else grammar.kindAfter seen other := by
  by_cases same : other = name <;> simp [kindAfter, same]

theorem nodup_namesAfter (seen : List String) : (namesAfter seen).Nodup := nodup_eraseDups _

theorem tableAfter_known (grammar : Grammar) (known : name ∈ namesAfter seen) :
    grammar.tableAfter (seen ++ [name]) =
      { names := namesAfter seen
        kinds := (grammar.tableAfter seen).kinds.set ((namesAfter seen).idxOf name)
          (grammar.writtenKind name) } := by
  have kinds := set_map_idxOf (grammar.kindAfter seen) (grammar.kindAfter (seen ++ [name]))
    (nodup_namesAfter seen) name
    (fun other different => by rw [kindAfter_concat, if_neg different])
  rw [kindAfter_concat, if_pos rfl] at kinds
  simp [tableAfter, namesAfter_concat, known, kinds]

theorem tableAfter_new (grammar : Grammar) (absent : name ∉ namesAfter seen) :
    grammar.tableAfter (seen ++ [name]) =
      { names := namesAfter seen ++ [name]
        kinds := (grammar.tableAfter seen).kinds ++ [grammar.writtenKind name] } := by
  have kinds : (namesAfter seen).map (grammar.kindAfter (seen ++ [name])) =
      (namesAfter seen).map (grammar.kindAfter seen) := by
    apply List.map_congr_left
    intro other inside
    rw [kindAfter_concat, if_neg]
    rintro rfl
    exact absent inside
  simp [tableAfter, namesAfter_concat, absent, kinds, kindAfter_concat]

theorem number_eq_idxOf (written : grammar.occurrences = seen ++ name :: rest) :
    grammar.number name = (namesAfter seen).idxOf name := by
  have later : ∃ more, grammar.numbering = namesAfter (seen ++ [name]) ++ more := by
    have split : epsilon :: endMarker :: grammar.occurrences =
        (epsilon :: endMarker :: (seen ++ [name])) ++ rest := by simp [written]
    rw [numbering, split, List.eraseDups_append]
    exact ⟨_, rfl⟩
  obtain ⟨more, split⟩ := later
  have member : name ∈ namesAfter (seen ++ [name]) := by
    simp [namesAfter, List.mem_eraseDups]
  rw [number, split, List.idxOf_append_of_mem member, namesAfter_concat]
  split
  next => rfl
  next absent => simp [List.idxOf_append, absent]

variable (few : grammar.numbering.length ≤ SymbolTable.numberLimit)

include few in
theorem run_intern? (seen : List String) (name : String) (rest : List String)
    (written : grammar.occurrences = seen ++ name :: rest) :
    (grammar.intern? name).run (grammar.tableAfter seen) =
      some (grammar.number name, grammar.tableAfter (seen ++ [name])) := by
  have number := number_eq_idxOf written
  have fits : ¬SymbolTable.numberLimit ≤ (namesAfter seen).idxOf name := by
    have member : name ∈ grammar.occurrences := by simp [written]
    have bound := number_lt (mem_numbering_of_occurrence member)
    rw [number, size_numbered] at bound
    omega
  have names : (grammar.tableAfter seen).names = namesAfter seen := rfl
  have size : (grammar.tableAfter seen).kinds.length = (namesAfter seen).length := by
    simp [tableAfter]
  rw [number]
  by_cases known : name ∈ namesAfter seen
  next =>
    have inside := List.idxOf_lt_length_of_mem known
    rw [tableAfter_known grammar known]
    simp [StateT.run, intern?, names, size, fits, known, Nat.ne_of_lt inside, inside]
  next =>
    have next := List.idxOf_eq_length known
    rw [tableAfter_new grammar known]
    simp only [next] at fits
    simp [StateT.run, intern?, names, size, fits, known]

include few in
theorem run_mapM_intern? (seen names rest : List String)
    (written : grammar.occurrences = seen ++ names ++ rest) :
    (names.mapM grammar.intern?).run (grammar.tableAfter seen) =
      some (names.map grammar.number, grammar.tableAfter (seen ++ names)) := by
  induction names generalizing seen with
  | nil => simp
  | cons name names ih =>
    have first := run_intern? few seen name (names ++ rest) (by simpa using written)
    have later := ih (seen ++ [name]) (by simpa using written)
    rw [List.mapM_cons, StateT.run_bind, first]
    simp [later]

include few in
theorem run_internRule? (seen : List String) (production : Production) (rest : List String)
    (written : grammar.occurrences =
      seen ++ (production.symbol :: production.derivation) ++ rest) :
    (grammar.internRule? production).run (grammar.tableAfter seen) =
      some (grammar.numberedRule production,
        grammar.tableAfter (seen ++ production.symbol :: production.derivation)) := by
  have left := run_intern? few seen production.symbol (production.derivation ++ rest)
    (by simpa using written)
  have right := run_mapM_intern? few (seen ++ [production.symbol]) production.derivation rest
    (by simpa using written)
  rw [internRule?, StateT.run_bind, left]
  simp [right, numberedRule]

include few in
theorem run_mapM_internRule? (seen : List String) (productions : List Production)
    (rest : List String)
    (written : grammar.occurrences = seen ++
      (productions.flatMap fun production => production.symbol :: production.derivation) ++ rest) :
    (productions.mapM grammar.internRule?).run (grammar.tableAfter seen) =
      some (productions.map grammar.numberedRule, grammar.tableAfter (seen ++
        productions.flatMap fun production => production.symbol :: production.derivation)) := by
  induction productions generalizing seen with
  | nil => simp
  | cons production productions ih =>
    have first := run_internRule? few seen production
      ((productions.flatMap fun later => later.symbol :: later.derivation) ++ rest)
      (by simpa using written)
    have later := ih (seen ++ production.symbol :: production.derivation) (by simpa using written)
    rw [List.mapM_cons, StateT.run_bind, first]
    simp [later]

theorem kindAfter_occurrences (grammar : Grammar) :
    grammar.kindAfter grammar.occurrences = grammar.kind := by
  funext name
  rw [kindAfter, kind, writtenKind]
  by_cases nonterminal : grammar.isNonterminal name = true
  next => simp [nonterminal, ← occurs_iff, occurs_of_isNonterminal nonterminal]
  next => simp [nonterminal, ← occurs_iff]

include few in
theorem numbered?_eq : grammar.numbered? = some grammar.numbered := by
  have made := run_mapM_internRule? few [] grammar.productions [] (by simp [occurrences])
  have final : grammar.tableAfter grammar.occurrences =
      ⟨grammar.numbering, grammar.numbering.map grammar.kind⟩ := by
    rw [tableAfter, kindAfter_occurrences]
    rfl
  have start : grammar.tableAfter [] = SymbolTable.initial := rfl
  have first : grammar.productions.head? = some (grammar.productions.head grammar.nonempty) :=
    List.head?_eq_some_head grammar.nonempty
  rw [List.nil_append, ← occurrences, final, start] at made
  simp [numbered?, made, first, numbered, numberedRule, number, Grammar.start]

end Grammar

end Lookahead
