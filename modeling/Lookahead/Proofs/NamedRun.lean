import Lookahead.NamedEstimate
import Lookahead.Proofs.TableEntries

set_option autoImplicit false

namespace Lookahead

namespace Grammar

variable {grammar : Grammar} {a b : BitSet} {x y : SymbolSet}

structure Shows (grammar : Grammar) (numbers : BitSet) (names : SymbolSet) : Prop where
  words : numbers.words.size = BitSet.wordCount grammar.numbered.size
  inside : ∀ number, numbers.contains number = true → number < grammar.numbered.size
  mem : ∀ name, name ∈ names ↔
    name ∈ grammar.numbering ∧ numbers.contains (grammar.number name) = true

theorem Shows.names_eq (shows : grammar.Shows a x) :
    SymbolSet.ofList (a.toList.map grammar.numbered.name) = x := by
  apply SymbolSet.ext
  intro name
  rw [mem_names_of_inside shows.inside, shows.mem]

theorem Shows.eq_iff (left : grammar.Shows a x) (right : grammar.Shows b y) : a = b ↔ x = y := by
  constructor
  · rintro rfl
    rw [← left.names_eq, right.names_eq]
  · rintro rfl
    apply BitSet.ext (by rw [left.words, right.words])
    intro number
    rw [Bool.eq_iff_iff]
    by_cases bound : number < grammar.numbered.size
    next =>
      have here := (left.mem _).symm.trans (right.mem (grammar.numbered.name number))
      simpa [name_mem bound, number_name bound] using here
    next => exact iff_of_false (mt (left.inside number) bound) (mt (right.inside number) bound)

theorem Shows.bne_eq (left : grammar.Shows a x) (right : grammar.Shows b y) :
    (a != b) = (x != y) := by
  rw [Bool.eq_iff_iff, bne_iff_ne, bne_iff_ne]
  exact not_congr (left.eq_iff right)

theorem Shows.contains_epsilon (shows : grammar.Shows a x) :
    a.contains epsilonNumber = decide (epsilon ∈ x) := by
  rw [Bool.eq_iff_iff, decide_eq_true_iff, shows.mem, number_epsilon]
  exact (and_iff_right grammar.epsilon_mem).symm

theorem shows_empty (grammar : Grammar) :
    grammar.Shows (BitSet.ofSize grammar.numbered.size) SymbolSet.empty :=
  ⟨BitSet.size_ofSize _, by simp, by simp⟩

theorem Shows.insert (shows : grammar.Shows a x) {name : String}
    (member : name ∈ grammar.numbering) :
    grammar.Shows (a.insert (grammar.number name)) (x.union (SymbolSet.ofList [name])) := by
  have room : grammar.number name < a.capacity := by
    have bound := number_lt member
    rw [BitSet.capacity, shows.words, BitSet.wordCount]
    omega
  refine ⟨by rw [BitSet.size_insert, shows.words], fun number => ?_, fun other => ?_⟩
  · rw [BitSet.contains_insert, Bool.or_eq_true, decide_eq_true_eq]
    rintro (known | ⟨rfl, _⟩)
    · exact shows.inside number known
    · exact number_lt member
  · rw [SymbolSet.mem_union, shows.mem, SymbolSet.mem_ofList, List.mem_singleton,
      BitSet.contains_insert, Bool.or_eq_true, decide_eq_true_eq, and_or_left]
    apply or_congr_right
    constructor
    · rintro rfl
      exact ⟨member, rfl, room⟩
    · rintro ⟨there, same, _⟩
      exact (number_inj there member).1 same

theorem Shows.union (left : grammar.Shows a x) (right : grammar.Shows b y) :
    grammar.Shows (a.union b) (x.union y) := by
  have contains := BitSet.contains_union_of_size (left.words.trans right.words.symm)
  refine ⟨by rw [BitSet.size_union, left.words], fun number => ?_, fun name => ?_⟩
  · rw [contains, Bool.or_eq_true]
    exact Or.rec (left.inside number) (right.inside number)
  · rw [SymbolSet.mem_union, left.mem, right.mem, contains, Bool.or_eq_true, and_or_left]

theorem Shows.erase_epsilon (shows : grammar.Shows a x) :
    grammar.Shows (a.erase epsilonNumber) (x.erase epsilon) := by
  refine ⟨by rw [BitSet.size_erase, shows.words], fun number => ?_, fun name => ?_⟩
  · rw [BitSet.contains_erase, Bool.and_eq_true]
    exact fun known => shows.inside number known.1
  · rw [SymbolSet.mem_erase, shows.mem, BitSet.contains_erase, Bool.and_eq_true,
      decide_eq_true_eq, and_assoc]
    refine and_congr_right fun member => and_congr_right fun _ => not_congr ?_
    rw [← number_epsilon grammar, number_inj member grammar.epsilon_mem]

theorem Shows.unionWithout (left : grammar.Shows a x) (right : grammar.Shows b y) :
    grammar.Shows (a.unionWithout b epsilonNumber) (x.union (y.erase epsilon)) :=
  left.union right.erase_epsilon

theorem names_symbols (grammar : Grammar) :
    grammar.numbered.symbols.map grammar.numbered.name = grammar.symbols := by
  have names : (List.range grammar.numbered.size).map grammar.numbered.name = grammar.numbering := by
    apply List.ext_getElem (by simp [size_numbered])
    intro number left right
    simp [numbered, NumberedGrammar.name, right]
  have kinds : grammar.numbered.symbols =
      (List.range grammar.numbered.size).filter (grammar.occurs ∘ grammar.numbered.name) := by
    apply List.filter_congr
    intro number inside
    rw [Bool.eq_iff_iff, bne_iff_ne, ← kind_name (List.mem_range.1 inside), ne_eq,
      kind_eq_marker_iff, Bool.not_eq_false, Function.comp_apply]
  rw [kinds, symbols, ← names, List.filter_map]

theorem symbolSets_eq {sets : Nat → BitSet} {names : String → SymbolSet}
    (shows : ∀ symbol ∈ grammar.numbering,
      grammar.Shows (sets (grammar.number symbol)) (names symbol)) :
    Solver.symbolSets grammar.numbered sets =
      OrderedMap.ofList (grammar.symbols.map fun symbol => (symbol, names symbol)) := by
  rw [Solver.symbolSets, ← names_symbols, List.map_map]
  congr 1
  apply List.map_congr_left
  intro number member
  have bound := (mem_symbols_iff.1 member).1
  have here := shows _ (name_mem bound)
  rw [number_name bound] at here
  rw [here.names_eq, Function.comp_apply]

theorem isNonterminal_productions (grammar : Grammar) :
    NamedEstimate.isNonterminal grammar.productions = grammar.isNonterminal := by
  funext symbol
  rw [Bool.eq_iff_iff, isNonterminal_iff]
  simp [NamedEstimate.isNonterminal]

theorem isTerminal_productions (grammar : Grammar) (symbol : String) :
    NamedEstimate.isTerminal grammar.productions symbol = true ↔
      grammar.kind symbol = .terminal := by
  rw [kind_eq_terminal_iff, NamedEstimate.isTerminal, isNonterminal_productions, Bool.and_eq_true,
    Bool.not_eq_true', and_comm]
  refine and_congr_right fun other => ?_
  rw [← Bool.not_eq_true, isNonterminal_iff] at other
  rw [occurs, List.any_eq_true, List.any_eq_true]
  refine exists_congr fun production => and_congr_right fun member => ?_
  have apart : production.symbol ≠ symbol := fun same => other ⟨production, member, same⟩
  simp [apart]

theorem isStart_productions (grammar : Grammar) (symbol : String) :
    NamedEstimate.isStart grammar.productions symbol = true ↔ symbol = grammar.start := by
  rw [NamedEstimate.isStart, List.head?_eq_some_head grammar.nonempty, Option.any_some,
    beq_iff_eq, start, eq_comm]

end Grammar

/-- The sets of every symbol show the same names on both sides, and both sides know alike whether
one has grown. -/
structure Represents (grammar : Grammar) (estimate : Estimate) (named : NamedEstimate) : Prop where
  size : ∀ family, (estimate.sets family).size = grammar.numbered.size
  shows : ∀ family, ∀ symbol ∈ grammar.numbering,
    grammar.Shows (estimate.setOf family (grammar.number symbol)) (named.sets family symbol)
  grown : estimate.grown = named.grown

namespace Represents

variable {grammar : Grammar} {estimate : Estimate} {named : NamedEstimate} {symbol : String}

theorem initial (grammar : Grammar) :
    Represents grammar (Estimate.initial grammar.numbered)
      (NamedEstimate.initial grammar.productions) := by
  have fits := Estimate.fits_initial grammar.numbered
  refine ⟨fits.size, fun family symbol member => ?_, rfl⟩
  cases family with
  | first =>
    rw [Estimate.setOf_first_initial (Grammar.number_lt member), Grammar.kind_number member]
    simp only [NamedEstimate.initial, Grammar.isTerminal_productions]
    split
    next => exact grammar.shows_empty.insert member
    next => exact grammar.shows_empty
  | follow =>
    rw [Estimate.setOf_follow_initial (Grammar.number_lt member), Grammar.start_numbered,
      ← grammar.number_endMarker]
    simp only [NamedEstimate.initial, Grammar.isStart_productions,
      Grammar.number_inj grammar.start_mem member, eq_comm (a := grammar.start)]
    split
    next => exact grammar.shows_empty.insert grammar.endMarker_mem
    next => exact grammar.shows_empty

theorem raise {family : Family} {names : SymbolSet} (represents : Represents grammar estimate named)
    (member : symbol ∈ grammar.numbering) (change : BitSet → BitSet)
    (shows : grammar.Shows (change (estimate.setOf family (grammar.number symbol)))
      ((named.sets family symbol).union names)) :
    Represents grammar (estimate.raise family (grammar.number symbol) change)
      (named.add family symbol names) := by
  obtain ⟨size, known, grown⟩ := represents
  have bound : grammar.number symbol < (estimate.sets family).size :=
    size family ▸ Grammar.number_lt member
  refine ⟨fun other => ?_, fun other name there => ?_, ?_⟩
  · rw [Estimate.sets_raise]
    split
    next => rw [Array.size_setIfInBounds, size]
    next => exact size other
  · by_cases same : other = family
    next =>
      subst same
      rw [Estimate.setOf_raise bound]
      simp only [NamedEstimate.add, Grammar.number_inj there member, true_and]
      split
      next => exact shows
      next => exact known other name there
    next =>
      rw [Estimate.setOf_raise_of_ne same]
      simpa only [NamedEstimate.add, same, false_and, if_false] using known other name there
  · rw [Estimate.grown_raise, grown, shows.bne_eq (known family symbol member), NamedEstimate.add]

theorem beginLeft {left : String} {begins : BitSet} {names : SymbolSet}
    (represents : Represents grammar estimate named) (member : left ∈ grammar.numbering)
    (nullable : Bool) (shows : grammar.Shows begins names) :
    Represents grammar (estimate.beginLeft (grammar.number left) nullable begins)
      (if nullable then named.add .first left (names.erase epsilon) else named) := by
  cases nullable with
  | false => exact represents
  | true =>
    exact represents.raise member (fun set => set.unionWithout begins epsilonNumber)
      ((represents.shows .first left member).unionWithout shows)

theorem followPrevious {previous : Option String} {begins : BitSet} {names : SymbolSet}
    (represents : Represents grammar estimate named)
    (member : ∀ symbol ∈ previous, symbol ∈ grammar.numbering)
    (shows : grammar.Shows begins names) :
    Represents grammar
      (Estimate.followPrevious grammar.numbered estimate (previous.map grammar.number) begins)
      (match previous.filter (NamedEstimate.isNonterminal grammar.productions) with
        | some before => named.add .follow before (names.erase epsilon)
        | none => named) := by
  cases previous with
  | none => exact represents
  | some before =>
    have there := member before rfl
    simp only [Option.map_some, Estimate.followPrevious, Grammar.isNonterminal_number there,
      Grammar.isNonterminal_productions, Option.filter_some]
    split
    next =>
      exact represents.raise there (fun set => set.unionWithout begins epsilonNumber)
        ((represents.shows .follow before there).unionWithout shows)
    next => exact represents

theorem readForward {left : String} (represents : Represents grammar estimate named)
    (member : left ∈ grammar.numbering) (previous : Option String)
    (before : ∀ symbol ∈ previous, symbol ∈ grammar.numbering) (nullable : Bool)
    {symbols : List String} (inside : ∀ symbol ∈ symbols, symbol ∈ grammar.numbering) :
    let walk := (symbols.map grammar.number).foldl
      (Estimate.Walk.step grammar.numbered (grammar.number left))
      ⟨estimate, previous.map grammar.number, nullable⟩
    let read := NamedEstimate.readForward grammar.productions left named previous nullable symbols
    Represents grammar walk.estimate read.1 ∧ walk.nullable = read.2 := by
  induction symbols generalizing estimate named previous nullable with
  | nil => exact ⟨represents, rfl⟩
  | cons symbol rest ih =>
    have here := inside symbol List.mem_cons_self
    have shows := represents.shows .first symbol here
    have opened := represents.beginLeft member nullable shows
    have followed := opened.followPrevious before shows
    have next := ih followed (some symbol) (by simpa using here)
      (nullable && decide (epsilon ∈ named.sets .first symbol))
      fun later there => inside later (List.mem_cons_of_mem _ there)
    simp only [List.map_cons, List.foldl_cons, Estimate.Walk.step, NamedEstimate.readForward,
      shows.contains_epsilon]
    exact next

theorem readBackward {follows : BitSet} {names : SymbolSet}
    (represents : Represents grammar estimate named) (shows : grammar.Shows follows names)
    {symbols : List String} (inside : ∀ symbol ∈ symbols, symbol ∈ grammar.numbering) :
    Represents grammar
      (Estimate.trail grammar.numbered follows estimate (symbols.map grammar.number))
      (NamedEstimate.readBackward grammar.productions names named symbols) := by
  induction symbols generalizing estimate named with
  | nil => exact represents
  | cons symbol rest ih =>
    have here := inside symbol List.mem_cons_self
    have raised := represents.raise here (fun set => set.union follows)
      ((represents.shows .follow symbol here).union shows)
    simp only [List.map_cons, Estimate.trail, NamedEstimate.readBackward,
      Grammar.isNonterminal_number here, Grammar.isNonterminal_productions,
      (raised.shows .first symbol here).contains_epsilon, decide_eq_true_eq]
    split
    next =>
      split
      next => exact ih raised fun later there => inside later (List.mem_cons_of_mem _ there)
      next => exact raised
    next => exact represents

theorem advance {production : Production} (member : production ∈ grammar.productions)
    (represents : Represents grammar estimate named) :
    Represents grammar (estimate.applyRule grammar.numbered (grammar.numberedRule production))
      (NamedEstimate.advance grammar.productions named production) := by
  have left := Grammar.symbol_mem member
  have inside : ∀ symbol ∈ production.derivation, symbol ∈ grammar.numbering :=
    fun symbol => Grammar.derivation_mem member
  have reversed : ∀ symbol ∈ production.derivation.reverse, symbol ∈ grammar.numbering := by
    simpa using inside
  have forward := represents.readForward left none (by simp) true inside
  have backward := forward.1.readBackward (forward.1.shows .follow _ left) reversed
  rw [List.map_reverse] at backward
  have inserted := (backward.shows .first _ left).insert grammar.epsilon_mem
  rw [grammar.number_epsilon] at inserted
  have vanishing := backward.raise left (fun set => set.insert epsilonNumber) inserted
  obtain ⟨_, nullable⟩ := forward
  simp only [Option.map_none] at nullable backward vanishing
  simp only [Estimate.applyRule_eq, NamedEstimate.advance, Estimate.walked, Grammar.numberedRule,
    nullable]
  split
  next => exact vanishing
  next => exact backward

theorem pass (represents : Represents grammar estimate named) :
    Represents grammar (estimate.sweep grammar.numbered)
      (NamedEstimate.pass grammar.productions named) := by
  have fold (productions : List Production)
      (members : ∀ production ∈ productions, production ∈ grammar.productions)
      {estimate : Estimate} {named : NamedEstimate} (represents : Represents grammar estimate named) :
      Represents grammar
        ((productions.map grammar.numberedRule).foldl (Estimate.applyRule grammar.numbered) estimate)
        (productions.foldl (NamedEstimate.advance grammar.productions) named) := by
    induction productions generalizing estimate named with
    | nil => exact represents
    | cons production rest ih =>
      exact ih (fun later member => members later (List.mem_cons_of_mem _ member))
        (represents.advance (members production List.mem_cons_self))
  have cleared : Represents grammar { estimate with grown := false }
      { named with grown := false } := by
    refine ⟨fun family => ?_, fun family symbol member => ?_, rfl⟩
    · rw [Estimate.sets_cleared]
      exact represents.size family
    · rw [Estimate.setOf, Estimate.sets_cleared]
      exact represents.shows family symbol member
  exact fold grammar.productions (fun _ member => member) cleared

theorem run (grammar : Grammar) (passes : Nat) :
    Represents grammar ((Solver.ofGrammar grammar).run passes).estimate
      (NamedEstimate.afterPasses grammar.productions passes) := by
  induction passes with
  | zero => exact initial grammar
  | succ passes ih =>
    rw [Solver.estimate_run_succ]
    exact ih.pass

end Represents

namespace Solver

theorem sets_run_eq (grammar : Grammar) (passes : Nat) (family : Family) :
    ((ofGrammar grammar).run passes).tables.sets family =
      OrderedMap.ofList (grammar.symbols.map fun symbol =>
        (symbol, (NamedEstimate.afterPasses grammar.productions passes).sets family symbol)) := by
  rw [sets_tables, grammar_run]
  exact Grammar.symbolSets_eq ((Represents.run grammar passes).shows family)

theorem tables_run_eq (grammar : Grammar) (passes : Nat) :
    let plain (count : Nat) := NamedEstimate.afterPasses grammar.productions count
    let tables := ((ofGrammar grammar).run passes).tables
    tables = (plain passes).tables grammar.symbols ∧
      (∀ family, (tables.sets family).entries =
        grammar.symbols.map fun symbol => (symbol, (plain passes).sets family symbol)) ∧
      ((ofGrammar grammar).run passes).answers.reverse =
        (List.range passes).map fun earlier => (plain (earlier + 1)).grown := by
  intro plain tables
  have sets := sets_run_eq grammar passes
  refine ⟨Tables.ext_sets fun family => ?_, fun family => ?_, ?_⟩
  · cases family <;> exact sets _
  · have distinct : ((grammar.symbols.map fun symbol =>
        (symbol, (plain passes).sets family symbol)).map Prod.fst).Nodup := by
      simpa [Function.comp_def] using grammar.nodup_symbols
    rw [sets family, OrderedMap.entries_ofList distinct]
  · have fresh : (ofGrammar grammar).answers = [] := rfl
    rw [answers_run, fresh, List.append_nil, List.reverse_reverse]
    exact List.map_congr_left fun earlier _ => (Represents.run grammar (earlier + 1)).grown

end Solver

end Lookahead
