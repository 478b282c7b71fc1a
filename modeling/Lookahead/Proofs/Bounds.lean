import Lookahead.GuardedSolver
import Lookahead.Proofs.Interning
import Lookahead.Proofs.LifeCycle

set_option autoImplicit false

namespace Lookahead

theorem mapM_eq_some_map {α β : Type} {f : α → Option β} {g : α → β} {items : List α}
    (each : ∀ item ∈ items, f item = some (g item)) : items.mapM f = some (items.map g) := by
  induction items with
  | nil => rfl
  | cons item rest ih =>
    rw [List.forall_mem_cons] at each
    rw [List.mapM_cons, each.1, ih each.2]
    rfl

-- A checked step succeeds only in the states that the steps before it can leave behind.
theorem foldlM_eq_some_foldl {α β : Type} {f : β → α → Option β} {g : β → α → β}
    (keeps : β → Prop) {items : List α}
    (step : ∀ item ∈ items, ∀ state, keeps state →
      f state item = some (g state item) ∧ keeps (g state item))
    {state : β} (start : keeps state) : items.foldlM f state = some (items.foldl g state) := by
  induction items generalizing state with
  | nil => rfl
  | cons item rest ih =>
    rw [List.forall_mem_cons] at step
    obtain ⟨here, kept⟩ := step.1 state start
    rw [List.foldlM_cons, here, List.foldl_cons]
    exact ih step.2 kept

namespace BitSet

variable {set other : BitSet} {size bit : Nat}

theorem lt_capacity_of_words (words : set.words.size = wordCount size) (inside : bit < size) :
    bit < set.capacity := by
  rw [capacity, words, wordCount]
  omega

theorem contains?_eq_some (words : set.words.size = wordCount size) (inside : bit < size) :
    set.contains? bit = some (set.contains bit) :=
  if_pos (lt_capacity_of_words words inside)

theorem insert?_eq_some (words : set.words.size = wordCount size) (inside : bit < size) :
    set.insert? bit = some (set.insert bit) :=
  if_pos (lt_capacity_of_words words inside)

theorem union?_eq_some (left : set.words.size = wordCount size)
    (right : other.words.size = wordCount size) : set.union? other = some (set.union other) :=
  if_pos (Nat.le_of_eq (left.trans right.symm))

theorem unionWithout?_eq_some (left : set.words.size = wordCount size)
    (right : other.words.size = wordCount size) (excluded : Nat) :
    set.unionWithout? other excluded = some (set.unionWithout other excluded) :=
  if_pos (Nat.le_of_eq (left.trans right.symm))

@[simp] theorem clear_ofSize (size : Nat) : (ofSize size).clear = ofSize size := by
  simp [clear, ofSize]

end BitSet

theorem NumberedGrammar.Valid.epsilonNumber_lt {grammar : NumberedGrammar}
    (valid : grammar.Valid) : epsilonNumber < grammar.size :=
  Nat.lt_of_succ_lt valid.markers

theorem NumberedGrammar.Valid.getElem?_kinds {grammar : NumberedGrammar} (valid : grammar.Valid)
    {symbol : Nat} (inside : symbol < grammar.size) :
    grammar.kinds[symbol]? = some (grammar.kind symbol) := by
  have bound : symbol < grammar.kinds.size := valid.kindsSize ▸ inside
  simp [NumberedGrammar.kind, bound]

theorem NumberedGrammar.getElem?_names {grammar : NumberedGrammar} {symbol : Nat}
    (inside : symbol < grammar.size) : grammar.names[symbol]? = some (grammar.name symbol) := by
  have bound : symbol < grammar.names.size := inside
  simp [NumberedGrammar.name, bound]

theorem NumberedGrammar.kind_eq_nonterminal_iff {grammar : NumberedGrammar} {symbol : Nat} :
    grammar.kind symbol = .nonterminal ↔ grammar.isNonterminal symbol = true := by
  rw [NumberedGrammar.isNonterminal, beq_iff_eq]

namespace Estimate

variable {grammar : NumberedGrammar} {estimate : Estimate} {symbol left : Nat} {begins : BitSet}

theorem Fits.getElem?_sets (fits : estimate.Fits grammar) (family : Family)
    (inside : symbol < grammar.size) :
    (estimate.sets family)[symbol]? = some (estimate.setOf family symbol) := by
  have bound : symbol < (estimate.sets family).size := fits.size family ▸ inside
  simp [setOf, bound]

theorem raise?_eq_some {family : Family} (fits : estimate.Fits grammar)
    (inside : symbol < grammar.size) {change? : BitSet → Option BitSet}
    {change : BitSet → BitSet}
    (changed : change? (estimate.setOf family symbol) =
      some (change (estimate.setOf family symbol))) :
    estimate.raise? family symbol change? = some (estimate.raise family symbol change) := by
  simp [raise?, fits.getElem?_sets family inside, changed, raise]

theorem beginLeft?_eq_some (fits : estimate.Fits grammar) (inside : left < grammar.size)
    (nullable : Bool) (words : begins.words.size = BitSet.wordCount grammar.size) :
    estimate.beginLeft? left nullable begins = some (estimate.beginLeft left nullable begins) := by
  have known := fits.words .first left inside
  rw [beginLeft?, beginLeft]
  split
  next => exact raise?_eq_some fits inside (BitSet.unionWithout?_eq_some known words _)
  next => rfl

theorem followPrevious?_eq_some (valid : grammar.Valid) (fits : estimate.Fits grammar)
    {previous : Option Nat} (inside : ∀ symbol ∈ previous, symbol < grammar.size)
    (words : begins.words.size = BitSet.wordCount grammar.size) :
    followPrevious? grammar estimate previous begins =
      some (followPrevious grammar estimate previous begins) := by
  cases previous with
  | none => rfl
  | some symbol =>
    have bound := inside symbol rfl
    have known := fits.words .follow symbol bound
    have raised : (estimate.raise? .follow symbol fun set =>
        set.unionWithout? begins epsilonNumber) =
        some (estimate.raise .follow symbol fun set => set.unionWithout begins epsilonNumber) :=
      raise?_eq_some fits bound (BitSet.unionWithout?_eq_some known words _)
    simp only [followPrevious?, followPrevious, valid.getElem?_kinds bound,
      NumberedGrammar.kind_eq_nonterminal_iff, Option.bind_eq_bind, Option.bind_some]
    split
    next => exact raised
    next => rfl

theorem Walk.step?_eq_some {walk : Walk} (valid : grammar.Valid)
    (fits : walk.estimate.Fits grammar) (bound : left < grammar.size)
    (previous : ∀ symbol ∈ walk.previous, symbol < grammar.size) (inside : symbol < grammar.size) :
    walk.step? grammar left symbol = some (walk.step grammar left symbol) := by
  have words := fits.words .first symbol inside
  have opened :=
    raises_beginLeft walk.estimate left walk.nullable (walk.estimate.setOf .first symbol)
  have followed := followPrevious?_eq_some valid (opened.fits fits) previous words
  have nullable : (if walk.nullable = true then
        (walk.estimate.setOf .first symbol).contains? epsilonNumber else some false) =
      some (walk.nullable && (walk.estimate.setOf .first symbol).contains epsilonNumber) := by
    rw [BitSet.contains?_eq_some words valid.epsilonNumber_lt]
    cases walk.nullable <;> rfl
  simp [step?, step, fits.getElem?_sets .first inside, beginLeft?_eq_some fits bound _ words,
    nullable, followed]

theorem trail?_eq_some {follows : BitSet} (valid : grammar.Valid) (fits : estimate.Fits grammar)
    (words : follows.words.size = BitSet.wordCount grammar.size) {symbols : List Nat}
    (inside : ∀ symbol ∈ symbols, symbol < grammar.size) :
    trail? grammar follows estimate symbols = some (trail grammar follows estimate symbols) := by
  induction symbols generalizing estimate with
  | nil => rfl
  | cons symbol before ih =>
    rw [List.forall_mem_cons] at inside
    have raised : (estimate.raise? .follow symbol fun set => set.union? follows) =
        some (estimate.raise .follow symbol fun set => set.union follows) :=
      raise?_eq_some fits inside.1
        (BitSet.union?_eq_some (fits.words .follow symbol inside.1) words)
    have raises := (Raises.refl estimate).raise .follow symbol (BitSet.widens_union follows)
    have next := raises.fits fits
    have contained := BitSet.contains?_eq_some (next.words .first symbol inside.1)
      valid.epsilonNumber_lt
    simp only [trail?, trail, valid.getElem?_kinds inside.1, raised,
      next.getElem?_sets .first inside.1, contained, NumberedGrammar.kind_eq_nonterminal_iff,
      Option.bind_eq_bind, Option.bind_some]
    split
    next =>
      split
      next => exact ih next inside.2
      next => rfl
    next => rfl

theorem walked?_eq_some {rule : NumberedRule} (valid : grammar.Valid)
    (fits : estimate.Fits grammar) (member : rule ∈ grammar.rules) :
    rule.right.foldlM (Walk.step? grammar rule.left) ⟨estimate, none, true⟩ =
      some (walked grammar estimate rule) := by
  have bound := valid.lt_size_of_isNonterminal (valid.left rule member)
  apply foldlM_eq_some_foldl fun walk : Walk =>
    walk.estimate.Fits grammar ∧ ∀ symbol ∈ walk.previous, symbol < grammar.size
  · intro symbol read walk ⟨fits, previous⟩
    have inside := valid.right rule member symbol read
    refine ⟨Walk.step?_eq_some valid fits bound previous inside,
      (walk.raises_step grammar rule.left symbol).fits fits, ?_⟩
    simpa [Walk.step] using inside
  · simpa using fits

theorem applyRule?_eq_some {rule : NumberedRule} (valid : grammar.Valid)
    (fits : estimate.Fits grammar) (member : rule ∈ grammar.rules) :
    applyRule? grammar estimate rule = some (applyRule grammar estimate rule) := by
  have nonterminal := valid.left rule member
  have bound := valid.lt_size_of_isNonterminal nonterminal
  have vanishing (known : Estimate) (fits : known.Fits grammar) :
      (known.raise? .first rule.left fun set => set.insert? epsilonNumber) =
        some (known.raise .first rule.left fun set => set.insert epsilonNumber) :=
    raise?_eq_some fits bound
      (BitSet.insert?_eq_some (fits.words .first _ bound) valid.epsilonNumber_lt)
  simp only [applyRule?, valid.getElem?_kinds bound, NumberedGrammar.kind_eq_nonterminal_iff,
    nonterminal, Option.bind_eq_bind, Option.bind_some, ne_eq, not_true_eq_false, if_false]
  by_cases empty : rule.right = []
  next =>
    rw [if_pos empty, vanishing estimate fits]
    simp [applyRule, empty, trail]
  next =>
    have account := (account_walked valid fits member).fits
    have reversed : ∀ symbol ∈ rule.right.reverse, symbol < grammar.size := by
      simpa using valid.right rule member
    have trailed := trail?_eq_some valid account (account.words .follow rule.left bound) reversed
    have raises := raises_trail grammar
      ((walked grammar estimate rule).estimate.setOf .follow rule.left)
      (walked grammar estimate rule).estimate rule.right.reverse
    have last := vanishing _ (raises.fits account)
    rw [if_neg empty, walked?_eq_some valid fits member, applyRule_eq]
    simp only [Option.bind_some, account.getElem?_sets .follow bound, trailed, last]
    split <;> rfl

theorem sweep?_eq_some (valid : grammar.Valid) (fits : estimate.Fits grammar) :
    sweep? grammar estimate = some (sweep grammar estimate) := by
  apply foldlM_eq_some_foldl fun estimate : Estimate => estimate.Fits grammar
  · intro rule member estimate fits
    exact ⟨applyRule?_eq_some valid fits member, (raises_applyRule grammar estimate rule).fits fits⟩
  · exact fits.cleared

theorem initialFirst?_eq_some (valid : grammar.Valid) (inside : symbol < grammar.size) :
    initialFirst? grammar symbol = some ((initial grammar).setOf .first symbol) := by
  have inserted := BitSet.insert?_eq_some (BitSet.size_ofSize grammar.size) inside
  rw [setOf_first_initial inside]
  simp only [initialFirst?, valid.getElem?_kinds inside, BitSet.ofBit?, inserted,
    Option.bind_eq_bind, Option.bind_some]
  split <;> rfl

theorem initial?_eq_some (valid : grammar.Valid) : initial? grammar = some (initial grammar) := by
  have each : (List.range grammar.size).mapM (initialFirst? grammar) =
      some ((List.range grammar.size).map ((initial grammar).setOf .first)) :=
    mapM_eq_some_map fun symbol member =>
      initialFirst?_eq_some valid (List.mem_range.1 member)
  have known : (Array.replicate grammar.size (BitSet.ofSize grammar.size))[grammar.start]? =
      some (BitSet.ofSize grammar.size) := by
    simp [valid.start]
  have marked : (BitSet.ofSize grammar.size).insert? endNumber =
      some ((BitSet.ofSize grammar.size).insert endNumber) :=
    BitSet.insert?_eq_some (BitSet.size_ofSize grammar.size) valid.markers
  have first : ((List.range grammar.size).map ((initial grammar).setOf .first)).toArray =
      (initial grammar).first := by
    apply Array.ext
    · simp [initial]
    · intro symbol _ inside
      simp [setOf, sets, inside]
  have follow : (Array.replicate grammar.size (BitSet.ofSize grammar.size)).setIfInBounds
      grammar.start ((BitSet.ofSize grammar.size).insert endNumber) = (initial grammar).follow := by
    apply Array.ext
    · simp [initial]
    · intro symbol _ inside
      rw [Array.getElem_setIfInBounds (by simpa [initial] using inside)]
      simp [initial, Array.getElem_modify]
  simp only [initial?, each, known, BitSet.clear_ofSize, marked, Option.bind_eq_bind,
    Option.bind_some, first, follow]
  rfl

end Estimate

namespace Solver

variable {solver : Solver}

theorem pass?_eq_some (valid : solver.grammar.Valid)
    (fits : solver.estimate.Fits solver.grammar) : solver.pass? = some solver.pass := by
  simp [pass?, Estimate.sweep?_eq_some valid fits, pass]

theorem settle?_eq_some (valid : solver.grammar.Valid)
    (fits : solver.estimate.Fits solver.grammar) : solver.settle? = some solver.settle := by
  fun_induction settle solver with
  | case1 solver next grown ih =>
    have room : next.estimate.room < solver.estimate.room := Estimate.room_sweep_lt grown
    rw [settle?, pass?_eq_some valid fits, Option.bind_eq_bind, Option.bind_some, if_pos grown,
      dif_pos room]
    exact ih valid (Estimate.fits_sweep fits)
  | case2 solver next still =>
    rw [settle?, pass?_eq_some valid fits, Option.bind_eq_bind, Option.bind_some, if_neg still]

theorem entryOf?_eq_some {grammar : NumberedGrammar} {sets : Array BitSet} {symbol : Nat}
    (size : sets.size = grammar.size) (bound : symbol < grammar.size)
    (inside : ∀ number, (sets.getD symbol (BitSet.ofSize 0)).contains number = true →
      number < grammar.size) :
    entryOf? grammar sets symbol = some (grammar.name symbol,
      SymbolSet.ofList ((sets.getD symbol (BitSet.ofSize 0)).toList.map grammar.name)) := by
  have there : sets[symbol]? = some (sets.getD symbol (BitSet.ofSize 0)) := by
    simp [size, bound]
  have names : (sets.getD symbol (BitSet.ofSize 0)).toList.mapM
      (fun number => grammar.names[number]?) =
        some ((sets.getD symbol (BitSet.ofSize 0)).toList.map grammar.name) :=
    mapM_eq_some_map fun number member =>
      NumberedGrammar.getElem?_names (inside number (BitSet.mem_toList.1 member))
  simp only [entryOf?, there, names, NumberedGrammar.getElem?_names bound, Option.bind_eq_bind,
    Option.bind_some]
  rfl

theorem symbolSets?_eq_some {grammar : NumberedGrammar} (valid : grammar.Valid)
    {sets : Array BitSet} (size : sets.size = grammar.size)
    (inside : ∀ symbol number,
      (sets.getD symbol (BitSet.ofSize 0)).contains number = true → number < grammar.size) :
    symbolSets? grammar sets =
      some (symbolSets grammar fun symbol => sets.getD symbol (BitSet.ofSize 0)) := by
  have symbols : ((List.range grammar.kinds.size).filter fun number =>
      grammar.kind number != .marker) = grammar.symbols := by
    rw [valid.kindsSize]
    rfl
  have entries : grammar.symbols.mapM (entryOf? grammar sets) =
      some (grammar.symbols.map fun symbol => (grammar.name symbol,
        SymbolSet.ofList ((sets.getD symbol (BitSet.ofSize 0)).toList.map grammar.name))) :=
    mapM_eq_some_map fun symbol member =>
      entryOf?_eq_some size (List.mem_range.1 (List.mem_filter.1 member).1) (inside symbol)
  simp only [symbolSets?, symbols, entries, Option.bind_eq_bind, Option.bind_some]
  rfl

theorem tables?_run (grammar : Grammar) (passes : Nat) :
    ((ofGrammar grammar).run passes).tables? =
      some ((ofGrammar grammar).run passes).tables := by
  have shown (family : Family) :
      symbolSets? ((ofGrammar grammar).run passes).grammar
          (((ofGrammar grammar).run passes).estimate.sets family) =
        some (((ofGrammar grammar).run passes).tables.sets family) := by
    rw [sets_tables, grammar_run]
    exact symbolSets?_eq_some grammar.valid_numbered ((fits_run grammar passes).size family)
      (inside_setOf_run grammar passes family)
  simp only [tables?, shown, Option.bind_eq_bind, Option.bind_some]
  rfl

theorem ofGrammar?_eq_some {grammar : Grammar}
    (few : grammar.numbering.length ≤ SymbolTable.numberLimit) :
    ofGrammar? grammar = some (ofGrammar grammar) := by
  have valid := grammar.valid_numbered
  simp only [ofGrammar?, Grammar.numbered?_eq few, Estimate.initial?_eq_some valid,
    NumberedGrammar.getElem?_names valid.start, Option.bind_eq_bind, Option.bind_some]
  rfl

structure InBounds (solver : Solver) : Prop where
  kinds : solver.grammar.kinds.size = solver.grammar.size
  start : solver.grammar.start < solver.grammar.size
  left : ∀ rule ∈ solver.grammar.rules, rule.left < solver.grammar.size
  right : ∀ rule ∈ solver.grammar.rules, ∀ symbol ∈ rule.right, symbol < solver.grammar.size
  sets : ∀ family, (solver.estimate.sets family).size = solver.grammar.size
  words : ∀ family, ∀ set ∈ solver.estimate.sets family,
    set.words.size = BitSet.wordCount solver.grammar.size
  members : ∀ family, ∀ set ∈ solver.estimate.sets family,
    ∀ name, set.contains name = true → name < solver.grammar.size

theorem exists_symbol_of_mem {grammar : NumberedGrammar} {estimate : Estimate}
    (fits : estimate.Fits grammar) {family : Family} {set : BitSet}
    (member : set ∈ estimate.sets family) :
    ∃ symbol < grammar.size, set = estimate.setOf family symbol := by
  obtain ⟨symbol, bound, rfl⟩ := Array.mem_iff_getElem.1 member
  refine ⟨symbol, fits.size family ▸ bound, ?_⟩
  simp [Estimate.setOf, bound]

theorem inBounds_of_fits (valid : solver.grammar.Valid)
    (fits : solver.estimate.Fits solver.grammar)
    (inside : ∀ family symbol name,
      (solver.estimate.setOf family symbol).contains name = true → name < solver.grammar.size) :
    solver.InBounds where
  kinds := valid.kindsSize
  start := valid.start
  left rule member := valid.lt_size_of_isNonterminal (valid.left rule member)
  right := valid.right
  sets := fits.size
  words family set member := by
    obtain ⟨symbol, bound, rfl⟩ := exists_symbol_of_mem fits member
    exact fits.words family symbol bound
  members family set member name contained := by
    obtain ⟨symbol, _, rfl⟩ := exists_symbol_of_mem fits member
    exact inside family symbol name contained

variable (grammar : Grammar) (passes : Nat)

theorem valid_run : ((ofGrammar grammar).run passes).grammar.Valid := by
  rw [grammar_run]
  exact grammar.valid_numbered

theorem fits_own_run :
    ((ofGrammar grammar).run passes).estimate.Fits ((ofGrammar grammar).run passes).grammar := by
  rw [grammar_run]
  exact fits_run grammar passes

theorem inBounds_run : ((ofGrammar grammar).run passes).InBounds := by
  apply inBounds_of_fits (valid_run grammar passes) (fits_own_run grammar passes)
  rw [grammar_run]
  exact inside_setOf_run grammar passes

theorem solve?_run :
    ((ofGrammar grammar).run passes).solve? =
      some ((ofGrammar grammar).run passes).settle.tables := by
  have settled := settle?_eq_some (valid_run grammar passes) (fits_own_run grammar passes)
  obtain ⟨count, same, _⟩ := exists_settle_run grammar passes
  rw [solve?, settled, Option.bind_eq_bind, Option.bind_some, same, tables?_run]

end Solver

theorem Grammar.length_numbering_le (grammar : Grammar) :
    grammar.numbering.length ≤ grammar.symbols.length + 2 := by
  have unused : (grammar.numbering.filter fun name => !grammar.occurs name) ⊆
      [epsilon, endMarker] := by
    intro name member
    obtain ⟨known, absent⟩ := List.mem_filter.1 member
    rw [Bool.not_eq_true', ← Bool.not_eq_true, occurs_iff] at absent
    simpa [absent] using (grammar.mem_numbering name).1 known
  have few := (List.subperm_of_subset (grammar.nodup_numbering.filter _) unused).length_le
  rw [List.length_eq_length_filter_add grammar.occurs, symbols]
  simpa using few

namespace Solver

theorem within_bounds (grammar : Grammar) (few : grammar.symbols.length ≤ UInt32.size - 2) :
    let after (passes : Nat) : Solver := (ofGrammar grammar).run passes
    grammar.numbered.size ≤ SymbolTable.numberLimit ∧
    ofGrammar? grammar = some (after 0) ∧
    (∀ passes, (after passes).InBounds) ∧
    (∀ passes, (after passes).pass? = some (after (passes + 1))) ∧
    (∀ passes, (after passes).tables? = some (after passes).tables) ∧
    (∀ passes, (after passes).solve? = some (after passes).settle.tables) ∧
    grammar.tables? = some grammar.tables := by
  intro after
  have size : grammar.numbering.length ≤ SymbolTable.numberLimit := by
    have markers := grammar.length_numbering_le
    simp only [SymbolTable.numberLimit, UInt32.size] at few ⊢
    omega
  have made : ofGrammar? grammar = some (after 0) := ofGrammar?_eq_some size
  have passed (passes : Nat) : (after passes).pass? = some (after (passes + 1)) := by
    rw [pass?_eq_some (valid_run grammar passes) (fits_own_run grammar passes), ← run_succ]
  have solved : grammar.tables? = some grammar.tables := by
    rw [Grammar.tables?, made, Option.bind_eq_bind, Option.bind_some, solve?_run]
    rfl
  refine ⟨?_, made, inBounds_run grammar, passed, tables?_run grammar, solve?_run grammar, solved⟩
  rw [Grammar.size_numbered]
  exact size

theorem within_bounds_cyclic :
    Grammar.cyclic.symbols.length ≤ UInt32.size - 2 ∧
      ((ofGrammar Grammar.cyclic).run 7).InBounds ∧
      Grammar.cyclic.tables? = some Grammar.cyclic.tables := by
  have few : Grammar.cyclic.symbols.length ≤ UInt32.size - 2 := by decide +kernel
  obtain ⟨_, _, bounded, _, _, _, solved⟩ := within_bounds Grammar.cyclic few
  exact ⟨few, bounded 7, solved⟩

end Solver

end Lookahead
