import Lookahead.Proofs.Bounds
import Lookahead.Proofs.Contents
import Mathlib.Data.List.Induction

set_option autoImplicit false

namespace Lookahead

theorem pairwise_idxOf_eraseDups (names : List String) :
    names.eraseDups.Pairwise fun a b => names.idxOf a < names.idxOf b := by
  induction names using List.reverseRecOn with
  | nil => simp
  | append_singleton before name ih =>
    have kept : before.eraseDups.Pairwise fun a b =>
        (before ++ [name]).idxOf a < (before ++ [name]).idxOf b := by
      apply ih.imp_of_mem
      intro a b left right earlier
      rw [List.mem_eraseDups] at left right
      simpa [List.idxOf_append, left, right] using earlier
    rw [eraseDups_concat]
    split
    next => exact kept
    next absent =>
      rw [List.pairwise_append]
      refine ⟨kept, by simp, ?_⟩
      intro a left b right
      rw [List.mem_eraseDups] at left
      have inside := List.idxOf_lt_length_of_mem left
      simp_all [List.idxOf_append]

namespace NumberedGrammar

def readRule? (numbered : NumberedGrammar) (rule : NumberedRule) : Option Production := do
  let symbol ← numbered.names[rule.left]?
  let derivation ← rule.right.mapM fun number => numbered.names[number]?
  return { symbol, derivation }

end NumberedGrammar

namespace Grammar

def ComesBefore (grammar : Grammar) (a b : String) : Prop :=
  b ≠ endMarker ∧ (a = endMarker ∨ grammar.occurrences.idxOf a < grammar.occurrences.idxOf b)

def IsSymbolNumber (grammar : Grammar) (number : Nat) : Prop :=
  2 ≤ number ∨ number = endNumber ∧ endMarker ∈ grammar.occurrences

end Grammar

structure NumberedGrammar.Numbers (numbered : NumberedGrammar) (grammar : Grammar) : Prop where
  distinct : numbered.names.toList.Nodup
  sizes : numbered.kinds.size = numbered.names.size
  epsilonName : numbered.names[epsilonNumber]? = some epsilon
  endName : numbered.names[endNumber]? = some endMarker
  rules : numbered.rules.mapM numbered.readRule? = some grammar.productions
  start : numbered.names[numbered.start]? = some grammar.start
  epsilonKind : numbered.kinds[epsilonNumber]? = some .marker
  endKind : numbered.kinds[endNumber]? = some .marker ↔ endMarker ∉ grammar.occurrences
  symbolKind : ∀ number name, numbered.names[number]? = some name →
    grammar.IsSymbolNumber number →
    numbered.kinds[number]? = some
      (if ∃ production ∈ grammar.productions, production.symbol = name then .nonterminal
      else .terminal)
  leftKind : ∀ rule ∈ numbered.rules, numbered.kinds[rule.left]? = some .nonterminal
  symbolsNodup : (numbered.symbols.map numbered.name).Nodup
  mem_symbols : ∀ symbol,
    symbol ∈ numbered.symbols.map numbered.name ↔ symbol ∈ grammar.occurrences
  symbolsOrder : (numbered.symbols.map numbered.name).Pairwise grammar.ComesBefore

namespace Grammar

variable {grammar : Grammar} {number : Nat} {name : String}

theorem pairwise_symbols (grammar : Grammar) : grammar.symbols.Pairwise grammar.ComesBefore := by
  have numbers := pairwise_idxOf_eraseDups (epsilon :: endMarker :: grammar.occurrences)
  have listed := numbers.filter grammar.occurs
  have named {name : String} (member : name ∈ grammar.symbols) : epsilon ≠ name := by
    rintro rfl
    simp [symbols, occurs_epsilon] at member
  apply listed.imp_of_mem
  intro a b left right earlier
  simp only [List.idxOf_cons_ne _ (named left), List.idxOf_cons_ne _ (named right)] at earlier
  by_cases last : endMarker = b
  next => simp [last] at earlier
  next =>
    by_cases first : endMarker = a
    next => exact ⟨Ne.symm last, Or.inl first.symm⟩
    next =>
      simp only [List.idxOf_cons_ne _ first, List.idxOf_cons_ne _ last] at earlier
      exact ⟨Ne.symm last, Or.inr (by omega)⟩

theorem getElem?_names_number (member : name ∈ grammar.numbering) :
    grammar.numbered.names[grammar.number name]? = some name := by
  simpa [name_number member] using NumberedGrammar.getElem?_names (number_lt member)

theorem getElem?_kinds_number (member : name ∈ grammar.numbering) :
    grammar.numbered.kinds[grammar.number name]? = some (grammar.kind name) := by
  simpa [kind_number member] using grammar.valid_numbered.getElem?_kinds (number_lt member)

theorem eq_number_of_getElem? (found : grammar.numbered.names[number]? = some name) :
    name ∈ grammar.numbering ∧ number = grammar.number name := by
  have inside : number < grammar.numbered.size := (Array.getElem?_eq_some_iff.1 found).1
  rw [NumberedGrammar.getElem?_names inside, Option.some.injEq] at found
  subst found
  exact ⟨name_mem inside, (number_name inside).symm⟩

theorem occurs_of_isSymbolNumber (member : name ∈ grammar.numbering)
    (symbol : grammar.IsSymbolNumber (grammar.number name)) : grammar.occurs name = true := by
  rw [occurs_iff]
  cases (grammar.mem_numbering name).1 member with
  | inl marker => simp [IsSymbolNumber, marker, epsilonNumber, endNumber] at symbol
  | inr rest =>
    cases rest with
    | inl ending => simpa [IsSymbolNumber, ending, endNumber] using symbol
    | inr written => exact written

theorem kind_of_occurs (occurs : grammar.occurs name = true) :
    grammar.kind name =
      if ∃ production ∈ grammar.productions, production.symbol = name then .nonterminal
      else .terminal := by
  simp [kind, occurs, isNonterminal_iff]

theorem readRule?_numbered {rule : NumberedRule} (member : rule ∈ grammar.numbered.rules) :
    grammar.numbered.readRule? rule =
      some ⟨grammar.numbered.name rule.left, rule.right.map grammar.numbered.name⟩ := by
  have valid := grammar.valid_numbered
  have left := NumberedGrammar.getElem?_names
    (valid.lt_size_of_isNonterminal (valid.left rule member))
  have right := mapM_eq_some_map fun number inside =>
    NumberedGrammar.getElem?_names (valid.right rule member number inside)
  simp [NumberedGrammar.readRule?, left, right]

theorem mapM_readRule?_numbered (grammar : Grammar) :
    grammar.numbered.rules.mapM grammar.numbered.readRule? = some grammar.productions := by
  have each : ∀ production ∈ grammar.productions,
      Production.mk (grammar.numbered.name (grammar.numberedRule production).left)
        ((grammar.numberedRule production).right.map grammar.numbered.name) = production := by
    intro production member
    simp only [name_left member, names_right member]
  rw [mapM_eq_some_map fun rule member => readRule?_numbered member, rules_numbered, List.map_map,
    Option.some.injEq]
  exact (List.map_congr_left each).trans (List.map_id _)

theorem numbers_numbered (grammar : Grammar) : grammar.numbered.Numbers grammar where
  distinct := by simpa [numbered] using grammar.nodup_numbering
  sizes := by simp [numbered]
  epsilonName := by simpa using getElem?_names_number grammar.epsilon_mem
  endName := by simpa using getElem?_names_number grammar.endMarker_mem
  rules := grammar.mapM_readRule?_numbered
  start := getElem?_names_number grammar.start_mem
  epsilonKind := by simpa [kind_epsilon] using getElem?_kinds_number grammar.epsilon_mem
  endKind := by
    have kind := getElem?_kinds_number grammar.endMarker_mem
    rw [number_endMarker] at kind
    simp [kind, kind_eq_marker_iff, ← occurs_iff]
  symbolKind number name found symbol := by
    obtain ⟨member, rfl⟩ := eq_number_of_getElem? found
    have occurs := occurs_of_isSymbolNumber member symbol
    simp only [getElem?_kinds_number member, kind_of_occurs occurs]
  leftKind rule member := by
    obtain ⟨production, known, rfl⟩ := mem_rules_iff.1 member
    have kind := (grammar.kind_eq_nonterminal_iff production.symbol).2 (isNonterminal_symbol known)
    simpa [numberedRule, kind] using getElem?_kinds_number (symbol_mem known)
  symbolsNodup := by simpa [names_symbols] using grammar.nodup_symbols
  mem_symbols symbol := by simp [names_symbols, mem_symbols, occurs_iff]
  symbolsOrder := by simpa [names_symbols] using grammar.pairwise_symbols

theorem numbered_faithful (grammar : Grammar) (few : grammar.symbols.length ≤ UInt32.size - 2) :
    grammar.numbered? = some grammar.numbered ∧ grammar.numbered.Numbers grammar := by
  have size : grammar.numbering.length ≤ SymbolTable.numberLimit := by
    have markers := grammar.length_numbering_le
    simp only [SymbolTable.numberLimit, UInt32.size] at few ⊢
    omega
  exact ⟨numbered?_eq size, grammar.numbers_numbered⟩

theorem numbered_faithful_ended :
    Solver.ended.symbols.length ≤ UInt32.size - 2 ∧
      Solver.ended.numbered? = some Solver.ended.numbered ∧
      Solver.ended.numbered.Numbers Solver.ended ∧
      Solver.ended.numbered.kinds[endNumber]? = some .terminal ∧
      Solver.ended.numbered.symbols.map Solver.ended.numbered.name = ["$", "S", "A", "a"] := by
  have few : Solver.ended.symbols.length ≤ UInt32.size - 2 := by decide +kernel
  have faithful := numbered_faithful Solver.ended few
  have written : Solver.ended.IsSymbolNumber endNumber := Or.inr ⟨rfl, by decide⟩
  have kind := faithful.2.symbolKind endNumber endMarker faithful.2.endName written
  exact ⟨few, faithful.1, faithful.2, kind.trans (by decide), by decide +kernel⟩

end Grammar

end Lookahead
