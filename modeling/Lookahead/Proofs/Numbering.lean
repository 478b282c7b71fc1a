import Lookahead.Proofs.RuleEffect
import Mathlib.Data.List.Nodup

set_option autoImplicit false

namespace Lookahead

theorem nodup_eraseDups : ∀ names : List String, names.eraseDups.Nodup
  | [] => by simp
  | name :: rest => by
    have shorter : (rest.filter fun other => !other == name).length ≤ rest.length :=
      List.length_filter_le _ _
    have later := nodup_eraseDups (rest.filter fun other => !other == name)
    rw [List.eraseDups_cons, List.nodup_cons]
    exact ⟨by simp [List.mem_eraseDups], later⟩
termination_by names => names.length

namespace Grammar

variable {grammar : Grammar}

def number (grammar : Grammar) (name : String) : Nat := grammar.numbering.idxOf name

theorem nodup_numbering (grammar : Grammar) : grammar.numbering.Nodup := nodup_eraseDups _

theorem nodup_symbols (grammar : Grammar) : grammar.symbols.Nodup :=
  grammar.nodup_numbering.filter _

theorem size_numbered (grammar : Grammar) : grammar.numbered.size = grammar.numbering.length := by
  simp [numbered, NumberedGrammar.size]

theorem number_lt {name : String} (member : name ∈ grammar.numbering) :
    grammar.number name < grammar.numbered.size := by
  rw [size_numbered]
  exact List.idxOf_lt_length_of_mem member

theorem name_number {name : String} (member : name ∈ grammar.numbering) :
    grammar.numbered.name (grammar.number name) = name := by
  have inside := List.idxOf_lt_length_of_mem member
  simp [numbered, NumberedGrammar.name, number, inside, List.getElem_idxOf]

theorem name_mem {number : Nat} (inside : number < grammar.numbered.size) :
    grammar.numbered.name number ∈ grammar.numbering := by
  rw [size_numbered] at inside
  simp [numbered, NumberedGrammar.name, inside]

theorem number_name {number : Nat} (inside : number < grammar.numbered.size) :
    grammar.number (grammar.numbered.name number) = number := by
  rw [size_numbered] at inside
  simp [numbered, NumberedGrammar.name, Grammar.number, inside,
    List.Nodup.idxOf_getElem grammar.nodup_numbering]

theorem kind_number {name : String} (member : name ∈ grammar.numbering) :
    grammar.numbered.kind (grammar.number name) = grammar.kind name := by
  have inside := List.idxOf_lt_length_of_mem member
  simp [numbered, NumberedGrammar.kind, number, inside, List.getElem_idxOf]

theorem number_inj {a b : String} (left : a ∈ grammar.numbering) (right : b ∈ grammar.numbering) :
    grammar.number a = grammar.number b ↔ a = b := by
  constructor
  · intro same
    rw [← name_number left, same, name_number right]
  · rintro rfl
    rfl

theorem kind_eq_nonterminal_iff (grammar : Grammar) (name : String) :
    grammar.kind name = .nonterminal ↔ grammar.isNonterminal name = true := by
  rw [kind]
  split
  next nonterminal => simp [nonterminal]
  next other => split <;> simp [other]

theorem symbol_mem_occurrences {production : Production} (member : production ∈ grammar.productions) :
    production.symbol ∈ grammar.occurrences :=
  List.mem_flatMap.2 ⟨production, member, List.mem_cons_self⟩

theorem mem_occurrences_of_mem {production : Production}
    (member : production ∈ grammar.productions) {name : String}
    (inside : name ∈ production.derivation) : name ∈ grammar.occurrences :=
  List.mem_flatMap.2 ⟨production, member, List.mem_cons_of_mem _ inside⟩

theorem mem_numbering_of_occurrence {name : String} (member : name ∈ grammar.occurrences) :
    name ∈ grammar.numbering :=
  (grammar.mem_numbering name).2 (Or.inr (Or.inr member))

theorem symbol_mem {production : Production} (member : production ∈ grammar.productions) :
    production.symbol ∈ grammar.numbering :=
  mem_numbering_of_occurrence (symbol_mem_occurrences member)

theorem derivation_mem {production : Production} (member : production ∈ grammar.productions)
    {symbol : String} (inside : symbol ∈ production.derivation) : symbol ∈ grammar.numbering :=
  mem_numbering_of_occurrence (mem_occurrences_of_mem member inside)

theorem epsilon_mem (grammar : Grammar) : epsilon ∈ grammar.numbering :=
  (grammar.mem_numbering _).2 (Or.inl rfl)

theorem endMarker_mem (grammar : Grammar) : endMarker ∈ grammar.numbering :=
  (grammar.mem_numbering _).2 (Or.inr (Or.inl rfl))

theorem epsilon_ne_endMarker : epsilon ≠ endMarker := by decide

theorem numbering_eq (grammar : Grammar) :
    ∃ rest, grammar.numbering = epsilon :: endMarker :: rest := by
  rw [numbering, List.eraseDups_cons,
    List.filter_cons_of_pos (by simp [Ne.symm epsilon_ne_endMarker]), List.eraseDups_cons]
  exact ⟨_, rfl⟩

@[simp] theorem number_epsilon (grammar : Grammar) : grammar.number epsilon = epsilonNumber := by
  obtain ⟨rest, split⟩ := grammar.numbering_eq
  simp [number, split, epsilonNumber]

@[simp] theorem number_endMarker (grammar : Grammar) : grammar.number endMarker = endNumber := by
  obtain ⟨rest, split⟩ := grammar.numbering_eq
  simp [number, split, endNumber, epsilon_ne_endMarker]

theorem name_epsilonNumber (grammar : Grammar) : grammar.numbered.name epsilonNumber = epsilon := by
  rw [← number_epsilon grammar, name_number grammar.epsilon_mem]

theorem name_endNumber (grammar : Grammar) : grammar.numbered.name endNumber = endMarker := by
  rw [← number_endMarker grammar, name_number grammar.endMarker_mem]

theorem isNonterminal_number {name : String} (member : name ∈ grammar.numbering) :
    grammar.numbered.isNonterminal (grammar.number name) = grammar.isNonterminal name := by
  rw [NumberedGrammar.isNonterminal, kind_number member, Bool.eq_iff_iff, beq_iff_eq,
    kind_eq_nonterminal_iff]

theorem kind_name {number : Nat} (inside : number < grammar.numbered.size) :
    grammar.kind (grammar.numbered.name number) = grammar.numbered.kind number := by
  rw [← kind_number (name_mem inside), number_name inside]

theorem isNonterminal_name {number : Nat} (inside : number < grammar.numbered.size) :
    grammar.isNonterminal (grammar.numbered.name number) = grammar.numbered.isNonterminal number := by
  rw [← isNonterminal_number (name_mem inside), number_name inside]

theorem isNonterminal_symbol {production : Production}
    (member : production ∈ grammar.productions) :
    grammar.isNonterminal production.symbol = true :=
  (grammar.isNonterminal_iff _).2 ⟨production, member, rfl⟩

theorem isNonterminal_start (grammar : Grammar) : grammar.isNonterminal grammar.start = true :=
  isNonterminal_symbol (List.head_mem grammar.nonempty)

theorem start_mem (grammar : Grammar) : grammar.start ∈ grammar.numbering :=
  symbol_mem (List.head_mem grammar.nonempty)

theorem start_numbered (grammar : Grammar) :
    grammar.numbered.start = grammar.number grammar.start :=
  rfl

def numberedRule (grammar : Grammar) (production : Production) : NumberedRule where
  left := grammar.number production.symbol
  right := production.derivation.map grammar.number

theorem rules_numbered (grammar : Grammar) :
    grammar.numbered.rules = grammar.productions.map grammar.numberedRule :=
  rfl

theorem name_left {production : Production} (member : production ∈ grammar.productions) :
    grammar.numbered.name (grammar.numberedRule production).left = production.symbol :=
  name_number (symbol_mem member)

theorem names_right {production : Production} (member : production ∈ grammar.productions) :
    (grammar.numberedRule production).right.map grammar.numbered.name = production.derivation := by
  rw [numberedRule, List.map_map]
  calc production.derivation.map (grammar.numbered.name ∘ grammar.number)
    _ = production.derivation.map id :=
      List.map_congr_left fun symbol inside => name_number (derivation_mem member inside)
    _ = production.derivation := List.map_id _

theorem mem_rules_iff {rule : NumberedRule} :
    rule ∈ grammar.numbered.rules ↔
      ∃ production ∈ grammar.productions, grammar.numberedRule production = rule := by
  rw [rules_numbered, List.mem_map]

theorem numberedRule_mem {production : Production} (member : production ∈ grammar.productions) :
    grammar.numberedRule production ∈ grammar.numbered.rules :=
  mem_rules_iff.2 ⟨production, member, rfl⟩

theorem valid_numbered (grammar : Grammar) : grammar.numbered.Valid := by
  have marked := number_lt grammar.endMarker_mem
  rw [number_endMarker] at marked
  refine ⟨by simp [numbered], marked, number_lt grammar.start_mem, fun rule member => ?_,
    fun rule member symbol inside => ?_⟩
  · obtain ⟨production, known, rfl⟩ := mem_rules_iff.1 member
    rw [numberedRule, isNonterminal_number (symbol_mem known)]
    exact isNonterminal_symbol known
  · obtain ⟨production, known, rfl⟩ := mem_rules_iff.1 member
    obtain ⟨name, written, rfl⟩ := List.mem_map.1 inside
    exact number_lt (derivation_mem known written)

theorem occurs_of_isNonterminal {name : String} (nonterminal : grammar.isNonterminal name = true) :
    grammar.occurs name = true := by
  obtain ⟨production, member, rfl⟩ := (grammar.isNonterminal_iff name).1 nonterminal
  exact (grammar.occurs_iff _).2 (symbol_mem_occurrences member)

theorem occurs_symbol {production : Production} (member : production ∈ grammar.productions) :
    grammar.occurs production.symbol = true :=
  occurs_of_isNonterminal (isNonterminal_symbol member)

theorem kind_eq_marker_iff (grammar : Grammar) (name : String) :
    grammar.kind name = .marker ↔ grammar.occurs name = false := by
  rw [kind]
  split
  next nonterminal => simp [occurs_of_isNonterminal nonterminal]
  next => split <;> simp_all

theorem kind_eq_terminal_iff (grammar : Grammar) (name : String) :
    grammar.kind name = .terminal ↔
      grammar.isNonterminal name = false ∧ grammar.occurs name = true := by
  rw [kind]
  split
  next nonterminal => simp [nonterminal]
  next other => split <;> simp_all

theorem occurs_epsilon (grammar : Grammar) : grammar.occurs epsilon = false := by
  rw [← Bool.not_eq_true, grammar.occurs_iff]
  intro member
  obtain ⟨production, known, written⟩ := List.mem_flatMap.1 member
  rcases List.mem_cons.1 written with same | inside
  · have named := grammar.named production known
    rw [← same] at named
    exact absurd named (by decide)
  · have plain := grammar.plain production known epsilon inside
    exact absurd plain (by decide)

end Grammar

end Lookahead
