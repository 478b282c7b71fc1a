import Lookahead.Grammar.Gathering
import Lookahead.Proofs.Interning
import Lookahead.Proofs.Printing
import Mathlib.Data.List.Induction

set_option autoImplicit false

namespace Lookahead

namespace Production

theorem group_concat (productions : List Production) (production : Production) :
    group (productions ++ [production]) =
      (group productions).upsert production.symbol fun known =>
        known.getD [] ++ [production.derivation] := by
  simp [group]

theorem keys_group (productions : List Production) :
    (group productions).keys = (productions.map Production.symbol).eraseDups := by
  induction productions using List.reverseRecOn with
  | nil => rfl
  | append_singleton before production ih =>
    simp only [group_concat, OrderedMap.keys_upsert, ih, List.map_append, List.map_cons,
      List.map_nil, eraseDups_concat, List.mem_eraseDups]

def rulesOf (productions : List Production) (symbol : String) : List Production :=
  productions.filter fun production => production.symbol = symbol

theorem rulesOf_eq_nil {productions : List Production} {symbol : String}
    (absent : symbol ∉ productions.map Production.symbol) : rulesOf productions symbol = [] := by
  simp only [List.mem_map, not_exists, not_and] at absent
  simpa [rulesOf] using absent

theorem get?_group (productions : List Production) (symbol : String) :
    (group productions).get? symbol =
      if symbol ∈ productions.map Production.symbol then
        some ((rulesOf productions symbol).map Production.derivation)
      else none := by
  induction productions using List.reverseRecOn with
  | nil => rfl
  | append_singleton before production ih =>
    have appended : rulesOf (before ++ [production]) symbol =
        rulesOf before symbol ++ if production.symbol = symbol then [production] else [] := by
      by_cases same : production.symbol = symbol <;> simp [rulesOf, same]
    rw [group_concat, OrderedMap.get?_upsert, appended]
    by_cases same : symbol = production.symbol
    next =>
      subst same
      by_cases known : production.symbol ∈ before.map Production.symbol
      next => simp [ih, known]
      next => simp [ih, known, rulesOf_eq_nil known]
    next => simp [ih, same, Ne.symm same]

theorem map_mk_rulesOf (productions : List Production) (symbol : String) :
    ((rulesOf productions symbol).map Production.derivation).map (Production.mk symbol) =
      rulesOf productions symbol := by
  have each : ∀ production ∈ rulesOf productions symbol,
      Production.mk symbol production.derivation = production := by
    intro production member
    have same : production.symbol = symbol := by simpa using (List.mem_filter.1 member).2
    simp [← same]
  rw [List.map_map]
  exact (List.map_congr_left each).trans (List.map_id _)

theorem flatMap_rulesOf_perm {symbols : List String} (distinct : symbols.Nodup)
    {productions : List Production}
    (covered : ∀ production ∈ productions, production.symbol ∈ symbols) :
    (symbols.flatMap (rulesOf productions)).Perm productions := by
  induction symbols generalizing productions with
  | nil =>
    have empty : productions = [] := List.eq_nil_iff_forall_not_mem.2 fun production member =>
      List.not_mem_nil (covered production member)
    simp [empty]
  | cons symbol rest ih =>
    rw [List.nodup_cons] at distinct
    let others := productions.filter fun production => !decide (production.symbol = symbol)
    have later : rest.flatMap (rulesOf productions) = rest.flatMap (rulesOf others) := by
      refine List.flatMap_congr fun other member => ?_
      have different : other ≠ symbol := by
        rintro rfl
        exact distinct.1 member
      simp only [rulesOf, others, List.filter_filter]
      refine List.filter_congr fun production _ => ?_
      by_cases same : production.symbol = other <;> simp [same, different]
    have inside : ∀ production ∈ others, production.symbol ∈ rest := by
      intro production member
      have known := List.mem_filter.1 member
      have different : production.symbol ≠ symbol := by simpa using known.2
      exact (List.mem_cons.1 (covered production known.1)).resolve_left different
    have rest := (ih distinct.2 inside).append_left (rulesOf productions symbol)
    rw [List.flatMap_cons, later]
    exact rest.trans (List.filter_append_perm _ productions)

def Headless (production : Production) : Prop :=
  production.symbol = "" ∨ ∃ c ∈ production.symbol.toList, Text.isBlank c = true

theorem headless_iff {production : Production} :
    production.Headless ↔ isSymbolName production.symbol = false := by
  simp [Headless, isSymbolName, ← Bool.not_eq_true, or_iff_not_imp_left]

end Production

namespace Gathered

def ofRead (read : List Production) : Gathered where
  productions := read.map Production.withoutEpsilon
  groups := Production.group (read.map Production.withoutEpsilon)

theorem add?_ofRead (read : List Production) (production : Production) :
    (ofRead read).add? production =
      if isSymbolName production.symbol then .ok (ofRead (read ++ [production]))
      else .error (.invalidRule production.render) := by
  simp [add?, ofRead, Production.group_concat]

theorem foldlM_add? (read given : List Production) :
    given.foldlM add? (ofRead read) =
      match given.find? fun production => !isSymbolName production.symbol with
      | some bad => .error (.invalidRule bad.render)
      | none => .ok (ofRead (read ++ given)) := by
  induction given generalizing read with
  | nil => simp [pure, Except.pure]
  | cons production rest ih =>
    rw [List.foldlM_cons, add?_ofRead]
    by_cases named : isSymbolName production.symbol = true
    next => simp [named, bind, Except.bind, ih]
    next => simp [named, bind, Except.bind]

end Gathered

namespace Grammar

variable {given : List Production}

theorem ofProductions_of_found {bad : Production}
    (found : (given.find? fun production => !isSymbolName production.symbol) = some bad) :
    ofProductions given = .error (.invalidRule bad.render) := by
  unfold ofProductions
  split
  next other also =>
    rw [found, Option.some.injEq] at also
    rw [also]
  next missing => simp [missing] at found

theorem ofProductions_cases (given : List Production) :
    (∃ bad, (given.find? fun production => !isSymbolName production.symbol) = some bad ∧
      ofProductions given = .error (.invalidRule bad.render)) ∨
    (∀ production ∈ given, isSymbolName production.symbol = true) ∧
      (given = [] ∧ ofProductions given = .error .emptyGrammar ∨
        given ≠ [] ∧ ∃ grammar, ofProductions given = .ok grammar ∧
          grammar.productions = given.map Production.withoutEpsilon) := by
  cases found : given.find? fun production => !isSymbolName production.symbol with
  | some bad => exact Or.inl ⟨bad, rfl, ofProductions_of_found found⟩
  | none =>
    have named : ∀ production ∈ given, isSymbolName production.symbol = true := by
      simpa using found
    by_cases empty : given = []
    next => simp [empty]
    next => exact Or.inr ⟨named, Or.inr ⟨empty, ofProductions_of_named empty named⟩⟩

theorem ofProductions_eq_ok_iff :
    (∃ grammar, ofProductions given = .ok grammar) ↔
      given ≠ [] ∧ ∀ production ∈ given, ¬production.Headless := by
  simp only [Production.headless_iff, Bool.not_eq_false]
  rcases ofProductions_cases given with
    ⟨bad, found, refused⟩ | ⟨named, ⟨empty, refused⟩ | ⟨nonempty, made⟩⟩
  · have member := List.mem_of_find?_eq_some found
    have fault : isSymbolName bad.symbol = false := by simpa using List.find?_some found
    simp only [refused, reduceCtorEq, exists_false, false_iff, not_and]
    intro _ named
    simp [named bad member] at fault
  · simp [empty]
  · obtain ⟨grammar, made, _⟩ := made
    simpa [nonempty, made] using named

theorem ofProductions_eq_emptyGrammar_iff :
    ofProductions given = .error .emptyGrammar ↔ given = [] := by
  rcases ofProductions_cases given with
    ⟨bad, found, refused⟩ | ⟨_, ⟨empty, refused⟩ | ⟨nonempty, made⟩⟩
  · have nonempty := List.ne_nil_of_mem (List.mem_of_find?_eq_some found)
    simp [refused, nonempty]
  · simp [empty]
  · obtain ⟨grammar, made, _⟩ := made
    simp [nonempty, made]

theorem ofProductions_eq_invalidRule_iff {rule : String} :
    ofProductions given = .error (.invalidRule rule) ↔
      ∃ before bad after, given = before ++ bad :: after ∧
        (∀ earlier ∈ before, ¬earlier.Headless) ∧ bad.Headless ∧ rule = bad.render := by
  simp only [Production.headless_iff, Bool.not_eq_false]
  constructor
  · intro refused
    rcases ofProductions_cases given with ⟨bad, found, same⟩ | ⟨_, ⟨_, same⟩ | ⟨_, _, same, _⟩⟩
    · obtain ⟨fault, before, after, split, earlier⟩ := List.find?_eq_some_iff_append.1 found
      rw [same] at refused
      cases refused
      exact ⟨before, bad, after, split, by simpa using earlier, by simpa using fault, rfl⟩
    · simp [same] at refused
    · simp [same] at refused
  · rintro ⟨before, bad, after, rfl, earlier, fault, rfl⟩
    refine ofProductions_of_found (List.find?_eq_some_iff_append.2 ?_)
    exact ⟨by simpa using fault, before, after, rfl, by simpa using earlier⟩

def gathered (grammar : Grammar) : Gathered := ⟨grammar.productions, grammar.groups⟩

theorem gather?_eq (given : List Production) :
    Gathered.gather? given = (ofProductions given).map gathered := by
  have start : Gathered.empty = Gathered.ofRead [] := rfl
  rw [Gathered.gather?, start, Gathered.foldlM_add?]
  rcases ofProductions_cases given with
    ⟨bad, found, refused⟩ | ⟨named, ⟨empty, _⟩ | ⟨nonempty, made⟩⟩
  · simp [found, refused, bind, Except.bind, Except.map]
  · simp [empty, Gathered.ofRead, bind, Except.bind, Except.map]
  · obtain ⟨grammar, made, productions⟩ := made
    have sound : (given.find? fun production => !isSymbolName production.symbol) = none := by
      simpa using named
    simp [sound, made, nonempty, Gathered.ofRead, gathered, productions, grammar.grouped, bind,
      Except.bind, Except.map]

structure Collects (grammar : Grammar) (given : List Production) : Prop where
  productions : grammar.productions = given.map fun production =>
    { production with derivation := production.derivation.filter fun name =>
        name.toList.any fun c => c != 'ε' && c != 'ϵ' }
  nonterminals : grammar.nonterminals = (given.map Production.symbol).eraseDups
  start : grammar.nonterminals.head? = some grammar.start
  alternatives : ∀ symbol, grammar.alternatives? symbol =
    if symbol ∈ given.map Production.symbol then
      some ((grammar.productions.filter fun production => production.symbol = symbol).map
        Production.derivation)
    else none
  once : (grammar.nonterminals.flatMap fun symbol =>
    ((grammar.alternatives? symbol).getD []).map (Production.mk symbol)).Perm grammar.productions
  again : ofProductions grammar.productions = .ok grammar

section

variable {grammar : Grammar}

theorem any_not_mark (name : String) :
    (name.toList.any fun c => c != 'ε' && c != 'ϵ') = !isEpsilonName name := by
  rw [isEpsilonName, List.not_all_eq_any_not]
  refine congrArg name.toList.any (funext fun c => ?_)
  simp [isEpsilonMark, bne]

theorem productions_of_ofProductions (made : ofProductions given = .ok grammar) :
    grammar.productions = given.map Production.withoutEpsilon := by
  rcases ofProductions_cases given with ⟨_, _, refused⟩ | ⟨_, ⟨_, refused⟩ | ⟨_, _, also, same⟩⟩
  · simp [refused] at made
  · simp [refused] at made
  · rw [made, Except.ok.injEq] at also
    rw [also, same]

theorem nonterminals_eq (grammar : Grammar) :
    grammar.nonterminals = (grammar.productions.map Production.symbol).eraseDups := by
  rw [nonterminals, grammar.grouped, Production.keys_group]

theorem head?_nonterminals (grammar : Grammar) :
    grammar.nonterminals.head? = some grammar.start := by
  obtain ⟨first, rest, listed⟩ := List.exists_cons_of_ne_nil grammar.nonempty
  simp [nonterminals_eq, start, listed, List.eraseDups_cons]

theorem alternatives?_eq (grammar : Grammar) (symbol : String) :
    grammar.alternatives? symbol =
      if symbol ∈ grammar.productions.map Production.symbol then
        some ((Production.rulesOf grammar.productions symbol).map Production.derivation)
      else none := by
  rw [alternatives?, grammar.grouped, Production.get?_group]

theorem map_mk_alternatives? (grammar : Grammar) (symbol : String) :
    ((grammar.alternatives? symbol).getD []).map (Production.mk symbol) =
      Production.rulesOf grammar.productions symbol := by
  rw [alternatives?_eq]
  split
  next => exact Production.map_mk_rulesOf _ _
  next absent => simp [Production.rulesOf_eq_nil absent]

theorem flatMap_alternatives?_perm (grammar : Grammar) :
    (grammar.nonterminals.flatMap fun symbol =>
      ((grammar.alternatives? symbol).getD []).map (Production.mk symbol)).Perm
        grammar.productions := by
  have covered : ∀ production ∈ grammar.productions,
      production.symbol ∈ grammar.nonterminals := by
    intro production member
    simpa [nonterminals_eq] using ⟨production, member, rfl⟩
  simp only [map_mk_alternatives?]
  exact Production.flatMap_rulesOf_perm grammar.groups.nodup covered

theorem collects_of_ofProductions (made : ofProductions given = .ok grammar) :
    grammar.Collects given := by
  have productions := productions_of_ofProductions made
  have symbols : grammar.productions.map Production.symbol = given.map Production.symbol := by
    simp [productions]
  exact
    { productions := by
        simp only [productions, any_not_mark]
        rfl
      nonterminals := by rw [nonterminals_eq, symbols]
      start := grammar.head?_nonterminals
      alternatives := fun symbol => by rw [alternatives?_eq, symbols, Production.rulesOf]
      once := grammar.flatMap_alternatives?_perm
      again := grammar.ofProductions_productions }

end

theorem ofProductions_outcome (given : List Production) :
    Gathered.gather? given = (ofProductions given).map gathered ∧
    (∀ rule, ofProductions given = .error (.invalidRule rule) ↔
      ∃ before bad after, given = before ++ bad :: after ∧
        (∀ earlier ∈ before, ¬earlier.Headless) ∧ bad.Headless ∧ rule = bad.render) ∧
    (ofProductions given = .error .emptyGrammar ↔ given = []) ∧
    ((∃ grammar, ofProductions given = .ok grammar) ↔
      given ≠ [] ∧ ∀ production ∈ given, ¬production.Headless) ∧
    ∀ grammar, ofProductions given = .ok grammar → grammar.Collects given := by
  exact ⟨gather?_eq given, fun rule => ofProductions_eq_invalidRule_iff,
    ofProductions_eq_emptyGrammar_iff, ofProductions_eq_ok_iff,
    fun grammar => collects_of_ofProductions⟩

theorem ofProductions_outcome_mixed :
    let given : List Production :=
      [⟨"S", ["B", "a"]⟩, ⟨"B", ["ε"]⟩, ⟨"S", []⟩, ⟨"B", ["", "S", "cϵ"]⟩]
    ∃ grammar, ofProductions given = .ok grammar ∧
      grammar.productions = [⟨"S", ["B", "a"]⟩, ⟨"B", []⟩, ⟨"S", []⟩, ⟨"B", ["S", "cϵ"]⟩] ∧
      grammar.nonterminals = ["S", "B"] ∧
      grammar.alternatives? "B" = some [[], ["S", "cϵ"]] ∧ grammar.alternatives? "a" = none ∧
      ofProductions (given ++ [⟨"B C", ["", "x"]⟩, ⟨"", []⟩]) =
        .error (.invalidRule "B C ->  x") := by
  intro given
  have outcome := ofProductions_outcome given
  have sound : ∀ production ∈ given, ¬production.Headless := by
    simp only [Production.headless_iff]
    decide
  obtain ⟨grammar, made⟩ := outcome.2.2.2.1.2 ⟨by decide, sound⟩
  have collects := outcome.2.2.2.2 grammar made
  have productions : grammar.productions =
      [⟨"S", ["B", "a"]⟩, ⟨"B", []⟩, ⟨"S", []⟩, ⟨"B", ["S", "cϵ"]⟩] :=
    collects.productions.trans (by decide)
  have left := collects.alternatives "B"
  have undeclared := collects.alternatives "a"
  rw [productions] at left undeclared
  refine ⟨grammar, made, productions, collects.nonterminals.trans (by decide),
    left.trans (by decide), undeclared.trans (by decide), ?_⟩
  have fault := (ofProductions_outcome (given ++ [⟨"B C", ["", "x"]⟩, ⟨"", []⟩])).2.1 "B C ->  x"
  refine fault.2 ⟨given, ⟨"B C", ["", "x"]⟩, [⟨"", []⟩], rfl, sound, ?_, by decide⟩
  exact Or.inr ⟨' ', by decide, by decide⟩

end Grammar

end Lookahead
