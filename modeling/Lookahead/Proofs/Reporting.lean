import Lookahead.Narration
import Lookahead.Proofs.LifeCycle
import Lookahead.Proofs.Contents
import Lookahead.Proofs.Printing
import Lookahead.Proofs.Joining

set_option autoImplicit false

namespace Lookahead

section Messages

variable {text : String} {grammar : Grammar} {error : GrammarError}

theorem messages_of_error (failed : Grammar.parse text = .error error) :
    (report text).messages = (RuleText.read text).productions.map .parsed := by
  rw [Grammar.parse] at failed
  simp [report, failed]

theorem messages_of_parse (parsed : Grammar.parse text = .ok grammar) :
    (report text).messages = grammar.productions.map .parsed ++
      ([(Solver.ofGrammar grammar).startMessage] ++
        ((Solver.ofGrammar grammar).settle.passMessages ++
          [.converged (Solver.ofGrammar grammar).settle.passes])) := by
  rw [Grammar.productions_of_parse parsed]
  rw [Grammar.parse] at parsed
  simp [report, parsed]

theorem analyse_of_error (failed : Grammar.parse text = .error error) :
    analyse text = .error error := by
  rw [analyse, failed]
  rfl

theorem analyse_of_parse (parsed : Grammar.parse text = .ok grammar) :
    analyse text = .ok grammar.tables := by
  rw [analyse, parsed]
  rfl

end Messages

namespace Narration

/-- What a narrated part comes to, and what it adds to the log, whatever the log held before. -/
def Says {α : Type} (part : Narration α) (outcome : Except GrammarError α)
    (messages : List Message) : Prop :=
  ∀ log, (part.run).run log = (outcome, log ++ messages)

variable {α β : Type} {part : Narration α} {next : α → Narration β} {value : α}
  {error : GrammarError} {outcome : Except GrammarError β} {before after : List Message}

theorem says_pure (value : α) : Says (pure value) (.ok value) [] := by
  intro log
  rw [List.append_nil]
  rfl

theorem says_throw (error : GrammarError) : Says (throw error : Narration α) (.error error) [] := by
  intro log
  rw [List.append_nil]
  rfl

theorem says_say (message : Message) : Says (say message) (.ok ()) [message] := fun _ => rfl

theorem says_lift (outcome : Except GrammarError α) :
    Says (liftM outcome : Narration α) outcome [] := by
  intro log
  rw [List.append_nil]
  rfl

theorem Says.bind (first : Says part (.ok value) before) (later : Says (next value) outcome after) :
    Says (part >>= next) outcome (before ++ after) := by
  intro log
  have said := later (log ++ before)
  rw [List.append_assoc] at said
  rw [ExceptT.run_bind, StateT.run_bind, first log]
  exact said

theorem Says.bind_error (first : Says part (.error error) before) :
    Says (part >>= next) (.error error) before := by
  intro log
  rw [ExceptT.run_bind, StateT.run_bind, first log]
  rfl

theorem says_readAlternative (symbol : String) (known : List Production)
    (derivation : List String) :
    Says (readAlternative symbol known derivation)
      (.ok (known ++ [Production.mk symbol derivation])) [.parsed ⟨symbol, derivation⟩] :=
  (says_say _).bind (says_pure _)

theorem says_alternatives (symbol : String) (known : List Production)
    (derivations : List (List String)) :
    Says (derivations.foldlM (readAlternative symbol) known)
      (.ok (known ++ derivations.map (Production.mk symbol)))
      ((derivations.map (Production.mk symbol)).map .parsed) := by
  induction derivations generalizing known with
  | nil => simpa using says_pure known
  | cons derivation rest ih =>
    have later := ih (known ++ [Production.mk symbol derivation])
    rw [List.append_assoc] at later
    rw [List.foldlM_cons]
    exact (says_readAlternative symbol known derivation).bind later

def readFrom (known : List Production) (lines : List (List Char)) :
    Except GrammarError (List Production) :=
  let found := RuleText.readLines lines
  match found.fault with
  | some line => .error (.invalidRule line)
  | none => .ok (known ++ found.productions)

theorem says_readRule (known : List Production) (line : List Char) :
    Says (readRule known line) (readFrom known [line])
      ((RuleText.readLines [line]).productions.map .parsed) := by
  cases split : RuleText.splitArrow? line with
  | none =>
    simpa [readRule, readFrom, RuleText.readLines, RuleText.readLine?, split] using says_throw _
  | some sides =>
    obtain ⟨left, right⟩ := sides
    by_cases named : isSymbolName (String.ofList (Text.trim left)) = true
    next =>
      simpa [readRule, readFrom, RuleText.readLines, RuleText.readLine?, split, named] using
        says_alternatives (String.ofList (Text.trim left)) known (RuleText.derivations right)
    next =>
      simpa [readRule, readFrom, RuleText.readLines, RuleText.readLine?, split, named] using
        says_throw _

theorem says_readPieces (known : List Production) (pieces : List (List Char)) :
    Says (pieces.foldlM readPiece known)
      (readFrom known ((pieces.map Text.trim).filter fun line => !line.isEmpty))
      ((RuleText.readLines
        ((pieces.map Text.trim).filter fun line => !line.isEmpty)).productions.map .parsed) := by
  induction pieces generalizing known with
  | nil => simpa [readFrom, RuleText.readLines] using says_pure known
  | cons piece rest ih =>
    rw [List.foldlM_cons, List.map_cons]
    by_cases empty : (Text.trim piece).isEmpty = true
    next =>
      have skipped : readPiece known piece = pure known := by simp [readPiece, empty]
      rw [skipped, pure_bind, List.filter_cons_of_neg (by simp [empty])]
      exact ih known
    next =>
      have reads : readPiece known piece = readRule known (Text.trim piece) := by
        simp [readPiece, empty]
      have said := says_readRule known (Text.trim piece)
      rw [reads, List.filter_cons_of_pos (by simp [empty])]
      cases read : RuleText.readLine? (Text.trim piece) with
      | none =>
        simp only [readFrom, RuleText.readLines, read] at said ⊢
        exact said.bind_error
      | some productions =>
        have later := ih (known ++ productions)
        simp only [readFrom, RuleText.readLines, read, List.append_nil, List.map_append,
          List.append_assoc] at said later ⊢
        exact said.bind later

theorem says_parse (text : String) :
    Says (parse text) (Grammar.parse text) ((RuleText.read text).productions.map .parsed) := by
  have said := says_readPieces [] (text.toList.splitOnP RuleText.isSeparator)
  change Says _ (readFrom [] (RuleText.lines text.toList))
    ((RuleText.read text).productions.map .parsed) at said
  cases fault : (RuleText.read text).fault with
  | some line =>
    have outcome : readFrom [] (RuleText.lines text.toList) = .error (.invalidRule line) := by
      rw [RuleText.read] at fault
      simp [readFrom, fault]
    rw [outcome] at said
    rw [Grammar.parse_of_fault fault]
    exact said.bind_error
  | none =>
    have outcome : readFrom [] (RuleText.lines text.toList) =
        .ok (RuleText.read text).productions := by
      rw [RuleText.read] at fault
      simp [readFrom, fault, RuleText.read]
    rw [outcome] at said
    have made : Says (parse text) (Grammar.ofProductions (RuleText.read text).productions)
        ((RuleText.read text).productions.map .parsed ++ []) :=
      said.bind (says_lift _)
    rw [List.append_nil] at made
    rw [Grammar.parse, RuleText.Reading.grammar, fault]
    exact made

end Narration

namespace Solver

theorem passMessages_pass (solver : Solver) :
    solver.pass.passMessages =
      solver.passMessages ++ [.passed solver.pass.passes solver.pass.changed] := by
  simp [passMessages, pass, passes, changed, List.mapIdx_append]

end Solver

namespace Narration

theorem says_start (grammar : Grammar) :
    Says (start grammar) (.ok (Solver.ofGrammar grammar))
      [(Solver.ofGrammar grammar).startMessage] :=
  (says_say _).bind (says_pure _)

theorem says_settle (solver : Solver) :
    ∃ messages, Says (settle solver) (.ok solver.settle) messages ∧
      solver.settle.passMessages = solver.passMessages ++ messages := by
  fun_induction Solver.settle solver with
  | case1 solver next grown ih =>
    obtain ⟨later, said, following⟩ := ih
    refine ⟨.passed next.passes next.changed :: later, ?_, ?_⟩
    · rw [settle, dif_pos (show solver.pass.changed = true from grown)]
      exact (says_say _).bind said
    · rw [following, Solver.passMessages_pass, List.append_assoc]
      rfl
  | case2 solver next still =>
    refine ⟨[.passed next.passes next.changed], ?_, Solver.passMessages_pass solver⟩
    rw [settle, dif_neg (show ¬solver.pass.changed = true from still)]
    exact (says_say _).bind (says_pure _)

theorem says_solve (grammar : Grammar) :
    Says (solve (Solver.ofGrammar grammar)) (.ok grammar.tables)
      ((Solver.ofGrammar grammar).settle.passMessages ++
        [.converged (Solver.ofGrammar grammar).settle.passes]) := by
  obtain ⟨messages, said, passMessages⟩ := says_settle (Solver.ofGrammar grammar)
  have fresh : (Solver.ofGrammar grammar).passMessages = [] := rfl
  rw [passMessages, fresh, List.nil_append]
  exact said.bind ((says_say _).bind (says_pure _))

theorem says_analyse (text : String) :
    Says (analyse text) (Lookahead.analyse text) (report text).messages := by
  have read := says_parse text
  cases parsed : Grammar.parse text with
  | error error =>
    rw [parsed] at read
    rw [analyse_of_error parsed, messages_of_error parsed]
    exact read.bind_error
  | ok grammar =>
    rw [parsed, ← Grammar.productions_of_parse parsed] at read
    rw [analyse_of_parse parsed, messages_of_parse parsed]
    exact read.bind ((says_start grammar).bind (says_solve grammar))

end Narration

namespace Solver

theorem startMessage_ofGrammar (grammar : Grammar) :
    (ofGrammar grammar).startMessage =
      .started grammar.productions.length grammar.symbols.length grammar.start := by
  have rules : grammar.numbered.rules.length = grammar.productions.length := by
    rw [Grammar.rules_numbered, List.length_map]
  have symbols : grammar.numbered.symbols.length = grammar.symbols.length := by
    rw [← Grammar.names_symbols, List.length_map]
  have start : grammar.numbered.name grammar.numbered.start = grammar.start := by
    rw [Grammar.start_numbered, Grammar.name_number grammar.start_mem]
  simp [startMessage, ofGrammar, rules, symbols, start]

theorem passMessages_run (grammar : Grammar) (count : Nat) :
    ((ofGrammar grammar).run count).passMessages = (List.range count).map fun earlier =>
      .passed (earlier + 1) ((ofGrammar grammar).run (earlier + 1)).changed := by
  induction count with
  | zero => rfl
  | succ count ih =>
    have number : ((ofGrammar grammar).run (count + 1)).passes = count + 1 := by
      rw [passes_run]
      exact Nat.zero_add _
    rw [List.range_succ, List.map_append, ← ih, List.map_singleton]
    rw [run_succ] at number ⊢
    rw [passMessages_pass, number]

def quietPasses (grammar : Grammar) : Set Nat :=
  {number | 0 < number ∧ ((ofGrammar grammar).run number).changed = false}

theorem settle_eq_run_least (grammar : Grammar) :
    ∃ passes, IsLeast (quietPasses grammar) passes ∧
      (ofGrammar grammar).settle = (ofGrammar grammar).run passes := by
  obtain ⟨count, same, still, growing⟩ := settle_eq_run (ofGrammar grammar)
  refine ⟨count + 1, ⟨⟨by omega, ?_⟩, ?_⟩, same⟩
  · rw [changed_run]
    exact still
  · rintro (_ | earlier) ⟨positive, quiet⟩
    · omega
    · by_contra before
      have busy := growing earlier (by omega)
      rw [changed_run, known, busy] at quiet
      cases quiet

theorem changed_run_of_least {grammar : Grammar} {passes earlier : Nat}
    (least : IsLeast (quietPasses grammar) passes) (within : earlier < passes) :
    ((ofGrammar grammar).run (earlier + 1)).changed = decide (earlier + 1 < passes) := by
  by_cases before : earlier + 1 < passes
  next =>
    rw [decide_eq_true before]
    by_contra quiet
    have bound := least.2 ⟨Nat.succ_pos earlier, by simpa using quiet⟩
    omega
  next =>
    have last : earlier + 1 = passes := by omega
    rw [decide_eq_false before, last]
    exact least.1.2

end Solver

theorem Grammar.keys_tables (grammar : Grammar) :
    grammar.tables.first.keys = grammar.symbols ∧ grammar.tables.follow.keys = grammar.symbols := by
  obtain ⟨passes, _, same⟩ := Solver.settle_eq_run_least grammar
  rw [Grammar.tables, same, Solver.tables_run]
  exact ⟨grammar.keys_symbolSets _, grammar.keys_symbolSets _⟩

def parsedLines (productions : List Production) : List (String × String) :=
  productions.map fun production => ("TRACE", "parsed " ++ production.render)

theorem lines_of_error {text : String} {error : GrammarError}
    (failed : Grammar.parse text = .error error) :
    (report text).lines = parsedLines (RuleText.read text).productions := by
  rw [Report.lines, messages_of_error failed, List.map_map]
  rfl

theorem lines_of_parse {text : String} {grammar : Grammar} {passes : Nat}
    (parsed : Grammar.parse text = .ok grammar)
    (least : IsLeast (Solver.quietPasses grammar) passes)
    (same : (Solver.ofGrammar grammar).settle = (Solver.ofGrammar grammar).run passes) :
    (report text).lines = parsedLines grammar.productions ++
      [("DEBUG", toString grammar.productions.length ++ " productions, " ++
        toString grammar.symbols.length ++ " symbols, start symbol " ++ grammar.start)] ++
      (List.range passes).map (fun earlier => ("TRACE", "pass " ++ toString (earlier + 1) ++
        ": changed = " ++ toString (decide (earlier + 1 < passes)))) ++
      [("DEBUG", "converged after " ++ toString passes ++ " passes")] := by
  have number : ((Solver.ofGrammar grammar).run passes).passes = passes := by
    rw [Solver.passes_run]
    exact Nat.zero_add _
  have changed : ((Solver.ofGrammar grammar).run passes).passMessages =
      (List.range passes).map fun earlier =>
        .passed (earlier + 1) (decide (earlier + 1 < passes)) := by
    rw [Solver.passMessages_run]
    apply List.map_congr_left
    intro earlier inside
    rw [Solver.changed_run_of_least least (List.mem_range.1 inside)]
  rw [Report.lines, messages_of_parse parsed, same, number, changed,
    Solver.startMessage_ofGrammar]
  simp only [List.map_append, List.map_map, List.map_singleton, List.append_assoc]
  rfl

namespace RuleText

variable {line : List Char} {before : List (List Char)} {text : String}

theorem productions_alone (member : line ∈ lines text.toList) (rule : IsRule line) :
    (Grammar.parse (String.ofList line)).map Grammar.productions =
      .ok (readLines [line]).productions := by
  have alone : read (String.ofList line) = readLines [line] := by
    rw [read, String.toList_ofList, lines_of_mem member]
  have sound : (readLines [line]).fault = none := by
    simpa [fault_readLines_eq_none_iff] using rule
  have nonempty : lines (String.ofList line).toList ≠ [] := by
    simp [String.toList_ofList, lines_of_mem member]
  obtain ⟨grammar, parsed⟩ := (Grammar.parse_eq_ok_iff _).2 ⟨nonempty, by rw [alone, sound]⟩
  rw [parsed, ← alone, ← Grammar.productions_of_parse parsed]
  rfl

theorem productions_read_of_fault {after : List (List Char)}
    (split : lines text.toList = before ++ line :: after)
    (rules : ∀ earlier ∈ before, IsRule earlier) (bad : ¬IsRule line) :
    (read text).productions = (readLines before).productions := by
  have sound := fault_readLines_eq_none_iff.2 rules
  have stops := readLine?_eq_none_iff.2 bad
  rw [read, split, readLines_append]
  simp [Reading.append, sound, readLines, stops]

theorem exists_groups (members : ∀ line ∈ before, line ∈ lines text.toList)
    (rules : ∀ line ∈ before, IsRule line) :
    ∃ groups, List.Forall₂ (fun earlier productions =>
        (Grammar.parse (String.ofList earlier)).map Grammar.productions = .ok productions)
        before groups ∧ (readLines before).productions = groups.flatten := by
  induction before with
  | nil => exact ⟨[], .nil, rfl⟩
  | cons line rest ih =>
    rw [List.forall_mem_cons] at members rules
    obtain ⟨groups, alone, productions⟩ := ih members.2 rules.2
    have first := productions_alone members.1 rules.1
    obtain ⟨found, read⟩ := isRule_iff.1 rules.1
    refine ⟨(readLines [line]).productions :: groups, .cons first alone, ?_⟩
    simp [readLines, read, productions]

end RuleText

theorem lines_of_invalidRule {text rule : String}
    (failed : Grammar.parse text = .error (.invalidRule rule)) :
    ∃ before line after groups, RuleText.lines text.toList = before ++ line :: after ∧
      ¬RuleText.IsRule line ∧ rule = String.ofList line ∧
      List.Forall₂ (fun earlier productions =>
        (Grammar.parse (String.ofList earlier)).map Grammar.productions = .ok productions)
        before groups ∧
      (report text).lines = parsedLines groups.flatten := by
  have fault := (Grammar.parse_eq_invalidRule_iff text rule).1 failed
  obtain ⟨before, line, after, split, rules, bad, same⟩ :=
    RuleText.fault_readLines_eq_some_iff.1 fault
  have members : ∀ line ∈ before, line ∈ RuleText.lines text.toList := by
    intro earlier member
    rw [split]
    exact List.mem_append_left _ member
  obtain ⟨groups, alone, productions⟩ := RuleText.exists_groups members rules
  have lines : (report text).lines = parsedLines groups.flatten := by
    rw [lines_of_error failed, RuleText.productions_read_of_fault split rules bad, productions]
  exact ⟨before, line, after, groups, split, bad, same, alone, lines⟩

theorem lines_of_emptyGrammar {text : String} (failed : Grammar.parse text = .error .emptyGrammar) :
    (report text).lines = [] := by
  have empty := (Grammar.parse_eq_emptyGrammar_iff text).1 failed
  rw [lines_of_error failed, RuleText.read, empty]
  rfl

/-- The log of an analysis, each message of which is written as the work it tells of is done: a
line for each production of the grammar, one with the size of the grammar, one for each pass until
one adds nothing, and one with the number of passes. If there is a bad rule, the log holds the
productions of the rules before it, as they are in a text of their own; without rules it is
empty. -/
theorem report_faithful (text : String) :
    (report text).outcome = analyse text ∧
    Narration.Says (Narration.analyse text) (analyse text) (report text).messages ∧
    match analyse text with
    | .ok tables =>
      ∃ grammar passes, Grammar.parse text = .ok grammar ∧
        IsLeast (Solver.quietPasses grammar) passes ∧
        tables.follow.keys = tables.first.keys ∧
        (report text).lines = parsedLines grammar.productions ++
          [("DEBUG", toString grammar.productions.length ++ " productions, " ++
            toString tables.first.keys.length ++ " symbols, start symbol " ++ grammar.start)] ++
          (List.range passes).map (fun earlier => ("TRACE", "pass " ++ toString (earlier + 1) ++
            ": changed = " ++ toString (decide (earlier + 1 < passes)))) ++
          [("DEBUG", "converged after " ++ toString passes ++ " passes")]
    | .error (.invalidRule rule) =>
      ∃ before line after groups, RuleText.lines text.toList = before ++ line :: after ∧
        ¬RuleText.IsRule line ∧ rule = String.ofList line ∧
        List.Forall₂ (fun earlier productions =>
          (Grammar.parse (String.ofList earlier)).map Grammar.productions = .ok productions)
          before groups ∧
        (report text).lines = parsedLines groups.flatten
    | .error .emptyGrammar => (report text).lines = [] := by
  refine ⟨outcome_report text, Narration.says_analyse text, ?_⟩
  cases parsed : Grammar.parse text with
  | ok grammar =>
    obtain ⟨passes, least, same⟩ := Solver.settle_eq_run_least grammar
    obtain ⟨first, follow⟩ := grammar.keys_tables
    rw [analyse_of_parse parsed]
    refine ⟨grammar, passes, rfl, least, follow.trans first.symm, ?_⟩
    rw [first]
    exact lines_of_parse parsed least same
  | error error =>
    rw [analyse_of_error parsed]
    cases error with
    | invalidRule rule => exact lines_of_invalidRule parsed
    | emptyGrammar => exact lines_of_emptyGrammar parsed

example : (report "A -> a | ε;A b -> c;B -> d").lines =
    [("TRACE", "parsed A -> a"), ("TRACE", "parsed A -> ε")] := by
  rfl

end Lookahead
