import Lookahead.Proofs.Acceptance

set_option autoImplicit false

namespace Lookahead

namespace RuleText

def Reading.append (first later : Reading) : Reading :=
  match first.fault with
  | some _ => first
  | none => ⟨first.productions ++ later.productions, later.fault⟩

theorem readLines_append (first later : List (List Char)) :
    readLines (first ++ later) = (readLines first).append (readLines later) := by
  induction first with
  | nil => rfl
  | cons line rest ih =>
    simp only [List.cons_append, readLines, ih]
    cases readLine? line with
    | none => rfl
    | some productions =>
      cases fault : (readLines rest).fault <;> simp [Reading.append, fault]

theorem read_append {separator : String} (separates : Separates separator.toList)
    (first later : String) :
    read (first ++ separator ++ later) = (read first).append (read later) := by
  have cut := lines_append_separates separates first.toList later.toList
  simp only [read, String.toList_append, cut, readLines_append]

end RuleText

namespace Grammar

open RuleText

def append (first later : Grammar) : Grammar :=
  ofPlain (first.productions ++ later.productions) (by simp [first.nonempty])
    (List.forall_mem_append.2 ⟨first.named, later.named⟩)
    (List.forall_mem_append.2 ⟨first.plain, later.plain⟩)

@[simp] theorem productions_append (first later : Grammar) :
    (first.append later).productions = first.productions ++ later.productions := rfl

/-- What two texts come to together: the first fault in them, or the grammar of both. A text
without rules adds nothing. -/
def combined :
    Except GrammarError Grammar → Except GrammarError Grammar → Except GrammarError Grammar
  | .error (.invalidRule rule), _ => .error (.invalidRule rule)
  | .error .emptyGrammar, later => later
  | .ok _, .error (.invalidRule rule) => .error (.invalidRule rule)
  | .ok first, .error .emptyGrammar => .ok first
  | .ok first, .ok later => .ok (first.append later)

variable {given others : List Production}

@[simp] theorem ofProductions_nil : ofProductions [] = .error .emptyGrammar := rfl

theorem ofProductions_append
    (named : ∀ production ∈ given, isSymbolName production.symbol = true)
    (also : ∀ production ∈ others, isSymbolName production.symbol = true) :
    ofProductions (given ++ others) = combined (ofProductions given) (ofProductions others) := by
  by_cases empty : given = []
  next => simp [empty, combined]
  next =>
    obtain ⟨first, made, productions⟩ := ofProductions_of_named empty named
    by_cases nothing : others = []
    next => simp [nothing, made, combined]
    next =>
      obtain ⟨later, added, following⟩ := ofProductions_of_named nothing also
      have both := List.forall_mem_append.2 ⟨named, also⟩
      obtain ⟨whole, built, all⟩ := ofProductions_of_named (by simp [empty]) both
      have same : whole = first.append later := by
        apply Grammar.ext
        simp [all, productions, following]
      simp [made, added, built, same, combined]

theorem grammar_append {first later : Reading}
    (named : ∀ production ∈ first.productions, isSymbolName production.symbol = true)
    (also : ∀ production ∈ later.productions, isSymbolName production.symbol = true) :
    (first.append later).grammar = combined first.grammar later.grammar := by
  cases bad : first.fault with
  | some rule => simp [Reading.append, Reading.grammar, bad, combined]
  | none =>
    cases worse : later.fault with
    | none => simp [Reading.append, Reading.grammar, bad, worse, ofProductions_append named also]
    | some rule =>
      -- The first text has no fault in it, but it may be one without rules.
      by_cases empty : first.productions = []
      next => simp [Reading.append, Reading.grammar, bad, worse, empty, combined]
      next =>
        obtain ⟨grammar, made, _⟩ := ofProductions_of_named empty named
        simp [Reading.append, Reading.grammar, bad, worse, made, combined]

theorem parse_joined {separator : String} (separates : Separates separator.toList)
    (first later : String) :
    parse (first ++ separator ++ later) = combined (parse first) (parse later) :=
  calc parse (first ++ separator ++ later)
    _ = ((RuleText.read first).append (RuleText.read later)).grammar := by
      rw [parse, read_append separates]
    _ = combined (parse first) (parse later) := grammar_append named_readLines named_readLines

theorem parse_joined_separators :
    Separates ";".toList ∧ Separates "\n".toList ∧
      parse ("\t" ++ ";" ++ "A -> a; -> b") = .error (.invalidRule "-> b") ∧
      ∃ grammar, parse ("A -> a|" ++ "\n" ++ "B -> A") = .ok grammar ∧
        grammar.productions = [⟨"A", ["a"]⟩, ⟨"A", []⟩, ⟨"B", ["A"]⟩] := by
  have semicolon : Separates ";".toList := by decide
  have newline : Separates "\n".toList := by decide
  have bad := parse_joined semicolon "\t" "A -> a; -> b"
  have good := parse_joined newline "A -> a|" "B -> A"
  exact ⟨semicolon, newline, bad.trans rfl, _, good.trans rfl, rfl⟩

end Grammar

end Lookahead
