import Lookahead.Analysis
import Lookahead.Proofs.Joining
import Lookahead.Proofs.Layout

set_option autoImplicit false

namespace Lookahead

open RuleText

/-- What every production read from a text is like, and what no reader mistakes. Arrows stand in
tokens only, bars and epsilon marks on the left side only. -/
structure Production.Legible (production : Production) : Prop where
  named : isSymbolName production.symbol = true
  whole : ';' ∉ production.symbol.toList
  arrowless : ArrowFree production.symbol.toList
  tokens : ∀ token ∈ production.derivation, IsToken token

namespace RuleText

variable {text part left right line before : List Char} {lines : List (List Char)}
  {productions : List Production}

theorem ArrowFree.of_infix (free : ArrowFree text) (inside : part <:+: text) : ArrowFree part :=
  fun arrow member found => free arrow member (found.trans inside)

theorem arrowFree_trim (free : ArrowFree left) : ArrowFree (Text.trim left) := by
  obtain ⟨before, after, split, _⟩ := Text.exists_trim left
  exact free.of_infix ⟨before, after, split.symm⟩

theorem isToken_of_mem_derivations (whole : ';' ∉ right) {derivation : List String}
    (member : derivation ∈ derivations right) {token : String} (inside : token ∈ derivation) :
    IsToken token := by
  simp only [derivations, List.mem_map] at member
  obtain ⟨piece, cut, rfl⟩ := member
  obtain ⟨field, listed, rfl⟩ := List.mem_map.1 inside
  have letters (c : Char) (written : c ∈ field) :
      c ∈ right ∧ isEpsilonMark c = false ∧ isBar c = false := by
    have found := Text.of_mem_splitOnP cut (Text.mem_of_mem_fields listed written)
    simpa [and_assoc] using found
  have nonempty := Text.ne_nil_of_mem_fields listed
  have solid : ∀ c ∈ field, Text.isBlank c = false := by
    simpa using Text.not_blank_of_mem_fields listed
  exact
    { named := isSymbolName_ofList.2 ⟨nonempty, solid⟩
      whole := by simpa using fun written => whole (letters ';' written).1
      unbarred := by simpa using fun c written => (letters c written).2.2
      unmarked := by simpa using fun c written => (letters c written).2.1 }

theorem legible_of_readLine? (whole : ∀ c ∈ line, isSeparator c = false)
    (reads : readLine? line = some productions) :
    ∀ production ∈ productions, production.Legible := by
  obtain ⟨left, right, split, named, rfl⟩ := readLine?_eq_some_iff.1 reads
  obtain ⟨arrow, _, rfl, free⟩ := splitArrow?_sound split
  have unbroken : ';' ∉ left ++ arrow ++ right := fun inside => by
    simpa [isSeparator] using whole ';' inside
  simp only [List.mem_append, not_or] at unbroken
  intro production member
  obtain ⟨derivation, among, rfl⟩ := List.mem_map.1 member
  exact
    { named := named
      whole := by simpa using fun inside => unbroken.1.1 (Text.mem_of_mem_trim inside)
      arrowless := by simpa using arrowFree_trim free
      tokens := fun token inside => isToken_of_mem_derivations unbroken.2 among inside }

theorem legible_readLines (whole : ∀ line ∈ lines, ∀ c ∈ line, isSeparator c = false) :
    ∀ production ∈ (readLines lines).productions, production.Legible := by
  induction lines with
  | nil => simp [readLines]
  | cons line rest ih =>
    rw [List.forall_mem_cons] at whole
    rw [readLines]
    split
    next => simp
    next productions reads =>
      exact List.forall_mem_append.2 ⟨legible_of_readLine? whole.1 reads, ih whole.2⟩

theorem legible_read (text : String) :
    ∀ production ∈ (read text).productions, production.Legible :=
  legible_readLines fun _ => not_separator_of_mem_lines

theorem Marked.refl (text : List Char) : Marked text text := by
  induction text with
  | nil => exact .nil
  | cons c rest ih => exact .keep c ih

-- The gap before the first token may be any, so that the induction can move on.
theorem writesTokens_spaced (leading : Gap before) (token : String) (tokens : List String) :
    WritesTokens (token :: tokens)
      (before ++ token.toList ++ tokens.flatMap fun other => ' ' :: other.toList) := by
  have blank : Gap [' '] := by decide
  have nothing : Gap [] := by decide
  induction tokens generalizing before token with
  | nil => exact .last token leading nothing
  | cons other rest ih =>
    have later := WritesTokens.more token leading blank (by simp) (ih nothing other)
    simpa using later

end RuleText

namespace Production

variable {production : Production}

theorem Legible.withoutEpsilon_eq (legible : production.Legible) :
    production.withoutEpsilon = production :=
  withoutEpsilon_eq_self fun token inside => (legible.tokens token inside).not_isEpsilonName

theorem exists_written (tokens : List String) :
    ∃ plain, WritesTokens tokens plain ∧
      Marked plain ((if tokens = [] then ["ε"] else tokens).flatMap fun symbol =>
        ' ' :: symbol.toList) := by
  have blank : Gap [' '] := by decide
  cases tokens with
  | nil => exact ⟨[' '], .nil blank, .keep ' ' (.mark rfl .nil)⟩
  | cons token rest =>
    have written := writesTokens_spaced blank token rest
    exact ⟨_, written, by simpa using Marked.refl _⟩

def Legible.rule (legible : production.Legible) : Rule where
  symbol := production.symbol
  alternatives := [production.derivation]
  named := legible.named
  whole := legible.whole
  arrowless := legible.arrowless
  nonempty := by simp
  tokens := by simpa using legible.tokens

theorem Legible.writes (legible : production.Legible) :
    legible.rule.Writes production.render.toList := by
  have nothing : Gap [] := by decide
  have blank : Gap [' '] := by decide
  have arrow : ['-', '>'] ∈ arrows := by simp [arrows]
  obtain ⟨plain, written, marked⟩ := exists_written production.derivation
  have alternatives : WritesAlternatives legible.rule.alternatives plain := .last written
  have writes := Rule.Writes.rule nothing blank arrow alternatives marked
  simpa [toList_render, Legible.rule] using writes

theorem Legible.readLines_eq (legible : production.Legible) :
    readLines (lines production.render.toList) = ⟨[production], none⟩ := by
  have line := legible.writes.lines_eq
  have reads := legible.writes.readLine?
  simp [line, readLines, reads, Rule.productions, Legible.rule]

end Production

namespace RuleText

def write (separator : String) (productions : List Production) : String :=
  separator.intercalate (productions.map Production.render)

variable {separator ending : String} {productions : List Production}

theorem readLines_write (separates : Separates separator.toList)
    (legible : ∀ production ∈ productions, production.Legible) :
    readLines (lines (write separator productions).toList) = ⟨productions, none⟩ := by
  induction productions with
  | nil => rfl
  | cons production rest ih =>
    rw [List.forall_mem_cons] at legible
    have first := legible.1.readLines_eq
    cases rest with
    | nil => simpa [write] using first
    | cons next later =>
      have following := ih legible.2
      have apart : (write separator (production :: next :: later)).toList =
          production.render.toList ++ separator.toList ++
            (write separator (next :: later)).toList := by
        simp [write]
      rw [apart, lines_append_separates separates, readLines_append, first, following]
      rfl

theorem read_write (separates : Separates separator.toList) (breaks : Break ending.toList)
    (legible : ∀ production ∈ productions, production.Legible) :
    read (write separator productions ++ ending) = ⟨productions, none⟩ := by
  have cut := lines_append_of_break (write separator productions).toList breaks
  simp only [read, String.toList_append, cut, readLines_write separates legible]

end RuleText

namespace Grammar

variable {grammar : Grammar} {text : String} {productions : List Production}

theorem ofProductions_productions (grammar : Grammar) :
    ofProductions grammar.productions = .ok grammar := by
  obtain ⟨made, same, productions⟩ := ofProductions_of_plain grammar.nonempty grammar.named
    fun production member => Production.withoutEpsilon_eq_self (grammar.plain production member)
  have equal : made = grammar := Grammar.ext productions
  simp [same, equal]

theorem productions_of_parse (parsed : parse text = .ok grammar) :
    grammar.productions = (RuleText.read text).productions := by
  have sound := ((parse_eq_ok_iff text).1 ⟨grammar, parsed⟩).2
  have kept : ∀ production ∈ (RuleText.read text).productions,
      production.withoutEpsilon = production :=
    fun production member => (legible_read text production member).withoutEpsilon_eq
  cases parse_of_sound sound with
  | inl empty => simp [parsed] at empty
  | inr made =>
    obtain ⟨_, other, same, productions⟩ := made
    rw [parsed, Except.ok.injEq] at same
    simp [same, productions, List.map_congr_left kept]

theorem legible_of_parse (parsed : parse text = .ok grammar) :
    ∀ production ∈ grammar.productions, production.Legible := by
  simpa [productions_of_parse parsed] using legible_read text

theorem parse_write_productions {separator ending : String}
    (separates : Separates separator.toList) (breaks : Break ending.toList)
    (legible : ∀ production ∈ productions, production.Legible) :
    parse (write separator productions ++ ending) = ofProductions productions := by
  simp [parse, Reading.grammar, read_write separates breaks legible]

-- What a text can write down: any productions that can be read, as long as there are some.
theorem exists_parse_iff :
    (∃ text grammar, parse text = .ok grammar ∧ grammar.productions = productions) ↔
      productions ≠ [] ∧ ∀ production ∈ productions, production.Legible := by
  constructor
  · intro known
    obtain ⟨text, grammar, parsed, rfl⟩ := known
    exact ⟨grammar.nonempty, legible_of_parse parsed⟩
  · intro known
    obtain ⟨nonempty, legible⟩ := known
    have newline : Separates "\n".toList := by decide
    have nothing : Break "".toList := by decide
    obtain ⟨grammar, made, same⟩ := ofProductions_of_plain nonempty
      (fun production member => (legible production member).named)
      (fun production member => (legible production member).withoutEpsilon_eq)
    have parsed := parse_write_productions newline nothing legible
    exact ⟨_, grammar, parsed.trans made, same⟩

theorem parse_write {separator ending : String} (parsed : parse text = .ok grammar)
    (separates : Separates separator.toList) (breaks : Break ending.toList) :
    let written := write separator grammar.productions ++ ending
    parse written = .ok grammar ∧
      (parse written).map (fun again => write separator again.productions ++ ending) =
        .ok written ∧
      analyse written = analyse text := by
  intro written
  have again : parse written = .ok grammar :=
    (parse_write_productions separates breaks (legible_of_parse parsed)).trans
      grammar.ofProductions_productions
  refine ⟨again, ?_, ?_⟩
  · simp [again, Except.map, written]
  · simp [analyse, again, parsed]

theorem parse_write_odd :
    ∃ grammar, parse "\tε| →x-> aεb|\n; B->ϵ" = .ok grammar ∧
      grammar.productions = [⟨"ε|", ["x->", "ab"]⟩, ⟨"ε|", []⟩, ⟨"B", []⟩] ∧
      Separates ";".toList ∧ Break "\n".toList ∧
      write ";" grammar.productions ++ "\n" = "ε| -> x-> ab;ε| -> ε;B -> ε\n" ∧
      parse "ε| -> x-> ab;ε| -> ε;B -> ε\n" = .ok grammar := by
  have parsed : ∃ grammar, parse "\tε| →x-> aεb|\n; B->ϵ" = .ok grammar ∧
      grammar.productions = [⟨"ε|", ["x->", "ab"]⟩, ⟨"ε|", []⟩, ⟨"B", []⟩] := ⟨_, rfl, rfl⟩
  obtain ⟨grammar, parsed, productions⟩ := parsed
  have semicolon : Separates ";".toList := by decide
  have newline : Break "\n".toList := by decide
  have shown : write ";" grammar.productions ++ "\n" = "ε| -> x-> ab;ε| -> ε;B -> ε\n" := by
    rw [productions]
    rfl
  have again := (parse_write parsed semicolon newline).1
  rw [shown] at again
  exact ⟨grammar, parsed, productions, semicolon, newline, shown, again⟩

end Grammar

end Lookahead
