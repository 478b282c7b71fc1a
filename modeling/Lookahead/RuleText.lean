import Lookahead.Grammar.Basic
import Lookahead.Text.Fields

set_option autoImplicit false

namespace Lookahead

namespace RuleText

def isSeparator (c : Char) : Bool := c == ';' || c == '\n'

def isBar (c : Char) : Bool := c == '|' || c == '∣'

def lines (text : List Char) : List (List Char) :=
  ((text.splitOnP isSeparator).map Text.trim).filter fun line => !line.isEmpty

def splitArrow? : List Char → Option (List Char × List Char)
  | [] => none
  | '→' :: rest => some ([], rest)
  | '-' :: '>' :: rest => some ([], rest)
  | c :: rest => (splitArrow? rest).map fun (left, right) => (c :: left, right)

def derivations (right : List Char) : List (List String) :=
  ((right.filter fun c => !isEpsilonMark c).splitOnP isBar).map fun part =>
    (Text.fields part).map String.ofList

def readLine? (line : List Char) : Option (List Production) :=
  match splitArrow? line with
  | none => none
  | some (left, right) =>
    let symbol := String.ofList (Text.trim left)
    if isSymbolName symbol then some ((derivations right).map (Production.mk symbol)) else none

structure Reading where
  productions : List Production
  fault : Option String

def readLines : List (List Char) → Reading
  | [] => ⟨[], none⟩
  | line :: rest =>
    match readLine? line with
    | none => ⟨[], some (String.ofList line)⟩
    | some productions =>
      let later := readLines rest
      ⟨productions ++ later.productions, later.fault⟩

def read (text : String) : Reading := readLines (lines text.toList)

def Reading.grammar (reading : Reading) : Except GrammarError Grammar :=
  match reading.fault with
  | some line => .error (.invalidRule line)
  | none => Grammar.ofProductions reading.productions

end RuleText

def Grammar.parse (text : String) : Except GrammarError Grammar :=
  (RuleText.read text).grammar

end Lookahead
