import Lookahead.Json.Basic

set_option autoImplicit false

namespace Lookahead.Json

def isGap (c : Char) : Bool := c = ' ' || c = '\t' || c = '\n' || c = '\r'

def hexDigit? (c : Char) : Option Nat :=
  if '0' ≤ c ∧ c ≤ '9' then some (c.toNat - '0'.toNat)
  else if 'a' ≤ c ∧ c ≤ 'f' then some (c.toNat - 'a'.toNat + 10)
  else if 'A' ≤ c ∧ c ≤ 'F' then some (c.toNat - 'A'.toNat + 10)
  else none

def unescape? (c : Char) : Option Char :=
  [('"', '"'), ('\\', '\\'), ('/', '/'), ('b', '\x08'), ('f', '\x0c'), ('n', '\n'), ('r', '\r'),
    ('t', '\t')].lookup c

inductive Escape where
  | outside
  | begun
  -- in a number of four digits: how many come after the next one, and what those before it make
  | code (later value : Nat)
deriving DecidableEq

structure Quoted where
  read : List Char := []
  -- the first of two numbers that together stand for one character
  half : Option Nat := none
  escape : Escape := .outside

namespace Quoted

def push (quoted : Quoted) (c : Char) : Quoted := { read := c :: quoted.read }

def text (quoted : Quoted) : String := String.ofList quoted.read.reverse

def complete (quoted : Quoted) : Bool := quoted.half = none && quoted.escape = .outside

def enter? (quoted : Quoted) (code : Nat) : Option Quoted :=
  match quoted.half with
  | none =>
    if 0xd800 ≤ code ∧ code < 0xdc00 then some { read := quoted.read, half := some code }
    else if 0xdc00 ≤ code ∧ code < 0xe000 then none
    else some (quoted.push (Char.ofNat code))
  | some first =>
    if 0xdc00 ≤ code ∧ code < 0xe000 then
      some (quoted.push (Char.ofNat (0x10000 + 0x400 * (first - 0xd800) + (code - 0xdc00))))
    else none

def step? (quoted : Quoted) (c : Char) : Option Quoted :=
  match quoted.escape with
  | .outside =>
    if c = '\\' then some { quoted with escape := .begun }
    else if quoted.half = none ∧ 0x20 ≤ c.toNat then some (quoted.push c)
    else none
  | .begun =>
    if c = 'u' then some { quoted with escape := .code 3 0 }
    else if quoted.half = none then (unescape? c).map quoted.push
    else none
  | .code later value => do
    let digit ← hexDigit? c
    match later with
    | 0 => quoted.enter? (16 * value + digit)
    | later + 1 => some { quoted with escape := .code later (16 * value + digit) }

end Quoted

inductive Frame where
  | items (read : List Json)
  -- a field is open from its name on
  | fields (read : List (String × Json)) (name : String)

inductive Reader where
  | beforeValue (outer : List Frame)
  | beforeFirstItem (outer : List Frame)
  | beforeFirstField (outer : List Frame)
  | beforeField (read : List (String × Json)) (outer : List Frame)
  -- in a text that is a value, or the name of the field that comes after the given ones
  | inText (quoted : Quoted) (fields : Option (List (String × Json))) (outer : List Frame)
  | beforeColon (read : List (String × Json)) (name : String) (outer : List Frame)
  | afterValue (value : Json) (outer : List Frame)

namespace Reader

def begin? (outer : List Frame) (c : Char) : Option Reader :=
  if c = '"' then some (.inText {} none outer)
  else if c = '[' then some (.beforeFirstItem outer)
  else if c = '\x7b' then some (.beforeFirstField outer)
  else none

def closeText (text : String) (fields : Option (List (String × Json))) (outer : List Frame) :
    Reader :=
  match fields with
  | none => .afterValue (.text text) outer
  | some read => .beforeColon read text outer

def continue? (value : Json) (outer : List Frame) (c : Char) : Option Reader :=
  match outer with
  | [] => none
  | .items read :: outer =>
    if c = ',' then some (.beforeValue (.items (value :: read) :: outer))
    else if c = ']' then some (.afterValue (.array (value :: read).reverse) outer)
    else none
  | .fields read name :: outer =>
    if c = ',' then some (.beforeField ((name, value) :: read) outer)
    else if c = '\x7d' then some (.afterValue (.object ((name, value) :: read).reverse) outer)
    else none

def inGap (reader : Reader) (c : Char) : Bool :=
  match reader with
  | .inText _ _ _ => false
  | _ => isGap c

def advance? (reader : Reader) (c : Char) : Option Reader :=
  match reader with
  | .beforeValue outer => begin? outer c
  | .beforeFirstItem outer =>
    if c = ']' then some (.afterValue (.array []) outer) else begin? (.items [] :: outer) c
  | .beforeFirstField outer =>
    if c = '"' then some (.inText {} (some []) outer)
    else if c = '\x7d' then some (.afterValue (.object []) outer)
    else none
  | .beforeField read outer => if c = '"' then some (.inText {} (some read) outer) else none
  | .inText quoted fields outer =>
    if c = '"' ∧ quoted.complete then some (closeText quoted.text fields outer)
    else (quoted.step? c).map fun quoted => .inText quoted fields outer
  | .beforeColon read name outer =>
    if c = ':' then some (.beforeValue (.fields read name :: outer)) else none
  | .afterValue value outer => continue? value outer c

def step? (reader : Reader) (c : Char) : Option Reader :=
  if reader.inGap c then some reader else reader.advance? c

def run? (reader : Reader) (text : List Char) : Option Reader := text.foldlM step? reader

end Reader

def read? (text : String) : Option Json :=
  match (Reader.beforeValue []).run? text.toList with
  | some (.afterValue value []) => some value
  | _ => none

end Lookahead.Json
