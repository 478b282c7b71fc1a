set_option autoImplicit false

namespace Lookahead

/-- A JSON value; a number is kept as it is written. -/
inductive Json where
  | null
  | bool (value : Bool)
  | number (literal : String)
  | text (value : String)
  | array (items : List Json)
  | object (fields : List (String × Json))

namespace Json

def escape (c : Char) : List Char :=
  if c = '"' then ['\\', '"']
  else if c = '\\' then ['\\', '\\']
  else if c = '\x08' then ['\\', 'b']
  else if c = '\x0c' then ['\\', 'f']
  else if c = '\n' then ['\\', 'n']
  else if c = '\r' then ['\\', 'r']
  else if c = '\t' then ['\\', 't']
  else if c.toNat < 0x20 then
    ['\\', 'u', '0', '0', Nat.digitChar (c.toNat / 16), Nat.digitChar (c.toNat % 16)]
  else [c]

def quote (text : String) : List Char := '"' :: text.toList.flatMap escape ++ ['"']

mutual

def chars : Json → List Char
  | .null => "null".toList
  | .bool value => (toString value).toList
  | .number literal => literal.toList
  | .text value => quote value
  | .array items => '[' :: [','].intercalate (itemChars items) ++ [']']
  | .object fields => '\x7b' :: [','].intercalate (fieldChars fields) ++ ['\x7d']

def itemChars : List Json → List (List Char)
  | [] => []
  | item :: rest => chars item :: itemChars rest

def fieldChars : List (String × Json) → List (List Char)
  | [] => []
  | (name, value) :: rest => (quote name ++ ':' :: chars value) :: fieldChars rest

end

def render (json : Json) : String := String.ofList json.chars

def texts (values : List String) : Json := .array (values.map .text)

def text? : Json → Option String
  | .text value => some value
  | _ => none

def texts? : Json → Option (List String)
  | .array items => items.mapM text?
  | _ => none

def record? (first second : String) : Json → Option (Json × Json)
  | .object fields => do
    let a ← fields.lookup first
    let b ← fields.lookup second
    some (a, b)
  | .array [a, b] => some (a, b)
  | _ => none

-- The fields of an object, which have no order of their own, by name.
def fields? : Json → Option (List (String × Json))
  | .object fields => some (fields.mergeSort fun a b => a.1 ≤ b.1)
  | _ => none

end Json

end Lookahead
