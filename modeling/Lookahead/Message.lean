import Lookahead.Production

set_option autoImplicit false

namespace Lookahead

inductive Level where
  | trace
  | debug
deriving DecidableEq

def Level.name : Level → String
  | .trace => "TRACE"
  | .debug => "DEBUG"

inductive Message where
  | parsed (production : Production)
  | started (productions symbols : Nat) (start : String)
  | passed (number : Nat) (changed : Bool)
  | converged (passes : Nat)
deriving DecidableEq

namespace Message

def level : Message → Level
  | .parsed _ | .passed _ _ => .trace
  | .started _ _ _ | .converged _ => .debug

def text : Message → String
  | .parsed production => "parsed " ++ production.render
  | .started productions symbols start =>
    toString productions ++ " productions, " ++ toString symbols ++ " symbols, start symbol " ++
      start
  | .passed number changed =>
    "pass " ++ toString number ++ ": changed = " ++ toString changed
  | .converged passes => "converged after " ++ toString passes ++ " passes"

end Message

end Lookahead
