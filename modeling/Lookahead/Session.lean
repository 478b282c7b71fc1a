import Lookahead.Solver

set_option autoImplicit false

namespace Lookahead

structure Session where
  grammar : Grammar
  solver : Option Solver

namespace Session

inductive Step where
  | pass
  | run (count : Nat)
  | settle
  | passes
  | tables
  | entry (symbol : String)

inductive Request where
  | step (step : Step)
  | solve
  | restart

inductive Reply where
  | passed (changed : Bool) (passes : Nat) (tables : Tables)
  | ran (changed : List Bool) (passes : Nat)
  | passes (count : Nat)
  | tables (tables : Tables)
  | entry (entry : Tables.Entry)
  | consumed

def start (grammar : Grammar) : Session := ⟨grammar, some (Solver.ofGrammar grammar)⟩

def take (solver : Solver) : Step → Reply × Solver
  | .pass =>
    let next := solver.pass
    (.passed next.changed next.passes next.tables, next)
  | .run count =>
    let next := solver.run count
    (.ran (next.answers.take count).reverse next.passes, next)
  | .settle =>
    let next := solver.settle
    (.passes next.passes, next)
  | .passes => (.passes solver.passes, solver)
  | .tables => (.tables solver.tables, solver)
  | .entry symbol => (.entry (solver.tables.entry symbol), solver)

def answer (session : Session) : Request → Reply × Session
  | .restart => (.passes 0, start session.grammar)
  | .solve =>
    match session.solver with
    | none => (.consumed, session)
    | some solver => (.tables solver.settle.tables, { session with solver := none })
  | .step step =>
    match session.solver with
    | none => (.consumed, session)
    | some solver =>
      let (reply, next) := take solver step
      (reply, { session with solver := some next })

def answers : Session → List Request → List Reply
  | _, [] => []
  | session, request :: rest =>
    let (reply, next) := session.answer request
    reply :: next.answers rest

end Session

end Lookahead
