import MicroBasic.Ast.Stmt
import MicroBasic.Parse.Fault

/-!
# Pairing `FOR` with `NEXT`

`FOR` and `NEXT` are separate statements of one block. They pair like brackets: a `NEXT` closes the
innermost `FOR` that is still open in its block, and if it has a name, that has to be the name of
the loop's variable, type suffixes apart. Inner blocks pair on their own.
-/

namespace MicroBasic

namespace Pairing

/-- A `FOR` whose `NEXT` has not been found yet. -/
structure OpenFor where
  var : String
  index : Nat
  id : Nat
  token : Token

/-- Whether an open loop has a variable of this name. -/
def OpenFor.isNamed (opened : OpenFor) (name : String) : Bool :=
  Text.stripSuffix opened.var == Text.stripSuffix name

/-- Whether a constant step of zero keeps a loop from ever ending. -/
def hasZeroStep (step : Option Expr) : Bool :=
  match step.bind Expr.constant? with
  | some value => value == 0
  | none => false

/-- The cause of a `NEXT` that does not fit the loops open at it, innermost first. -/
def misfit (next : Token) (name : String) (innermost : OpenFor) (opened : List OpenFor) :
    ParseError :=
  if opened.any (fun loop => loop.isNamed name) then
    ParseError.at innermost.token (.crossedNext innermost.var name)
  else ParseError.at next (.nextWithoutFor (some name))

/-- Enter a pair under the numbers of both its statements. -/
def bind (bindings : LoopBindings) (loop : OpenFor) (nextId nextIndex : Nat) : LoopBindings :=
  let binding : LoopBinding := { forIndex := loop.index, nextIndex }
  (bindings.insert loop.id binding).insert nextId binding

/-- The open loops, innermost first, and the pairs found, after one more statement of a block. -/
def visit (index : Nat) (stmt : Stmt) (opened : List OpenFor) (bindings : LoopBindings) :
    Except ParseError (List OpenFor × LoopBindings) :=
  match stmt.kind with
  | .openFor var _ _ step =>
    if hasZeroStep step then throw (ParseError.at stmt.token (.zeroStep var))
    else return ({ var, index, id := stmt.id, token := stmt.token } :: opened, bindings)
  | .next name =>
    match opened with
    | [] => throw (ParseError.at stmt.token (.nextWithoutFor name))
    | innermost :: outer =>
      match name with
      | some name =>
        if innermost.isNamed name then return (outer, bind bindings innermost stmt.id index)
        else throw (misfit stmt.token name innermost opened)
      | none => return (outer, bind bindings innermost stmt.id index)
  | _ => return (opened, bindings)

/-- The pairs of the rest of a block, which begins at a place of the block with some loops open. -/
def pairFrom (index : Nat) (opened : List OpenFor) (bindings : LoopBindings) (block : Block) :
    Except ParseError LoopBindings :=
  match block with
  | [] =>
    match opened.getLast? with
    | some outermost => throw (ParseError.at outermost.token (.forWithoutNext outermost.var))
    | none => return bindings
  | stmt :: rest => do
    let (opened, bindings) ← visit index stmt opened bindings
    let bindings ← stmt.blocks.attach.foldlM
      (fun bindings inner =>
        have := Stmt.sizeOf_lt_of_mem_blocks inner.property
        pairFrom 0 [] bindings inner.val)
      bindings
    pairFrom (index + 1) opened bindings rest
termination_by sizeOf block

end Pairing

/-- The pairing of all loops of a program, or the first error in it. -/
def Block.pairing (block : Block) : Except ParseError LoopBindings :=
  Pairing.pairFrom 0 [] .empty block

end MicroBasic
