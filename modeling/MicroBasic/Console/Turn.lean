import MicroBasic.Host.World

/-!
# Turns

A console job advances in turns. A turn shows texts on the two output channels, and then the job is
done, goes on, or needs something from outside. In the last case the turn is taken again with it,
and what it shows begins with what it showed before.
-/

namespace MicroBasic

/-- A text on one of the output channels. -/
inductive Piece where
  | out (text : String)
  | err (text : String)
  deriving Repr, DecidableEq

namespace Piece

def line (text : String) : Piece :=
  out (text ++ "\n")

def message (text : String) : Piece :=
  err (text ++ "\n")

/-- What the output channel shows of some pieces. -/
def outText (pieces : List Piece) : String :=
  String.join (pieces.map (fun piece =>
    match piece with
    | out text => text
    | err _ => ""))

/-- What the message channel shows of some pieces. -/
def errText (pieces : List Piece) : String :=
  String.join (pieces.map (fun piece =>
    match piece with
    | out _ => ""
    | err text => text))

/-- What a run shows at some point. A prompt does not end its line. -/
def ofEvent : Event → Piece
  | .line text => .line text
  | .prompt text => .out text

end Piece

/-- How a job goes on after a turn. -/
inductive Onward (σ : Type) where
  | done (succeeded : Bool)
  | more (state : σ)
  | awaiting (what : Awaited)

/-- What a turn shows and how the job goes on. -/
structure Turn (σ : Type) where
  pieces : List Piece
  onward : Onward σ

/-- The same turn of a job that is part of another. -/
def Turn.map {σ τ : Type} (embed : σ → τ) (turn : Turn σ) : Turn τ where
  pieces := turn.pieces
  onward := match turn.onward with
    | .done succeeded => .done succeeded
    | .more state => .more (embed state)
    | .awaiting what => .awaiting what

end MicroBasic
