import MicroBasic.Console.Job
import Std.Time.DateTime.Timestamp

/-!
# The command line

Reads files, lines and the clock, and shows what the job of the command line shows.
-/

namespace MicroBasic.CommandLine

/-- What there is under the name of a file. -/
def readFile (file : String) : IO FileState := do
  try
    return .contents (← IO.FS.readFile file)
  catch
    | .noFileOrDirectory .. => return .missing
    | _ => return .unreadable

def showPiece : Piece → IO Unit
  | .out text => do
    let stdout ← IO.getStdout
    stdout.putStr text
    stdout.flush
  | .err text => IO.eprint text

/-- Milliseconds since the start of the year 1970. -/
def now : IO Nat := do
  let timestamp ← Std.Time.Timestamp.now
  return timestamp.toMillisecondsSinceUnixEpoch.val.toNat

def randomSeed : IO UInt64 := do
  let bytes ← IO.getRandomBytes 8
  return bytes.toList.foldl (fun word byte => word * 256 + byte.toUInt64) 0

/-- A world in which lines come from standard input. -/
def liveWorld : IO World := do
  return {
    input := .lines [] true
    clock := { readings := [], latest := 0, live := true }
    seed := ← randomSeed
    shown := #[] }

/-- Take all turns of a job. Where a turn needs something from outside it is taken again with it,
and only what it shows beyond the first `seen` pieces is new. -/
partial def drive (job : Job) (fuel seen readings : Nat) : IO UInt32 := do
  let turn := job.turn fuel
  (turn.pieces.drop seen).forM showPiece
  let seen := turn.pieces.length
  match turn.onward with
  | .done succeeded => return (Job.status succeeded).toUInt32
  | .more job => drive job fuel 0 readings
  | .awaiting .fuel => drive job (2 * fuel) seen readings
  | .awaiting .clock =>
    let reading ← now
    drive (job.mapWorld (fun world => world.addReadings (List.replicate readings reading)))
      fuel seen (2 * readings)
  | .awaiting .line =>
    let stdin ← IO.getStdin
    match job.prompt with
    | some prompt => if ← stdin.isTty then showPiece (.out prompt)
    | none => pure ()
    let line ← stdin.getLine
    if line.isEmpty then drive (job.mapWorld World.closeInput) fuel seen readings
    else
      let lines := inputLines line
      drive (job.mapWorld (fun world => lines.foldl World.addLine world)) fuel seen readings

/-- Do what a command line asks for. -/
def perform (words : List String) : IO UInt32 := do
  match Invocation.ofWords? words with
  | none =>
    IO.eprintln Invocation.usage
    return Invocation.misuseStatus.toUInt32
  | some invocation =>
    let found ← invocation.files.mapM (fun file => return (file, ← readFile file))
    let files (file : String) : FileState := (found.lookup file).getD .missing
    drive (Job.ofInvocation files (← liveWorld) invocation) 4096 0 1

end MicroBasic.CommandLine

def main (words : List String) : IO UInt32 :=
  MicroBasic.CommandLine.perform words
