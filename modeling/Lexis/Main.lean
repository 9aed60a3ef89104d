import Lexis.CommandLine

/-!
# The program

Reads what an invocation needs and writes what `Outcome` says.
-/

namespace Lexis

def readErrorOf : IO.Error → ReadError
  | .noFileOrDirectory .. => .notFound
  | .inappropriateType _ code _ => if code = 21 then .isADirectory else .notADirectory
  | .invalidArgument _ code _ => if code = 22 then .nulInPath else .nameTooLong
  | error => .system (toString error)

def readBytes (path : String) : IO (Except ReadError ByteArray) := do
  try
    return .ok (← IO.FS.readBinFile path)
  catch error =>
    return .error (readErrorOf error)

def writeOutcome (outcome : Outcome) : IO UInt32 := do
  let stdout ← IO.getStdout
  stdout.write outcome.stdout
  stdout.flush
  IO.eprint outcome.stderr
  return outcome.exit.code.toUInt32

partial def readInput (input : IO.FS.Stream) (front : ByteArray) : IO ByteArray := do
  let more ← input.read 4096
  if more.isEmpty then return front
  readInput input (front ++ more)

end Lexis

open Lexis in
def main (arguments : List String) : IO UInt32 := do
  let request := Request.ofArguments arguments
  let contents ←
    match request with
    | .ok (.file path) => readBytes path
    | _ => pure (.error .notFound)
  let input ←
    match request with
    | .ok .prompt => readInput (← IO.getStdin) .empty
    | _ => pure .empty
  writeOutcome (Outcome.ofInvocation arguments (fun _ => contents) input)
