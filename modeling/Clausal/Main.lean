import Clausal.Command

/-!
The executable: reads the state that a request needs, answers the request and
prints the outcome.
-/

namespace Clausal

partial def readAll (stream : IO.FS.Stream) (text : String) : IO String := do
  let line ← stream.getLine
  if line.isEmpty then return text else readAll stream (text ++ line)

/-- Whether a code of the system, written with or without a sign, is this one. -/
def isCode (code known : UInt32) : Bool := code == known || code == 0 - known

def faultOf : IO.Error → Files.Fault
  | .noFileOrDirectory .. => .missing
  | .permissionDenied .. => .denied
  | .inappropriateType _ code _ => if isCode code 20 then .notDirectory else .isDirectory
  | .invalidArgument _ code text =>
      if isCode code 36 then .nameTooLong
      else .other (text ++ " (os error " ++ toString code ++ ")")
  | .userError _ => .invalidText
  | error => .other (toString error)

/-- Reads the named state; a single dash stands for standard input. -/
def fetchState (name : String) : IO (Except Files.Fault String) := do
  try
    if name == "-" then return .ok (← readAll (← IO.getStdin) "")
    else return .ok (← IO.FS.readFile name)
  catch error => return .error (faultOf error)

end Clausal

open Clausal in
def main (words : List String) : IO UInt32 := do
  let request := Command.Request.ofWords words
  let input ← match request.source? with
    | none => pure (.ok "")
    | some name => fetchState name
  let outcome := request.answer input
  IO.print outcome.stdout
  if request = .misuse then IO.eprintln ("Usage: " ++ Command.Topic.overview.usage)
  IO.eprint outcome.stderr
  return UInt32.ofNat outcome.code
