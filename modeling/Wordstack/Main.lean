import Wordstack.CommandLine

/-!
# The program

Reads the command line, makes a plan of it and carries it out on the real files and the real
terminal. All decisions are made by the plan and by the sessions; what is here reads and writes.
-/

namespace Wordstack.Terminal

/-- Writes a text at once. -/
def put (s : String) : IO Unit := do
  let out ← IO.getStdout
  out.putStr s
  out.flush

/-- Breaks off with an account of the reason. -/
def breakOff (b : Breakdown) : IO UInt32 := do
  (← IO.getStderr).putStrLn ("Error: " ++ b.message)
  return 1

/-- Writes what came of a plan and gives its exit code. -/
def finish (f : Finish) : IO UInt32 := do
  put (Event.renderAll f.output)
  (← IO.getStderr).putStr f.complaint
  match f.ending with
  | .ok code => return code.toUInt32
  | .error b => breakOff b

/-- Listens to the lines that are typed in until the conversation is over. -/
partial def listen (typed : IO.FS.Stream) (s : Session) : IO UInt32 := do
  put prompt
  let line ← typed.getLine
  let input : Input := if line.isEmpty then .endOfInput else .line line
  let o := Session.receive input s
  put (Event.renderAll o.output)
  match o.result with
  | .error e => breakOff (.escape e)
  | .ok true => return 0
  | .ok false => listen typed o.state

/-- The reason why a file could not be read, if it is one of those that have a number. -/
def faultOf? : IO.Error → Option ReadFault
  | .noFileOrDirectory .. => some .notFound
  | .inappropriateType _ code _ => some (if code = 21 then .isDirectory else .notDirectory)
  | .invalidArgument .. => some .nameTooLong
  | _ => none

/-- Executes the script at the path. -/
def execute (path : String) : IO UInt32 := do
  match ← (IO.FS.readBinFile path).toBaseIO with
  | .ok bytes => finish (.ofScript (.ofBytes bytes.toList))
  | .error e =>
    match faultOf? e with
    | some fault => finish { ending := .ok 1, complaint := fault.complaint path }
    | none =>
      (← IO.getStderr).putStrLn ("Error: could not read '" ++ path ++ "': " ++ toString e)
      return 1

end Wordstack.Terminal

open Wordstack Wordstack.Terminal in
/-- The exit code of the program with the arguments. -/
def main (args : List String) : IO UInt32 := do
  match Plan.ofStrings args with
  | .converse echo =>
    put Session.banner
    Terminal.listen (← IO.getStdin) { echo }
  | .script path => Terminal.execute path
  | plan => finish (plan.run ⟨[]⟩ "")
