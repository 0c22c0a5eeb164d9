import Wordstack.Session
import Wordstack.Text.Lines
import Wordstack.Text.Utf8

/-!
# Scripts

A *script* is a program kept in a file. Its lines are executed one by one, with their ends, in the
same session, so that an error ends the line in which it happens and not the script; blank lines
are passed over. How many lines failed is counted.

A file is a sequence of bytes, and not every such sequence is a text. If some byte fits no
character, nothing is executed. If only the last character lacks some bytes, the lines that are
terminated before it are executed first; a carriage return right before it terminates none, as
it may be the first half of a line end. Either way the script is *broken* (`Script.ofBytes`).
-/

namespace Wordstack

/-- A program kept in a file. -/
structure Script where
  /-- The lines that can be executed, with their ends. -/
  lines : List String
  /-- Whether there is something in the file that cannot be read. -/
  broken : Bool
  deriving DecidableEq, Repr

/-- A script under way. -/
structure Progress where
  session : Session
  /-- The number of lines that ended in an error. -/
  failures : Nat := 0

namespace Script

/-- The text without a carriage return at its end. -/
def dropFinalReturn (cs : List Char) : List Char :=
  if cs.getLast? = some '\r' then cs.dropLast else cs

/-- The script in a file. -/
def ofBytes (bytes : List UInt8) : Script :=
  match Text.decodeUtf8 bytes with
  | .complete text => ⟨(Text.Lines.ofText text).withEnds.map .ofList, false⟩
  | .truncated text =>
    let terminated := (Text.Lines.ofText (dropFinalReturn text)).terminated
    ⟨terminated.map fun l => .ofList (l ++ ['\n']), true⟩
  | .invalid => ⟨[], true⟩

/-- Executes a line, unless it is blank, and counts if it fails. -/
def executeLine (line : String) : Action Progress Escape Unit := do
  if Text.isBlankText line then pure ()
  else
    (Session.execute line).onPart Progress.session fun session p => { p with session }
    .modify fun p => if p.session.lastError = none then p else { p with failures := p.failures + 1 }

/-- Executes the lines that can be executed. -/
def execute (script : Script) : Action Progress Escape Unit :=
  .forEach executeLine script.lines

end Script

end Wordstack
