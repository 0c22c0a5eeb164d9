import Wordstack.CommandLine.Directory
import Wordstack.CommandLine.Settings
import Wordstack.CommandLine.Usage
import Wordstack.Script
import Wordstack.Session.Conversation

/-!
# The command line

A command line is first made a *plan*: to evaluate a given program, to lead a conversation, to
execute a script, or to explain how the program is used. A program given by a flag goes before a
target. The target `repl` is a conversation, and a target whose name ends as that of a script is
one.

To carry out a plan, nothing more is needed than the directory in which files are found and the
text that is typed in. What then comes of it is an exit code, what was shown, and what was
complained about (`Finish`). Some things have no exit code, because the program breaks off: an
escape, a broken script, a path that no file can have, a program that is not there.
-/

namespace Wordstack

/-- What a command line comes to. -/
inductive Plan where
  | help
  | refuse (m : Misuse)
  | evaluate (program : Program) (echo : Bool)
  | converse (echo : Bool)
  | script (path : String)
  /-- Shows the help, after naming a target that is of no use. -/
  | advise (target : Option String)
  deriving DecidableEq, Repr

/-- The reasons to break off. -/
inductive Breakdown where
  | escape (e : Escape)
  /-- A script is no text. -/
  | brokenScript
  /-- A path holds the null character. -/
  | nullInPath
  /-- The program to evaluate was dropped. -/
  | noProgram
  deriving DecidableEq, Repr

/-- The account of a breakdown. -/
def Breakdown.message : Breakdown → String
  | escape e => e.message
  | brokenScript => "invalid or incomplete character in the script"
  | nullInPath => "embedded null byte"
  | noProgram => "no program to evaluate"

/-- What comes of a plan. -/
structure Finish where
  /-- The exit code, unless the program breaks off. -/
  ending : Except Breakdown Nat
  /-- What was shown. -/
  output : List Event := []
  /-- What was complained about. -/
  complaint : String := ""

/-- The ends of the names of scripts. -/
def scriptEndings : List String := [".fth", ".forth"]

/-- Whether the path is that of a script. -/
def isScriptPath (path : String) : Bool :=
  scriptEndings.any fun e => e.toList.isSuffixOf path.toList

/-- The prompt of a conversation. -/
def prompt : String := "ok> "

/-- The plan for a target. -/
def Plan.ofTarget (echo : Bool) : Option String → Plan
  | none => advise none
  | some target =>
    if target = "repl" then converse echo
    else if isScriptPath target then script target
    else if target = "" then advise none
    else advise (some target)

/-- The plan for a command line. -/
def Plan.ofStrings (args : List String) : Plan :=
  match Settings.ofStrings args with
  | .error .help => help
  | .error (.misuse m) => refuse m
  | .ok s =>
    match s.program with
    | some program => evaluate program !s.quiet
    | none => ofTarget (!s.quiet) s.target

/-- The account of a script that could not be read. -/
def ReadFault.complaint (fault : ReadFault) (path : String) : String :=
  "Error: could not read '" ++ path ++ "': [Errno " ++ toString fault.code ++ "] "
    ++ fault.message ++ ": " ++ Text.quote path ++ "\n"

/-- The lines of what is typed in. -/
def typedLines (typed : String) : List Input :=
  (Text.Lines.ofNewlines typed.toList).toList.map fun l => .line (.ofList l)

namespace Finish

/-- What comes of an action: the exit code is read off the state at the end. -/
def ofAction {σ α : Type} (m : Action σ Escape α) (exit : σ → Nat) (s : σ) : Finish :=
  match m s with
  | ⟨s', output, .ok _⟩ => { ending := .ok (exit s'), output }
  | ⟨_, output, .error e⟩ => { ending := .error (.escape e), output }

/-- What comes of a program. -/
def ofProgram (echo : Bool) : Program → Finish
  | .dropped => { ending := .error .noProgram }
  | .text program =>
    ofAction (Session.execute program) (fun s => if s.lastError = none then 0 else 1) { echo }

/-- What comes of a conversation. -/
def ofConversation (echo : Bool) (inputs : List Input) : Finish :=
  ofAction (Session.converse (some prompt) inputs) (fun _ => 0) { echo }

/-- What comes of a script. -/
def ofScript (script : Script) : Finish :=
  let f := ofAction script.execute (fun p => if p.failures = 0 then 0 else 1)
    { session := { echo := false } }
  match f.ending with
  | .error _ => f
  | .ok _ =>
    if script.broken then { f with ending := .error .brokenScript }
    else { f with output := f.output ++ [.text "\n"] }

/-- What comes of a script that is still to be read. -/
def ofPath (directory : Directory) (path : String) : Finish :=
  if path.toList.contains '\x00' then { ending := .error .nullInPath }
  else match directory.readFile path with
    | .ok bytes => ofScript (.ofBytes bytes)
    | .error fault => { ending := .ok 1, complaint := fault.complaint path }

end Finish

/-- Carries out a plan. -/
def Plan.run (directory : Directory) (typed : String) : Plan → Finish
  | help => { ending := .ok 0, output := [.text Usage.help] }
  | refuse m => { ending := .ok 2, complaint := Usage.complaint m }
  | evaluate program echo => .ofProgram echo program
  | converse echo => .ofConversation echo (typedLines typed)
  | script path => .ofPath directory path
  | advise none => { ending := .ok 2, output := [.text Usage.help] }
  | advise (some target) =>
    { ending := .ok 2
      output := [.text ("Unrecognised argument: " ++ target ++ "\n"), .text Usage.help] }

end Wordstack
