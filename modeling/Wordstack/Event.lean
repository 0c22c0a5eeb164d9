import Wordstack.Error
import Wordstack.Table
import Wordstack.Variable

/-!
# What is shown

All that an evaluation shows is a sequence of *events*, and each event has a text (`Event.render`).
Besides plain text there are events that show a part of the state, named for the part, and the
*report* of an error. Events keep apart what looks alike on the page: two runs that differ in an
operand show different stack events and the same rest.
-/

namespace Wordstack

/-- Something shown. -/
inductive Event where
  /-- The text, and nothing else. -/
  | text (s : String)
  /-- The operand stack, lowest operand first, on a line that begins with the label. -/
  | stack (label : String) (operands : List Int)
  /-- The words with their bodies, on a line. -/
  | dictionary (words : Table Body)
  /-- The variables with their contents, on a line. -/
  | storage (contents : Table Variable)
  /-- The names of the words, unless there are none, and those of the builtins, on lines. -/
  | names (words builtins : List String)
  /-- An evaluation ends with the error. -/
  | report (error : Error)
  deriving DecidableEq

namespace Event

/-- Named entries, as they are shown: the quoted name before each. -/
def listing (entries : List (String × String)) : String :=
  "\x7b" ++ String.intercalate ", " (entries.map fun e => Text.quote e.1 ++ ": " ++ e.2) ++ "\x7d"

/-- The listing of the words: the text of each body is quoted. -/
def wordListing (words : Table Body) : String :=
  listing (words.entries.map fun e => (e.1, Text.quote e.2.text))

/-- The listing of the variables. -/
def variableListing (contents : Table Variable) : String :=
  listing (contents.entries.map fun e => (e.1, e.2.describe))

/-- The text of an event. -/
def render : Event → String
  | text s => s
  | stack label operands => label ++ Cell.row operands ++ "\n"
  | dictionary words => "Dictionary: " ++ wordListing words ++ "\n"
  | storage contents => "Variables: " ++ variableListing contents ++ "\n"
  | names words builtins =>
    (if words = [] then "" else "Words: " ++ String.intercalate " " words ++ "\n")
      ++ "Builtins: " ++ String.intercalate " " builtins ++ "\n"
  | report error => "Error: " ++ error.message ++ "\n"

/-- The text of a sequence of events. -/
def renderAll (events : List Event) : String :=
  String.join (events.map render)

end Event

end Wordstack
