import Wordstack.Session

/-!
# Conversations

A session can be led in conversation: it listens for *inputs*, one after the other, and executes
the lines among them that are not blank. The conversation is over at the end of the input or at a
*farewell*, a line that says `bye` in letters of either case, with nothing but blanks around it.
An interrupt is acknowledged and changes nothing.

If there is a prompt, it is shown before each input, also before the one that does not come.
-/

namespace Wordstack

/-- What a listening session may be told. -/
inductive Input where
  | line (text : String)
  | interrupt
  | endOfInput
  deriving DecidableEq, Repr

/-- What is left of a conversation when it is over. -/
structure Conversation where
  /-- How often the session listened. -/
  prompts : Nat
  /-- The inputs that it did not listen to. -/
  unread : List Input
  deriving DecidableEq, Repr

/-- Whether the line ends the conversation. -/
def isFarewell (line : String) : Bool :=
  (Text.trim line.toList).map Char.toLower = ['b', 'y', 'e']

namespace Session

/-- The line at the beginning of a conversation. -/
def banner : String :=
  "miniforth - type 'bye' to exit, 'words' to list words\n"

/-- The answer to an interrupt. -/
def interruptNotice : String :=
  "\n(Ctrl+C) stack and definitions preserved, 'bye' to exit\n"

/-- Shows the prompt, if there is one. -/
def ask (prompt : Option String) : Action Session Escape Unit :=
  match prompt with
  | none => pure ()
  | some p => .emit (.text p)

/-- Responds to an input and says whether the conversation is over. -/
def receive : Input → Action Session Escape Bool
  | .endOfInput => pure true
  | .interrupt => do
    .emit (.text interruptNotice)
    pure false
  | .line text =>
    if isFarewell text then pure true
    else if Text.isBlankText text then pure false
    else do
      execute text
      pure false

/-- Listens until the conversation is over; after the last input there is only its end. -/
def listen (prompt : Option String) : List Input → Action Session Escape Conversation
  | [] => do
    ask prompt
    pure ⟨1, []⟩
  | input :: inputs => do
    ask prompt
    if ← receive input then pure ⟨1, inputs⟩
    else do
      let c ← listen prompt inputs
      pure { c with prompts := c.prompts + 1 }

/-- Leads a conversation. -/
def converse (prompt : Option String) (inputs : List Input) :
    Action Session Escape Conversation := do
  .emit (.text banner)
  listen prompt inputs

end Session

end Wordstack
