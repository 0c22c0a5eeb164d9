import Wordstack.Session.Conversation

/-!
# Requests to a session

Whoever holds a session can have it execute texts and tokens, lead conversations, put operands on
the stack and take them off, and can reach each part of its environment directly. A *request* is
one such thing to do, and a *reply* is what comes back. What is put into the tables directly is
not checked or wrapped: the environment takes any name and any integer.

Requests can fail where programs cannot: they may ask for the reference to a variable that does
not exist, or replace a reference that is not there. A failed request does not keep those after
it from being made (`Session.transcript`).
-/

namespace Wordstack

/-- Something to be done with an environment. Where an operand or a reference may be missing, the
    request says how that is accounted for. -/
inductive EnvRequest where
  /-- To put a value on the operand stack. -/
  | push (v : Int)
  /-- To take the top operand. -/
  | pop (message : String)
  /-- To tell the top operand. -/
  | top (message : String)
  /-- To fail unless there are so many operands. -/
  | require (count : Int) (message : String)
  /-- To give a word a body, whatever its name. -/
  | defineWord (name : Token) (body : Body)
  /-- To tell the body of a word. -/
  | lookupWord (name : Token)
  /-- To give a constant a value, whatever its name. -/
  | defineConstant (name : Token) (v : Int)
  /-- To tell the value of a constant. -/
  | lookupConstant (name : Token)
  /-- To tell the value of a register. -/
  | getRegister (name : Token)
  /-- To give a register a value and to tell the one that it had. -/
  | setRegister (name : Token) (v : Int)
  /-- To take a register out and to tell the value that it had. -/
  | clearRegister (name : Token)
  /-- To tell the operand stack as it is shown. -/
  | stackText
  /-- To tell the words as they are shown. -/
  | wordText
  /-- To tell the variables as they are shown. -/
  | variableText
  /-- To show the operand stack. -/
  | printStack
  /-- To create or reset a scalar. -/
  | createVariable (name : Token)
  /-- To make a scalar an array. -/
  | allotArray (name : Token) (length : Int)
  /-- To tell the value of a scalar. -/
  | getScalar (name : Token)
  /-- To give a scalar a value. -/
  | setScalar (name : Token) (v : Int)
  /-- To tell the array that has a cell at the position. -/
  | checkSlot (name : Token) (position : Int)
  /-- To tell the value of a cell. -/
  | getCell (name : Token) (position : Int)
  /-- To give a cell a value. -/
  | setCell (name : Token) (position v : Int)
  /-- To put a reference on top of those that wait. -/
  | pushReference (r : Reference)
  /-- To take the top reference. -/
  | popReference (message : String)
  /-- To tell the top reference, if there is one. -/
  | topReference
  /-- To put a reference in the place of the top one. -/
  | replaceTopReference (r : Reference)
  /-- To tell the reference that the name of a variable makes. -/
  | referenceTo (name : Token)
  /-- To tell the environment as it is shown. -/
  | describe

/-- Something to be done with a session. -/
inductive Request where
  /-- To execute a program text. -/
  | execute (text : String)
  /-- To evaluate tokens, without echo and without a trace in the remembered error. -/
  | evaluate (tokens : List Token)
  /-- To put values on the operand stack, the last one uppermost. -/
  | push (values : List Int)
  /-- To take the top operand, if there is one. -/
  | pop
  /-- To tell the top operand, if there is one. -/
  | peek
  /-- To tell the session as it is shown. -/
  | describe
  /-- To tell the remembered error. -/
  | lastError
  /-- To go on with a new session on the same environment. -/
  | attach (echo : Bool)
  /-- To lead a conversation without a prompt. -/
  | converse (inputs : List Input)
  /-- To do something with the environment itself. -/
  | env (request : EnvRequest)

/-- What a request brings back. -/
inductive Reply where
  | nothing
  /-- The session that was asked. -/
  | itself
  | number (v : Int)
  | text (s : String)
  | error (e : Error)
  | body (b : Body)
  | cells (vs : List Int)
  | reference (r : Reference)
  | conversation (c : Conversation)

/-- The ways in which a request can fail. -/
inductive Failure where
  | error (e : Error)
  | escape (e : Escape)
  /-- There is no variable of the name to refer to. -/
  | unknownVariable (name : Token)
  /-- There is no reference to replace. -/
  | nothingToReplace
  deriving DecidableEq, Repr

/-- The account of a failed request. -/
def Failure.message : Failure → String
  | .error e => e.message
  | .escape e => e.message
  | .unknownVariable name => Text.quote name
  | .nothingToReplace => "list assignment index out of range"

instance {σ : Type} : MonadLift (Action σ Error) (Action σ Failure) := ⟨.mapError .error⟩

instance {σ : Type} : MonadLift (Action σ Escape) (Action σ Failure) := ⟨.mapError .escape⟩

/-- The reply that holds something if there is something. -/
def Reply.ofOption {α : Type} (f : α → Reply) : Option α → Reply
  | none => nothing
  | some a => f a

namespace EnvRequest

open Env

/-- What the environment replies, for a request that only asks. -/
def answer (f : Env → Reply) : Action Env Failure Reply := do
  return f (← Action.state)

/-- Does something that has nothing to reply. -/
def quietly (m : Action Env Error Unit) : Action Env Failure Reply := do
  m
  return .nothing

/-- Does what is requested. -/
def perform : EnvRequest → Action Env Failure Reply
  | push v => quietly (Env.push v)
  | pop message => do return .number (← Env.pop message)
  | top message => do return .number (← Env.top message)
  | require count message => quietly (Env.require count message)
  | defineWord name body => quietly (define ⟨name, body⟩)
  | lookupWord name => answer fun env => .ofOption .body (env.words.get? name)
  | defineConstant name v =>
    quietly (.modify fun env => { env with constants := env.constants.insert name v })
  | lookupConstant name => answer fun env => .ofOption .number (env.constants.get? name)
  | getRegister name => answer fun env => .ofOption .number (env.registers.get? name)
  | setRegister name v => do
    let old := (← Action.state).registers.get? name
    .modify (restoreRegister name (some v))
    return .ofOption .number old
  | clearRegister name => do
    let old := (← Action.state).registers.get? name
    .modify (restoreRegister name none)
    return .ofOption .number old
  | stackText => answer fun env => .text env.stackRow
  | wordText => answer fun env => .text (Event.wordListing env.words)
  | variableText => answer fun env => .text (Event.variableListing env.storage)
  | printStack => do
    .emit ((← Action.state).stackEvent "")
    return .nothing
  | createVariable name => quietly (storageUpdate (Env.createVariable · name))
  | allotArray name length => quietly (storageUpdate (Env.allotArray · name length))
  | getScalar name => do return .number (← storageQuery (scalar · name))
  | setScalar name v => quietly (storageUpdate (Env.setScalar · name v))
  | checkSlot name position => do return .cells (← storageQuery (slot · name position)).cells
  | getCell name position => do return .number (← storageQuery (slot · name position)).value
  | setCell name position v => quietly (storageUpdate (Env.setCell · name position v))
  | pushReference r => quietly (Env.pushReference r)
  | popReference message => do return .reference (← Env.popReference message)
  | topReference => answer fun env => .ofOption .reference env.references.head?
  | replaceTopReference r => do
    if (← Action.state).references = [] then .fail .nothingToReplace
    else
      .modify (Env.replaceTopReference · r)
      return .nothing
  | referenceTo name => do
    match (← Action.state).reference? name with
    | some r => return .reference r
    | none => .fail (.unknownVariable name)
  | describe => answer fun env => .text env.describe

end EnvRequest

namespace Request

/-- Does what is requested. -/
def perform : Request → Action Session Failure Reply
  | execute text => do
    Session.execute text
    return .ofOption .error (← Action.state).lastError
  | evaluate tokens => do return .ofOption .error (← Session.onEnv (evaluateTokens tokens))
  | push values => do
    Session.onEnv (Env.pushAll values)
    return .itself
  | pop => do return .ofOption .number (← Session.pop?)
  | peek => do return .ofOption .number (← Action.state).peek?
  | describe => do return .text (← Action.state).describe
  | lastError => do return .ofOption .error (← Action.state).lastError
  | attach echo => do
    .modify (Session.attach · echo)
    return .nothing
  | converse inputs => do return .conversation (← Session.converse none inputs)
  | env request => Session.onEnv request.perform

end Request

/-- The outcomes of the requests, made one after the other, whether they fail or not. -/
def Session.transcript (s : Session) : List Request → List (Outcome Session Failure Reply)
  | [] => []
  | r :: rs =>
    let o := r.perform s
    o :: transcript o.state rs

@[simp] theorem Session.length_transcript (s : Session) (rs : List Request) :
    (s.transcript rs).length = rs.length := by
  induction rs generalizing s with
  | nil => rfl
  | cons r rs ih => simp [transcript, ih]

end Wordstack
