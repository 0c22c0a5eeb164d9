import Wordstack.Env.Stack
import Wordstack.Env.Storage
import Wordstack.Scan

/-!
# Primitive operations

What the forms do once their names and bodies are read: variables are declared, read and written
through the references that wait on the reference stack, arrays are made, cells chosen, operands
named and words defined.

An operation that takes a reference has taken it even if it then fails. A store looks at the
variable before it takes the operand, so that a store that is impossible costs no operand.
-/

namespace Wordstack.Env

/-- Creates a variable and speaks of it. -/
def declare (name : Token) : Action Env Error Unit := do
  storageUpdate (createVariable · name)
  pushReference (.toScalar name)

/-- Gives a name to the top operand. -/
def nameConstant (name : Token) : Action Env Error Unit := do
  let v ← pop ("Stack empty to set constant " ++ name)
  .modify fun env => { env with constants := env.constants.insert name v }

/-- Defines a word, or defines it anew. -/
def define (d : Definition) : Action Env Error Unit :=
  .modify fun env => { env with words := env.words.insert d.name d.body }

/-- Reads the variable that the top reference speaks of. -/
def fetch : Action Env Error Unit := do
  let r ← popReference "No variable reference found to get value"
  match r.slot with
  | some position => do push (← storageQuery (slot · r.name position)).value
  | none => do push (← storageQuery (scalar · r.name))

/-- Writes the top operand into the variable that the top reference speaks of. -/
def store : Action Env Error Unit := do
  let r ← popReference "No variable reference found to set value"
  match r.slot with
  | some position => do
    let _ ← storageQuery fun env => (env.slot r.name position).mapError (.notStored r.name)
    let v ← pop "Stack empty to set array value"
    storageUpdate (setCell · r.name position v)
  | none => do
    let _ ← storageQuery (scalar · r.name)
    let v ← pop "Stack empty to set variable value"
    storageUpdate (setScalar · r.name v)

/-- Makes the scalar that the top reference speaks of an array, whose length is the top
    operand. -/
def allot : Action Env Error Unit := do
  let missing := "No variable found to allocate as an array!"
  match (← Action.state).references with
  | [] => .fail (.noReference missing)
  | r :: _ =>
    if r.isArray then .fail (.storage (.alreadyArray r.name))
    else do
      let length ← pop "Stack empty to allocate array"
      let _ ← popReference missing
      storageUpdate (allotArray · r.name length)

/-- Lets the top reference speak of the cell of the array that the top operand gives. -/
def chooseCell (name : Token) : Action Env Error Unit := do
  let position ← pop "Stack empty to set slot value for array"
  .modify (replaceTopReference · (.toCell name position))

/-- The environment in which the register has the value, or does not exist. -/
def restoreRegister (name : Token) (v : Option Int) (env : Env) : Env :=
  match v with
  | some v => { env with registers := env.registers.insert name v }
  | none => { env with registers := env.registers.erase name }

end Wordstack.Env
