import Wordstack.Action

/-!
# Environments

An *environment* is all that a program finds and leaves behind: the operand stack, the words
defined so far, the variables, the pending references, the constants, and the registers, in which
loops keep their counters. Both stacks are lists with the top first.
-/

namespace Wordstack

/-- The state of a program. -/
structure Env where
  /-- The operands, the top first. -/
  stack : List Int := []
  /-- The bodies of the defined words. -/
  words : Table Body := ∅
  /-- The variables with what they hold. -/
  storage : Table Variable := ∅
  /-- The references that wait to be used, the top first. -/
  references : List Reference := []
  /-- The named values. -/
  constants : Table Int := ∅
  /-- The values that running loops keep. -/
  registers : Table Int := ∅
  deriving DecidableEq

namespace Env

/-- The operand stack as it is shown, lowest operand first. -/
def stackRow (env : Env) : String :=
  Cell.row env.stack.reverse

/-- The environment as it is shown: by its operand stack. -/
def describe (env : Env) : String :=
  "<ForthEnv stack=" ++ env.stackRow ++ ">"

/-- The event that shows the operand stack on a line. -/
def stackEvent (label : String) (env : Env) : Event :=
  .stack label env.stack.reverse

/-- The reference that the name of a variable makes: for an array, to its first cell. -/
def reference? (env : Env) (name : Token) : Option Reference :=
  (env.storage.get? name).map fun v => if v.isArray then .toCell name 0 else .toScalar name

end Env

end Wordstack
