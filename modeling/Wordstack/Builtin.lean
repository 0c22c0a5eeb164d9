import Wordstack.Env.Stack

/-!
# Builtin words

The *builtins* are the words that every environment knows: arithmetic and logic on the upper
operands, comparisons, the rearrangement of the stack, and output. Their names are fixed
(`Builtin.table`), and two of them have two names. A builtin never escapes, and what it fails
with is an underflow or, for the two that divide, a division by zero.

An operation on two operands takes the upper one first. If the lower one is then missing, the
upper one is gone; the divisions look before they take, and so do the operations that only
rearrange the stack.
-/

namespace Wordstack

/-- The words that every environment knows. -/
inductive Builtin where
  | add | subtract | multiply | divide | modulo
  | conjunction | disjunction | complement
  | equal | unequal | less | greater | lessOrEqual | greaterOrEqual
  | duplicate | discard | exchange | duplicateSecond | rotate
  | print | printCharacter | printLineEnd
  | showStack | showWords | showVariables | showNames
  deriving DecidableEq, Repr

namespace Builtin

/-- The builtins under their names, in the order of the names. -/
def table : List (String × Builtin) := [
  ("!=", unequal), ("*", multiply), ("+", add), ("-", subtract), (".", print),
  (".s", showStack), ("/", divide), ("<", less), ("<=", lessOrEqual), ("<>", unequal),
  ("=", equal), (">", greater), (">=", greaterOrEqual), ("and", conjunction),
  ("cr", printLineEnd), ("d", showWords), ("drop", discard), ("dup", duplicate),
  ("emit", printCharacter), ("invert", complement), ("mod", modulo), ("or", disjunction),
  ("over", duplicateSecond), ("p", showStack), ("rot", rotate), ("swap", exchange),
  ("v", showVariables), ("words", showNames)]

/-- The names of the builtins, in order. -/
def names : List String :=
  table.map Prod.fst

/-- The builtin of the name. -/
def ofName? (name : Token) : Option Builtin :=
  Table.lookup? name table

theorem ofName?_isSome_iff (name : Token) : (ofName? name).isSome ↔ name ∈ names :=
  Table.lookup?_isSome_iff name table

theorem mem_names_of_ofName? {name : Token} {b : Builtin} (h : ofName? name = some b) :
    name ∈ names := by
  rw [← ofName?_isSome_iff, h]
  rfl

open Env

/-- Takes two operands and leaves what the operation makes of them, the lower one first. -/
def binary (name : String) (op : Int → Int → Int) : Action Env Error Unit := do
  let x ← pop ("Empty stack: for first argument for " ++ name)
  let y ← pop ("Empty stack: for second argument for " ++ name)
  push (op y x)

/-- Takes two operands and leaves the flag of a comparison. -/
def compare (name : String) (rel : Int → Int → Prop) [DecidableRel rel] : Action Env Error Unit :=
  binary name fun y x => Cell.flag (rel y x)

/-- Takes two operands, of which the upper one is not zero, and leaves what the operation makes
    of them. -/
def division (name : String) (op : Int → Int → Int) : Action Env Error Unit := do
  require 2 ("Empty stack: for arguments for " ++ name)
  if (← Action.state).stack.head? = some 0 then .fail .divisionByZero
  else binary name op

/-- Rearranges the upper operands, of which so many are needed. -/
def rearrange (name : String) (count : Int) (f : List Int → List Int) : Action Env Error Unit := do
  require count ("Not enough values on stack for " ++ name)
  .modify fun env => { env with stack := f env.stack }

/-- The lower of two operands, the top first, comes to the top. -/
def exchangeTop : List Int → List Int
  | x :: y :: rest => y :: x :: rest
  | stack => stack

/-- The lower of two operands comes to the top and also stays. -/
def copySecond : List Int → List Int
  | x :: y :: rest => y :: x :: y :: rest
  | stack => stack

/-- The lowest of three operands comes to the top. -/
def rotateTop : List Int → List Int
  | x :: y :: z :: rest => z :: x :: y :: rest
  | stack => stack

/-- The character of a cell: the one whose code is the low byte. -/
def characterOf (v : Int) : Char :=
  .ofNat (v % 256).toNat

/-- What a builtin does. -/
def run : Builtin → Action Env Error Unit
  | add => binary "+" (· + ·)
  | subtract => binary "-" (· - ·)
  | multiply => binary "*" (· * ·)
  | divide => division "/" Cell.quotient
  | modulo => division "mod" Cell.remainder
  | conjunction => binary "and" Cell.conjunction
  | disjunction => binary "or" Cell.disjunction
  | complement => do push (Cell.complement (← pop "Empty stack for invert"))
  | equal => compare "=" (· = ·)
  | unequal => compare "!=" (· ≠ ·)
  | less => compare "<" (· < ·)
  | greater => compare ">" (· > ·)
  | lessOrEqual => compare "<=" (· ≤ ·)
  | greaterOrEqual => compare ">=" (· ≥ ·)
  | duplicate => do push (← top "Empty stack for dup")
  | discard => do let _ ← pop "Empty stack for drop"
  | exchange => rearrange "swap" 2 exchangeTop
  | duplicateSecond => rearrange "over" 2 copySecond
  | rotate => rearrange "rot" 3 rotateTop
  | print => do .emit (.text (toString (← pop "Empty stack for .") ++ " "))
  | printCharacter => do .emit (.text (.singleton (characterOf (← pop "Empty stack for emit"))))
  | printLineEnd => .emit (.text "\n")
  | showStack => do .emit ((← Action.state).stackEvent "Stack: ")
  | showWords => do .emit (.dictionary (← Action.state).words)
  | showVariables => do .emit (.storage (← Action.state).storage)
  | showNames => do .emit (.names (← Action.state).words.keys names)

end Builtin

end Wordstack
