import Wordstack.Cell
import Wordstack.Text.Quoted
import Wordstack.Token

/-!
# Variables and references

A *variable* is born a scalar and can be made an array, whose length is then fixed. A *reference*
is how a program speaks of a variable before it reads or writes it: by its name and, for an
array, by the *slot* of one of its cells, which may lie outside the array as long as the cell is
not accessed.
-/

namespace Wordstack

/-- What a variable holds. -/
inductive Variable where
  | scalar (value : Int)
  | array (cells : List Int)
  deriving DecidableEq, Repr

namespace Variable

/-- An array of zeros; a negative length gives no cells. -/
def zeros (length : Int) : Variable :=
  array (List.replicate length.toNat 0)

/-- Whether the variable has been made an array. -/
def isArray : Variable → Bool
  | scalar _ => false
  | array _ => true

/-- The variable with its content, as it is shown. -/
def describe : Variable → String
  | scalar value => "Var(" ++ toString value ++ ")"
  | array cells => "Array(" ++ Cell.row cells ++ ")"

end Variable

/-- A variable that is spoken of. -/
structure Reference where
  /-- The name of the variable. -/
  name : Token
  /-- The cell, if the variable is an array. -/
  slot : Option Int
  deriving DecidableEq, Repr

namespace Reference

/-- The reference to a scalar. -/
def toScalar (name : Token) : Reference :=
  ⟨name, none⟩

/-- The reference to a cell of an array. -/
def toCell (name : Token) (slot : Int) : Reference :=
  ⟨name, some slot⟩

/-- Whether the reference is to a cell of an array. -/
def isArray (r : Reference) : Bool :=
  r.slot.isSome

/-- The reference with its parts, as it is shown. -/
def describe (r : Reference) : String :=
  "VarRef(name=" ++ Text.quote r.name ++ ", slot=" ++ (r.slot.map toString).getD "None" ++ ")"

end Reference

end Wordstack
