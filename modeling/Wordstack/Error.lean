import Wordstack.Token

/-!
# What can go wrong

A program can *fail*, and a failed program is an answer like any other: the evaluation in which
it happens reports the error and ends, and whoever asked for that evaluation goes on. An `Error`
says what happened: a *form* of the language that is not well made, an operation of the *storage*
that is not possible, an operand or a reference that is missing, a token without a meaning, a
division by zero, or words that call each other too deeply.

An *escape* is no answer. It leaves every evaluation that is under way at once and is reported by
none of them. There are two: a numeral that has more digits than can be read, and evaluations
nested more deeply than is allowed. The latter ends at the innermost word that is being called,
where it becomes an error.
-/

namespace Wordstack

/-- What a name is introduced for. -/
inductive NameKind where
  | variable
  | constant
  | word
  deriving DecidableEq, Repr

/-- The ways in which a form can be badly made. -/
inductive FormFault where
  /-- A string without its closing mark. -/
  | openString
  /-- A conditional without its end. -/
  | openConditional
  /-- A loop without its end. -/
  | openLoop
  /-- A definition without its end. -/
  | openDefinition (name : Token)
  /-- A conditional with nothing to do if its condition holds. -/
  | emptyBranch
  /-- A conditional whose alternative is there but has nothing to do. -/
  | emptyAlternative
  /-- A loop with nothing to do. -/
  | emptyLoop
  /-- The program ends before the name. -/
  | missingName (kind : NameKind)
  /-- The name would be read as a number. -/
  | invalidName (kind : NameKind) (name : Token)
  deriving DecidableEq, Repr

/-- The ways in which an operation on a variable can be impossible. -/
inductive StorageFault where
  /-- There is no variable of the name. -/
  | unknown (name : Token)
  /-- The variable has been made an array before. -/
  | alreadyArray (name : Token)
  /-- An array cannot have less than no cells. -/
  | negativeLength (name : Token) (length : Int)
  /-- The value of an array was asked for as if it were a scalar. -/
  | arrayRead (name : Token)
  /-- A value was given to an array as if it were a scalar. -/
  | arrayWritten (name : Token)
  /-- A cell of a scalar was asked for. -/
  | notArray (name : Token)
  /-- The array has no such cell. -/
  | outOfRange (slot : Int) (length : Nat)
  /-- A value could not be stored into a cell of an array. -/
  | notStored (name : Token) (cause : StorageFault)
  deriving DecidableEq, Repr

/-- The ways in which an evaluation can fail. -/
inductive Error where
  | divisionByZero
  /-- The call of the word would nest evaluations too deeply. -/
  | recursionTooDeep (word : Token)
  /-- The operand stack holds too little; the operation says what it misses. -/
  | underflow (message : String)
  /-- The token has no meaning. -/
  | unbound (token : Token)
  | malformed (fault : FormFault)
  | storage (fault : StorageFault)
  /-- The reference stack is empty; the operation says what it misses. -/
  | noReference (message : String)
  deriving DecidableEq, Repr

/-- The ways in which all evaluations end at once. -/
inductive Escape where
  /-- A numeral of so many digits cannot be read. -/
  | oversized (digits : Nat)
  /-- Evaluations are nested too deeply. -/
  | tooDeep
  deriving DecidableEq, Repr

/-- The ways in which a command can stop the evaluation that it is part of. -/
inductive Halt where
  | fault (error : Error)
  | escape (escape : Escape)
  deriving DecidableEq, Repr

namespace FormFault

/-- The account of a badly made form. -/
def message : FormFault → String
  | openString => "Nonterminated string"
  | openConditional => "Nonterminated if: missing then"
  | openLoop => "Nonterminated do: missing loop"
  | openDefinition name => "Invalid function: " ++ name ++ " is missing ;"
  | emptyBranch => "Empty statement for then clause"
  | emptyAlternative => "Empty statement for then clause after else"
  | emptyLoop => "Empty loop body"
  | missingName .variable => "Variable name not found"
  | missingName .constant => "Constant name not found"
  | missingName .word => "Invalid function: missing name"
  | invalidName .variable name => "Invalid Variable name: " ++ name
  | invalidName .constant name => "Invalid Constant name: " ++ name
  | invalidName .word name => "Invalid function name: " ++ name

end FormFault

namespace StorageFault

/-- The account of an impossible operation on a variable. -/
def message : StorageFault → String
  | unknown name => "No such variable: " ++ name
  | alreadyArray name => name ++ " is already an array"
  | negativeLength name length =>
    "Cannot allot negative length " ++ toString length ++ " for " ++ name
  | arrayRead name => "Unexpected array found when variable expected with name " ++ name
  | arrayWritten name => "Variable " ++ name ++ " is an array, not a scalar"
  | notArray name => "Variable " ++ name ++ " is not an array!"
  | outOfRange slot length =>
    "Cannot access position: " ++ toString slot ++ " when array length is: " ++ toString length
  | notStored name cause => "Setting array " ++ name ++ " value failed because: " ++ cause.message

end StorageFault

namespace Error

/-- The account of an error. -/
def message : Error → String
  | divisionByZero => "Division by zero"
  | recursionTooDeep word => "Recursion too deep in " ++ word
  | underflow message => message
  | unbound token => "Invalid token: " ++ token
  | malformed fault => fault.message
  | storage fault => fault.message
  | noReference message => message

end Error

end Wordstack
