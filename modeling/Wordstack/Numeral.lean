import Wordstack.Cell
import Wordstack.Error

/-!
# Numerals

A *numeral* is a token of decimal digits, with or without one sign in front. Leading zeros count
as digits and not for the value. A numeral *denotes* its value if a cell can hold that; one that
is too large for a cell denotes nothing, like a token that is no numeral at all. Numerals of more
than `digitLimit` digits are not read: they escape.

A token that denotes a number cannot name anything, since what it would name could never be
reached (`isValidName`).
-/

namespace Wordstack

/-- A numeral taken apart. -/
structure Numeral where
  /-- Whether the sign is a minus. -/
  negative : Bool
  /-- What follows the sign. -/
  digits : List Char
  deriving DecidableEq, Repr

namespace Numeral

/-- The most digits of a numeral that is read. -/
def digitLimit : Nat := 4300

/-- The numeral with the sign, if the characters are digits and at least one. -/
def ofDigits? (negative : Bool) (cs : List Char) : Option Numeral :=
  if cs ≠ [] ∧ cs.all Char.isDigit then some ⟨negative, cs⟩ else none

/-- The numeral that the characters spell. -/
def ofChars? : List Char → Option Numeral
  | '-' :: cs => ofDigits? true cs
  | '+' :: cs => ofDigits? false cs
  | cs => ofDigits? false cs

/-- The value of a numeral. -/
def value (n : Numeral) : Int :=
  let magnitude : Int := Nat.ofDigitChars 10 n.digits 0
  if n.negative then -magnitude else magnitude

/-- What a numeral denotes. -/
def denote (n : Numeral) : Except Escape (Option Int) :=
  if digitLimit < n.digits.length then .error (.oversized n.digits.length)
  else if Cell.InRange n.value then .ok (some n.value)
  else .ok none

end Numeral

/-- The number that a token denotes, if it denotes one. -/
def parseNumber (token : Token) : Except Escape (Option Int) :=
  match Numeral.ofChars? token.toList with
  | none => .ok none
  | some n => n.denote

/-- Whether a token can be a name: it does not denote a number. -/
def isValidName (token : Token) : Except Escape Bool :=
  (parseNumber token).map Option.isNone

/-- The account of an escape, for whoever has to give one outside all evaluations. -/
def Escape.message : Escape → String
  | .oversized digits =>
    "Exceeds the limit (" ++ toString Numeral.digitLimit
      ++ " digits) for integer string conversion: value has " ++ toString digits
      ++ " digits; use sys.set_int_max_str_digits() to increase the limit"
  | .tooDeep => "Recursion too deep"

theorem inRange_of_parseNumber {token : Token} {v : Int} (h : parseNumber token = .ok (some v)) :
    Cell.InRange v := by
  unfold parseNumber at h
  split at h
  · cases h
  · unfold Numeral.denote at h
    split at h
    · cases h
    · split at h
      · next hr =>
        cases h
        exact hr
      · cases h

end Wordstack
