import Wordstack.Text.DecimalDigit
import Wordstack.Text.Quoted

/-!
# Arguments of the command line

An argument that begins with a dash may be an *option*. It is one if it is the name of a *flag*,
the short one or the long one, or if it is such a name and a value behind an equals sign. A long
name may be shortened as long as it is not the beginning of several. Behind a short name there
may stand more in the same argument, which is then the value of the flag, or further short names
if the flag takes none.

Any other argument with a dash is *unknown*, unless it is the dash alone, a negative number, or
has a space in it: those are *plain*, like the arguments without a dash. Two dashes alone end the
options: all arguments after that are plain.
-/

namespace Wordstack

/-- What can be asked for on the command line. -/
inductive Flag where
  | help
  | eval
  | quiet
  deriving DecidableEq, Repr

namespace Flag

/-- All flags, in the order in which they are explained. -/
def all : List Flag := [help, eval, quiet]

/-- The letter of the short name. -/
def letter : Flag → Char
  | help => 'h'
  | eval => 'e'
  | quiet => 'q'

/-- The long name, without its dashes. -/
def longName : Flag → String
  | help => "help"
  | eval => "eval"
  | quiet => "quiet"

/-- Whether the flag takes a value. -/
def takesValue : Flag → Bool
  | eval => true
  | _ => false

/-- The flag of the letter. -/
def ofLetter? (c : Char) : Option Flag :=
  all.find? (·.letter = c)

/-- Both names of the flag. -/
def names (f : Flag) : String :=
  "-" ++ .singleton f.letter ++ "/--" ++ f.longName

end Flag

/-- The ways in which a command line can make no sense. -/
inductive Misuse where
  /-- The long name is the beginning of several. -/
  | ambiguous (argument : String) (candidates : List Flag)
  /-- The flag has no value. -/
  | missingValue (flag : Flag)
  /-- The flag takes no value but has one. -/
  | unwantedValue (flag : Flag) (value : String)
  /-- The arguments have no use. -/
  | unrecognized (arguments : List String)
  deriving DecidableEq, Repr

/-- The account of a command line that makes no sense. -/
def Misuse.message : Misuse → String
  | ambiguous argument candidates =>
    "ambiguous option: " ++ argument ++ " could match "
      ++ String.intercalate ", " (candidates.map fun f => "--" ++ f.longName)
  | missingValue flag => "argument " ++ flag.names ++ ": expected one argument"
  | unwantedValue flag value =>
    "argument " ++ flag.names ++ ": ignored explicit argument " ++ Text.quote value
  | unrecognized arguments => "unrecognized arguments: " ++ String.intercalate " " arguments

/-- What an argument is. -/
inductive Argument where
  /-- A flag under its short name or its long name, and what stands behind the name. -/
  | option (flag : Flag) (short : Bool) (value : Option (List Char))
  /-- The end of the options. -/
  | endOfOptions
  /-- An argument that would be an option if there were such a flag. -/
  | unknown (argument : String)
  | plain (argument : String)
  deriving DecidableEq, Repr

namespace Argument

/-- The text before the first equals sign and the text after it, if there is one. -/
def splitValue (cs : List Char) : List Char × Option (List Char) :=
  match cs.dropWhile (· ≠ '=') with
  | [] => (cs, none)
  | _ :: value => (cs.takeWhile (· ≠ '='), some value)

/-- A row of decimal digits, at least one. -/
def isDigits (cs : List Char) : Bool :=
  cs ≠ [] && cs.all Text.isDecimalDigit

/-- Whether the text behind a dash makes it a negative number: digits, or a point with digits
    behind it and perhaps before it. A newline at the end does not count. -/
def isMagnitude (cs : List Char) : Bool :=
  let cs := if cs.getLast? = some '\n' then cs.dropLast else cs
  isDigits cs ||
    match cs.dropWhile Text.isDecimalDigit with
    | '.' :: fraction => isDigits fraction
    | _ => false

/-- An argument with a dash that is no option, given without the dash. -/
def other (cs : List Char) : Argument :=
  let argument := String.ofList ('-' :: cs)
  if isMagnitude cs || cs.contains ' ' then plain argument else unknown argument

/-- An argument with two dashes, given without them. -/
def ofLong (cs : List Char) : Except Misuse Argument :=
  let (name, value) := splitValue cs
  match Flag.all.filter fun f => name.isPrefixOf f.longName.toList with
  | [] => .ok (other ('-' :: cs))
  | [f] => .ok (option f false value)
  | fs => .error (.ambiguous (.ofList ('-' :: '-' :: cs)) fs)

/-- An argument with one dash, given by its first character and the rest. -/
def ofShort (c : Char) (cs : List Char) : Argument :=
  match Flag.ofLetter? c with
  | none => other (c :: cs)
  | some f =>
    match cs with
    | [] => option f true none
    | '=' :: value | value => option f true (some value)

/-- What an argument is before the end of the options. -/
def ofString (argument : String) : Except Misuse Argument :=
  match argument.toList with
  | ['-', '-'] => .ok endOfOptions
  | '-' :: '-' :: cs => ofLong cs
  | '-' :: c :: cs => .ok (ofShort c cs)
  | _ => .ok (plain argument)

/-- What the arguments are. -/
def ofStrings : List String → Except Misuse (List Argument)
  | [] => .ok []
  | a :: as => do
    match ← ofString a with
    | endOfOptions => return endOfOptions :: as.map plain
    | argument => return argument :: (← ofStrings as)

end Argument

end Wordstack
