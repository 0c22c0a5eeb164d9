import Wordstack.CommandLine.Argument

/-!
# What a command line asks for

The arguments are gone through from left to right. An option sets what it is there for; one that
takes a value and has none in its own argument takes the next argument, which must be plain. Of
the other plain arguments the first is the *target*, and the end of the options next to it is
passed over. Everything else is left over, and a command line with something left over is
refused, though only at the end: a call for help before it is heard.
-/

namespace Wordstack

/-- The program given on the command line. -/
inductive Program where
  | text (s : String)
  /-- The value was the mark that ends the options, which is dropped wherever it stands, so that
      nothing is there to evaluate. -/
  | dropped
  deriving DecidableEq, Repr

/-- What a command line asks for. -/
structure Settings where
  program : Option Program := none
  quiet : Bool := false
  target : Option String := none
  /-- Whether the place of the target is taken. -/
  placed : Bool := false
  /-- The arguments that are of no use, in order. -/
  leftOver : List String := []
  deriving DecidableEq, Repr

/-- Why the arguments are not gone through to the end. -/
inductive Interruption where
  | help
  | misuse (m : Misuse)
  deriving DecidableEq, Repr

/-- A flag with its value, if it has one. -/
structure Occurrence where
  flag : Flag
  value : Option String := none
  deriving DecidableEq, Repr

namespace Occurrence

/-- Whether the value is still to come. -/
def isOpen (o : Occurrence) : Bool :=
  o.flag.takesValue && o.value.isNone

/-- The flag and those whose letters stand behind it, with the value of the last. -/
def cluster (f : Flag) : List Char → Except Misuse (List Occurrence)
  | [] => .ok [⟨f, none⟩]
  | c :: cs =>
    if f.takesValue then .ok [⟨f, some (.ofList (c :: cs))⟩]
    else match Flag.ofLetter? c with
      | none => .error (.unwantedValue f (.ofList (c :: cs)))
      | some g => (cluster g cs).map (⟨f, none⟩ :: ·)

/-- The flags of an option. -/
def ofOption (f : Flag) (short : Bool) : Option (List Char) → Except Misuse (List Occurrence)
  | none => .ok [⟨f, none⟩]
  | some value =>
    if f.takesValue then .ok [⟨f, some (.ofList value)⟩]
    else if short ∧ value ≠ [] then cluster f value
    else .error (.unwantedValue f (.ofList value))

/-- The flags with the value for the last of them. -/
def fill (value : String) : List Occurrence → List Occurrence
  | [] => []
  | [o] => [{ o with value := some value }]
  | o :: os => o :: fill value os

/-- The flags of an option, with the next argument as the value if one is still to come, and the
    arguments that are left. -/
def complete (os : List Occurrence) (rest : List Argument) :
    Except Misuse (List Occurrence × List Argument) :=
  if os.any isOpen then
    match rest with
    | .plain a :: rest => .ok (fill a os, rest)
    | _ => .error (.missingValue .eval)
  else .ok (os, rest)

theorem complete_rest_le {os os' : List Occurrence} {rest rest' : List Argument}
    (h : complete os rest = .ok (os', rest')) : rest'.length ≤ rest.length := by
  unfold complete at h
  split at h
  · split at h
    · cases h
      exact Nat.le_succ _
    · cases h
  · cases h
    exact Nat.le_refl _

end Occurrence

namespace Settings

/-- Sets what the flag is there for. -/
def set (s : Settings) (o : Occurrence) : Except Interruption Settings :=
  match o.flag, o.value with
  | .help, _ => .error .help
  | .quiet, _ => .ok { s with quiet := true }
  | .eval, some v => .ok { s with program := some (if v = "--" then .dropped else .text v) }
  | .eval, none => .error (.misuse (.missingValue .eval))

/-- Puts a plain argument in the place of the target. -/
def setTarget (s : Settings) (a : String) : Settings :=
  { s with target := some a, placed := true }

/-- Puts an argument to those of no use. -/
def leave (s : Settings) (a : String) : Settings :=
  { s with leftOver := s.leftOver ++ [a] }

/-- Goes through the arguments. -/
def ofArguments (s : Settings) : List Argument → Except Interruption Settings
  | [] => .ok s
  | .option f short value :: rest =>
    match Occurrence.ofOption f short value with
    | .error m => .error (.misuse m)
    | .ok os =>
      match _h : Occurrence.complete os rest with
      | .error m => .error (.misuse m)
      | .ok (os', rest') =>
        match os'.foldlM set s with
        | .error i => .error i
        | .ok s' => ofArguments s' rest'
  | .unknown a :: rest => ofArguments (s.leave a) rest
  | .plain a :: rest =>
    if s.placed then ofArguments (s.leave a) rest
    else match rest with
      | .endOfOptions :: rest => ofArguments (s.setTarget a) rest
      | rest => ofArguments (s.setTarget a) rest
  | .endOfOptions :: rest =>
    if s.placed then ofArguments (s.leave "--") rest
    else match rest with
      | .plain a :: rest => ofArguments (s.setTarget a) rest
      | rest => ofArguments { s with placed := true } rest
termination_by args => args.length
decreasing_by
  · exact Nat.lt_succ_of_le (Occurrence.complete_rest_le _h)
  all_goals
    simp only [List.length_cons]
    omega

/-- What the command line asks for. -/
def ofStrings (args : List String) : Except Interruption Settings := do
  let s ← ofArguments {} (← (Argument.ofStrings args).mapError .misuse)
  if s.leftOver = [] then return s else .error (.misuse (.unrecognized s.leftOver))

end Settings

end Wordstack
