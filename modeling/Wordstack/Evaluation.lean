import Wordstack.Action.Count
import Wordstack.Command
import Wordstack.Env.Primitive
import Wordstack.Meaning

/-!
# Evaluation

To *evaluate* tokens is to carry out their commands in order, up to the first that fails. The
error is then reported, and it is also the answer of the evaluation; without an error there is
none. Bodies are evaluated in the same way: that of a word when the word is called, the chosen
side of a conditional, and the body of a loop for every number. An error in there is reported
there, and the command that asked for the evaluation is not concerned: it goes on.

So evaluations are nested, and how deeply is bounded (`evaluate`). An evaluation for which no
level is left escapes, through conditionals and loops up to the innermost call of a word, which
fails. A numeral too long to be read escapes through everything. While a loop runs, a register
holds its counter; however the loop ends, the register is then as it was before.

What a command does is said for any way to evaluate the bodies within it, an *evaluator*; an
evaluation with one more level uses the one with one level less.
-/

namespace Wordstack

/-- How a sequence of tokens is evaluated; the answer is the error that ended it, if one did. -/
abbrev Evaluator := List Token → Action Env Escape (Option Error)

/-- The register of a loop counter. -/
def counter : Token := "i"

/-- What becomes of an escape at the call of a word. -/
def Halt.ofCall (word : Token) : Escape → Halt
  | .tooDeep => .fault (.recursionTooDeep word)
  | .oversized digits => .escape (.oversized digits)

namespace Evaluator

open Env

variable (inner : Evaluator)

/-! ## Bodies -/

/-- Evaluates a body; its answer is dropped. -/
def enter (body : Body) : Action Env Halt Unit := do
  let _ ← inner body

/-- Evaluates the body of a word; its answer is dropped. -/
def call (word : Token) (body : Body) : Action Env Halt Unit := do
  let _ ← (inner body).mapError (.ofCall word)

/-- Does what a token means. -/
def perform (t : Token) : Action Env Halt Unit := do
  match ← .query (meaning · t) with
  | .value v => push v
  | .builtin b => b.run
  | .call word body => call inner word body
  | .reference r => pushReference r

/-! ## Commands -/

/-- Takes a condition and evaluates the side that it chooses. -/
def choose (branches : Except Halt Branches) : Action Env Halt Unit := do
  let condition ← pop "Empty stack for condition in if"
  let branches ← .ofExcept branches
  if branches.whenTrue = [] then .fail (.fault (.malformed .emptyBranch))
  else if branches.whenFalse = some [] then .fail (.fault (.malformed .emptyAlternative))
  else if condition ≠ 0 then enter inner branches.whenTrue
  else match branches.whenFalse with
    | some body => enter inner body
    | none => pure ()

/-- Evaluates the body with the number in the register. -/
def iterate (body : Body) (v : Int) : Action Env Halt Unit := do
  .modify fun env => { env with registers := env.registers.insert counter v }
  enter inner body

/-- Takes the bounds and evaluates the body for every number from the first up to the last, the
    latter not included. -/
def repeatBody (body : Except Halt Body) : Action Env Halt Unit := do
  let body ← .ofExcept body
  if body = [] then .fail (.fault (.malformed .emptyLoop))
  else do
    let last ← pop "Empty stack for end of do loop"
    let first ← pop "Empty stack for start of do loop"
    let outer := (← Action.state).registers.get? counter
    (Action.forCount (iterate inner body) first (last - first).toNat).ensuring
      (restoreRegister counter outer)

/-- Chooses a cell if the top reference is to an array; else the plus sign is a word. -/
def plus : Action Env Halt Unit := do
  match (← Action.state).references with
  | ⟨name, some _⟩ :: _ => chooseCell name
  | _ => perform inner "+"

/-- Carries out a command. -/
def execute : Command → Action Env Halt Unit
  | .define definition => do define (← .ofExcept definition)
  | .say text => do .emit (.text (← .ofExcept text))
  | .conditional branches => choose inner branches
  | .loop body => repeatBody inner body
  | .declare name => do declare (← .ofExcept name)
  | .nameConstant name => do nameConstant (← .ofExcept name)
  | .fetch => fetch
  | .store => store
  | .cells => do let _ ← top "Empty stack to evaluate cells"
  | .allot => allot
  | .plus => plus inner
  | .word t => perform inner t

end Evaluator

/-! ## Levels -/

/-- Ends an evaluation: an error is reported and becomes the answer. -/
def reporting (m : Action Env Halt Unit) : Action Env Escape (Option Error) := fun env =>
  match m env with
  | ⟨env', shown, .ok ()⟩ => ⟨env', shown, .ok none⟩
  | ⟨env', shown, .error (.fault e)⟩ => ⟨env', shown ++ [.report e], .ok (some e)⟩
  | ⟨env', shown, .error (.escape x)⟩ => ⟨env', shown, .error x⟩

/-- Evaluates tokens, with so many levels for this evaluation and those within it. -/
def evaluate : Nat → Evaluator
  | 0, _ => .fail .tooDeep
  | depth + 1, tokens =>
    reporting (.forEach (Evaluator.execute (evaluate depth)) (Command.sequence tokens))

/-- The number of levels that an evaluation is given. It is far more than the nesting of blocks
    that anyone writes by hand, and few enough for every level to have its place in memory. -/
def nestingLimit : Nat := 2700

/-- Evaluates tokens. -/
def evaluateTokens : Evaluator :=
  evaluate nestingLimit

@[simp] theorem evaluate_zero (tokens : List Token) : evaluate 0 tokens = .fail .tooDeep := rfl

theorem evaluate_succ (depth : Nat) (tokens : List Token) :
    evaluate (depth + 1) tokens
      = reporting (.forEach (Evaluator.execute (evaluate depth)) (Command.sequence tokens)) := rfl

end Wordstack
