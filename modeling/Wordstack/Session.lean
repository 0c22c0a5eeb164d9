import Wordstack.Evaluation

/-!
# Sessions

A *session* evaluates one program text after another on an environment that it keeps. It
remembers the error of the last evaluation, which is none after one that went well, and may
*echo* the operand stack after each. An evaluation that escapes echoes nothing and leaves the
remembered error as it was, though not the environment.
-/

namespace Wordstack

/-- An environment in use. -/
structure Session where
  env : Env := {}
  /-- Whether the operand stack is shown after each evaluation. -/
  echo : Bool := true
  /-- The error that ended the last evaluation, if one did. -/
  lastError : Option Error := none
  deriving DecidableEq

namespace Session

/-- The session as it is shown: by its operand stack. -/
def describe (s : Session) : String :=
  "<ForthSession stack=" ++ s.env.stackRow ++ ">"

/-- Acts on the environment of the session. -/
def onEnv {ε α : Type} (m : Action Env ε α) : Action Session ε α :=
  m.onPart env fun env s => { s with env }

/-- Shows the operand stack, if the session does that. -/
def showEcho : Action Session Escape Unit := fun s =>
  ⟨s, if s.echo then [s.env.stackEvent "=> "] else [], .ok ()⟩

/-- Evaluates a program text. -/
def execute (text : String) : Action Session Escape Unit := do
  let error ← onEnv (evaluateTokens (tokenize text))
  showEcho
  .modify fun s => { s with lastError := error }

theorem execute_of_ok {text : String} {s : Session} {env : Env} {shown : List Event}
    {error : Option Error} (h : evaluateTokens (tokenize text) s.env = ⟨env, shown, .ok error⟩) :
    execute text s = ⟨{ s with env, lastError := error },
      shown ++ if s.echo then [env.stackEvent "=> "] else [], .ok ()⟩ := by
  have he : onEnv (evaluateTokens (tokenize text)) s = ⟨{ s with env }, shown, .ok error⟩ := by
    rw [onEnv, Action.onPart, h]
  rw [execute, Action.bind_of_ok he]
  simp [showEcho, Action.bind_apply, Action.modify, Outcome.after]

theorem execute_of_escape {text : String} {s : Session} {env : Env} {shown : List Event}
    {x : Escape} (h : evaluateTokens (tokenize text) s.env = ⟨env, shown, .error x⟩) :
    execute text s = ⟨{ s with env }, shown, .error x⟩ := by
  have he : onEnv (evaluateTokens (tokenize text)) s = ⟨{ s with env }, shown, .error x⟩ := by
    rw [onEnv, Action.onPart, h]
  rw [execute, Action.bind_of_error he]

/-- Takes the top operand, if there is one. -/
def pop? {ε : Type} : Action Session ε (Option Int) := fun s =>
  match s.env.stack with
  | [] => ⟨s, [], .ok none⟩
  | v :: stack => ⟨{ s with env := { s.env with stack } }, [], .ok (some v)⟩

/-- The top operand, if there is one. -/
def peek? (s : Session) : Option Int :=
  s.env.stack.head?

/-- A new session on the same environment. -/
def attach (s : Session) (echo : Bool) : Session :=
  { env := s.env, echo }

end Session

end Wordstack
