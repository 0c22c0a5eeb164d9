import Wordstack.Env

/-!
# The operand stack

What goes on the operand stack is wrapped into a cell. What is taken from it is there or the
operation fails with the caller's account of what is missing; a failed operation takes nothing.
-/

namespace Wordstack.Env

variable {ε : Type}

/-- Puts a value on top, wrapped. -/
def push (v : Int) : Action Env ε Unit :=
  .modify fun env => { env with stack := Cell.wrap v :: env.stack }

/-- Puts the values on top, the last one uppermost. -/
def pushAll (vs : List Int) : Action Env ε Unit :=
  .forEach push vs

/-- Takes the top. -/
def pop (message : String) : Action Env Error Int := fun env =>
  match env.stack with
  | [] => ⟨env, [], .error (.underflow message)⟩
  | v :: stack => ⟨{ env with stack }, [], .ok v⟩

/-- The top, which stays. -/
def top (message : String) : Action Env Error Int :=
  .query fun env =>
    match env.stack with
    | [] => .error (.underflow message)
    | v :: _ => .ok v

/-- Fails unless there are so many operands. -/
def require (count : Int) (message : String) : Action Env Error Unit :=
  .query fun env =>
    if (env.stack.length : Int) < count then .error (.underflow message) else .ok ()

@[simp] theorem push_apply (v : Int) (env : Env) :
    (push v : Action Env ε Unit) env
      = ⟨{ env with stack := Cell.wrap v :: env.stack }, [], .ok ()⟩ := rfl

theorem pop_of_nil {env : Env} (h : env.stack = []) (message : String) :
    pop message env = ⟨env, [], .error (.underflow message)⟩ := by
  simp [pop, h]

theorem pop_of_cons {env : Env} {v : Int} {stack : List Int} (h : env.stack = v :: stack)
    (message : String) : pop message env = ⟨{ env with stack }, [], .ok v⟩ := by
  simp [pop, h]

end Wordstack.Env
