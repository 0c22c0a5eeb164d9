import Wordstack.Evaluation

/-!
# What commands come to

For each command that looks at the environment before it goes on: what it comes to, case by case
(`perform_of_error` to `repeatBody_of_cons`). A word does what its meaning says, a conditional
with a condition goes on with the side that is chosen, and a loop with two bounds counts. What is
written with the steps of the operand stack in the definitions is thus said once in terms of the
stack itself.
-/

namespace Wordstack

namespace Action

variable {σ α : Type} {s s' : σ} {shown : List Event}

theorem ofExcept_ok_bind {ε β : Type} (a : α) (f : α → Action σ ε β) :
    (ofExcept (.ok a) >>= f) = f a := rfl

theorem state_bind {ε : Type} (f : σ → Action σ ε α) (s : σ) :
    ((Action.state : Action σ ε σ) >>= f) s = f s s := rfl

section

variable {ε ε' : Type} {m : Action σ ε α}

theorem mapError_of_ok {a : α} (h : m s = ⟨s', shown, .ok a⟩) (f : ε → ε') :
    m.mapError f s = ⟨s', shown, .ok a⟩ := by
  rw [mapError, h]
  rfl

theorem mapError_of_error {e : ε} (h : m s = ⟨s', shown, .error e⟩) (f : ε → ε') :
    m.mapError f s = ⟨s', shown, .error (f e)⟩ := by
  rw [mapError, h]
  rfl

/-- Of a value that nobody looks at, only that there is one counts. -/
theorem mapError_drop_of_ok {a : α} (h : m s = ⟨s', shown, .ok a⟩) (f : ε → ε') :
    (do let _ ← m.mapError f : Action σ ε' Unit) s = ⟨s', shown, .ok ()⟩ := by
  rw [bind_of_ok (mapError_of_ok h f), pure_apply, Outcome.after, List.append_nil]

theorem mapError_drop_of_error {e : ε} (h : m s = ⟨s', shown, .error e⟩) (f : ε → ε') :
    (do let _ ← m.mapError f : Action σ ε' Unit) s = ⟨s', shown, .error (f e)⟩ :=
  bind_of_error (mapError_of_error h f) _

theorem ensuring_of_eq {r : Except ε α} (h : m s = ⟨s', shown, r⟩) (mend : σ → σ) :
    m.ensuring mend s = ⟨mend s', shown, r⟩ := by
  rw [ensuring, h]

end

theorem lift_of_ok {m : Action σ Error α} {a : α} (h : m s = ⟨s', shown, .ok a⟩) :
    (liftM m : Action σ Halt α) s = ⟨s', shown, .ok a⟩ :=
  mapError_of_ok h Halt.fault

theorem lift_of_error {m : Action σ Error α} {e : Error} (h : m s = ⟨s', shown, .error e⟩) :
    (liftM m : Action σ Halt α) s = ⟨s', shown, .error (.fault e)⟩ :=
  mapError_of_error h Halt.fault

/-- An operation fails as such when it is part of a command. -/
theorem lift_result_eq_error {m : Action σ Error α} {h : Halt} :
    ((liftM m : Action σ Halt α) s).result = .error h
      ↔ ∃ e, h = .fault e ∧ (m s).result = .error e := by
  rcases hs : m s with ⟨s', shown, e | a⟩
  · rw [lift_of_error hs]
    simp [eq_comm]
  · rw [lift_of_ok hs]
    simp

end Action

/-- The top reference is to a cell of the array. -/
def Env.Chooses (env : Env) (name : Token) : Prop :=
  ∃ position references, env.references = .toCell name position :: references

namespace Evaluator

open Wordstack.Action Env

variable {inner : Evaluator} {env : Env} {condition last first : Int} {stack : List Int}

/-! ## Single words -/

variable {t : Token}

theorem perform_of_error {h : Halt} (hm : env.meaning t = .error h) :
    perform inner t env = ⟨env, [], .error h⟩ := by
  rw [perform, bind_apply, query, hm]

theorem perform_of_value {v : Int} (hm : env.meaning t = .ok (.value v)) :
    perform inner t env
      = ⟨{ env with stack := Cell.wrap v :: env.stack }, [], .ok ()⟩ := by
  rw [perform, bind_apply, query, hm]
  rfl

theorem perform_of_builtin {b : Builtin} (hm : env.meaning t = .ok (.builtin b)) :
    perform inner t env = (liftM b.run : Action Env Halt Unit) env := by
  rw [perform, bind_apply, query, hm]
  rfl

theorem perform_of_call {word : Token} {body : Body}
    (hm : env.meaning t = .ok (.call word body)) :
    perform inner t env = call inner word body env := by
  rw [perform, bind_apply, query, hm]
  rfl

theorem perform_of_reference {r : Reference} (hm : env.meaning t = .ok (.reference r)) :
    perform inner t env = ⟨{ env with references := r :: env.references }, [], .ok ()⟩ := by
  rw [perform, bind_apply, query, hm]
  rfl

/-- With a reference to a cell on top, the plus sign chooses the cell. -/
theorem plus_of_chooses {name : Token} (h : env.Chooses name) :
    plus inner env = (liftM (chooseCell name) : Action Env Halt Unit) env := by
  obtain ⟨position, references, hr⟩ := h
  rw [plus, state_bind, hr]
  rfl

/-- Without one, it is a word like others. -/
theorem plus_of_not_chooses (h : ¬∃ name, env.Chooses name) :
    plus inner env = perform inner "+" env := by
  rw [plus, state_bind]
  rcases hr : env.references with _ | ⟨⟨name, _ | position⟩, references⟩
  · rfl
  · rfl
  · exact absurd ⟨name, position, references, hr⟩ h

/-! ## Conditionals -/

/-- The rest of a conditional, once its condition is taken. -/
def follow (inner : Evaluator) (condition : Int) (branches : Branches) : Action Env Halt Unit :=
  if branches.whenTrue = [] then .fail (.fault (.malformed .emptyBranch))
  else if branches.whenFalse = some [] then .fail (.fault (.malformed .emptyAlternative))
  else if condition ≠ 0 then enter inner branches.whenTrue
  else match branches.whenFalse with
    | some body => enter inner body
    | none => pure ()

theorem choose_of_nil (h : env.stack = []) (branches : Except Halt Branches) :
    choose inner branches env
      = ⟨env, [], .error (.fault (.underflow "Empty stack for condition in if"))⟩ := by
  rw [choose, bind_of_error (lift_of_error (pop_of_nil h _))]

theorem choose_error_of_cons (h : env.stack = condition :: stack) (e : Halt) :
    choose inner (.error e) env = ⟨{ env with stack }, [], .error e⟩ := by
  rw [choose, bind_of_ok (lift_of_ok (pop_of_cons h _))]
  rfl

theorem choose_ok_of_cons (h : env.stack = condition :: stack) (branches : Branches) :
    choose inner (.ok branches) env = follow inner condition branches { env with stack } := by
  rw [choose, bind_of_ok (lift_of_ok (pop_of_cons h _))]
  rfl

/-! ## Loops -/

theorem repeatBody_error (e : Halt) (env : Env) :
    repeatBody inner (.error e) env = ⟨env, [], .error e⟩ := rfl

theorem repeatBody_empty (env : Env) :
    repeatBody inner (.ok []) env = ⟨env, [], .error (.fault (.malformed .emptyLoop))⟩ := rfl

variable {body : Body}

theorem repeatBody_of_nil (hb : body ≠ []) (h : env.stack = []) :
    repeatBody inner (.ok body) env
      = ⟨env, [], .error (.fault (.underflow "Empty stack for end of do loop"))⟩ := by
  rw [repeatBody, ofExcept_ok_bind, if_neg hb, bind_of_error (lift_of_error (pop_of_nil h _))]

theorem repeatBody_of_singleton (hb : body ≠ []) (h : env.stack = [last]) :
    repeatBody inner (.ok body) env
      = ⟨{ env with stack := [] }, [],
          .error (.fault (.underflow "Empty stack for start of do loop"))⟩ := by
  rw [repeatBody, ofExcept_ok_bind, if_neg hb, bind_of_ok (lift_of_ok (pop_of_cons h _)),
    bind_of_error (lift_of_error (pop_of_nil rfl _))]
  rfl

/-- A loop with its bounds takes the body for one number after the other. -/
theorem repeatBody_of_cons (hb : body ≠ []) (h : env.stack = last :: first :: stack) :
    repeatBody inner (.ok body) env
      = (forCount (iterate inner body) first (last - first).toNat).ensuring
          (restoreRegister counter (env.registers.get? counter)) { env with stack } := by
  rw [repeatBody, ofExcept_ok_bind, if_neg hb, bind_of_ok (lift_of_ok (pop_of_cons h _)),
    bind_of_ok (lift_of_ok (pop_of_cons rfl _))]
  rfl

end Evaluator

/-! ## The end of an evaluation -/

variable {m : Action Env Halt Unit} {env env' : Env} {shown : List Event}

theorem reporting_of_ok (h : m env = ⟨env', shown, .ok ()⟩) :
    reporting m env = ⟨env', shown, .ok none⟩ := by
  rw [reporting, h]

theorem reporting_of_fault {e : Error} (h : m env = ⟨env', shown, .error (.fault e)⟩) :
    reporting m env = ⟨env', shown ++ [.report e], .ok (some e)⟩ := by
  rw [reporting, h]

theorem reporting_of_escape {x : Escape} (h : m env = ⟨env', shown, .error (.escape x)⟩) :
    reporting m env = ⟨env', shown, .error x⟩ := by
  rw [reporting, h]

/-- Only an evaluation that went well has no error for an answer. -/
theorem eq_of_reporting_eq_ok (h : reporting m env = ⟨env', shown, .ok none⟩) :
    m env = ⟨env', shown, .ok ()⟩ := by
  rcases hm : m env with ⟨env₁, shown₁, (e | x) | ⟨⟩⟩
  · cases (reporting_of_fault hm).symm.trans h
  · cases (reporting_of_escape hm).symm.trans h
  · cases (reporting_of_ok hm).symm.trans h
    rfl

/-- A token that is a command by itself does what the command does, if that goes well. -/
theorem evaluate_of_read {depth : Nat} {t : Token} {c : Command}
    (ht : Text.isBlankText t = false) (hc : Command.read t [] = (c, []))
    (h : Evaluator.execute (evaluate depth) c env = ⟨env', shown, .ok ()⟩) :
    evaluate (depth + 1) [t] env = ⟨env', shown, .ok none⟩ := by
  rw [evaluate_succ, Command.sequence_cons_of_read ht hc, Command.sequence_nil,
    Action.forEach_cons, Action.forEach_nil, bind_pure_unit]
  exact reporting_of_ok h

theorem reporting_congr {m' : Action Env Halt Unit} (h : m env = m' env') :
    reporting m env = reporting m' env' := by
  rw [reporting, reporting, h]

/-- What was shown before does not matter for how an evaluation ends. -/
theorem reporting_after {m' : Action Env Halt Unit} (h : m env = (m' env').after shown) :
    reporting m env = (reporting m' env').after shown := by
  rcases hm : m' env' with ⟨env₁, shown₁, (e | x) | ⟨⟩⟩ <;> rw [hm] at h
  · rw [reporting_of_fault h, reporting_of_fault hm, Outcome.after, List.append_assoc]
  · rw [reporting_of_escape h, reporting_of_escape hm]
    rfl
  · rw [reporting_of_ok h, reporting_of_ok hm]
    rfl

end Wordstack
