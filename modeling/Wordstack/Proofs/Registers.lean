import Mathlib
import Wordstack.Proofs.Moments

/-!
# The scope of registers

The register of the counter is one place for all loops, within each other and in words that are
called. A loop writes its numbers over what it finds there and at the end puts back what it found,
or clears the register if there was nothing; and no other command touches a register. So an
evaluation leaves the registers as they were, whatever it does and however it ends, the order of
their names included (`evaluate_registers`). Hence a loop can rely on its number in the whole of
its body: whatever ran before in the round, the counter still tells the number of the round.
-/

namespace Wordstack

open Wordstack.Action Env Evaluator

variable {env env' : Env}

/-- To restore a register touches nothing but the registers. -/
theorem restoreRegister_eq (name : Token) (o : Option Int) (env : Env) :
    restoreRegister name o env
      = { env with registers := (restoreRegister name o env).registers } := by
  cases o <;> rfl

/-- It does not matter for a register that is restored what it held meanwhile. -/
theorem registers_restoreRegister_of_insert {name : Token} {v : Int}
    (h : env'.registers = env.registers.insert name v) (o : Option Int) :
    (restoreRegister name o env').registers = (restoreRegister name o env).registers := by
  cases o with
  | none => exact (congrArg (Table.erase · name) h).trans (Table.erase_insert env.registers name v)
  | some w =>
    exact (congrArg (Table.insert · name w) h).trans (Table.insert_insert env.registers name v w)

/-- To restore what a register holds changes nothing. -/
theorem registers_restoreRegister_get? {registers : Table Int} (h : env.registers = registers)
    (name : Token) : (restoreRegister name (registers.get? name) env).registers = registers := by
  cases ho : registers.get? name with
  | none => exact (congrArg (Table.erase · name) h).trans (Table.erase_of_get? ho)
  | some v => exact (congrArg (Table.insert · name v) h).trans (Table.insert_of_get? ho)

/-- The property that the registers are these. -/
def HasRegisters (registers : Table Int) (env : Env) : Prop :=
  env.registers = registers

theorem closed_hasRegisters (registers : Table Int) :
    Closed (fun _ => True) (HasRegisters registers) :=
  fun hc h => hc.registers_eq.trans h

/-- The property that the registers are these, but for the value of the counter. -/
def Counting (registers : Table Int) (env : Env) : Prop :=
  ∀ v, env.registers.insert counter v = registers.insert counter v

/-- To restore the counter restores the registers. -/
theorem Counting.restore {registers : Table Int} (h : Counting registers env) :
    restoreRegister counter (registers.get? counter) env = { env with registers } := by
  have hinsert : ({ env with registers := registers.insert counter 0 } : Env).registers
      = env.registers.insert counter 0 := (h 0).symm
  have hregisters : (restoreRegister counter (registers.get? counter) env).registers
      = registers :=
    calc (restoreRegister counter (registers.get? counter) env).registers
        = (restoreRegister counter (registers.get? counter)
            { env with registers := registers.insert counter 0 }).registers :=
          (registers_restoreRegister_of_insert hinsert _).symm
      _ = (restoreRegister counter (registers.get? counter) { env with registers }).registers :=
          registers_restoreRegister_of_insert rfl _
      _ = registers := registers_restoreRegister_get? (by rfl) counter
  rw [restoreRegister_eq, hregisters]

variable {inner : Evaluator}

/-- A round writes to the counter, and otherwise leaves the registers as the evaluation of the body
    does. -/
theorem iterate_keeps_counting
    (hinner : ∀ registers body, Keeps (HasRegisters registers) (inner body)) (registers : Table Int)
    (body : Body) (v : Int) : Keeps (Counting registers) (iterate inner body v) := by
  intro env h w
  have hk : (iterate inner body v env).state.registers = env.registers.insert counter v :=
    enter_keeps (hinner (env.registers.insert counter v) body)
      { env with registers := env.registers.insert counter v } rfl
  rw [hk, Table.insert_insert, h w]

/-- A loop leaves the registers as they were: with every round they change, but not to what else
    they can be restored. -/
theorem repeatBody_registers
    (hinner : ∀ registers body, Keeps (HasRegisters registers) (inner body)) (body : Body)
    (registers : Table Int) : Keeps (HasRegisters registers) (repeatBody inner (.ok body)) := by
  refine repeatBody_keeps_of_rounds (closed_hasRegisters registers)
    fun {env last first stack} h _ _ => ?_
  have hrounds := Keeps.forEach (l := consecutive first (last - first).toNat)
    (fun v _ => iterate_keeps_counting hinner env.registers body v) { env with stack } fun _ => rfl
  exact (congrArg Env.registers hrounds.restore).trans h

theorem execute_registers
    (hinner : ∀ registers body, Keeps (HasRegisters registers) (inner body))
    (registers : Table Int) (c : Command) : Keeps (HasRegisters registers) (execute inner c) :=
  execute_keeps (closed_hasRegisters registers) hereditary_any (fun body _ => hinner registers body)
    (fun body _ => repeatBody_registers hinner body registers) trivial

theorem evaluate_keeps_registers (depth : Nat) (registers : Table Int) (tokens : List Token) :
    Keeps (HasRegisters registers) (evaluate depth tokens) := by
  -- For all registers at once, as the rounds of a loop have others than the loop.
  induction depth generalizing registers tokens with
  | zero => exact keeps_fail _
  | succ depth ih =>
    rw [evaluate_succ]
    exact reporting_keeps (Keeps.forEach fun c _ => execute_registers ih registers c)

end Wordstack
