import Wordstack.Proofs.Primitives

/-!
# What builtins come to

For each way in which builtins take operands: what it comes to, by what is on the operand stack.
Every builtin needs so many operands (`Builtin.operands`) and fails where there are fewer
(`Builtin.run_of_lt`); a division also fails where the upper operand is zero
(`Builtin.run_of_zero`).
-/

namespace Wordstack

open Wordstack.Action

namespace Env

variable {env : Env} {v : Int} {stack : List Int}

theorem top_of_nil (h : env.stack = []) (message : String) :
    top message env = ⟨env, [], .error (.underflow message)⟩ := by
  rw [top, query, h]

theorem top_of_cons (h : env.stack = v :: stack) (message : String) :
    top message env = ⟨env, [], .ok v⟩ := by
  rw [top, query, h]

theorem require_of_lt {count : Int} (h : env.stack.length < count) (message : String) :
    require count message env = ⟨env, [], .error (.underflow message)⟩ := by
  rw [require, query, if_pos h]

theorem require_of_le {count : Int} (h : count ≤ env.stack.length) (message : String) :
    require count message env = ⟨env, [], .ok ()⟩ := by
  rw [require, query, if_neg (Int.not_lt.2 h)]

end Env

/-- Of two operands or more, there is a first and a second. -/
theorem exists_pair {stack : List Int} (h : 2 ≤ stack.length) :
    ∃ x y rest, stack = x :: y :: rest := by
  obtain ⟨x, stack, rfl⟩ := List.exists_cons_of_length_pos (Nat.lt_of_lt_of_le Nat.two_pos h)
  obtain ⟨y, rest, rfl⟩ := List.exists_cons_of_length_pos (Nat.le_of_succ_le_succ h)
  exact ⟨x, y, rest, rfl⟩

open Env

namespace Builtin

variable {env : Env} {x y : Int} {stack : List Int} {name : String}

/-! ## Two operands -/

variable {op : Int → Int → Int}

theorem binary_of_nil (h : env.stack = []) :
    binary name op env
      = ⟨env, [], .error (.underflow ("Empty stack: for first argument for " ++ name))⟩ := by
  rw [binary, bind_of_error (pop_of_nil h _)]

/-- The only operand is taken before the other one is missed. -/
theorem binary_of_singleton (h : env.stack = [x]) :
    binary name op env
      = ⟨{ env with stack := [] }, [],
          .error (.underflow ("Empty stack: for second argument for " ++ name))⟩ := by
  rw [binary, bind_of_ok (pop_of_cons h _), bind_of_error (pop_of_nil rfl _)]
  rfl

theorem binary_of_cons (h : env.stack = x :: y :: stack) :
    binary name op env = ⟨{ env with stack := Cell.wrap (op y x) :: stack }, [], .ok ()⟩ := by
  rw [binary, bind_of_ok (pop_of_cons h _), bind_of_ok (pop_of_cons rfl _)]
  rfl

theorem division_of_lt (h : env.stack.length < (2 : Int)) :
    division name op env
      = ⟨env, [], .error (.underflow ("Empty stack: for arguments for " ++ name))⟩ := by
  rw [division, bind_of_error (require_of_lt h _)]

theorem division_of_cons (h : env.stack = x :: y :: stack) :
    division name op env
      = if x = 0 then ⟨env, [], .error .divisionByZero⟩ else binary name op env := by
  have hr : (2 : Int) ≤ env.stack.length := by
    rw [h, List.length_cons, List.length_cons]
    omega
  rw [division, bind_of_ok (require_of_le hr _), state_bind, after_nil, h, List.head?_cons]
  by_cases hx : x = 0
  · rw [if_pos (congrArg some hx), if_pos hx]
    rfl
  · rw [if_neg fun hs => hx (Option.some.inj hs), if_neg hx]

/-! ## Rearrangements -/

variable {count : Int} {f : List Int → List Int}

theorem rearrange_of_lt (h : env.stack.length < count) :
    rearrange name count f env
      = ⟨env, [], .error (.underflow ("Not enough values on stack for " ++ name))⟩ := by
  rw [rearrange, bind_of_error (require_of_lt h _)]

theorem rearrange_of_le (h : count ≤ env.stack.length) :
    rearrange name count f env = ⟨{ env with stack := f env.stack }, [], .ok ()⟩ := by
  rw [rearrange, bind_of_ok (require_of_le h _)]
  rfl

/-! ## Missing operands -/

/-- How many operands a builtin needs. -/
def operands : Builtin → Nat
  | add | subtract | multiply | divide | modulo | conjunction | disjunction => 2
  | equal | unequal | less | greater | lessOrEqual | greaterOrEqual => 2
  | complement | duplicate | discard | print | printCharacter => 1
  | exchange | duplicateSecond => 2
  | rotate => 3
  | printLineEnd | showStack | showWords | showVariables | showNames => 0

/-- Whether a builtin divides the lower operand by the upper one. -/
def divides : Builtin → Bool
  | divide | modulo => true
  | _ => false

theorem binary_of_lt (h : env.stack.length < 2) :
    ∃ message, (binary name op env).result = .error (.underflow message) := by
  rcases hs : env.stack with _ | ⟨x, _ | ⟨y, stack⟩⟩
  · exact ⟨_, congrArg Outcome.result (binary_of_nil hs)⟩
  · exact ⟨_, congrArg Outcome.result (binary_of_singleton hs)⟩
  · rw [hs] at h
    exact absurd h (by simp)

/-- An operation that takes the top first fails where there is none. -/
theorem pop_bind_of_lt {m : Int → Action Env Error Unit} {message : String}
    (h : env.stack.length < 1) :
    ∃ message', ((do m (← pop message) : Action Env Error Unit) env).result
      = .error (.underflow message') := by
  have hs : env.stack = [] := List.length_eq_zero_iff.1 (Nat.lt_one_iff.1 h)
  exact ⟨message, congrArg Outcome.result (bind_of_error (pop_of_nil hs message) m)⟩

/-- Where operands are missing, a builtin fails. -/
theorem run_of_lt {b : Builtin} (h : env.stack.length < b.operands) :
    ∃ message, (b.run env).result = .error (.underflow message) := by
  cases b with
  | add | subtract | multiply | conjunction | disjunction => exact binary_of_lt h
  | equal | unequal | less | greater | lessOrEqual | greaterOrEqual => exact binary_of_lt h
  | divide | modulo =>
    exact ⟨_, congrArg Outcome.result (division_of_lt (Int.ofNat_lt.2 h))⟩
  | exchange | duplicateSecond =>
    exact ⟨_, congrArg Outcome.result (rearrange_of_lt (Int.ofNat_lt.2 h))⟩
  | rotate => exact ⟨_, congrArg Outcome.result (rearrange_of_lt (Int.ofNat_lt.2 h))⟩
  | complement | print | printCharacter | discard => exact pop_bind_of_lt h
  | duplicate =>
    have hs : env.stack = [] := List.length_eq_zero_iff.1 (Nat.lt_one_iff.1 h)
    exact ⟨_, congrArg Outcome.result (bind_of_error (top_of_nil hs _) _)⟩
  | printLineEnd | showStack | showWords | showVariables | showNames =>
    exact absurd h (Nat.not_lt_zero _)

/-- There is no division by zero. -/
theorem run_of_zero {b : Builtin} (hb : b.divides = true) (h : env.stack = 0 :: y :: stack) :
    b.run env = ⟨env, [], .error .divisionByZero⟩ := by
  cases b with
  | divide | modulo => exact (division_of_cons h).trans (if_pos rfl)
  | _ => cases hb

end Builtin

end Wordstack
