import Mathlib
import Wordstack.Proofs.Correspondence
import Wordstack.Proofs.Operands

/-!
# What lies below

Programs work on the upper operands and references. More operands and references below them do not
matter, as long as nothing is ever missing: the evaluation goes the same way, and what was below
still is at the end (`evaluate_frame`). Only where the operand stack is shown do the further
operands appear.

The plus sign looks at the top reference to find out what it is to do, also if it then adds. So the
references below must not begin with one to a cell, which could otherwise come to the top.
-/

namespace Wordstack

open Wordstack.Action Env

/-- The environment with further operands and references below its own. -/
def Env.above (env : Env) (operands : List Int) (references : List Reference) : Env :=
  { env with stack := env.stack ++ operands, references := env.references ++ references }

/-- The event, if there are further operands below those that it shows. -/
def Event.above (operands : List Int) : Event → Event
  | .stack label shown => .stack label (operands.reverse ++ shown)
  | event => event

/-- Whether an operand or a reference is missing. -/
def Error.isMissing : Error → Bool
  | underflow _ | noReference _ => true
  | divisionByZero | recursionTooDeep _ | unbound _ | malformed _ | storage _ => false

/-- The comparison with an evaluation that has further operands and references below, as long as
    nothing is missing. -/
def Comparison.frame (operands : List Int) (references : List Reference) : Comparison where
  envs env env' := env' = env.above operands references
  events event event' := event' = event.above operands
  excluded e := e.isMissing = true

/-- The operation can be followed with more below. -/
abbrev Framed {α : Type} (operands : List Int) (references : List Reference)
    (m : Action Env Error α) : Prop :=
  Follows (.frame operands references) (Comparison.frame operands references).excluded m m

variable {t : List Int} {q : List Reference} {ε α : Type} {env env₁ : Env}

/-- An outcome without events corresponds to the one in the environment with more below. -/
theorem frame_of_silent (r : Except ε α) :
    Outcome.Corresponds (.frame t q) ⟨env, [], r⟩ ⟨env.above t q, [], r⟩ :=
  corresponds_of_silent (C := .frame t q) rfl r

theorem frame_of_event (event : Event) (r : Except ε α) :
    Outcome.Corresponds (.frame t q) ⟨env, [event], r⟩ ⟨env.above t q, [event.above t], r⟩ :=
  ⟨rfl, .cons rfl .nil, rfl⟩

theorem stack_above {v : Int} {stack : List Int} (h : env.stack = v :: stack) :
    (env.above t q).stack = v :: (stack ++ t) := by
  rw [above, h]
  rfl

theorem references_above {r : Reference} {references : List Reference}
    (h : env.references = r :: references) :
    (env.above t q).references = r :: (references ++ q) := by
  rw [above, h]
  rfl

/-- An operation that misses something need not be followed. -/
theorem frame_of_missing {e : Error} (h : e.isMissing = true) {o' : Outcome Env Error α}
    (hbad : (⟨env₁, [], .error e⟩ : Outcome Env Error α).Avoids
      (Comparison.frame t q).excluded) :
    Outcome.Corresponds (.frame t q) ⟨env₁, [], .error e⟩ o' :=
  absurd h (hbad e rfl)

/-! ## Operands -/

theorem pop_frame (message : String) : Framed t q (pop message) := by
  rintro env _ rfl hbad
  rcases hs : env.stack with _ | ⟨v, stack⟩
  · rw [pop_of_nil hs] at hbad ⊢
    exact frame_of_missing rfl hbad
  · rw [pop_of_cons hs, pop_of_cons (stack_above hs)]
    exact frame_of_silent _

theorem top_frame (message : String) : Framed t q (top message) := by
  rintro env _ rfl hbad
  rcases hs : env.stack with _ | ⟨v, stack⟩
  · rw [top_of_nil hs] at hbad ⊢
    exact frame_of_missing rfl hbad
  · rw [top_of_cons hs, top_of_cons (stack_above hs)]
    exact frame_of_silent _

theorem push_frame (v : Int) : Framed t q (push v) := by
  rintro env _ rfl -
  exact frame_of_silent _

theorem emit_frame {event : Event} (h : event.above t = event) : Framed t q (emit event) := by
  rintro env _ rfl -
  exact ⟨rfl, .cons h.symm .nil, rfl⟩

namespace Builtin

theorem binary_frame (name : String) (op : Int → Int → Int) : Framed t q (binary name op) :=
  (pop_frame _).bind fun _ => (pop_frame _).bind fun _ => push_frame _

theorem division_frame (name : String) (op : Int → Int → Int) : Framed t q (division name op) := by
  rintro env _ rfl hbad
  rcases Int.lt_or_le (env.stack.length : Int) 2 with hlt | hle
  · rw [division_of_lt hlt] at hbad ⊢
    exact frame_of_missing rfl hbad
  -- The two operands are there, and so the divisor is the same.
  · obtain ⟨x, y, stack, hs⟩ := exists_pair (Int.ofNat_le.1 hle)
    rw [division_of_cons hs] at hbad ⊢
    rw [division_of_cons (stack_above hs)]
    by_cases hx : x = 0
    · rw [if_pos hx, if_pos hx]
      exact frame_of_silent _
    · rw [if_neg hx] at hbad ⊢
      rw [if_neg hx]
      exact binary_frame name op _ _ rfl hbad

/-- A rearrangement of the upper operands can be followed. -/
theorem rearrange_frame {count : Int} {f : List Int → List Int} (name : String)
    (hf : ∀ stack, count ≤ (stack.length : Int) → f (stack ++ t) = f stack ++ t) :
    Framed t q (rearrange name count f) := by
  rintro env _ rfl hbad
  rcases Int.lt_or_le (env.stack.length : Int) count with hlt | hle
  · rw [rearrange_of_lt hlt] at hbad ⊢
    exact frame_of_missing rfl hbad
  · have hle' : count ≤ ((env.above t q).stack.length : Int) := by
      simp only [above, List.length_append]
      omega
    rw [rearrange_of_le hle, rearrange_of_le hle']
    have hs : f (env.above t q).stack = f env.stack ++ t := hf _ hle
    rw [hs]
    exact frame_of_silent _

theorem exchangeTop_append {stack : List Int} (h : 2 ≤ (stack.length : Int)) :
    exchangeTop (stack ++ t) = exchangeTop stack ++ t := by
  obtain ⟨x, y, rest, rfl⟩ := exists_pair (Int.ofNat_le.1 h)
  rfl

theorem copySecond_append {stack : List Int} (h : 2 ≤ (stack.length : Int)) :
    copySecond (stack ++ t) = copySecond stack ++ t := by
  obtain ⟨x, y, rest, rfl⟩ := exists_pair (Int.ofNat_le.1 h)
  rfl

theorem rotateTop_append {stack : List Int} (h : 3 ≤ (stack.length : Int)) :
    rotateTop (stack ++ t) = rotateTop stack ++ t := by
  rcases stack with _ | ⟨x, _ | ⟨y, _ | ⟨z, stack⟩⟩⟩
  · exact absurd h (by decide)
  · exact absurd h (by simp)
  · exact absurd h (by simp)
  · rfl

theorem run_frame (b : Builtin) : Framed t q b.run := by
  cases b with
  | add | subtract | multiply | conjunction | disjunction => exact binary_frame _ _
  | equal | unequal | less | greater | lessOrEqual | greaterOrEqual => exact binary_frame _ _
  | divide | modulo => exact division_frame _ _
  | complement => exact (pop_frame _).bind fun _ => push_frame _
  | duplicate => exact (top_frame _).bind fun _ => push_frame _
  | discard =>
    refine (pop_frame _).bind fun _ => ?_
    rintro env _ rfl -
    exact frame_of_silent _
  | exchange => exact rearrange_frame _ fun _ => exchangeTop_append
  | duplicateSecond => exact rearrange_frame _ fun _ => copySecond_append
  | rotate => exact rearrange_frame _ fun _ => rotateTop_append
  | print | printCharacter => exact (pop_frame _).bind fun _ => emit_frame rfl
  | printLineEnd => exact emit_frame rfl
  | showWords | showVariables | showNames =>
    rintro env _ rfl -
    exact frame_of_event _ _
  | showStack =>
    rintro env _ rfl -
    refine ⟨rfl, .cons ?_ .nil, rfl⟩
    exact congrArg (Event.stack "Stack: ") List.reverse_append

end Builtin

/-! ## References -/

theorem declare_frame (name : Token) : Framed t q (declare name) := by
  rintro env _ rfl -
  by_cases hs : ∃ cells, env.storage.get? name = some (.array cells)
  · obtain ⟨cells, hs⟩ := hs
    have hs' : (env.above t q).storage.get? name = some (.array cells) := hs
    rw [declare_of_array hs, declare_of_array hs']
    exact frame_of_silent _
  · have hs := not_exists.1 hs
    have hs' : ∀ cells, (env.above t q).storage.get? name ≠ some (.array cells) := hs
    rw [declare_of_not_array hs, declare_of_not_array hs']
    exact frame_of_silent _

theorem nameConstant_frame (name : Token) : Framed t q (nameConstant name) := by
  rintro env _ rfl hbad
  rcases hs : env.stack with _ | ⟨v, stack⟩
  · rw [nameConstant_of_nil hs] at hbad
    exact absurd rfl (hbad _ rfl)
  · rw [nameConstant_of_cons hs, nameConstant_of_cons (stack_above hs)]
    exact frame_of_silent _

theorem fetch_frame : Framed t q fetch := by
  rintro env _ rfl hbad
  rcases hr : env.references with _ | ⟨⟨name, _ | position⟩, references⟩
  · rw [fetch_of_nil hr] at hbad ⊢
    exact frame_of_missing rfl hbad
  · have hr' := references_above (t := t) (q := q) hr
    rcases hv : env.scalar name with fault | v
    · rw [fetch_scalar_error hr hv, fetch_scalar_error hr' hv]
      exact frame_of_silent _
    · rw [fetch_scalar_ok hr hv, fetch_scalar_ok hr' hv]
      exact frame_of_silent _
  · have hr' := references_above (t := t) (q := q) hr
    rcases hv : env.slot name position with fault | s
    · rw [fetch_cell_error hr hv, fetch_cell_error hr' hv]
      exact frame_of_silent _
    · rw [fetch_cell_ok hr hv, fetch_cell_ok hr' hv]
      exact frame_of_silent _

theorem store_frame : Framed t q store := by
  rintro env _ rfl hbad
  rcases hr : env.references with _ | ⟨⟨name, _ | position⟩, references⟩
  · rw [store_of_nil hr] at hbad ⊢
    exact frame_of_missing rfl hbad
  · have hr' := references_above (t := t) (q := q) hr
    rcases hv : env.scalar name with fault | w
    · rw [store_scalar_error hr hv, store_scalar_error hr' hv]
      exact frame_of_silent _
    · rcases hs : env.stack with _ | ⟨v, stack⟩
      · rw [store_scalar_underflow hr hv hs] at hbad ⊢
        exact frame_of_missing rfl hbad
      · rw [store_scalar_ok hr hv hs, store_scalar_ok hr' hv (stack_above hs)]
        exact frame_of_silent _
  · have hr' := references_above (t := t) (q := q) hr
    rcases hv : env.slot name position with fault | s
    · rw [store_cell_error hr hv, store_cell_error hr' hv]
      exact frame_of_silent _
    · rcases hs : env.stack with _ | ⟨v, stack⟩
      · rw [store_cell_underflow hr hv hs] at hbad ⊢
        exact frame_of_missing rfl hbad
      · rw [store_cell_ok hr hv hs, store_cell_ok hr' hv (stack_above hs)]
        exact frame_of_silent _

/-- Whether a scalar can be made an array is a matter of the variables alone. -/
theorem allotArray_above (env : Env) (name : Token) (length : Int) :
    (env.above t q).allotArray name length
      = (env.allotArray name length).map (·.above t q) := by
  rcases hv : env.storage.get? name with _ | w | cells
  · have hv' : (env.above t q).storage.get? name = none := hv
    rw [allotArray, allotArray, content_of_none hv, content_of_none hv']
    rfl
  · have hv' : (env.above t q).storage.get? name = some (.scalar w) := hv
    rw [allotArray_of_scalar hv, allotArray_of_scalar hv']
    split <;> rfl
  · have hv' : (env.above t q).storage.get? name = some (.array cells) := hv
    rw [allotArray_of_array hv, allotArray_of_array hv']
    rfl

theorem allotArray_frame (name : Token) (length : Int) :
    Framed t q (storageUpdate (allotArray · name length)) := by
  rintro env _ rfl -
  have ha := allotArray_above (t := t) (q := q) env name length
  rcases he : env.allotArray name length with fault | env₁ <;> rw [he] at ha
  · rw [storageUpdate_of_error he, storageUpdate_of_error ha]
    exact frame_of_silent _
  · rw [storageUpdate_of_ok he, storageUpdate_of_ok ha]
    exact frame_of_silent _

theorem allot_frame : Framed t q allot := by
  rintro env _ rfl hbad
  rcases hr : env.references with _ | ⟨⟨name, _ | position⟩, references⟩
  · rw [allot_of_nil hr] at hbad ⊢
    exact frame_of_missing rfl hbad
  · have hr' := references_above (t := t) (q := q) hr
    rcases hs : env.stack with _ | ⟨length, stack⟩
    · rw [allot_underflow hr hs] at hbad ⊢
      exact frame_of_missing rfl hbad
    · rw [allot_of_cons hr hs] at hbad ⊢
      rw [allot_of_cons hr' (stack_above hs)]
      exact allotArray_frame name length _ _ rfl hbad
  · rw [allot_of_cell hr, allot_of_cell (references_above hr)]
    exact frame_of_silent _

theorem chooseCell_frame {name : Token} (hc : env.Chooses name)
    (hbad : (chooseCell name env).Avoids (Comparison.frame t q).excluded) :
    (chooseCell name env).Corresponds (.frame t q) (chooseCell name (env.above t q)) := by
  obtain ⟨position, references, hr⟩ := hc
  rcases hs : env.stack with _ | ⟨v, stack⟩
  · rw [chooseCell_of_nil hs] at hbad ⊢
    exact frame_of_missing rfl hbad
  · rw [chooseCell_of_cons hs, chooseCell_of_cons (stack_above hs), references_above hr, hr]
    exact frame_of_silent _

/-- With no reference to a cell on top of those below, none comes to the top. -/
theorem chooses_above_iff (hq : ∀ r, q.head? = some r → r.isArray = false) (name : Token) :
    (env.above t q).Chooses name ↔ env.Chooses name := by
  constructor
  · rintro ⟨position, references, hr⟩
    rcases hs : env.references with _ | ⟨r, rest⟩
    · have hr : env.references ++ q = .toCell name position :: references := hr
      rw [hs, List.nil_append] at hr
      exact absurd (hq _ (congrArg List.head? hr)) (by simp [Reference.isArray, Reference.toCell])
    · rw [references_above hs] at hr
      cases hr
      exact ⟨position, rest, hs⟩
  · rintro ⟨position, references, hr⟩
    exact ⟨position, references ++ q, references_above hr⟩

/-! ## Evaluations -/

theorem sound_frame (hq : ∀ r, q.head? = some r → r.isArray = false) :
    (Comparison.frame t q).Sound where
  text _ := rfl
  report _ := rfl
  meaning := by rintro env _ rfl _ _; rfl
  registers_eq := by rintro env _ rfl; rfl
  registers _ := by rintro rfl; rfl
  push _ := by rintro rfl; rfl
  refer _ := by rintro rfl; rfl
  define _ := by rintro rfl; rfl
  chooses_iff := by
    rintro env _ rfl name
    exact chooses_above_iff hq name
  chooseCell := by
    rintro env _ name rfl hc hbad
    exact chooseCell_frame hc hbad
  pop := pop_frame
  top := top_frame
  run := Builtin.run_frame
  declare := declare_frame
  nameConstant := nameConstant_frame
  fetch := fetch_frame
  store := store_frame
  allot := allot_frame

theorem Outcome.Corresponds.eq_of_frame {o o' : Outcome Env ε α}
    (h : o.Corresponds (.frame t q) o') :
    o' = ⟨o.state.above t q, o.output.map (·.above t), o.result⟩ := by
  obtain ⟨hstate, houtput, hresult⟩ := h
  have houtput : List.Forall₂ (· = ·) (o.output.map (·.above t)) o'.output :=
    List.forall₂_map_left_iff.2 (houtput.imp fun _ _ he => he.symm)
  have houtput : o.output.map (·.above t) = o'.output := List.forall₂_eq_eq_eq ▸ houtput
  cases o'
  cases hstate
  cases houtput
  cases hresult
  rfl

/-- If nothing is ever missing in an evaluation, then with more operands and references below it
    goes the same way and leaves those below as they are; they only show where the operand stack
    is shown. -/
theorem evaluate_frame (depth : Nat) (tokens : List Token) (env : Env) (t : List Int)
    (q : List Reference) (hq : ∀ r, q.head? = some r → r.isArray = false)
    (h : ∀ e, .report e ∈ (evaluate depth tokens env).output → e.isMissing = false) :
    evaluate depth tokens (env.above t q)
      = ⟨(evaluate depth tokens env).state.above t q,
          (evaluate depth tokens env).output.map (·.above t),
          (evaluate depth tokens env).result⟩ := by
  refine ((sound_frame hq).evaluate_corresponds_of_moments rfl fun m hm => ?_).eq_of_frame
  rintro (e | x) he hx
  · have hmissing : e.isMissing = true := hx
    rw [h e (report_mem_evaluate_iff.2 ⟨m, hm, he⟩)] at hmissing
    cases hmissing
  · exact hx

/-- Two operands and a reference below show, and else change nothing: not the addition, which finds
    the reference on top, and not the division in the conditional, which fails all the same. -/
theorem evaluate_frame_sum :
    let env : Env := { stack := [4], storage := .ofList [("x", .scalar 7)] }
    let tokens := ["x", "@", "+", "dup", ".s", "1", "if", "0", "/", "then"]
    let after : Env := { env with stack := [0, 11, 11] }
    evaluate 2 tokens env
        = ⟨after, [.stack "Stack: " [11, 11], .report .divisionByZero], .ok none⟩ ∧
      evaluate 2 tokens (env.above [9, 8] [.toScalar "y", .toCell "a" 2])
        = ⟨after.above [9, 8] [.toScalar "y", .toCell "a" 2],
            [.stack "Stack: " [8, 9, 11, 11], .report .divisionByZero], .ok none⟩ := by
  intro env tokens after
  have hs : Command.sequence tokens
      = [.word "x", .fetch, .plus, .word "dup", .word ".s", .word "1",
          .conditional (.ok ⟨["0", "/"], none⟩)] := by cbv
  have he : evaluate 2 tokens env
      = ⟨after, [.stack "Stack: " [11, 11], .report .divisionByZero], .ok none⟩ := by
    rw [evaluate_succ, hs]
    cbv
  refine ⟨he, ?_⟩
  rw [evaluate_frame 2 tokens env [9, 8] [.toScalar "y", .toCell "a" 2] (by rintro r ⟨⟩; rfl)
    (by rw [he]; simp [Error.isMissing]), he]
  rfl

end Wordstack
