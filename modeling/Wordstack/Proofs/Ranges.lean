import Mathlib
import Wordstack.Proofs.Contents
import Wordstack.Proofs.Moments
import Wordstack.Proofs.Reachability

/-!
# What is in range

Whatever goes on the operand stack is wrapped, moved there or copied there, so the operands are
cells, also if integers of any size were put into the tables and the registers directly
(`EnvRequest.perform_operandsInRange`). The tables, the registers and the slots are written
without wrapping, but with operands, zeros and the numbers between two operands. As long as nobody
but programs writes them, they hold cells only, and then it does not matter that what is read is
wrapped (`inRange_of_reachable`).
-/

namespace Wordstack

open Wordstack.Action Env

/-! ## Operands -/

/-- All operands are cells. -/
def Env.OperandsInRange (env : Env) : Prop :=
  ∀ v ∈ env.stack, Cell.InRange v

theorem invariant_operandsInRange : Invariant (fun _ => True) OperandsInRange := by
  refine .of_closed (fun {env env'} hc h => ?_) hereditary_any fun _ _ h => h
  have below {v : Int} {stack : List Int} (hs : env.stack = v :: stack) :
      ∀ w ∈ stack, Cell.InRange w :=
    fun w hw => h w (hs ▸ List.mem_cons_of_mem v hw)
  cases hc with
  | stack hs => exact fun v hv => (hs v hv).elim (h v) id
  | define | declare | refer | useReference | allot => exact h
  | nameConstant _ hs => exact below hs
  | setScalar _ hs => exact below hs
  | setCell _ hs => exact below hs
  | chooseCell _ hs => exact below hs

variable {env env' : Env} {name : Token}

/-! A variable is written without a look at the operands. -/

theorem Env.stack_of_createVariable (h : env.createVariable name = .ok env') :
    env'.stack = env.stack := by
  rw [createVariable] at h
  split at h <;> cases h
  rfl

theorem Env.stack_of_allotArray {length : Int} (h : env.allotArray name length = .ok env') :
    env'.stack = env.stack := by
  obtain ⟨w, -, -, rfl⟩ := eq_of_allotArray h
  rfl

theorem Env.stack_of_setScalar {v : Int} (h : env.setScalar name v = .ok env') :
    env'.stack = env.stack := by
  rcases hc : env.content name with fault | ⟨w | cells⟩ <;> rw [setScalar, hc] at h <;> cases h
  rfl

theorem Env.stack_of_setCell {position v : Int} (h : env.setCell name position v = .ok env') :
    env'.stack = env.stack := by
  rcases hs : env.slot name position with fault | s <;> rw [setCell, hs] at h <;> cases h
  rfl

/-- What changes something else keeps the operands in range. -/
theorem keeps_operandsInRange_of_stack {ε α : Type} {m : Action Env ε α}
    (h : ∀ env, (m env).state.stack = env.stack) : Keeps OperandsInRange m := by
  intro env hr
  rw [OperandsInRange, h]
  exact hr

theorem storageUpdate_operandsInRange {f : Env → Except StorageFault Env}
    (hf : ∀ {env env'}, f env = .ok env' → env'.stack = env.stack) :
    Keeps OperandsInRange (storageUpdate f) := by
  refine storageUpdate_keeps fun env env' he h => ?_
  rw [OperandsInRange, hf he]
  exact h

theorem EnvRequest.quietly_keeps {I : Env → Prop} {m : Action Env Error Unit} (hm : Keeps I m) :
    Keeps I (quietly m) :=
  (hm.mapError _).bind fun _ => keeps_pure _

/-- Whatever is requested of an environment, the operands are cells. -/
theorem EnvRequest.perform_operandsInRange (r : EnvRequest) :
    Keeps OperandsInRange r.perform := by
  have hI : Closed (fun _ => True) OperandsInRange := invariant_operandsInRange.change
  cases r with
  | push v => exact quietly_keeps (push_keeps hI v)
  | pop message => exact ((pop_keeps hI message).mapError _).bind fun _ => keeps_pure _
  | top message => exact ((top_keeps message).mapError _).bind fun _ => keeps_pure _
  | require count message => exact quietly_keeps (require_keeps count message)
  | defineWord | defineConstant | pushReference =>
    exact quietly_keeps (keeps_operandsInRange_of_stack fun _ => rfl)
  | lookupWord | lookupConstant | getRegister | stackText | wordText | variableText | topReference
  | describe => exact keeps_state.bind fun _ => keeps_pure _
  | setRegister | clearRegister =>
    exact keeps_state.bind fun _ =>
      (keeps_operandsInRange_of_stack fun _ => rfl).bind fun _ => keeps_pure _
  | printStack => exact keeps_state.bind fun _ => (keeps_emit _).bind fun _ => keeps_pure _
  | createVariable => exact quietly_keeps (storageUpdate_operandsInRange stack_of_createVariable)
  | allotArray => exact quietly_keeps (storageUpdate_operandsInRange stack_of_allotArray)
  | setScalar => exact quietly_keeps (storageUpdate_operandsInRange stack_of_setScalar)
  | setCell => exact quietly_keeps (storageUpdate_operandsInRange stack_of_setCell)
  | getScalar | checkSlot | getCell =>
    exact ((keeps_query _).mapError _).bind fun _ => keeps_pure _
  | popReference message =>
    exact ((popReference_keeps hI message).mapError _).bind fun _ => keeps_pure _
  | replaceTopReference =>
    refine keeps_state.bind fun _ => ?_
    split
    · exact keeps_fail _
    · exact (keeps_operandsInRange_of_stack fun _ => rfl).bind fun _ => keeps_pure _
  | referenceTo name =>
    refine keeps_state.bind fun _ => ?_
    split
    · exact keeps_pure _
    · exact keeps_fail _

/-! ## Tables, registers and slots -/

theorem spans_inRange : Spans Cell.InRange where
  cell h := h
  between ha hb h₁ h₂ := ⟨Int.le_trans ha.1 h₁, Int.le_trans h₂ hb.2⟩

/-- Whether the request is for a program or for operands, in the session or in its environment. -/
def Request.isProgramOrOperand : Request → Bool
  | .env (.push _) | .env (.pop _) => true
  | r => r.isProgram

/-- What is stored is one of the integers that the environment holds. -/
theorem Env.Holds.of_stored? {P : Int → Prop} (h : env.Holds P) {r : Reference} {v : Int}
    (hv : env.stored? r = some v) : P v := by
  rw [stored?] at hv
  split at hv
  · next hs _ =>
    cases hv
    exact h.storage hs _ List.mem_cons_self
  · next hs _ =>
    split at hv
    · exact h.storage hs _ (List.mem_of_getElem? hv)
    · cases hv
  · cases hv

/-- A value that a token means is a numeral's or held by the environment. -/
theorem Env.Holds.of_meaning {P : Int → Prop} (hP : Spans P) (h : env.Holds P) {t : Token}
    {v : Int} (hm : env.meaning t = .ok (.value v)) : P v := by
  rw [meaning] at hm
  split at hm
  · next hr =>
    cases hm
    exact h.registers hr
  · split at hm
    · cases hm
    · split at hm
      · cases hm
      · rw [plainMeaning] at hm
        split at hm
        · cases hm
        · next hn =>
          cases hm
          exact hP.cell (inRange_of_parseNumber hn)
        · split at hm
          · next hc =>
            cases hm
            exact h.constants hc
          · split at hm <;> cases hm

/-- Whatever is requested, the operands are cells, in the session and at every moment of an
    evaluation there. Where only programs are run and operands moved, all that the environment
    holds are cells, and a token or a reference is replaced by the very value that it stands
    for. -/
theorem inRange_of_reachable (depth : Nat) (tokens : List Token) :
    (∀ s, Session.Reachable (fun _ => True) s →
      s.env.OperandsInRange ∧
        ∀ m, Occurs depth tokens s.env m → m.env.OperandsInRange) ∧
    ∀ s, Session.Reachable (fun r => r.isProgramOrOperand = true) s →
      s.env.Holds Cell.InRange ∧
        ∀ m, Occurs depth tokens s.env m →
          m.env.Holds Cell.InRange ∧
          (∀ r references v, m.command = .fetch → m.env.references = r :: references →
            m.env.stored? r = some v →
            m.outcome = ⟨{ m.env with references, stack := v :: m.env.stack }, [], .ok ()⟩) ∧
          ∀ t v, m.command = .word t → m.env.meaning t = .ok (.value v) →
            m.outcome = ⟨{ m.env with stack := v :: m.env.stack }, [], .ok ()⟩ := by
  refine ⟨fun s hs => ?_, fun s hs => ?_⟩
  · have hoperands : s.env.OperandsInRange :=
      hs.invariant invariant_operandsInRange nofun fun r _ => r.perform_operandsInRange
    exact ⟨hoperands, fun m hm => hm.invariant invariant_operandsInRange hoperands⟩
  · have hI : Invariant (fun _ => True) (Env.Holds Cell.InRange) := spans_inRange.invariant_holds
    have hholds : s.env.Holds Cell.InRange := by
      refine hs.invariant hI (holds_empty _) fun r hr => ?_
      cases r with
      | push v => exact EnvRequest.quietly_keeps (push_keeps hI.change v)
      | pop message => exact ((pop_keeps hI.change message).mapError _).bind fun _ => keeps_pure _
      | _ => cases hr
    refine ⟨hholds, fun m hm => ?_⟩
    have hmoment : m.env.Holds Cell.InRange := hm.invariant hI hholds
    refine ⟨hmoment, fun r references v hc hr hv => ?_, fun t v hc hv => ?_⟩
    · have hf := lift_of_ok (fetch_of_stored? hr hv)
      rw [Cell.wrap_eq_self (hmoment.of_stored? hv)] at hf
      rw [Moment.outcome, hc]
      exact hf
    · have hp : Evaluator.perform (evaluate m.depth) t m.env = _ :=
        Evaluator.perform_of_value hv
      rw [Cell.wrap_eq_self (hmoment.of_meaning spans_inRange hv)] at hp
      rw [Moment.outcome, hc]
      exact hp

/-- A constant of more than 32 bits that is put into an environment, and the least cell that a
    program stores and fetches again. -/
theorem inRange_of_reachable_least :
    let big : Env := { constants := .ofList [("big", 0x100000007)] }
    let env : Env := { storage := .ofList [("x", .scalar (-0x80000000))] }
    Session.Reachable (fun _ => True) { env := big } ∧
      Occurs 1 ["big", "drop"] big ⟨0, .word "drop", { big with stack := [7] }⟩ ∧
      ({ big with stack := [7] } : Env).OperandsInRange ∧
      Session.Reachable (fun r => r.isProgramOrOperand = true) { env } ∧
      Occurs 1 ["x", "@"] env ⟨0, .fetch, { env with references := [.toScalar "x"] }⟩ ∧
      Moment.outcome ⟨0, .fetch, { env with references := [.toScalar "x"] }⟩
        = ⟨{ env with stack := [-0x80000000] }, [], .ok ()⟩ := by
  intro big env
  have hbig : Session.Reachable (fun _ => True) { env := big } :=
    .request (r := .env (.defineConstant "big" 0x100000007)) (.fresh true) trivial
  have hdrop : Occurs 1 ["big", "drop"] big ⟨0, .word "drop", { big with stack := [7] }⟩ := by
    have hsequence : Command.sequence ["big", "drop"] = [.word "big", .word "drop"] := by cbv
    have hword : Evaluator.execute (evaluate 0) (.word "big") big
        = ⟨{ big with stack := [7] }, [], .ok ()⟩ := by cbv
    refine .here ?_
    rw [hsequence]
    exact .tail hword (.head _ _ _)
  have hs : Session.Reachable (fun r => r.isProgramOrOperand = true) { env } := by
    have hpush : Session.Reachable (fun r => r.isProgramOrOperand = true)
        { env := { stack := [-0x80000000] } } := by
      have hp : ((Request.env (.push 0x80000000)).perform {}).state
          = { env := { stack := [-0x80000000] } } := by cbv
      rw [← hp]
      exact .request (.fresh true) rfl
    have hsequence : Command.sequence ["variable", "x", "!"] = [.declare (.ok "x"), .store] := by
      have hv : Command.read "variable" ["x", "!"] = (.declare (.ok "x"), ["!"]) := rfl
      have hb : Command.read "!" [] = (.store, []) := rfl
      rw [Command.sequence_cons_of_read (by decide) hv,
        Command.sequence_cons_of_read (by decide) hb, Command.sequence_nil]
    have he (inner : Evaluator) : (reporting (.forEach (Evaluator.execute inner)
        [.declare (.ok "x"), .store]) { stack := [-0x80000000] }).state = env := by cbv
    have hp := Request.state_perform_evaluate ["variable", "x", "!"]
      { env := { stack := [-0x80000000] } }
    rw [evaluateTokens, nestingLimit, evaluate_succ, hsequence, he] at hp
    rw [← hp]
    exact .request hpush rfl
  have hfetch : Occurs 1 ["x", "@"] env
      ⟨0, .fetch, { env with references := [.toScalar "x"] }⟩ := by
    have hsequence : Command.sequence ["x", "@"] = [.word "x", .fetch] := by cbv
    have hword : Evaluator.execute (evaluate 0) (.word "x") env
        = ⟨{ env with references := [.toScalar "x"] }, [], .ok ()⟩ := by cbv
    refine .here ?_
    rw [hsequence]
    exact .tail hword (.head _ _ _)
  refine ⟨hbig, hdrop, ?_, hs, hfetch, ?_⟩
  · exact ((inRange_of_reachable 1 ["big", "drop"]).1 _ hbig).2 _ hdrop
  · obtain ⟨-, hmoments⟩ := (inRange_of_reachable 1 ["x", "@"]).2 _ hs
    exact (hmoments _ hfetch).2.1 _ [] _ rfl rfl (by cbv)

end Wordstack
