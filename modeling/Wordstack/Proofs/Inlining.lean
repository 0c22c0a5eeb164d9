import Mathlib
import Wordstack.Proofs.Nesting
import Wordstack.Proofs.Sequencing

/-!
# Words and their bodies

A token *calls* a word if the environment has no earlier meaning for it (`Env.Calls`). Such a call
evaluates the body in a nest of its own, one level down, and what comes after the call waits at the
level above. Yet in what a program does, the body could as well be written in the place of the word,
as long as nothing goes wrong in it and there are levels enough (`evaluate_call`). If something does
go wrong in the body, the two differ: written out, it would end the program, but in a word it ends
the word only. The error is shown, and the program goes on after the call, from the environment in
which the body broke off.

In both cases, the body is that of the moment of the call. The body may define the word anew, or
others that are used after it; what comes after the call is then evaluated with these.
-/

namespace Wordstack

open Wordstack.Action Env Evaluator

/-- The token means the call of a word with this body. -/
structure Env.Calls (env : Env) (w : Token) (body : Body) : Prop where
  visible : Text.isBlankText w = false
  not_form : w ∉ Command.formNames
  not_register : env.registers.get? w = none
  not_builtin : Builtin.ofName? w = none
  defined : env.words.get? w = some body

variable {depth : Nat} {env env' : Env} {w : Token} {body : Body} {shown : List Event}

theorem Env.Calls.meaning_eq (hc : env.Calls w body) : env.meaning w = .ok (.call w body) :=
  meaning_of_word hc.not_register hc.not_builtin hc.defined

/-- The commands of the tokens are the call and those of the others. -/
theorem Env.Calls.sequence_eq (hc : env.Calls w body) (rest : List Token) :
    Command.sequence (w :: rest) = .word w :: Command.sequence rest :=
  Command.sequence_cons_of_read hc.visible (Command.read_of_not_mem hc.not_form rest)

namespace Evaluator

variable {inner : Evaluator}

/-- A call is over when its body is, be it with an error. -/
theorem call_of_ok {answer : Option Error} (h : inner body env = ⟨env', shown, .ok answer⟩)
    (word : Token) : call inner word body env = ⟨env', shown, .ok ()⟩ :=
  mapError_drop_of_ok h _

theorem call_of_error {x : Escape} (h : inner body env = ⟨env', shown, .error x⟩)
    (word : Token) : call inner word body env = ⟨env', shown, .error (.ofCall word x)⟩ :=
  mapError_drop_of_error h _

end Evaluator

/-! ## The call of a word -/

/-- An error that is the answer of an evaluation is the last that it shows. -/
theorem getLast?_output_reporting {m : Action Env Halt Unit} {e : Error}
    (h : (reporting m env).result = .ok (some e)) :
    (reporting m env).output.getLast? = some (.report e) := by
  rcases hm : m env with ⟨env', shown, (e' | x) | ⟨⟩⟩
  · rw [reporting_of_fault hm] at h ⊢
    cases h
    exact List.getLast?_concat
  · rw [reporting_of_escape hm] at h
    cases h
  · rw [reporting_of_ok hm] at h
    cases h

/-- What follows a call is evaluated from where the body led to, if the body did not escape. -/
theorem evaluate_call_of_ok {answer : Option Error} (hc : env.Calls w body)
    (h : evaluate depth body env = ⟨env', shown, .ok answer⟩) (rest : List Token) :
    evaluate (depth + 1) (w :: rest) env = (evaluate (depth + 1) rest env').after shown := by
  have hcall : execute (evaluate depth) (.word w) env = ⟨env', shown, .ok ()⟩ :=
    (perform_of_call hc.meaning_eq).trans (call_of_ok h w)
  rw [evaluate_succ, evaluate_succ, hc.sequence_eq, forEach_cons]
  exact reporting_after (bind_of_ok hcall _)

/-- A body that escapes for the length of a numeral escapes through the call. -/
theorem evaluate_call_of_error {digits : Nat} (hc : env.Calls w body)
    (h : evaluate depth body env = ⟨env', shown, .error (.oversized digits)⟩) (rest : List Token) :
    evaluate (depth + 1) (w :: rest) env = ⟨env', shown, .error (.oversized digits)⟩ := by
  have hcall : execute (evaluate depth) (.word w) env
      = ⟨env', shown, .error (.escape (.oversized digits))⟩ :=
    (perform_of_call hc.meaning_eq).trans (call_of_error h w)
  rw [evaluate_succ, hc.sequence_eq, forEach_cons]
  exact reporting_of_escape (bind_of_error hcall _)

/-- If the levels suffice for the call, they suffice for its body one level down, which is then the
    same as on the level of the call. -/
theorem Env.Calls.evaluate_body (hc : env.Calls w body) {rest : List Token}
    (hx : ¬Exhausts (depth + 1) (w :: rest) env) :
    ¬Exhausts depth body env ∧ evaluate (depth + 1) body env = evaluate depth body env := by
  have hreach : Reaches (execute (evaluate depth)) (Command.sequence (w :: rest)) env
      (.word w) env := by
    rw [hc.sequence_eq]
    exact .head _ _ _
  have hb : ¬Exhausts depth body env := fun h => hx (.within hreach (.call hc.meaning_eq) h)
  exact ⟨hb, evaluate_eq_of_not_exhausts (Nat.le_succ depth) hb⟩

/-- A call whose body goes well is the body in its place. A call whose body ends with an error shows
    what the body shows, which is the error at last, and what follows the call goes on from there;
    so the error is not its answer. A body that escapes does so through the call. All that for a
    program that has levels enough, and with the words that are defined when the call is made. -/
theorem evaluate_call (hc : env.Calls w body) (rest : List Token)
    (hx : ¬Exhausts depth (w :: rest) env) :
    ((evaluate depth body env).result = .ok none →
      evaluate depth (w :: rest) env = evaluate depth (body ++ rest) env) ∧
    (∀ e, (evaluate depth body env).result = .ok (some e) →
      (evaluate depth body env).output.getLast? = some (.report e) ∧
        evaluate depth (w :: rest) env
          = (evaluate depth rest (evaluate depth body env).state).after
              (evaluate depth body env).output) ∧
    ∀ x, (evaluate depth body env).result = .error x →
      evaluate depth (w :: rest) env = evaluate depth body env := by
  cases depth with
  | zero => exact absurd .here hx
  | succ depth =>
    obtain ⟨hb, hsame⟩ := hc.evaluate_body hx
    rcases h : evaluate depth body env with ⟨env', shown, x | _ | e⟩ <;> rw [hsame, h]
    · refine ⟨nofun, nofun, fun _ _ => ?_⟩
      cases x with
      | tooDeep => exact absurd (exhausts_of_tooDeep (by rw [h])) hb
      | oversized digits => exact evaluate_call_of_error hc h rest
    · refine ⟨fun _ => ?_, nofun, nofun⟩
      rw [evaluate_call_of_ok hc h rest, evaluate_append_of_ok (hsame.trans h)]
    · refine ⟨nofun, ?_, nofun⟩
      rintro _ ⟨⟩
      have hlast := getLast?_output_reporting (e := e) (congrArg Outcome.result (hsame.trans h))
      rw [← evaluate_succ, hsame, h] at hlast
      exact ⟨hlast, evaluate_call_of_ok hc h rest⟩

/-- A word that defines itself anew when it is called, and another whose body ends with an error. -/
theorem evaluate_call_anew :
    let body : Body := [":", "w", "9", ";", "dup", "*"]
    let env : Env := { stack := [3], words := .ofList [("w", body)] }
    let broken : Env := { words := .ofList [("b", ["drop", "7"])] }
    (evaluate 3 ["w", "w", "."] env = evaluate 3 (body ++ ["w", "."]) env ∧
      evaluate 3 ["w", "w", "."] env
        = ⟨{ stack := [9], words := .ofList [("w", ["9"])] }, [.text "9 "], .ok none⟩) ∧
    evaluate 3 ["b", "5"] broken
      = ⟨{ broken with stack := [5] }, [.report (.underflow "Empty stack for drop")],
          .ok none⟩ := by
  intro body env broken
  have hw : env.Calls "w" body := by
    refine ⟨by cbv, by decide, by cbv, by cbv, by cbv⟩
  have hb : broken.Calls "b" ["drop", "7"] := by
    refine ⟨by cbv, by decide, by cbv, by cbv, by cbv⟩
  have hanew : evaluate 3 ["w", "w", "."] env
      = ⟨{ stack := [9], words := .ofList [("w", ["9"])] }, [.text "9 "], .ok none⟩ := by cbv
  have hbody : evaluate 3 ["drop", "7"] broken
      = ⟨broken, [.report (.underflow "Empty stack for drop")],
          .ok (some (.underflow "Empty stack for drop"))⟩ := by cbv
  -- By computation, only to see that the levels suffice.
  have hgoesOn : evaluate 3 ["b", "5"] broken
      = ⟨{ broken with stack := [5] }, [.report (.underflow "Empty stack for drop")],
          .ok none⟩ := by cbv
  have hanewEnough : ¬Exhausts 3 ["w", "w", "."] env := not_exhausts_of_eq hanew (by simp)
  have hgoesOnEnough : ¬Exhausts 3 ["b", "5"] broken := not_exhausts_of_eq hgoesOn (by simp)
  refine ⟨⟨?_, hanew⟩, ?_⟩
  · exact (evaluate_call hw ["w", "."] hanewEnough).1 (by cbv)
  · rw [((evaluate_call hb ["5"] hgoesOnEnough).2.1 _ (congrArg Outcome.result hbody)).2, hbody]
    cbv

end Wordstack
