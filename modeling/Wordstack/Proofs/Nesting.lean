import Mathlib
import Wordstack.Proofs.Correspondence
import Wordstack.Proofs.Escapes

/-!
# How deeply evaluations nest

An evaluation is given so many levels, and it may need more of them than it has
(`Exhausts`). It is not enough to look at how it ends, as the word that was being called fails and
the evaluation that called it goes on as after any other error. But it shows: such a word is
reported, or the evaluation escapes, and neither happens for another reason (`exhausts_iff`).

An evaluation that has levels enough needs no more of them: with more levels it is the same in all
that it does and shows (`evaluate_of_not_exhausts`).
-/

namespace Wordstack

open Wordstack.Action Env Evaluator

/-- Somewhere in the evaluation of the tokens, with so many levels, an evaluation is entered for
    which no level is left. -/
inductive Exhausts : Nat → List Token → Env → Prop
  | here {tokens : List Token} {env : Env} : Exhausts 0 tokens env
  | within {depth : Nat} {tokens : List Token} {env env₁ env₂ : Env} {c : Command} {body : Body} :
      Reaches (execute (evaluate depth)) (Command.sequence tokens) env c env₁ →
      Enters (evaluate depth) env₁ c body env₂ → Exhausts depth body env₂ →
      Exhausts (depth + 1) tokens env

/-! ## What comes out of a body -/

/-- A command that enters a body escapes as the body does, unless it is the call of a word. -/
theorem Evaluator.Enters.result_eq {inner : Evaluator} {env env' : Env} {c : Command}
    {body : Body} {x : Escape} (he : Enters inner env c body env')
    (hx : (inner body env').result = .error x) :
    (execute inner c env).result = .error (.escape x) ∨
      ∃ word, (execute inner c env).result = .error (.ofCall word x) := by
  cases he with
  | whenTrue hs hc ht hf =>
    refine .inl ?_
    rw [execute, (Enters.whenTrue hs hc ht hf).choose_eq]
    exact mapError_drop_result_eq_error.2 ⟨x, hx, rfl⟩
  | whenFalse hs ht hf =>
    refine .inl ?_
    rw [execute, (Enters.whenFalse hs ht hf).choose_eq]
    exact mapError_drop_result_eq_error.2 ⟨x, hx, rfl⟩
  | round hb hs hv =>
    refine .inl ?_
    rw [execute, repeatBody_of_cons hb hs, forCount_eq_forEach]
    exact result_forEach_eq_error.2
      ⟨_, _, hv, mapError_drop_result_eq_error.2 ⟨x, hx, rfl⟩⟩
  | @call _ word _ hm =>
    refine .inr ⟨word, ?_⟩
    rw [execute, perform_of_call hm]
    exact mapError_drop_result_eq_error.2 ⟨x, hx, rfl⟩

variable {depth depth' : Nat} {tokens : List Token} {env : Env}

/-- Where the levels do not suffice, a word is reported for it, or the evaluation escapes. -/
theorem Exhausts.visible (h : Exhausts depth tokens env) :
    (evaluate depth tokens env).result = .error .tooDeep ∨
      ∃ word, .report (.recursionTooDeep word) ∈ (evaluate depth tokens env).output := by
  induction h with
  | here => exact .inl rfl
  | @within depth tokens env env₁ env₂ c body hr he _ ih =>
    rw [evaluate_succ]
    rcases ih with hx | ⟨word, hw⟩
    · rcases he.result_eq hx with hc | ⟨word, hc⟩
      · refine .inl ?_
        have hrun := result_forEach_eq_error.2 ⟨c, env₁, hr, hc⟩
        rcases hs : forEach (execute (evaluate depth)) (Command.sequence tokens) env with
          ⟨env', shown, r⟩
        rw [hs] at hrun
        cases hrun
        rw [reporting_of_escape hs]
      -- The call makes an error of it, and the evaluation with the call reports that.
      · refine .inr ⟨word, mem_reporting_iff.2 (.inr ⟨_, rfl, ?_⟩)⟩
        exact result_forEach_eq_error.2 ⟨c, env₁, hr, hc⟩
    · refine .inr ⟨word, mem_reporting_iff.2 (.inl ?_)⟩
      exact mem_output_forEach.2 ⟨c, env₁, hr, (report_mem_execute_iff c).2 ⟨body, env₂, he, hw⟩⟩

/-- An evaluation escapes for want of levels only where there are none, or with a body. -/
theorem exhausts_of_tooDeep (h : (evaluate depth tokens env).result = .error .tooDeep) :
    Exhausts depth tokens env := by
  induction depth generalizing tokens env with
  | zero => exact .here
  | succ depth ih =>
    rw [evaluate_succ, result_reporting_eq_error] at h
    obtain ⟨c, env₁, hr, hc⟩ := result_forEach_eq_error.1 h
    -- No numeral is read with this escape.
    have hparse (t : Token) : parseNumber t ≠ .error .tooDeep := by
      intro hp
      obtain ⟨count, hx, -⟩ := oversized_of_parseNumber hp
      cases hx
    rcases execute_escapes hc with hf | ⟨t, rfl, hp⟩ | ⟨body, env₂, he, hx⟩
    · obtain ⟨t, -, hp⟩ := hf.parseNumber hr.mem
      exact absurd hp (hparse t)
    · exact absurd hp (hparse t)
    · exact .within hr he (ih hx)

/-- A word is reported for its nesting only where the levels do not suffice. -/
theorem exhausts_of_report {word : Token}
    (h : .report (.recursionTooDeep word) ∈ (evaluate depth tokens env).output) :
    Exhausts depth tokens env := by
  induction depth generalizing tokens env with
  | zero => exact .here
  | succ depth ih =>
    rw [evaluate_succ] at h
    rcases mem_reporting_iff.1 h with ho | ⟨e, he, hrun⟩
    · obtain ⟨c, env₁, hr, hc⟩ := mem_output_forEach.1 ho
      obtain ⟨body, env₂, he, hb⟩ := (report_mem_execute_iff c).1 hc
      exact .within hr he (ih hb)
    · cases he
      obtain ⟨c, env₁, hr, hc⟩ := result_forEach_eq_error.1 hrun
      obtain ⟨body, env₂, he, hx⟩ := execute_tooDeep hr.mem hc
      exact .within hr he (exhausts_of_tooDeep hx)

/-- Whether the levels suffice can be seen. -/
theorem exhausts_iff :
    Exhausts depth tokens env ↔ (evaluate depth tokens env).result = .error .tooDeep ∨
      ∃ word, .report (.recursionTooDeep word) ∈ (evaluate depth tokens env).output :=
  ⟨Exhausts.visible, fun h => h.elim exhausts_of_tooDeep fun ⟨_, hw⟩ => exhausts_of_report hw⟩

/-- The levels suffice for an evaluation that does not escape and reports no such word. -/
theorem not_exhausts_of_eq {env' : Env} {shown : List Event} {answer : Option Error}
    (h : evaluate depth tokens env = ⟨env', shown, .ok answer⟩)
    (hs : ∀ word, .report (.recursionTooDeep word) ∉ shown) : ¬Exhausts depth tokens env := by
  rw [exhausts_iff, h]
  rintro (hx | ⟨word, hw⟩)
  · cases hx
  · exact hs word hw

/-! ## More levels -/

/-- The comparison in which nothing may differ. -/
def Comparison.same : Comparison where
  envs env env' := env' = env
  events e e' := e' = e
  excluded _ := False

theorem corresponds_same {ε α : Type} (o : Outcome Env ε α) : o.Corresponds .same o :=
  ⟨rfl, List.forall₂_same.2 fun _ _ => rfl, rfl⟩

theorem Outcome.Corresponds.eq_of_same {ε α : Type} {o o' : Outcome Env ε α}
    (h : o.Corresponds .same o') : o' = o := by
  obtain ⟨hstate, houtput, hresult⟩ := h
  have houtput : o'.output = o.output := by
    have h := houtput.flip
    exact List.forall₂_eq_eq_eq ▸ h
  cases o
  cases o'
  cases hstate
  cases houtput
  cases hresult
  rfl

theorem follows_same {ε α : Type} {bad : ε → Prop} (m : Action Env ε α) :
    Follows .same bad m m := by
  rintro env _ rfl -
  exact corresponds_same _

theorem sound_same : Comparison.same.Sound where
  text _ := rfl
  report _ := rfl
  meaning := by rintro _ _ rfl _ _; rfl
  registers_eq := by rintro _ _ rfl; rfl
  registers _ := by rintro rfl; rfl
  push _ := by rintro rfl; rfl
  refer _ := by rintro rfl; rfl
  define _ := by rintro rfl; rfl
  chooses_iff := by rintro _ _ rfl _; rfl
  chooseCell := by
    rintro _ _ _ rfl _ -
    exact corresponds_same _
  pop _ := follows_same _
  top _ := follows_same _
  run b := follows_same b.run
  declare _ := follows_same _
  nameConstant _ := follows_same _
  fetch := follows_same _
  store := follows_same _
  allot := follows_same _

/-- Where levels suffice, more of them make no difference. -/
theorem evaluate_eq_of_not_exhausts (hd : depth ≤ depth') (h : ¬Exhausts depth tokens env) :
    evaluate depth' tokens env = evaluate depth tokens env := by
  induction depth generalizing depth' tokens env with
  | zero => exact absurd .here h
  | succ depth ih =>
    cases depth' with
    | zero => exact absurd hd (Nat.not_succ_le_zero depth)
    | succ depth' =>
      have hnone (o : Outcome Env Halt Unit) : o.Avoids Comparison.same.halts := by
        rintro (e | x) - ⟨⟩
      refine (sound_same.evaluate_corresponds rfl (fun _ => hnone _) fun hr he h₂ => ?_).eq_of_same
      -- A body that is entered has levels enough, or the whole would not.
      obtain rfl := h₂
      rw [ih (Nat.le_of_succ_le_succ hd) fun hx => h (.within hr he hx)]
      exact corresponds_same _

/-- With more levels, an evaluation to which the levels sufficed is the same. Whether they did can
    be seen: otherwise it escapes, or a word is reported that was called too deeply. -/
theorem evaluate_of_not_exhausts (hd : depth ≤ depth') (tokens : List Token) (env : Env) :
    (¬Exhausts depth tokens env →
      evaluate depth' tokens env = evaluate depth tokens env) ∧
    (Exhausts depth tokens env →
      (evaluate depth tokens env).result = .error .tooDeep ∨
        ∃ word, .report (.recursionTooDeep word) ∈ (evaluate depth tokens env).output) :=
  ⟨evaluate_eq_of_not_exhausts hd, Exhausts.visible⟩

/-- A word with a conditional needs three levels, and its call goes well with them. With two, the
    call fails in the side of another conditional, which goes on. -/
theorem evaluate_of_not_exhausts_three :
    let body : Body := ["dup", "if", "dup", "*", "then"]
    let env : Env := { words := .ofList [("f", body)] }
    (¬Exhausts 3 ["5", "f", "."] env ∧
      evaluate 7 ["5", "f", "."] env = ⟨env, [.text "25 "], .ok none⟩) ∧
    Exhausts 3 ["5", "1", "if", "f", "then", "."] env ∧
      evaluate 3 ["5", "1", "if", "f", "then", "."] env
        = ⟨env, [.report (.recursionTooDeep "f"), .text "5 "], .ok none⟩ := by
  intro body env
  have hthree : evaluate 3 ["5", "f", "."] env = ⟨env, [.text "25 "], .ok none⟩ := by cbv
  have henough : ¬Exhausts 3 ["5", "f", "."] env := not_exhausts_of_eq hthree (by simp)
  refine ⟨⟨henough, ?_⟩, ?_, by cbv⟩
  · exact ((evaluate_of_not_exhausts (by decide : 3 ≤ 7) _ env).1 henough).trans hthree
  · have houter : Reaches (execute (evaluate 2))
        (Command.sequence ["5", "1", "if", "f", "then", "."]) env
        (.conditional (.ok ⟨["f"], none⟩)) { env with stack := [1, 5] } := by
      have hs : Command.sequence ["5", "1", "if", "f", "then", "."]
          = [.word "5", .word "1", .conditional (.ok ⟨["f"], none⟩), .word "."] := by cbv
      have h₅ : execute (evaluate 2) (.word "5") env
          = ⟨{ env with stack := [5] }, [], .ok ()⟩ := by cbv
      have h₁ : execute (evaluate 2) (.word "1") { env with stack := [5] }
          = ⟨{ env with stack := [1, 5] }, [], .ok ()⟩ := by cbv
      rw [hs]
      exact .tail h₅ (.tail h₁ (.head _ _ _))
    have hcall : Reaches (execute (evaluate 1)) (Command.sequence ["f"])
        { env with stack := [5] } (.word "f") { env with stack := [5] } := by
      have hs : Command.sequence ["f"] = [.word "f"] := by cbv
      rw [hs]
      exact .head _ _ _
    have hinner : Reaches (execute (evaluate 0)) (Command.sequence body)
        { env with stack := [5] } (.conditional (.ok ⟨["dup", "*"], none⟩))
        { env with stack := [5, 5] } := by
      have hs : Command.sequence body
          = [.word "dup", .conditional (.ok ⟨["dup", "*"], none⟩)] := by cbv
      have hdup : execute (evaluate 0) (.word "dup") { env with stack := [5] }
          = ⟨{ env with stack := [5, 5] }, [], .ok ()⟩ := by cbv
      rw [hs]
      exact .tail hdup (.head _ _ _)
    have hnone : (none : Option Body) ≠ some [] := (Option.some_ne_none []).symm
    exact .within houter (.whenTrue rfl (by decide) (List.cons_ne_nil _ _) hnone)
      (.within hcall (.call (by cbv)) (.within hinner
        (.whenTrue rfl (by decide) (List.cons_ne_nil _ _) hnone) .here))

end Wordstack
