import Mathlib
import Wordstack.Proofs.Execution
import Wordstack.Proofs.Scanning

/-!
# Sequencing

To evaluate a program that is put together of two parts is to evaluate the first and then, if
that went well, the second (`evaluate_append`). After an error or an escape of the first part,
the second does not count. The exception is a first part that fails because it breaks off within
a form, as the second part may then be taken for the rest of the form.

A command is therefore the same whatever follows it, or it is one of those that fail
(`Evaluator.settled`). That carries over to sequences of commands (`Evaluator.run_append`), and from
there to evaluations.
-/

namespace Wordstack

open Wordstack.Action

namespace Evaluator

variable (inner : Evaluator)

/-- More tokens change nothing about the first command, be it only that it fails in the same way as
    without them; or it fails because its form is open. -/
def Settled (t : Token) (ts : List Token) (env : Env) : Prop :=
  (∀ more, Command.read t (ts ++ more) = ((Command.read t ts).1, (Command.read t ts).2 ++ more)) ∨
    ∃ env' h, execute inner (Command.read t ts).1 env = ⟨env', [], .error h⟩ ∧
      (h.isOpen = true ∨ ∀ more,
        execute inner (Command.read t (ts ++ more)).1 env = ⟨env', [], .error h⟩)

variable {inner} {t : Token} {ts : List Token} {env : Env}

/-- A form that is read by a scan and fails with what the scan fails with is settled. -/
theorem settled_of_local {α : Type} {scan : List Token → Scan α} (hs : Scan.Local scan)
    {command : Except Halt α → Command}
    (hr : ∀ ts, Command.read t ts = (command (scan ts).result, (scan ts).rest)) {env' : Env}
    (hc : ∀ h, execute inner (command (.error h)) env = ⟨env', [], .error h⟩) :
    Settled inner t ts env := by
  rcases hs ts with ⟨fault, ho, hf⟩ | hm
  · refine .inr ⟨env', .fault (.malformed fault), ?_, .inl ho⟩
    rw [hr, hf]
    exact hc _
  · exact .inl fun more => by rw [hr, hr, hm]

variable (inner) in
/-- Only a form that is open can be changed by the tokens that follow. -/
theorem settled (t : Token) (ts : List Token) (env : Env) : Settled inner t ts env := by
  by_cases ht : t ∈ Command.formNames
  · simp only [Command.formNames, List.mem_cons, List.not_mem_nil, or_false] at ht
    rcases ht with rfl | rfl | rfl | rfl | rfl | rfl | rfl | rfl | rfl | rfl | rfl
    · exact .inl fun more => rfl
    · exact .inl fun more => rfl
    · exact settled_of_local Scan.string_local (fun _ => rfl) fun _ => rfl
    · exact settled_of_local Scan.definition_local (fun _ => rfl) fun _ => rfl
    · exact .inl fun more => rfl
    · exact .inl fun more => rfl
    · exact .inl fun more => rfl
    · exact settled_of_local (Scan.name_local .constant) (fun _ => rfl) fun _ => rfl
    · exact settled_of_local Scan.loop_local (fun _ => rfl) fun _ => rfl
    · cases hst : env.stack with
      -- Without a condition, a conditional fails before it matters where it ends.
      | nil =>
        exact .inr ⟨env, _, choose_of_nil hst _, .inr fun more => choose_of_nil hst _⟩
      | cons condition stack =>
        exact settled_of_local Scan.conditional_local (fun _ => rfl) (choose_error_of_cons hst)
    · exact settled_of_local (Scan.name_local .variable) (fun _ => rfl) fun _ => rfl
  · exact .inl fun more => by rw [Command.read_of_not_mem ht, Command.read_of_not_mem ht]

/-! ## Sequences of commands -/

variable (inner) in
/-- Carries out the commands of some tokens. -/
def run (tokens : List Token) : Action Env Halt Unit :=
  .forEach (execute inner) (Command.sequence tokens)

@[simp] theorem run_nil : run inner [] = pure () := by
  rw [run, Command.sequence_nil, forEach_nil]

theorem run_cons_of_blank (h : Text.isBlankText t = true) (ts : List Token) :
    run inner (t :: ts) = run inner ts := by
  rw [run, Command.sequence_cons_of_blank h, run]

theorem run_cons (h : Text.isBlankText t = false) (ts : List Token) :
    run inner (t :: ts)
      = (do execute inner (Command.read t ts).1; run inner (Command.read t ts).2) := by
  rw [run, Command.sequence_cons h, forEach_cons, run]

/-- A token that is a command by itself does what the command does. -/
theorem run_of_read {c : Command} (ht : Text.isBlankText t = false)
    (hr : Command.read t [] = (c, [])) : run inner [t] = execute inner c := by
  rw [run_cons ht, hr, run_nil, bind_pure_unit]

variable (inner) in
/-- Commands that go well are followed by those of the further tokens; others are not, unless the
    last of them is open. -/
theorem run_append (xs ys : List Token) (env : Env) :
    ((run inner xs env).result = .ok () →
      run inner (xs ++ ys) env
        = (run inner ys (run inner xs env).state).after (run inner xs env).output) ∧
    ∀ h, (run inner xs env).result = .error h → h.isOpen = false →
      run inner (xs ++ ys) env = run inner xs env := by
  induction xs using Command.sequence.induct generalizing env with
  | case1 =>
    rw [run_nil, List.nil_append]
    exact ⟨fun _ => rfl, nofun⟩
  | case2 t ts ht ih =>
    rw [List.cons_append, run_cons_of_blank ht, run_cons_of_blank ht]
    exact ih env
  | case3 t ts ht ih =>
    rw [List.cons_append, run_cons (by simpa using ht), run_cons (by simpa using ht)]
    rcases settled inner t ts env with hm | ⟨env', h', he, ho⟩
    -- The command goes on with the same tokens as before, and then with the further ones.
    · rw [hm ys]
      rcases hc : execute inner (Command.read t ts).1 env with ⟨env', shown, h' | ⟨⟩⟩
      · rw [bind_of_error hc, bind_of_error hc]
        exact ⟨nofun, fun _ _ _ => rfl⟩
      · rw [bind_of_ok hc, bind_of_ok hc]
        obtain ⟨hok, herror⟩ := ih env'
        refine ⟨fun h => ?_, fun e h hn => ?_⟩
        · rw [hok h, after_after]
          rfl
        · rw [herror e h hn]
    · rw [bind_of_error he]
      refine ⟨nofun, ?_⟩
      rintro _ ⟨⟩ hn
      rcases ho with ho | hm
      · exact absurd ho (by simp [hn])
      · rw [bind_of_error (hm ys)]

end Evaluator

/-! ## Evaluations -/

/-- What follows tokens that went well is evaluated from where they led to. -/
theorem evaluate_append_of_ok {depth : Nat} {xs : List Token} {env env₁ : Env}
    {shown : List Event}
    (h : evaluate depth xs env = ⟨env₁, shown, .ok none⟩) (ys : List Token) :
    evaluate depth (xs ++ ys) env = (evaluate depth ys env₁).after shown := by
  cases depth with
  | zero => cases h
  | succ depth =>
    have hx : Evaluator.run (evaluate depth) xs env = ⟨env₁, shown, .ok ()⟩ :=
      eq_of_reporting_eq_ok h
    have hxy := (Evaluator.run_append (evaluate depth) xs ys env).1 (by rw [hx])
    rw [hx] at hxy
    exact reporting_after hxy

/-- Where a program goes well, what follows it is evaluated from there on. Where it ends with an
    error or an escape, it does so whatever follows, unless the error is an open form. -/
theorem evaluate_append (depth : Nat) (xs ys : List Token) (env env₁ : Env)
    (shown : List Event) :
    (evaluate depth xs env = ⟨env₁, shown, .ok none⟩ →
      evaluate depth (xs ++ ys) env = (evaluate depth ys env₁).after shown) ∧
    (∀ e, evaluate depth xs env = ⟨env₁, shown, .ok (some e)⟩ → e.isOpen = false →
      evaluate depth (xs ++ ys) env = ⟨env₁, shown, .ok (some e)⟩) ∧
    ∀ x, evaluate depth xs env = ⟨env₁, shown, .error x⟩ →
      evaluate depth (xs ++ ys) env = ⟨env₁, shown, .error x⟩ := by
  cases depth with
  | zero => exact ⟨nofun, nofun, fun _ h => h⟩
  | succ depth =>
    obtain ⟨hok, herror⟩ := Evaluator.run_append (evaluate depth) xs ys env
    rw [evaluate_succ, evaluate_succ, evaluate_succ, ← Evaluator.run, ← Evaluator.run,
      ← Evaluator.run]
    rcases hx : Evaluator.run (evaluate depth) xs env with ⟨env', shown', (e | x) | ⟨⟩⟩
    · rw [reporting_of_fault hx]
      refine ⟨nofun, ?_, nofun⟩
      rintro _ ⟨⟩ hn
      exact reporting_of_fault ((herror (.fault e) (by rw [hx]) hn).trans hx)
    · rw [reporting_of_escape hx]
      refine ⟨nofun, nofun, ?_⟩
      rintro _ ⟨⟩
      exact reporting_of_escape ((herror (.escape x) (by rw [hx]) rfl).trans hx)
    · rw [reporting_of_ok hx]
      refine ⟨?_, nofun, nofun⟩
      rintro ⟨⟩
      have hxy := hok (by rw [hx])
      rw [hx] at hxy
      exact reporting_after hxy

/-- A definition before its use, an unknown name after a block that failed within, and a block for
    which no level is left. -/
theorem evaluate_append_three :
    evaluate 3 ([":", "sq", "dup", "*", ";", "3"] ++ ["sq", "."]) {}
        = ⟨{ words := .ofList [("sq", ["dup", "*"])] }, [.text "9 "], .ok none⟩ ∧
      evaluate 3 (["1", "if", "drop", "then", "foo"] ++ ["7", "."]) {}
        = ⟨{}, [.report (.underflow "Empty stack for drop"), .report (.unbound "foo")],
            .ok (some (.unbound "foo"))⟩ ∧
      evaluate 1 (["1", "if", "2", "then"] ++ ["7"]) {} = ⟨{}, [], .error .tooDeep⟩ := by
  refine ⟨?_, ?_, ?_⟩
  · have h := (evaluate_append 3 [":", "sq", "dup", "*", ";", "3"] ["sq", "."] {} _ _).1 (by cbv)
    exact h.trans (by cbv)
  · exact (evaluate_append 3 ["1", "if", "drop", "then", "foo"] ["7", "."] {} _ _).2.1 _
      (by cbv) rfl
  · exact (evaluate_append 1 ["1", "if", "2", "then"] ["7"] {} _ _).2.2 _ (by cbv)

end Wordstack
