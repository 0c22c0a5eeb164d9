import Mathlib
import Wordstack.Proofs.Balance
import Wordstack.Proofs.Expressions
import Wordstack.Proofs.Registers

/-!
# Splitting a loop

A loop can be split at any number between its bounds: to count from the first bound to that number,
and then from there to the last bound, is to count at once from the first bound to the last
(`Evaluator.count_split`). Between the two, the register of the counter is restored, but that is
not seen: the first round of the second half writes to it again, and so it would without the halt.
Nor does it matter for the order of the registers, as a loop only ever changes the value of the
counter, or has it last (`Counting`).

In a program, the bounds of the second half are read when the first half has run, in whatever
environment that leaves. In the environments that programs make, they still mean their numbers, and
so the halves of the loop, written one after the other, do the same as the loop, for any body that
is complete and whatever it does (`evaluate_split_loop`).
-/

namespace Wordstack

open Wordstack.Action Env

namespace Action

variable {σ ε α β : Type} {I : σ → Prop}

/-- After an action that keeps the property, only environments with it matter. -/
theorem bind_congr_of_keeps {m : Action σ ε α} {f g : α → Action σ ε β} {s : σ} (hm : Keeps I m)
    (hs : I s) (h : ∀ a s', I s' → f a s' = g a s') : (m >>= f) s = (m >>= g) s := by
  have h' := hm s hs
  rcases hr : m s with ⟨s', shown, e | a⟩ <;> rw [hr] at h'
  · rw [bind_of_error hr, bind_of_error hr]
  · rw [bind_of_ok hr, bind_of_ok hr, h a s' h']

end Action

namespace Evaluator

variable (inner : Evaluator)

/-! ## Counting -/

/-- Evaluates the body for every number between the bounds; the register is then as before. -/
def count (body : Body) (first last : Int) : Action Env Halt Unit := fun env =>
  (Action.forEach (iterate inner body) (consecutive first (last - first).toNat)).ensuring
    (restoreRegister counter (env.registers.get? counter)) env

variable {inner} {env env' : Env} {body : Body} {first middle last : Int}

/-- A loop counts, when its bounds are there. -/
theorem repeatBody_eq_count (hb : body ≠ []) :
    repeatBody inner (.ok body) { env with stack := last :: first :: env.stack }
      = count inner body first last env := by
  rw [repeatBody_of_cons hb rfl, forCount_eq_forEach, count]

/-- If counting is to go on, the register may be restored before. -/
theorem forEach_iterate_of_counting {registers : Table Int} (h : Counting registers env)
    (l : List Int) :
    (forEach (iterate inner body) l).ensuring (restoreRegister counter (registers.get? counter))
        { env with registers }
      = (forEach (iterate inner body) l).ensuring
          (restoreRegister counter (registers.get? counter)) env := by
  have hself : Counting registers { env with registers } := fun _ => rfl
  cases l with
  -- Without a further round, the register is restored twice.
  | nil => rw [forEach_nil, ensuring_of_eq (pure_apply () _), ensuring_of_eq (pure_apply () _),
      h.restore, hself.restore]
  -- The next round writes to the register in any case.
  | cons v l =>
    have hv : iterate inner body v { env with registers } = iterate inner body v env := by
      change enter inner body { env with registers := registers.insert counter v } = _
      rw [← h v]
      rfl
    simp only [ensuring, forEach_cons, bind_apply, hv]

/-- To count up to a number between the bounds and then on from there is to count. -/
theorem count_split (hinner : ∀ registers body, Keeps (HasRegisters registers) (inner body))
    (hf : first ≤ middle) (hl : middle ≤ last) :
    count inner body first last
      = (do count inner body first middle; count inner body middle last) := by
  funext env
  have hn : (last - first).toNat = (middle - first).toNat + (last - middle).toNat := by omega
  have hm : first + (middle - first).toNat = middle := by omega
  have hcounting := Keeps.forEach (l := consecutive first (middle - first).toNat)
    (fun v _ => iterate_keeps_counting hinner env.registers body v) env fun _ => rfl
  rw [count, hn, consecutive_add, hm, forEach_append]
  rcases hr : forEach (iterate inner body) (consecutive first (middle - first).toNat) env with
    ⟨env₁, shown, e | ⟨⟩⟩
  · have hc : count inner body first middle env
        = ⟨restoreRegister counter (env.registers.get? counter) env₁, shown, .error e⟩ :=
      ensuring_of_eq hr _
    rw [ensuring_of_eq (bind_of_error hr _), bind_of_error hc]
  · have hcounting : Counting env.registers env₁ := by
      rw [hr] at hcounting
      exact hcounting
    have hc : count inner body first middle env
        = ⟨{ env₁ with registers := env.registers }, shown, .ok ()⟩ := by
      rw [count, ensuring_of_eq hr, hcounting.restore]
    rw [bind_of_ok hc, count, forEach_iterate_of_counting hcounting, ensuring, bind_of_ok hr]
    rfl

/-! ## Loops in programs -/

/-- Counting is what a loop does with its bounds. -/
theorem run_loop (hb : body ≠ []) (hbal : Balanced "do" "loop" body) (rest : List Token) :
    run inner ("do" :: (body ++ "loop" :: rest))
        { env with stack := last :: first :: env.stack }
      = (do count inner body first last; run inner rest) env := by
  have hread : Command.read "do" (body ++ "loop" :: rest) = (.loop (.ok body), rest) := by
    rw [Command.read, Scan.loop_of_balanced hbal]
  rw [run_cons (by decide), hread, bind_apply, bind_apply, execute, repeatBody_eq_count hb]

end Evaluator

open Evaluator

variable {depth : Nat} {env : Env} {body : Body} {first last : Int}

/-- A loop that is written with its bounds counts from one to the other. -/
theorem Env.Plain.run_loop (h : env.Plain) {t t' : Token} (ht : parseNumber t = .ok (some first))
    (ht' : parseNumber t' = .ok (some last)) (hb : body ≠ [])
    (hbal : Balanced "do" "loop" body) (depth : Nat) (rest : List Token) :
    run (evaluate depth) (t :: t' :: "do" :: (body ++ "loop" :: rest)) env
      = (do count (evaluate depth) body first last; run (evaluate depth) rest) env := by
  rw [h.run_numeral ht, (h.withStack _).run_numeral ht', Evaluator.run_loop hb hbal]

/-- Counting leaves an environment plain. -/
theorem count_keeps_plain (depth : Nat) (hb : body ≠ []) (first last : Int) :
    Keeps Plain (count (evaluate depth) body first last) := by
  intro env h
  have hk := repeatBody_keeps invariant_plain (evaluate_keeps_plain depth body)
    { env with stack := last :: first :: env.stack } (h.withStack _)
  rwa [repeatBody_eq_count hb] at hk

/-- A loop comes to the same as two loops with the same body, of which the second goes on where the
    first ends, whatever the body does and whatever comes after. -/
theorem evaluate_split_loop {s : Session} (hs : Session.Reachable (fun r => r.isProgram = true) s)
    {a b c : Int} {ta tb tb' tc : Token} (ha : parseNumber ta = .ok (some a))
    (hb : parseNumber tb = .ok (some b)) (hb' : parseNumber tb' = .ok (some b))
    (hc : parseNumber tc = .ok (some c)) (hab : a ≤ b) (hbc : b ≤ c) (hne : body ≠ [])
    (hbal : Balanced "do" "loop" body) (rest : List Token) (depth : Nat) :
    evaluate depth (ta :: tb :: "do" :: (body ++ "loop" ::
        tb' :: tc :: "do" :: (body ++ "loop" :: rest))) s.env
      = evaluate depth (ta :: tc :: "do" :: (body ++ "loop" :: rest)) s.env := by
  cases depth with
  | zero => rfl
  | succ depth =>
    rw [evaluate_succ, evaluate_succ, ← run, ← run]
    refine reporting_congr ?_
    rw [hs.plain.run_loop ha hb hne hbal, hs.plain.run_loop ha hc hne hbal,
      count_split (evaluate_keeps_registers depth) hab hbc, bind_assoc]
    -- The second half begins where the first half leads, which is a plain environment again.
    exact bind_congr_of_keeps (count_keeps_plain depth hne a b) hs.plain fun _ _ h =>
      h.run_loop hb' hc hne hbal depth rest

/-- A loop over three numbers, split after the second, whose body calls a word and fails in every
    round. -/
theorem evaluate_split_loop_squares :
    let body : Body := ["i", "sq", ".", "drop"]
    let env : Env := { words := .ofList [("sq", ["dup", "*"])] }
    let fault : Event := .report (.underflow "Empty stack for drop")
    Session.Reachable (fun r => r.isProgram = true) { env } ∧
      evaluate 3 ("-1" :: "+1" :: "do" :: (body ++ "loop" ::
          "1" :: "2" :: "do" :: (body ++ "loop" :: ["cr"]))) env
        = ⟨env, [.text "1 ", fault, .text "0 ", fault, .text "1 ", fault, .text "\n"],
            .ok none⟩ := by
  intro body env fault
  have htext : evaluateTokens (tokenize ": sq dup * ;") {} = ⟨env, [], .ok none⟩ := by cbv
  have hs : Session.Reachable (fun r => r.isProgram = true) { env } :=
    .execute_of_ok (.fresh true) rfl htext
  have hbal : Balanced "do" "loop" body := balanced_of_not_mem (by decide) (by decide)
  have hone : evaluate 3 ("-1" :: "2" :: "do" :: (body ++ "loop" :: ["cr"])) env
      = ⟨env, [.text "1 ", fault, .text "0 ", fault, .text "1 ", fault, .text "\n"],
          .ok none⟩ := by cbv
  have ha : parseNumber "-1" = .ok (some (-1)) := by cbv
  have hb : parseNumber "+1" = .ok (some 1) := by cbv
  have hb' : parseNumber "1" = .ok (some 1) := by cbv
  have hc : parseNumber "2" = .ok (some 2) := by cbv
  exact ⟨hs, (evaluate_split_loop hs ha hb hb' hc (by decide) (by decide) (List.cons_ne_nil _ _)
    hbal ["cr"] 3).trans hone⟩

end Wordstack
