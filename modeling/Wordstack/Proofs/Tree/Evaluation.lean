import Wordstack.Proofs.Sequencing
import Wordstack.Proofs.Tree

/-!
# The evaluation of structured programs

A structured program has an evaluation of its own (`Tree.evaluate`), which knows its phrases and
looks for no tokens:

* the phrases of a sequence act one after the other, up to the first of them that fails;
* a conditional takes its condition and evaluates the side that it chooses, if there is one;
* a loop takes its bounds and evaluates its body for every number from the first up to the last,
  with the number in the register of the counter, and then restores the register;
* a definition stores the tokens of its body, and a string shows its pieces;
* what goes wrong in a block is reported there and does not stop the sequence with the block.

It is the evaluation of the tokens of the program (`evaluate_flatten`): the scans cut these into
the same blocks, whatever is nested in what. The nestings are counted in the same way, too, so
that the two also agree where no level is left.
-/

namespace Wordstack

open Wordstack.Action Env

/-- The command of a token that takes nothing from those after it. -/
def Command.ofToken : Token → Command
  | "@" => .fetch
  | "!" => .store
  | "cells" => .cells
  | "allot" => .allot
  | "+" => .plus
  | t => .word t

/-- The name, if it can be one. -/
def checkName (kind : NameKind) (name : Token) : Except Halt Token :=
  match isValidName name with
  | .ok true => .ok name
  | .ok false => .error (.fault (.malformed (.invalidName kind name)))
  | .error e => .error (.escape e)

/-- Evaluates the body of a loop with the number in the register. -/
def Phrase.round (blocks : Tree → Action Env Escape (Option Error)) (body : Tree) (v : Int) :
    Action Env Halt Unit := do
  .modify fun env => { env with registers := env.registers.insert counter v }
  let _ ← blocks body

/-- What a phrase does, given how trees and how the bodies of words are evaluated. -/
def Phrase.act (words : Evaluator) (blocks : Tree → Action Env Escape (Option Error)) :
    Phrase → Action Env Halt Unit
  | .plain t => if Text.isBlankText t then pure () else Evaluator.execute words (.ofToken t)
  | .declare name => do Env.declare (← .ofExcept (checkName .variable name))
  | .nameConstant name => do Env.nameConstant (← .ofExcept (checkName .constant name))
  | .say pieces last => .emit (.text (Body.text (pieces ++ [.ofList last.toList.dropLast])))
  | .define name body => do
    let name ← .ofExcept (checkName .word name)
    Env.define ⟨name, Tree.flatten body⟩
  | .when body => do
    let condition ← pop "Empty stack for condition in if"
    if condition ≠ 0 then
      let _ ← blocks body
    else pure ()
  | .choose whenTrue whenFalse => do
    let condition ← pop "Empty stack for condition in if"
    let _ ← blocks (if condition ≠ 0 then whenTrue else whenFalse)
  | .loop body => do
    let last ← pop "Empty stack for end of do loop"
    let first ← pop "Empty stack for start of do loop"
    let outer := (← Action.state).registers.get? counter
    (Action.forEach (round blocks body) (consecutive first (last - first).toNat)).ensuring
      (restoreRegister counter outer)

/-- Evaluates a structured program, with so many levels for it and those within it. -/
def Tree.evaluate : Nat → Tree → Action Env Escape (Option Error)
  | 0, _ => .fail .tooDeep
  | depth + 1, tree =>
    reporting (.forEach (Phrase.act (Wordstack.evaluate depth) (Tree.evaluate depth)) tree)

/-! ## What is read of a phrase -/

theorem Command.ofToken_of_not_mem {t : Token} (h : t ∉ formNames) : ofToken t = .word t := by
  rw [ofToken.eq_def]
  split
  case h_6 => rfl
  all_goals exact absurd (by decide) h

theorem Command.read_eq_ofToken {t : Token} (hk : t ∉ keywords) (hi : t ∉ introducers)
    (ts : List Token) : read t ts = (ofToken t, ts) := by
  by_cases ht : t ∈ formNames
  · simp only [formNames, List.mem_cons, List.not_mem_nil, or_false] at ht
    rcases ht with rfl | rfl | rfl | rfl | rfl | rfl | rfl | rfl | rfl | rfl | rfl
    -- A form that takes nothing is the same in both, and the others are excluded.
    · rfl
    · rfl
    · exact absurd (by decide) hi
    · exact absurd (by decide) hi
    · rfl
    · rfl
    · rfl
    · exact absurd (by decide) hi
    · exact absurd (by decide) hk
    · exact absurd (by decide) hk
    · exact absurd (by decide) hi
  · rw [read_of_not_mem ht, ofToken_of_not_mem ht]

namespace Scan

theorem name_cons (kind : NameKind) (name : Token) (ts : List Token) :
    Scan.name kind (name :: ts) = ⟨checkName kind name, ts⟩ := by
  rw [Scan.name, checkName]
  rcases isValidName name with e | _ | _ <;> rfl

/-- A definition holds the tokens up to the first semicolon, unless its name is none. -/
theorem definition_cons {body : Body} (hb : ";" ∉ body) (name : Token) (rest : List Token) :
    definition (name :: (body ++ ";" :: rest))
      = match checkName .word name with
        | .ok name => ⟨.ok ⟨name, body⟩, rest⟩
        | .error h => ⟨.error h, body ++ ";" :: rest⟩ := by
  rw [definition, name_cons]
  cases checkName .word name with
  | error h => rfl
  | ok name => simp only [cut_of_not_mem hb]

end Scan

namespace Tree

variable {body whenTrue whenFalse : Tree}

theorem scan_when (h : body.WellFormed) (rest : List Token) :
    Scan.conditional (Tree.flatten body ++ "then" :: rest)
      = ⟨.ok ⟨Tree.flatten body, none⟩, rest⟩ := by
  have ha := (Tree.balanced h .conditional).alternatives_eq (by decide) (Tree.undivided h)
  rw [Scan.conditional, Scan.block_of_balanced (by decide) (Tree.balanced h .conditional)]
  simp only [Branches.ofBody, ha]

theorem scan_choose (ht : whenTrue.WellFormed) (hf : whenFalse.WellFormed)
    (rest : List Token) :
    Scan.conditional (Tree.flatten whenTrue ++ "else" :: Tree.flatten whenFalse ++ "then" :: rest)
      = ⟨.ok ⟨Tree.flatten whenTrue, some (Tree.flatten whenFalse)⟩, rest⟩ := by
  have hb := IsBlock.conditional.balanced_else (Tree.balanced ht .conditional)
    (Tree.balanced hf .conditional)
  have ha := (Tree.balanced ht .conditional).alternatives_separator (by decide)
    (Tree.undivided ht) (Tree.flatten whenFalse)
  rw [(Tree.balanced hf .conditional).alternatives_eq (by decide) (Tree.undivided hf)] at ha
  rw [Scan.conditional, Scan.block_of_balanced (by decide) hb]
  simp only [Branches.ofBody, ha, List.flatten_singleton]

theorem scan_loop (h : body.WellFormed) (rest : List Token) :
    Scan.loop (Tree.flatten body ++ "loop" :: rest) = ⟨.ok (Tree.flatten body), rest⟩ :=
  Scan.loop_of_balanced (Tree.balanced h .loop) rest

end Tree

/-! ## Agreement -/

namespace Phrase

variable {words : Evaluator} {blocks : Tree → Action Env Escape (Option Error)}
  {body whenTrue whenFalse : Tree}

theorem choose_when (hne : body ≠ []) (hb : words (Tree.flatten body) = blocks body) :
    Evaluator.choose words (.ok ⟨Tree.flatten body, none⟩) = act words blocks (.when body) := by
  funext env
  cases hs : env.stack with
  | nil => rw [Evaluator.choose_of_nil hs, act, bind_of_error (lift_of_error (pop_of_nil hs _))]
  | cons condition stack =>
    rw [Evaluator.choose_ok_of_cons hs, Evaluator.follow, if_neg (Tree.flatten_ne_nil hne),
      if_neg nofun, act, bind_of_ok (lift_of_ok (pop_of_cons hs _)), Evaluator.enter, hb]
    rfl

theorem choose_choose (ht : whenTrue ≠ []) (hf : whenFalse ≠ [])
    (hbt : words (Tree.flatten whenTrue) = blocks whenTrue)
    (hbf : words (Tree.flatten whenFalse) = blocks whenFalse) :
    Evaluator.choose words (.ok ⟨Tree.flatten whenTrue, some (Tree.flatten whenFalse)⟩)
      = act words blocks (.choose whenTrue whenFalse) := by
  funext env
  cases hs : env.stack with
  | nil => rw [Evaluator.choose_of_nil hs, act, bind_of_error (lift_of_error (pop_of_nil hs _))]
  | cons condition stack =>
    have hf' : some (Tree.flatten whenFalse) ≠ some [] := fun h =>
      Tree.flatten_ne_nil hf (Option.some.inj h)
    rw [Evaluator.choose_ok_of_cons hs, Evaluator.follow, if_neg (Tree.flatten_ne_nil ht),
      if_neg hf', act, bind_of_ok (lift_of_ok (pop_of_cons hs _)), after_nil]
    by_cases hc : condition ≠ 0
    · rw [if_pos hc, if_pos hc, Evaluator.enter, hbt]
    · rw [if_neg hc, if_neg hc]
      simp only [Evaluator.enter, hbf]

theorem repeatBody_loop (hne : body ≠ []) (hb : words (Tree.flatten body) = blocks body) :
    Evaluator.repeatBody words (.ok (Tree.flatten body)) = act words blocks (.loop body) := by
  have hne := Tree.flatten_ne_nil hne
  funext env
  rcases hs : env.stack with _ | ⟨last, _ | ⟨first, stack⟩⟩
  · rw [Evaluator.repeatBody_of_nil hne hs, act, bind_of_error (lift_of_error (pop_of_nil hs _))]
  · rw [Evaluator.repeatBody_of_singleton hne hs, act, bind_of_ok (lift_of_ok (pop_of_cons hs _)),
      bind_of_error (lift_of_error (pop_of_nil rfl _))]
    rfl
  · rw [Evaluator.repeatBody_of_cons hne hs, act, bind_of_ok (lift_of_ok (pop_of_cons hs _)),
      bind_of_ok (lift_of_ok (pop_of_cons rfl _)), forCount_eq_forEach]
    -- With the bounds taken, the loops differ in how they evaluate the body.
    have hr : Evaluator.iterate words (Tree.flatten body) = round blocks body := by
      funext v
      rw [Evaluator.iterate, Evaluator.enter, hb, round]
    rw [hr]
    rfl

/-- The commands that begin with the tokens of a phrase are what the phrase does, followed by those
    of the tokens after it. -/
theorem WellFormed.run_flatten {n : Phrase} (h : n.WellFormed)
    (hb : ∀ tree : Tree, tree.WellFormed → words (Tree.flatten tree) = blocks tree)
    (rest : List Token) :
    Evaluator.run words (n.flatten ++ rest)
      = (do n.act words blocks; Evaluator.run words rest) := by
  cases h with
  | @plain t hk hi =>
    rw [flatten, List.singleton_append, act]
    cases ht : Text.isBlankText t with
    | true => rw [Evaluator.run_cons_of_blank ht, if_pos rfl, pure_bind]
    | false => rw [Evaluator.run_cons ht, Command.read_eq_ofToken hk hi, if_neg Bool.false_ne_true]
  | declare =>
    rw [flatten, List.cons_append, Evaluator.run_cons (by decide), Command.read,
      List.singleton_append, Scan.name_cons]
    rfl
  | nameConstant =>
    rw [flatten, List.cons_append, Evaluator.run_cons (by decide), Command.read,
      List.singleton_append, Scan.name_cons]
    rfl
  | say hp hl =>
    rw [flatten, List.cons_append, Evaluator.run_cons (by decide), Command.read,
      List.append_assoc, List.singleton_append,
      Scan.string_append (fun p h => (hp p h).2) hl]
    rfl
  | @define name body _ _ hs =>
    rw [flatten, List.cons_append, Evaluator.run_cons (by decide), Command.read,
      List.cons_append, List.append_assoc, List.singleton_append, Scan.definition_cons hs, act]
    cases checkName .word name with
    | ok name => rfl
    -- A definition without a name fails, and it does not matter where the scan left off.
    | error h => rfl
  -- For a block, the scan finds the tokens of its body, and these are evaluated like the body.
  | when hne hw =>
    rw [flatten, List.cons_append, Evaluator.run_cons (by decide), Command.read,
      List.append_assoc, List.singleton_append, Tree.scan_when hw, Evaluator.execute,
      choose_when hne (hb _ hw)]
  | choose hnt hnf ht hf =>
    rw [flatten, List.cons_append, Evaluator.run_cons (by decide), Command.read,
      List.append_assoc, List.singleton_append, Tree.scan_choose ht hf, Evaluator.execute,
      choose_choose hnt hnf (hb _ ht) (hb _ hf)]
  | loop hne hw =>
    rw [flatten, List.cons_append, Evaluator.run_cons (by decide), Command.read,
      List.append_assoc, List.singleton_append, Tree.scan_loop hw, Evaluator.execute,
      repeatBody_loop hne (hb _ hw)]

end Phrase

theorem Tree.run_flatten {words : Evaluator} {blocks : Tree → Action Env Escape (Option Error)}
    (hb : ∀ tree : Tree, tree.WellFormed → words (Tree.flatten tree) = blocks tree)
    {tree : Tree} (h : tree.WellFormed) :
    Evaluator.run words tree.flatten = forEach (Phrase.act words blocks) tree := by
  induction tree with
  | nil => rw [Tree.flatten, Evaluator.run_nil, forEach_nil]
  | cons n tree ih =>
    rw [Tree.flatten, (h n List.mem_cons_self).run_flatten hb, forEach_cons,
      ih fun m hm => h m (List.mem_cons_of_mem n hm)]

/-- To evaluate the tokens of a structured program is to evaluate the program. -/
theorem evaluate_flatten {tree : Tree} (h : tree.WellFormed) (depth : Nat) :
    evaluate depth tree.flatten = tree.evaluate depth := by
  induction depth generalizing tree with
  | zero => rfl
  | succ depth ih =>
    -- The blocks of the tree are evaluated with one level less, where the two agree by induction.
    rw [evaluate_succ, Tree.evaluate, ← Tree.run_flatten (fun _ hw => ih hw) h, Evaluator.run]

/-- A loop with a conditional in a word, whose first side fails whenever it is chosen. -/
theorem evaluate_flatten_signs :
    evaluate 4 [":", "signs", "do", "i", "if", "i", ".", "foo", "else", ".\"", "no", "sign\"",
        "then", "loop", ";", "-1", "2", "signs"] {}
      = ⟨{ words := .ofList [("signs", ["do", "i", "if", "i", ".", "foo", "else", ".\"", "no",
            "sign\"", "then", "loop"])] },
          [.text "-1 ", .report (.unbound "foo"), .text "no sign", .text "1 ",
            .report (.unbound "foo")],
          .ok none⟩ := by
  have hi : Phrase.WellFormed (.plain "i") := .plain (by decide) (by decide)
  have ht : Tree.WellFormed [.plain "i", .plain ".", .plain "foo"] :=
    hi.cons (.cons (.plain (by decide) (by decide)) (.cons (.plain (by decide) (by decide)) nofun))
  have hf : Tree.WellFormed [.say ["no"] "sign\""] := .cons (.say (by decide) (by decide)) nofun
  have hb : Tree.WellFormed [.loop [.plain "i",
      .choose [.plain "i", .plain ".", .plain "foo"] [.say ["no"] "sign\""]]] :=
    .cons (.loop nofun (hi.cons (.cons (.choose nofun nofun ht hf) nofun))) nofun
  have hd : Phrase.WellFormed (.define "signs" [.loop [.plain "i",
      .choose [.plain "i", .plain ".", .plain "foo"] [.say ["no"] "sign\""]]]) :=
    .define (by decide) hb (by decide)
  have hw : Tree.WellFormed [.define "signs" [.loop [.plain "i",
      .choose [.plain "i", .plain ".", .plain "foo"] [.say ["no"] "sign\""]]],
      .plain "-1", .plain "2", .plain "signs"] :=
    hd.cons (.cons (.plain (by decide) (by decide)) (.cons (.plain (by decide) (by decide))
      (.cons (.plain (by decide) (by decide)) nofun)))
  exact (congrFun (evaluate_flatten hw 4) {}).trans (by cbv)

end Wordstack
