import Mathlib
import Wordstack.Proofs.Containment

/-!
# What only grows

Words, constants and variables come and never go. An environment has *grown* into another if each
of its three tables has only got further names, at the end, and each of its arrays is still an
array, of the same length (`Env.Grows`). Every single change is growth (`Env.Change.grows`). So an
evaluation makes the environment grow, up to each of its moments and up to its end, whatever it
evaluates and however it ends (`evaluate_grows`).

A reference to a scalar may be used after that has become an array. To declare the array, or to
make it an array once more by way of such a reference, is an error wherever it happens
(`Moment.result_of_declare_array`, `Moment.result_of_allot_array`).
-/

namespace Wordstack

open Wordstack.Action Env

/-- The one environment has come from the other without any loss of names, and without any change
    of the arrays but in their cells. -/
structure Env.Grows (env env' : Env) : Prop where
  words : env.words.keys <+: env'.words.keys
  constants : env.constants.keys <+: env'.constants.keys
  storage : env.storage.keys <+: env'.storage.keys
  arrays {name : Token} {cells : List Int} :
    env.storage.get? name = some (.array cells) →
    ∃ cells', env'.storage.get? name = some (.array cells') ∧ cells'.length = cells.length

theorem Table.keys_prefix_insert {α : Type} (t : Table α) (k : String) (v : α) :
    t.keys <+: (t.insert k v).keys := by
  rw [keys_insert]
  split
  · exact List.prefix_refl _
  · exact List.prefix_append _ _

namespace Env

variable {env env' env'' : Env}

theorem Grows.refl (env : Env) : env.Grows env where
  words := List.prefix_refl _
  constants := List.prefix_refl _
  storage := List.prefix_refl _
  arrays h := ⟨_, h, rfl⟩

theorem Grows.trans (h : env.Grows env') (h' : env'.Grows env'') : env.Grows env'' where
  words := h.words.trans h'.words
  constants := h.constants.trans h'.constants
  storage := h.storage.trans h'.storage
  arrays hc := by
    obtain ⟨cells', hc', hl⟩ := h.arrays hc
    obtain ⟨cells'', hc'', hl'⟩ := h'.arrays hc'
    exact ⟨cells'', hc'', hl'.trans hl⟩

/-- To create or write a variable is growth if an array of the name keeps its length. -/
theorem grows_insert {name : Token} {v : Variable}
    (hv : ∀ cells, env.storage.get? name = some (.array cells) →
      ∃ cells', v = .array cells' ∧ cells'.length = cells.length)
    (stack : List Int) (references : List Reference) :
    env.Grows { env with storage := env.storage.insert name v, stack, references } where
  words := List.prefix_refl _
  constants := List.prefix_refl _
  storage := Table.keys_prefix_insert _ _ _
  arrays {name' cells} hc := by
    rw [Table.get?_insert]
    by_cases hn : name = name'
    · obtain ⟨cells', rfl, hl⟩ := hv cells (hn ▸ hc)
      exact ⟨cells', if_pos hn, hl⟩
    · exact ⟨cells, (if_neg hn).trans hc, rfl⟩

/-- A variable that is a scalar may become anything. -/
theorem grows_insert_of_scalar {name : Token} {w : Int}
    (h : env.storage.get? name = some (.scalar w)) (v : Variable) (stack : List Int)
    (references : List Reference) :
    env.Grows { env with storage := env.storage.insert name v, stack, references } :=
  grows_insert (fun _ hc => by cases h.symm.trans hc) stack references

theorem Change.grows {kind : Command → Prop} (hc : env.Change kind env') : env.Grows env' := by
  cases hc with
  | stack | refer | useReference | chooseCell => exact { Grows.refl env with }
  | define => exact { Grows.refl env with words := Table.keys_prefix_insert _ _ _ }
  | nameConstant => exact { Grows.refl env with constants := Table.keys_prefix_insert _ _ _ }
  | declare _ hs => exact grows_insert (fun cells hc => absurd hc (hs cells)) _ _
  | setScalar hs _ => exact grows_insert_of_scalar hs _ _ _
  | allot hs => exact grows_insert_of_scalar hs _ _ _
  | @setCell name _ v s _ hs _ =>
    refine grows_insert (fun cells hc => ⟨s.set v, rfl, ?_⟩) _ _
    -- The array that is there is the one that the cell is of.
    cases (get?_of_slot hs).symm.trans hc
    exact s.length_set v

/-- To have grown out of an environment is an invariant. -/
theorem invariant_grows (env : Env) : Invariant (fun _ => True) env.Grows :=
  .of_closed (fun hc h => h.trans hc.grows) hereditary_any fun _ _ h => { h with }

end Env

variable {m : Moment}

theorem Moment.grows (m : Moment) : m.env.Grows m.outcome.state :=
  (invariant_grows m.env).keeps m.depth trivial m.env (.refl m.env)

/-- An array cannot be declared once more. -/
theorem Moment.result_of_declare_array {name : Token} {cells : List Int}
    (hc : m.command = .declare (.ok name))
    (ha : m.env.storage.get? name = some (.array cells)) :
    m.outcome.result = .error (.fault (.storage (.alreadyArray name))) := by
  rw [outcome, hc]
  exact congrArg Outcome.result (lift_of_error (declare_of_array ha))

/-- An array cannot be made an array once more, whatever the reference is to. -/
theorem Moment.result_of_allot_array {r : Reference} {references : List Reference}
    {cells : List Int} (hc : m.command = .allot) (hr : m.env.references = r :: references)
    (ha : m.env.storage.get? r.name = some (.array cells)) :
    ∃ e, m.outcome.result = .error (.fault e) := by
  rw [outcome, hc]
  refine Evaluator.execute_of_lacks (.scalar hr fun w hw => ?_)
  cases ha.symm.trans hw

/-- However an evaluation ends, the tables of the environment have only got further names, after
    those that they had, and its arrays still are arrays of the same length. The same is true up to
    each of its moments and of the command there, at every level: one that declares an array, or
    makes it an array once more, fails. -/
theorem evaluate_grows (depth : Nat) (tokens : List Token) (env : Env) :
    env.Grows (evaluate depth tokens env).state ∧
    ∀ m, Occurs depth tokens env m →
      env.Grows m.env ∧ m.env.Grows m.outcome.state ∧
      (∀ name cells, m.command = .declare (.ok name) →
        m.env.storage.get? name = some (.array cells) →
        m.outcome.result = .error (.fault (.storage (.alreadyArray name)))) ∧
      ∀ r references cells, m.command = .allot → m.env.references = r :: references →
        m.env.storage.get? r.name = some (.array cells) →
        ∃ e, m.outcome.result = .error (.fault e) := by
  refine ⟨evaluate_keeps (invariant_grows env) depth (fun _ _ => trivial) env (.refl env),
    fun m hm => ⟨hm.invariant (invariant_grows env) (.refl env), m.grows, ?_, ?_⟩⟩
  · exact fun _ _ => Moment.result_of_declare_array
  · exact fun _ _ _ => Moment.result_of_allot_array

/-- A reference to a scalar that has become an array. A word declares the array, the side of a
    conditional allots it, both fail, and what is new comes after what was there. -/
theorem evaluate_grows_stale :
    let env : Env :=
      { words := .ofList [("f", ["variable", "a"])], storage := .ofList [("a", .array [7, 8])],
        references := [.toScalar "a"] }
    let tokens := ["f", "1", "if", "5", "allot", "then", ":", "g", ";", "variable", "b"]
    let again : Moment := ⟨1, .declare (.ok "a"), env⟩
    let longer : Moment := ⟨1, .allot, { env with stack := [5] }⟩
    env.Grows
        { words := .ofList [("f", ["variable", "a"]), ("g", [])],
          storage := .ofList [("a", .array [7, 8]), ("b", .scalar 0)],
          references := [.toScalar "b"] } ∧
      (Occurs 3 tokens env again ∧
        again.outcome.result = .error (.fault (.storage (.alreadyArray "a")))) ∧
      Occurs 3 tokens env longer ∧ ∃ e, longer.outcome.result = .error (.fault e) := by
  intro env tokens again longer
  have hdeclare (name : Token) (hn : Command.read "variable" [name] = (.declare (.ok name), [])) :
      Command.sequence ["variable", name] = [.declare (.ok name)] := by
    rw [Command.sequence_cons_of_read (by decide) hn, Command.sequence_nil]
  have hsequence : Command.sequence tokens
      = [.word "f", .word "1", .conditional (.ok ⟨["5", "allot"], none⟩),
          .define (.ok ⟨"g", []⟩), .declare (.ok "b")] := by
    have hif : Command.read "if" ["5", "allot", "then", ":", "g", ";", "variable", "b"]
        = (.conditional (.ok ⟨["5", "allot"], none⟩), [":", "g", ";", "variable", "b"]) := rfl
    have hg : Command.read ":" ["g", ";", "variable", "b"]
        = (.define (.ok ⟨"g", []⟩), ["variable", "b"]) := rfl
    rw [Command.sequence_cons_of_read (by decide) (Command.read_of_not_mem (by decide) _),
      Command.sequence_cons_of_read (by decide) (Command.read_of_not_mem (by decide) _),
      Command.sequence_cons_of_read (by decide) hif, Command.sequence_cons_of_read (by decide) hg,
      hdeclare "b" rfl]
  have hf : Evaluator.execute (evaluate 2) (.word "f") env
      = ⟨env, [.report (.storage (.alreadyArray "a"))], .ok ()⟩ := by
    have hm : env.meaning "f" = .ok (.call "f" ["variable", "a"]) := by cbv
    rw [Evaluator.execute, Evaluator.perform_of_call hm, Evaluator.call, evaluate_succ,
      hdeclare "a" rfl]
    cbv
  have hone : Evaluator.execute (evaluate 2) (.word "1") env
      = ⟨{ env with stack := [1] }, [], .ok ()⟩ := by cbv
  have hagain : Occurs 3 tokens env again := by
    have hr : Reaches (Evaluator.execute (evaluate 2)) (Command.sequence tokens) env
        (.word "f") env := by
      rw [hsequence]
      exact .head _ _ _
    have hcall : Evaluator.Enters (evaluate 2) env (.word "f") ["variable", "a"] env :=
      .call (by cbv)
    refine .within hr hcall (.here ?_)
    rw [hdeclare "a" rfl]
    exact .head _ _ _
  have hlonger : Occurs 3 tokens env longer := by
    have hr : Reaches (Evaluator.execute (evaluate 2)) (Command.sequence tokens) env
        (.conditional (.ok ⟨["5", "allot"], none⟩)) { env with stack := [1] } := by
      rw [hsequence]
      exact .tail hf (.tail hone (.head _ _ _))
    have he : Evaluator.Enters (evaluate 2) { env with stack := [1] }
        (.conditional (.ok ⟨["5", "allot"], none⟩)) ["5", "allot"] env :=
      .whenTrue rfl Int.one_ne_zero (List.cons_ne_nil _ _) (Option.some_ne_none []).symm
    have hbody : Command.sequence ["5", "allot"] = [.word "5", .allot] := by cbv
    have hfive : Evaluator.execute (evaluate 1) (.word "5") env
        = ⟨{ env with stack := [5] }, [], .ok ()⟩ := by cbv
    refine .within hr he (.here ?_)
    rw [hbody]
    exact .tail hfive (.head _ _ _)
  obtain ⟨hgrows, hmoments⟩ := evaluate_grows 3 tokens env
  have hafter : (evaluate 3 tokens env).state
      = { words := .ofList [("f", ["variable", "a"]), ("g", [])],
          storage := .ofList [("a", .array [7, 8]), ("b", .scalar 0)],
          references := [.toScalar "b"] } := by
    have hif : Evaluator.execute (evaluate 2) (.conditional (.ok ⟨["5", "allot"], none⟩))
        { env with stack := [1] }
        = ⟨{ env with references := [] }, [.report (.storage (.alreadyArray "a"))], .ok ()⟩ := by
      cbv
    rw [evaluate_succ, hsequence, reporting, forEach_cons, bind_of_ok hf, forEach_cons,
      bind_of_ok hone, forEach_cons, bind_of_ok hif]
    rfl
  rw [hafter] at hgrows
  exact ⟨hgrows, ⟨hagain, (hmoments again hagain).2.2.1 "a" [7, 8] rfl (by cbv)⟩,
    hlonger, (hmoments longer hlonger).2.2.2 (.toScalar "a") [] [7, 8] rfl rfl (by cbv)⟩

end Wordstack
