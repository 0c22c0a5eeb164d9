import Wordstack.Env.Primitive
import Wordstack.Builtin

/-!
# What operations show

Of the operations that commands are made of, only a few builtins show anything: a text, or a part
of the environment as it is (`Builtin.run_displays`). What goes wrong in an operation is not shown
by it, but left to the end of the evaluation that it is part of.
-/

namespace Wordstack

namespace Action

variable {σ ε ε' α β : Type} {Q : Event → Prop}

/-- All that the action shows has the property. -/
def ShowsOnly (Q : Event → Prop) (m : Action σ ε α) : Prop :=
  ∀ s, ∀ event ∈ (m s).output, Q event

theorem showsOnly_pure (a : α) : ShowsOnly Q (pure a : Action σ ε α) :=
  nofun

theorem showsOnly_state : ShowsOnly Q (Action.state : Action σ ε σ) :=
  nofun

theorem showsOnly_modify (g : σ → σ) : ShowsOnly Q (modify g : Action σ ε Unit) :=
  nofun

theorem showsOnly_query (g : σ → Except ε α) : ShowsOnly Q (query g) :=
  nofun

theorem showsOnly_fail (e : ε) : ShowsOnly Q (fail e : Action σ ε α) :=
  nofun

theorem showsOnly_ofExcept (r : Except ε α) : ShowsOnly Q (ofExcept r : Action σ ε α) :=
  nofun

theorem showsOnly_update (g : σ → Except ε σ) : ShowsOnly Q (update g) := by
  intro s event h
  rw [update] at h
  cases hg : g s <;> rw [hg] at h <;> cases h

theorem showsOnly_emit {event : Event} (h : Q event) :
    ShowsOnly Q (emit event : Action σ ε Unit) :=
  fun _ _ he => List.mem_singleton.1 he ▸ h

theorem ShowsOnly.bind {m : Action σ ε α} {g : α → Action σ ε β} (hm : ShowsOnly Q m)
    (hg : ∀ a, ShowsOnly Q (g a)) : ShowsOnly Q (m >>= g) := by
  intro s event he
  have h := hm s event
  rcases hs : m s with ⟨s', shown, e | a⟩ <;> rw [hs] at h
  · rw [bind_of_error hs] at he
    exact h he
  · rw [bind_of_ok hs, Outcome.after, List.mem_append] at he
    exact he.elim h (hg a s' event)

theorem ShowsOnly.mapError {m : Action σ ε α} (hm : ShowsOnly Q m) (g : ε → ε') :
    ShowsOnly Q (m.mapError g) := hm

theorem ShowsOnly.lift {m : Action σ Error α} (hm : ShowsOnly Q m) :
    ShowsOnly Q (liftM m : Action σ Halt α) := hm.mapError _

end Action

open Wordstack.Action Env

variable {Q : Event → Prop}

theorem Env.pop_showsOnly (message : String) : ShowsOnly Q (pop message) := by
  intro env event he
  cases h : env.stack with
  | nil =>
    rw [pop_of_nil h] at he
    cases he
  | cons v stack =>
    rw [pop_of_cons h] at he
    cases he

theorem Env.popReference_showsOnly (message : String) :
    ShowsOnly Q (popReference message) := by
  intro env event he
  cases h : env.references with
  | nil =>
    rw [popReference_of_nil h] at he
    cases he
  | cons r references =>
    rw [popReference_of_cons h] at he
    cases he

/-- A text, or a part of the environment. -/
inductive Env.Displays (env : Env) : Event → Prop
  | text (s : String) : Displays env (.text s)
  | stack : Displays env (env.stackEvent "Stack: ")
  | dictionary : Displays env (.dictionary env.words)
  | storage : Displays env (.storage env.storage)
  | names : Displays env (.names env.words.keys Builtin.names)

namespace Builtin

theorem binary_showsOnly (name : String) (op : Int → Int → Int) :
    ShowsOnly Q (binary name op) :=
  (pop_showsOnly _).bind fun _ => (pop_showsOnly _).bind fun _ => showsOnly_modify _

theorem division_showsOnly (name : String) (op : Int → Int → Int) :
    ShowsOnly Q (division name op) :=
  (showsOnly_query _).bind fun _ => showsOnly_state.bind fun env => by
    split
    · exact showsOnly_fail _
    · exact binary_showsOnly name op

theorem rearrange_showsOnly (name : String) (count : Int) (f : List Int → List Int) :
    ShowsOnly Q (rearrange name count f) :=
  (showsOnly_query _).bind fun _ => showsOnly_modify _

/-- A builtin shows nothing else. -/
theorem run_displays (b : Builtin) (env : Env) :
    ∀ event ∈ (b.run env).output, env.Displays event := by
  have only {m : Action Env Error Unit} (hm : ShowsOnly env.Displays m) :
      ∀ event ∈ (m env).output, env.Displays event := hm env
  cases b with
  | add | subtract | multiply | conjunction | disjunction => exact only (binary_showsOnly _ _)
  | divide | modulo => exact only (division_showsOnly _ _)
  | equal | unequal | less | greater | lessOrEqual | greaterOrEqual =>
    exact only (binary_showsOnly _ _)
  | complement => exact only ((pop_showsOnly _).bind fun _ => showsOnly_modify _)
  | duplicate => exact only ((showsOnly_query _).bind fun _ => showsOnly_modify _)
  | discard => exact only ((pop_showsOnly _).bind fun _ => showsOnly_pure _)
  | exchange | duplicateSecond | rotate => exact only (rearrange_showsOnly _ _ _)
  | print | printCharacter =>
    exact only ((pop_showsOnly _).bind fun _ => showsOnly_emit (.text _))
  | printLineEnd => exact only (showsOnly_emit (.text _))
  | showStack => exact fun _ h => List.mem_singleton.1 h ▸ .stack
  | showWords => exact fun _ h => List.mem_singleton.1 h ▸ .dictionary
  | showVariables => exact fun _ h => List.mem_singleton.1 h ▸ .storage
  | showNames => exact fun _ h => List.mem_singleton.1 h ▸ .names

end Builtin

namespace Env

theorem declare_showsOnly (name : Token) : ShowsOnly Q (declare name) :=
  (showsOnly_update _).bind fun _ => showsOnly_modify _

theorem nameConstant_showsOnly (name : Token) : ShowsOnly Q (nameConstant name) :=
  (pop_showsOnly _).bind fun _ => showsOnly_modify _

theorem fetch_showsOnly : ShowsOnly Q fetch :=
  (popReference_showsOnly _).bind fun r => by
    split
    · exact (showsOnly_query _).bind fun _ => showsOnly_modify _
    · exact (showsOnly_query _).bind fun _ => showsOnly_modify _

theorem store_showsOnly : ShowsOnly Q store :=
  (popReference_showsOnly _).bind fun r => by
    split
    · exact (showsOnly_query _).bind fun _ => (pop_showsOnly _).bind fun _ =>
        showsOnly_update _
    · exact (showsOnly_query _).bind fun _ => (pop_showsOnly _).bind fun _ =>
        showsOnly_update _

theorem allot_showsOnly : ShowsOnly Q allot :=
  showsOnly_state.bind fun env => by
    split
    · exact showsOnly_fail _
    · split
      · exact showsOnly_fail _
      · exact (pop_showsOnly _).bind fun _ => (popReference_showsOnly _).bind fun _ =>
          showsOnly_update _

theorem chooseCell_showsOnly (name : Token) : ShowsOnly Q (chooseCell name) :=
  (pop_showsOnly _).bind fun _ => showsOnly_modify _

end Env

end Wordstack
