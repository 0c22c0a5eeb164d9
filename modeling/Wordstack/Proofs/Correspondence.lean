import Mathlib.Data.List.Forall2
import Wordstack.Proofs.Moments
import Wordstack.Proofs.Vocabulary

/-!
# Two evaluations side by side

Two evaluations can be *compared* step by step: if they start from environments that correspond,
they go on through environments that correspond, show events that correspond, and end alike. What
corresponds to what is left open, and so are errors at which the first evaluation need no longer be
followed (`Comparison`). What has to be checked is that all the operations that commands are made
of can be followed (`Comparison.Sound`).

It is then enough to look at the bodies that are in fact entered: if those can be followed, the
command can (`Comparison.Sound.execute_corresponds`), and so can an evaluation whose commands can
(`Comparison.Sound.evaluate_corresponds`).
-/

namespace Wordstack

open Wordstack.Action Env

/-- A way to compare two evaluations. -/
structure Comparison where
  /-- The environments that correspond. -/
  envs : Env → Env → Prop
  /-- The events that correspond. -/
  events : Event → Event → Prop
  /-- The errors after which the first evaluation need not be followed. -/
  excluded : Error → Prop

/-- Whether a command stops with such an error. -/
def Comparison.halts (C : Comparison) : Halt → Prop
  | .fault e => C.excluded e
  | .escape _ => False

variable {C : Comparison} {ε ε' α β : Type} {bad : ε → Prop} {env env' : Env}

/-- The outcomes of two actions that went alike. -/
structure Outcome.Corresponds (C : Comparison) (o o' : Outcome Env ε α) : Prop where
  state : C.envs o.state o'.state
  output : List.Forall₂ C.events o.output o'.output
  result : o'.result = o.result

/-- None of the errors of the kind is what the outcome ends with. -/
def Outcome.Avoids {σ : Type} (bad : ε → Prop) (o : Outcome σ ε α) : Prop :=
  ∀ e, o.result = .error e → ¬bad e

/-- From environments that correspond, the second action goes like the first, unless that fails
    with an error of the kind. -/
def Action.Follows (C : Comparison) (bad : ε → Prop) (m m' : Action Env ε α) : Prop :=
  ∀ env env', C.envs env env' → (m env).Avoids bad → (m env).Corresponds C (m' env')

/-! ## One after the other -/

theorem corresponds_of_silent (h : C.envs env env') (r : Except ε α) :
    Outcome.Corresponds C ⟨env, [], r⟩ ⟨env', [], r⟩ :=
  ⟨h, .nil, rfl⟩

/-- The second actions are compared where the first ones have led to. -/
theorem corresponds_bind {m m' : Action Env ε α} {f f' : α → Action Env ε β}
    (hbad : ((m >>= f) env).Avoids bad)
    (hm : (m env).Avoids bad → (m env).Corresponds C (m' env'))
    (hf : ∀ {a env₁ env₁' shown}, m env = ⟨env₁, shown, .ok a⟩ → C.envs env₁ env₁' →
      (f a env₁).Avoids bad → (f a env₁).Corresponds C (f' a env₁')) :
    ((m >>= f) env).Corresponds C ((m' >>= f') env') := by
  rcases hs : m env with ⟨env₁, shown, e | a⟩
  · have hb := bind_of_error hs f
    rw [hb] at hbad ⊢
    have hc := hm fun e' he => by
      rw [hs] at he
      cases he
      exact hbad e rfl
    rcases hs' : m' env' with ⟨env₁', shown', r⟩
    rw [hs, hs'] at hc
    obtain rfl : r = .error e := hc.result
    rw [bind_of_error hs']
    exact ⟨hc.state, hc.output, rfl⟩
  · have hb := bind_of_ok hs f
    rw [hb] at hbad ⊢
    have hc := hm (by rw [hs]; exact nofun)
    rcases hs' : m' env' with ⟨env₁', shown', r⟩
    rw [hs, hs'] at hc
    obtain rfl : r = .ok a := hc.result
    rw [bind_of_ok hs']
    have hc' := hf hs hc.state hbad
    exact ⟨hc'.state, List.rel_append hc.output hc'.output, hc'.result⟩

theorem Action.Follows.bind {m m' : Action Env ε α} {f f' : α → Action Env ε β}
    (hm : Follows C bad m m') (hf : ∀ a, Follows C bad (f a) (f' a)) :
    Follows C bad (m >>= f) (m' >>= f') :=
  fun _ _ h hbad => corresponds_bind hbad (hm _ _ h) fun _ h₁ => hf _ _ _ h₁

theorem corresponds_mapError {m m' : Action Env ε α} (f : ε → ε')
    (h : (m env).Corresponds C (m' env')) :
    (m.mapError f env).Corresponds C (m'.mapError f env') :=
  ⟨h.state, h.output, congrArg (Except.mapError f) h.result⟩

/-- An operation that can be followed can be followed as a part of a command. -/
theorem Action.Follows.lift {m m' : Action Env Error α} (hm : Follows C C.excluded m m') :
    Follows C C.halts (liftM m : Action Env Halt α) (liftM m') := by
  intro env env' h hbad
  refine corresponds_mapError _ (hm env env' h fun e he => ?_)
  exact hbad _ (lift_result_eq_error.2 ⟨e, rfl, he⟩)

/-- Whatever becomes of a value that nobody looks at. -/
theorem corresponds_drop {m m' : Action Env ε α} (f : ε → ε')
    (h : (m env).Corresponds C (m' env')) :
    ((do let _ ← m.mapError f : Action Env ε' Unit) env).Corresponds C
      ((do let _ ← m'.mapError f : Action Env ε' Unit) env') := by
  have hnone (o : Outcome Env ε' Unit) : o.Avoids fun _ => False := fun _ _ => id
  exact corresponds_bind (hnone _) (fun _ => corresponds_mapError f h)
    fun _ h₁ _ => corresponds_of_silent h₁ _

/-- For each element, it is enough to compare the actions where it is reached. -/
theorem corresponds_forEach {f f' : α → Action Env ε Unit} {l : List α} (h : C.envs env env')
    (hbad : (forEach f l env).Avoids bad)
    (hf : ∀ {a env₁ env₁'}, Reaches f l env a env₁ → C.envs env₁ env₁' →
      (f a env₁).Avoids bad → (f a env₁).Corresponds C (f' a env₁')) :
    (forEach f l env).Corresponds C (forEach f' l env') := by
  induction l generalizing env env' with
  | nil => exact corresponds_of_silent h _
  | cons a l ih =>
    rw [forEach_cons] at hbad ⊢
    rw [forEach_cons]
    refine corresponds_bind hbad (hf (.head a l env) h) fun hs h₁ hbad₁ => ?_
    exact ih h₁ hbad₁ fun hr => hf (.tail hs hr)

/-! ## Commands -/

/-- All that commands are made of can be followed. -/
structure Comparison.Sound (C : Comparison) : Prop where
  text (s : String) : C.events (.text s) (.text s)
  report (e : Error) : C.events (.report e) (.report e)
  /-- Tokens that open no form mean the same. -/
  meaning {env env' : Env} :
    C.envs env env' → ∀ t ∉ Command.formNames, env'.meaning t = env.meaning t
  registers_eq {env env' : Env} : C.envs env env' → env'.registers = env.registers
  registers {env env' : Env} (registers : Table Int) :
    C.envs env env' → C.envs { env with registers } { env' with registers }
  push {env env' : Env} (v : Int) :
    C.envs env env' →
    C.envs { env with stack := v :: env.stack } { env' with stack := v :: env'.stack }
  refer {env env' : Env} (r : Reference) :
    C.envs env env' →
    C.envs { env with references := r :: env.references }
      { env' with references := r :: env'.references }
  define {env env' : Env} (d : Definition) :
    C.envs env env' →
    C.envs { env with words := env.words.insert d.name d.body }
      { env' with words := env'.words.insert d.name d.body }
  chooses_iff {env env' : Env} :
    C.envs env env' → ∀ name, env'.Chooses name ↔ env.Chooses name
  chooseCell {env env' : Env} {name : Token} :
    C.envs env env' → env.Chooses name → (Env.chooseCell name env).Avoids C.excluded →
    (Env.chooseCell name env).Corresponds C (Env.chooseCell name env')
  pop (message : String) : Follows C C.excluded (Env.pop message) (Env.pop message)
  top (message : String) : Follows C C.excluded (Env.top message) (Env.top message)
  run (b : Builtin) : Follows C C.excluded b.run b.run
  declare (name : Token) : Follows C C.excluded (Env.declare name) (Env.declare name)
  nameConstant (name : Token) :
    Follows C C.excluded (Env.nameConstant name) (Env.nameConstant name)
  fetch : Follows C C.excluded Env.fetch Env.fetch
  store : Follows C C.excluded Env.store Env.store
  allot : Follows C C.excluded Env.allot Env.allot

/-- An operand that was taken was the top of the stack. -/
theorem eq_of_lift_pop {env₁ : Env} {shown : List Event} {v : Int} {message : String}
    (h : (liftM (Env.pop message) : Action Env Halt Int) env = ⟨env₁, shown, .ok v⟩) :
    ∃ stack, env.stack = v :: stack ∧ env₁ = { env with stack } := by
  rcases hs : env.stack with _ | ⟨w, stack⟩
  · cases (lift_of_error (pop_of_nil hs message)).symm.trans h
  · cases (lift_of_ok (pop_of_cons hs message)).symm.trans h
    exact ⟨stack, rfl, rfl⟩

namespace Comparison.Sound

open Evaluator

variable {inner inner' : Evaluator}

theorem restoreRegister (hC : C.Sound) (h : C.envs env env') (name : Token) (v : Option Int) :
    C.envs (Env.restoreRegister name v env) (Env.restoreRegister name v env') := by
  cases v with
  | none =>
    rw [Env.restoreRegister, Env.restoreRegister, hC.registers_eq h]
    exact hC.registers _ h
  | some v =>
    rw [Env.restoreRegister, Env.restoreRegister, hC.registers_eq h]
    exact hC.registers _ h

theorem insertRegister (hC : C.Sound) (h : C.envs env env') (name : Token) (v : Int) :
    C.envs { env with registers := env.registers.insert name v }
      { env' with registers := env'.registers.insert name v } :=
  hC.restoreRegister h name (some v)

theorem perform_corresponds (hC : C.Sound) {t : Token} (h : C.envs env env')
    (hm' : env'.meaning t = env.meaning t) (hbad : (perform inner t env).Avoids C.halts)
    (hinner : ∀ {word body}, env.meaning t = .ok (.call word body) →
      (inner body env).Corresponds C (inner' body env')) :
    (perform inner t env).Corresponds C (perform inner' t env') := by
  rcases hm : env.meaning t with e | v | b | ⟨word, body⟩ | r <;> rw [hm] at hm'
  · rw [perform_of_error hm, perform_of_error hm']
    exact corresponds_of_silent h _
  · rw [perform_of_value hm, perform_of_value hm']
    exact corresponds_of_silent (hC.push _ h) _
  · rw [perform_of_builtin hm] at hbad ⊢
    rw [perform_of_builtin hm']
    exact (hC.run b).lift _ _ h hbad
  · rw [perform_of_call hm, perform_of_call hm']
    exact corresponds_drop _ (hinner hm)
  · rw [perform_of_reference hm, perform_of_reference hm']
    exact corresponds_of_silent (hC.refer r h) _

theorem plus_corresponds (hC : C.Sound) (h : C.envs env env')
    (hbad : (plus inner env).Avoids C.halts) :
    (plus inner env).Corresponds C (plus inner' env') := by
  by_cases hr : ∃ name, env.Chooses name
  · obtain ⟨name, hr⟩ := hr
    rw [plus_of_chooses hr] at hbad ⊢
    rw [plus_of_chooses ((hC.chooses_iff h name).2 hr)]
    refine corresponds_mapError _ (hC.chooseCell h hr fun e he => ?_)
    exact hbad _ (lift_result_eq_error.2 ⟨e, rfl, he⟩)
  · have hr' : ¬∃ name, env'.Chooses name :=
      fun ⟨name, hn⟩ => hr ⟨name, (hC.chooses_iff h name).1 hn⟩
    rw [plus_of_not_chooses hr] at hbad ⊢
    rw [plus_of_not_chooses hr']
    -- The plus sign opens a form as well, but only the registers decide what else it means.
    exact hC.perform_corresponds h (meaning_plus_of_registers (hC.registers_eq h)) hbad
      fun hm => absurd hm (meaning_plus_ne_call _ _ _)

theorem choose_corresponds (hC : C.Sound) {branches : Except Halt Branches}
    (h : C.envs env env') (hbad : (choose inner branches env).Avoids C.halts)
    (hinner : ∀ {body env₁ env₁'}, Enters inner env (.conditional branches) body env₁ →
      C.envs env₁ env₁' → (inner body env₁).Corresponds C (inner' body env₁')) :
    (choose inner branches env).Corresponds C (choose inner' branches env') := by
  refine corresponds_bind hbad ((hC.pop _).lift _ _ h) fun {condition env₁ env₁' _} hs h₁ _ => ?_
  obtain ⟨stack, hstack, rfl⟩ := eq_of_lift_pop hs
  cases branches with
  | error e => exact corresponds_of_silent h₁ _
  | ok branches =>
    change (follow inner condition branches { env with stack }).Corresponds C
      (follow inner' condition branches env₁')
    rw [follow, follow]
    split
    · exact corresponds_of_silent h₁ _
    · next ht =>
      split
      · exact corresponds_of_silent h₁ _
      · next hf =>
        split
        · next hc => exact corresponds_drop _ (hinner (.whenTrue hstack hc ht hf) h₁)
        · next hc =>
          obtain rfl := Decidable.not_not.1 hc
          obtain ⟨whenTrue, _ | body⟩ := branches
          · exact corresponds_of_silent h₁ _
          · exact corresponds_drop _
              (hinner (.whenFalse hstack ht fun hb => hf (congrArg some hb)) h₁)

theorem repeatBody_corresponds (hC : C.Sound) {body : Except Halt Body} (h : C.envs env env')
    (hbad : (repeatBody inner body env).Avoids C.halts)
    (hinner : ∀ {body' env₁ env₁'}, Enters inner env (.loop body) body' env₁ →
      C.envs env₁ env₁' → (inner body' env₁).Corresponds C (inner' body' env₁')) :
    (repeatBody inner body env).Corresponds C (repeatBody inner' body env') := by
  rcases body with e | body
  · exact corresponds_of_silent h _
  · by_cases hb : body = []
    · subst hb
      exact corresponds_of_silent h _
    · rw [repeatBody, ofExcept_ok_bind, if_neg hb] at hbad ⊢
      rw [repeatBody, ofExcept_ok_bind, if_neg hb]
      refine corresponds_bind hbad ((hC.pop _).lift _ _ h)
        fun {last env₁ env₁' _} hs₁ h₁ hbad₁ => ?_
      obtain ⟨stack₁, hstack₁, rfl⟩ := eq_of_lift_pop hs₁
      refine corresponds_bind hbad₁ ((hC.pop _).lift _ _ h₁)
        fun {first env₂ env₂' _} hs₂ h₂ hbad₂ => ?_
      obtain ⟨stack, rfl, rfl⟩ := eq_of_lift_pop hs₂
      rw [state_bind, forCount_eq_forEach] at hbad₂ ⊢
      rw [state_bind, forCount_eq_forEach, hC.registers_eq h₂]
      -- The rounds are followed one by one, and so is the restoration of the register.
      have hrounds : (forEach (iterate inner body) (consecutive first (last - first).toNat)
          { env with stack }).Corresponds C
          (forEach (iterate inner' body) (consecutive first (last - first).toNat) env₂') :=
        corresponds_forEach h₂ hbad₂ fun hr hr₁ _ =>
          corresponds_drop _ (hinner (.round hb hstack₁ hr) (hC.insertRegister hr₁ counter _))
      exact ⟨hC.restoreRegister hrounds.state _ _, hrounds.output, hrounds.result⟩

/-- A command of a program can be followed if the bodies that it enters can. -/
theorem execute_corresponds (hC : C.Sound) {c : Command} {tokens : List Token}
    (hc : c ∈ Command.sequence tokens) (h : C.envs env env')
    (hbad : (execute inner c env).Avoids C.halts)
    (hinner : ∀ {body env₁ env₁'}, Enters inner env c body env₁ → C.envs env₁ env₁' →
      (inner body env₁).Corresponds C (inner' body env₁')) :
    (execute inner c env).Corresponds C (execute inner' c env') := by
  cases c with
  | define definition =>
    cases definition with
    | error e => exact corresponds_of_silent h _
    | ok d => exact corresponds_of_silent (hC.define d h) _
  | say text =>
    cases text with
    | error e => exact corresponds_of_silent h _
    | ok s => exact ⟨h, .cons (hC.text s) .nil, rfl⟩
  | conditional branches => exact hC.choose_corresponds h hbad hinner
  | loop body => exact hC.repeatBody_corresponds h hbad hinner
  | declare name =>
    cases name with
    | error e => exact corresponds_of_silent h _
    | ok name => exact (hC.declare name).lift _ _ h hbad
  | nameConstant name =>
    cases name with
    | error e => exact corresponds_of_silent h _
    | ok name => exact (hC.nameConstant name).lift _ _ h hbad
  | fetch => exact hC.fetch.lift _ _ h hbad
  | store => exact hC.store.lift _ _ h hbad
  | cells =>
    exact corresponds_bind hbad ((hC.top _).lift _ _ h) fun _ h₁ _ => corresponds_of_silent h₁ _
  | allot => exact hC.allot.lift _ _ h hbad
  | plus => exact hC.plus_corresponds h hbad
  | word t =>
    have hm' := hC.meaning h t (Command.not_mem_formNames_of_mem hc)
    exact hC.perform_corresponds h hm' hbad fun hm => hinner (.call hm) h

/-! ## Evaluations -/

theorem reporting_corresponds (hC : C.Sound) {m m' : Action Env Halt Unit}
    (h : (m env).Corresponds C (m' env')) :
    (reporting m env).Corresponds C (reporting m' env') := by
  obtain ⟨hstate, houtput, hresult⟩ := h
  rcases hs' : m' env' with ⟨env₁', shown', r⟩
  rcases hs : m env with ⟨env₁, shown, (e | x) | ⟨⟩⟩ <;> rw [hs, hs'] at hresult <;>
    rw [hs, hs'] at hstate houtput <;> subst hresult
  · rw [reporting_of_fault hs, reporting_of_fault hs']
    exact ⟨hstate, List.rel_append houtput (.cons (hC.report e) .nil), rfl⟩
  · rw [reporting_of_escape hs, reporting_of_escape hs']
    exact ⟨hstate, houtput, rfl⟩
  · rw [reporting_of_ok hs, reporting_of_ok hs']
    exact ⟨hstate, houtput, rfl⟩

/-- An evaluation can be followed, with as many levels or others, if none of its own commands fails
    with an excluded error and the bodies that these enter can be followed. -/
theorem evaluate_corresponds (hC : C.Sound) {depth depth' : Nat} {tokens : List Token}
    (h : C.envs env env')
    (hbad : ∀ {c env₁}, Reaches (execute (evaluate depth)) (Command.sequence tokens) env c env₁ →
      (execute (evaluate depth) c env₁).Avoids C.halts)
    (hinner : ∀ {c env₁ body env₂ env₂'},
      Reaches (execute (evaluate depth)) (Command.sequence tokens) env c env₁ →
      Enters (evaluate depth) env₁ c body env₂ → C.envs env₂ env₂' →
      (evaluate depth body env₂).Corresponds C (evaluate depth' body env₂')) :
    (evaluate (depth + 1) tokens env).Corresponds C (evaluate (depth' + 1) tokens env') := by
  rw [evaluate_succ, evaluate_succ]
  have hrun : (forEach (execute (evaluate depth)) (Command.sequence tokens) env).Avoids
      C.halts := by
    intro e he
    obtain ⟨c, env₁, hr, he⟩ := result_forEach_eq_error.1 he
    exact hbad hr e he
  refine hC.reporting_corresponds (corresponds_forEach h hrun fun hr h₁ hbad₁ => ?_)
  exact hC.execute_corresponds hr.mem h₁ hbad₁ fun he => hinner hr he

/-- An evaluation can be followed with as many levels, if nothing in it fails with an excluded
    error. -/
theorem evaluate_corresponds_of_moments (hC : C.Sound) {depth : Nat} {tokens : List Token}
    (h : C.envs env env')
    (hbad : ∀ m, Occurs depth tokens env m → m.outcome.Avoids C.halts) :
    (evaluate depth tokens env).Corresponds C (evaluate depth tokens env') := by
  induction depth generalizing tokens env env' with
  | zero => exact corresponds_of_silent h _
  | succ depth ih =>
    exact hC.evaluate_corresponds h (fun hr => hbad _ (.here hr)) fun hr he h₂ =>
      ih h₂ fun m hm => hbad m (.within hr he hm)

end Comparison.Sound

end Wordstack
