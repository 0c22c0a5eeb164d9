import Wordstack.Proofs.Forms
import Wordstack.Proofs.Primitives
import Wordstack.Proofs.Vocabulary

/-!
# What can go wrong where

Every kind of error has its place. A form that is read badly fails with the form, or with a numeral
too long to be read (`Scan.Halts`), and so do the commands that it becomes
(`Command.HasFault.halts`). A builtin fails for want of operands or divides by zero
(`Builtin.run_failsOnly`). A conditional and a loop fail for want of operands or because they have
an empty side; what goes wrong in their bodies only shows outside if it escapes
(`Evaluator.choose_failsOnly`, `Evaluator.repeatBody_failsOnly`). A word may have no meaning, or a
body that is nested too deeply. All other errors are those of operations on variables
(`Evaluator.execute_fails_cases`), which have causes of their own (`Evaluator.Operates.failsOnly`).
-/

namespace Wordstack

namespace Action

variable {σ ε ε' α β : Type} {Q R : ε → Prop}

/-- Every error of the action has the property. -/
def FailsOnly (Q : ε → Prop) (m : Action σ ε α) : Prop :=
  ∀ s e, (m s).result = .error e → Q e

theorem FailsOnly.mono {m : Action σ ε α} (hm : FailsOnly Q m) (h : ∀ e, Q e → R e) :
    FailsOnly R m :=
  fun s e he => h e (hm s e he)

theorem failsOnly_pure (a : α) : FailsOnly Q (pure a : Action σ ε α) := nofun

theorem failsOnly_state : FailsOnly Q (Action.state : Action σ ε σ) := nofun

theorem failsOnly_modify (f : σ → σ) : FailsOnly Q (modify f : Action σ ε Unit) := nofun

theorem failsOnly_emit (event : Event) : FailsOnly Q (emit event : Action σ ε Unit) := nofun

theorem failsOnly_fail {e : ε} (h : Q e) : FailsOnly Q (fail e : Action σ ε α) := by
  rintro s _ ⟨⟩
  exact h

theorem failsOnly_query {f : σ → Except ε α} (h : ∀ s e, f s = .error e → Q e) :
    FailsOnly Q (query f) := h

theorem failsOnly_ofExcept {r : Except ε α} (h : ∀ e, r = .error e → Q e) :
    FailsOnly Q (ofExcept r : Action σ ε α) :=
  fun _ e he => h e he

theorem FailsOnly.bind {m : Action σ ε α} {f : α → Action σ ε β} (hm : FailsOnly Q m)
    (hf : ∀ a, FailsOnly Q (f a)) : FailsOnly Q (m >>= f) := by
  intro s e he
  rcases hs : m s with ⟨s', shown, e' | a⟩
  · rw [bind_of_error hs] at he
    exact hm s e ((congrArg Outcome.result hs).trans (congrArg Except.error (Except.error.inj he)))
  · rw [bind_of_ok hs] at he
    exact hf a s' e he

theorem FailsOnly.mapError {Q : ε' → Prop} {m : Action σ ε α} {f : ε → ε'}
    (hm : FailsOnly (fun e => Q (f e)) m) : FailsOnly Q (m.mapError f) := by
  intro s e he
  rcases hs : m s with ⟨s', shown, e' | a⟩
  · rw [Action.mapError, hs] at he
    cases he
    exact hm s e' (congrArg Outcome.result hs)
  · rw [Action.mapError, hs] at he
    cases he

theorem FailsOnly.forEach {f : α → Action σ ε Unit} {l : List α} (hf : ∀ a, FailsOnly Q (f a)) :
    FailsOnly Q (forEach f l) := by
  induction l with
  | nil =>
    rw [forEach_nil]
    exact failsOnly_pure ()
  | cons a l ih =>
    rw [forEach_cons]
    exact (hf a).bind fun _ => ih

end Action

open Wordstack.Action Env

/-! ## Forms -/

/-- What a form can fail with when it is read. -/
inductive Scan.Halts : Halt → Prop
  | malformed (fault : FormFault) : Halts (.fault (.malformed fault))
  | escape (x : Escape) : Halts (.escape x)

namespace Scan

variable {h : Halt} {tokens : List Token}

theorem name_halts {kind : NameKind} (hn : (name kind tokens).result = .error h) : Halts h := by
  cases tokens with
  | nil =>
    cases hn
    exact .malformed _
  | cons t tokens =>
    rw [name] at hn
    split at hn
    · cases hn
    · cases hn
      exact .malformed _
    · cases hn
      exact .escape _

theorem string_halts (hs : (string tokens).result = .error h) : Halts h := by
  obtain ⟨-, rfl, -⟩ := string_eq_error_iff.1 (eq_of_result hs)
  exact .malformed _

theorem definition_halts (hd : (definition tokens).result = .error h) : Halts h := by
  have hr := readsDefinition tokens
  generalize definition tokens = s at hd hr
  cases hr with
  | escaped =>
    cases hd
    exact .escape _
  | closed => cases hd
  | missing | invalid | unclosed =>
    cases hd
    exact .malformed _

theorem conditional_halts (hc : (conditional tokens).result = .error h) : Halts h := by
  rw [conditional] at hc
  split at hc
  · cases hc
    exact .malformed _
  · cases hc

theorem loop_halts (hl : (loop tokens).result = .error h) : Halts h := by
  rw [loop] at hl
  split at hl
  · cases hl
    exact .malformed _
  · cases hl

end Scan

namespace Command

/-- The command is a form that was read badly. -/
def HasFault (h : Halt) : Command → Prop
  | .define r => r = .error h
  | .say r => r = .error h
  | .conditional r => r = .error h
  | .loop r => r = .error h
  | .declare r | .nameConstant r => r = .error h
  | _ => False

theorem halts_of_read {t : Token} {ts : List Token} {h : Halt}
    (hf : (read t ts).1.HasFault h) : Scan.Halts h := by
  by_cases ht : t ∈ formNames
  · simp only [formNames, List.mem_cons, List.not_mem_nil, or_false] at ht
    rcases ht with rfl | rfl | rfl | rfl | rfl | rfl | rfl | rfl | rfl | rfl | rfl
    · exact hf.elim
    · exact hf.elim
    · exact Scan.string_halts hf
    · exact Scan.definition_halts hf
    · exact hf.elim
    · exact hf.elim
    · exact hf.elim
    · exact Scan.name_halts hf
    · exact Scan.loop_halts hf
    · exact Scan.conditional_halts hf
    · exact Scan.name_halts hf
  · rw [read_of_not_mem ht] at hf
    exact hf.elim

theorem HasFault.halts {c : Command} {h : Halt} (hf : c.HasFault h) {tokens : List Token}
    (hc : c ∈ sequence tokens) : Scan.Halts h := by
  obtain ⟨t, ts, -, rfl⟩ := exists_read_of_mem hc
  exact halts_of_read hf

end Command

/-! ## Operands -/

/-- What an operation on operands can fail with. -/
inductive Builtin.Fault : Error → Prop
  | underflow (message : String) : Fault (.underflow message)
  | divisionByZero : Fault .divisionByZero

theorem Env.pop_failsOnly {Q : Error → Prop} {message : String} (h : Q (.underflow message)) :
    FailsOnly Q (pop message) := by
  intro env e he
  cases hs : env.stack with
  | nil =>
    rw [pop_of_nil hs] at he
    cases he
    exact h
  | cons v stack =>
    rw [pop_of_cons hs] at he
    cases he

theorem Env.top_failsOnly (message : String) : FailsOnly Builtin.Fault (top message) := by
  refine failsOnly_query fun env e he => ?_
  split at he
  · cases he
    exact .underflow message
  · cases he

theorem Env.require_failsOnly (count : Int) (message : String) :
    FailsOnly Builtin.Fault (require count message) := by
  refine failsOnly_query fun env e he => ?_
  split at he
  · cases he
    exact .underflow message
  · cases he

namespace Builtin

theorem binary_failsOnly (name : String) (op : Int → Int → Int) :
    FailsOnly Fault (binary name op) :=
  (pop_failsOnly (.underflow _)).bind fun _ =>
    (pop_failsOnly (.underflow _)).bind fun _ => failsOnly_modify _

theorem division_failsOnly (name : String) (op : Int → Int → Int) :
    FailsOnly Fault (division name op) :=
  (require_failsOnly 2 _).bind fun _ => failsOnly_state.bind fun env => by
    split
    · exact failsOnly_fail .divisionByZero
    · exact binary_failsOnly name op

theorem rearrange_failsOnly (name : String) (count : Int) (f : List Int → List Int) :
    FailsOnly Fault (rearrange name count f) :=
  (require_failsOnly count _).bind fun _ => failsOnly_modify _

/-- A builtin misses operands or divides by zero, if it fails. -/
theorem run_failsOnly (b : Builtin) : FailsOnly Fault b.run := by
  cases b with
  | add | subtract | multiply | conjunction | disjunction => exact binary_failsOnly _ _
  | divide | modulo => exact division_failsOnly _ _
  | equal | unequal | less | greater | lessOrEqual | greaterOrEqual =>
    exact binary_failsOnly _ _
  | complement => exact (pop_failsOnly (.underflow _)).bind fun _ => failsOnly_modify _
  | duplicate => exact (top_failsOnly _).bind fun _ => failsOnly_modify _
  | discard => exact (pop_failsOnly (.underflow _)).bind fun _ => failsOnly_pure _
  | exchange | duplicateSecond | rotate => exact rearrange_failsOnly _ _ _
  | print | printCharacter => exact (pop_failsOnly (.underflow _)).bind fun _ => failsOnly_emit _
  | printLineEnd => exact failsOnly_emit _
  | showStack | showWords | showVariables | showNames =>
    exact failsOnly_state.bind fun _ => failsOnly_emit _

end Builtin

/-! ## Variables -/

namespace Env

/-- What an operation on variables can fail with. -/
inductive Fault : Error → Prop
  | underflow (message : String) : Fault (.underflow message)
  | noReference (message : String) : Fault (.noReference message)
  | storage (fault : StorageFault) : Fault (.storage fault)

theorem popReference_failsOnly (message : String) : FailsOnly Fault (popReference message) := by
  intro env e he
  cases hr : env.references with
  | nil =>
    rw [popReference_of_nil hr] at he
    cases he
    exact .noReference message
  | cons r references =>
    rw [popReference_of_cons hr] at he
    cases he

theorem storageQuery_failsOnly {α : Type} (f : Env → Except StorageFault α) :
    FailsOnly Fault (storageQuery f) := by
  intro env e he
  rcases hf : f env with fault | a
  · rw [storageQuery_of_error hf] at he
    cases he
    exact .storage fault
  · rw [storageQuery_of_ok hf] at he
    cases he

theorem storageUpdate_failsOnly (f : Env → Except StorageFault Env) :
    FailsOnly Fault (storageUpdate f) := by
  intro env e he
  rcases hf : f env with fault | env'
  · rw [storageUpdate_of_error hf] at he
    cases he
    exact .storage fault
  · rw [storageUpdate_of_ok hf] at he
    cases he

theorem declare_failsOnly (name : Token) : FailsOnly Fault (declare name) :=
  (storageUpdate_failsOnly _).bind fun _ => failsOnly_modify _

theorem fetch_failsOnly : FailsOnly Fault fetch :=
  (popReference_failsOnly _).bind fun r => by
    split <;> exact (storageQuery_failsOnly _).bind fun _ => failsOnly_modify _

theorem store_failsOnly : FailsOnly Fault store :=
  (popReference_failsOnly _).bind fun r => by
    split <;> exact (storageQuery_failsOnly _).bind fun _ =>
      (pop_failsOnly (.underflow _)).bind fun _ => storageUpdate_failsOnly _

theorem allot_failsOnly : FailsOnly Fault allot :=
  failsOnly_state.bind fun env => by
    split
    · exact failsOnly_fail (.noReference _)
    · split
      · exact failsOnly_fail (.storage _)
      · exact (pop_failsOnly (.underflow _)).bind fun _ => (popReference_failsOnly _).bind fun _ =>
          storageUpdate_failsOnly _

end Env

/-! ## Blocks and words -/

namespace Evaluator

variable {inner : Evaluator}

/-- What a command can fail with that neither is a word nor operates on variables. Of what goes
    wrong in a body, it fails with escapes only. -/
inductive OwnFault : Halt → Prop
  | underflow (message : String) : OwnFault (.fault (.underflow message))
  | malformed (fault : FormFault) : OwnFault (.fault (.malformed fault))
  | divisionByZero : OwnFault (.fault .divisionByZero)
  | escape (x : Escape) : OwnFault (.escape x)

/-- What a word can fail with besides: it has no meaning, or its body is nested too deeply. -/
inductive Fault : Halt → Prop
  | underflow (message : String) : Fault (.fault (.underflow message))
  | malformed (fault : FormFault) : Fault (.fault (.malformed fault))
  | divisionByZero : Fault (.fault .divisionByZero)
  | unbound (t : Token) : Fault (.fault (.unbound t))
  | recursionTooDeep (word : Token) : Fault (.fault (.recursionTooDeep word))
  | escape (x : Escape) : Fault (.escape x)

theorem OwnFault.fault {h : Halt} (hf : OwnFault h) : Fault h := by
  cases hf with
  | underflow message => exact .underflow message
  | malformed fault => exact .malformed fault
  | divisionByZero => exact .divisionByZero
  | escape x => exact .escape x

theorem ownFault_of_builtin {e : Error} (h : Builtin.Fault e) : OwnFault (.fault e) := by
  cases h with
  | underflow message => exact .underflow message
  | divisionByZero => exact .divisionByZero

theorem ownFault_of_halts {h : Halt} (hs : Scan.Halts h) : OwnFault h := by
  cases hs with
  | malformed fault => exact .malformed fault
  | escape x => exact .escape x

/-- An operation on operands fails as such when it is part of a command. -/
theorem lift_failsOnly {α : Type} {m : Action Env Error α} (hm : FailsOnly Builtin.Fault m) :
    FailsOnly OwnFault (liftM m : Action Env Halt α) :=
  FailsOnly.mapError (hm.mono fun _ => ownFault_of_builtin)

theorem enter_failsOnly (body : Body) : FailsOnly OwnFault (enter inner body) := by
  refine FailsOnly.bind (FailsOnly.mapError fun _ _ _ => .escape _) fun _ => failsOnly_pure _

theorem call_failsOnly (word : Token) (body : Body) : FailsOnly Fault (call inner word body) := by
  refine FailsOnly.bind (FailsOnly.mapError fun _ x _ => ?_) fun _ => failsOnly_pure _
  cases x with
  | oversized digits => exact .escape _
  -- Nowhere else does a nesting that is too deep become an error.
  | tooDeep => exact .recursionTooDeep word

theorem perform_failsOnly (t : Token) : FailsOnly Fault (perform inner t) := by
  refine FailsOnly.bind (failsOnly_query fun env h hm => ?_) fun m => ?_
  · rcases eq_of_meaning_eq_error hm with rfl | ⟨x, rfl⟩
    · exact .unbound t
    · exact .escape x
  · cases m with
    | value v => exact failsOnly_modify _
    | builtin b => exact (lift_failsOnly b.run_failsOnly).mono fun _ => OwnFault.fault
    | call word body => exact call_failsOnly word body
    | reference r => exact failsOnly_modify _

theorem choose_failsOnly {branches : Except Halt Branches}
    (hb : ∀ h, branches = .error h → Scan.Halts h) :
    FailsOnly OwnFault (choose inner branches) := by
  refine FailsOnly.bind (lift_failsOnly (pop_failsOnly (.underflow _))) fun condition =>
    FailsOnly.bind (failsOnly_ofExcept fun h he => ownFault_of_halts (hb h he)) fun branches => ?_
  split
  · exact failsOnly_fail (.malformed _)
  · split
    · exact failsOnly_fail (.malformed _)
    · split
      · exact enter_failsOnly _
      · split
        · exact enter_failsOnly _
        · exact failsOnly_pure _

theorem repeatBody_failsOnly {body : Except Halt Body}
    (hb : ∀ h, body = .error h → Scan.Halts h) : FailsOnly OwnFault (repeatBody inner body) := by
  refine FailsOnly.bind (failsOnly_ofExcept fun h he => ownFault_of_halts (hb h he)) fun body => ?_
  split
  · exact failsOnly_fail (.malformed _)
  · refine FailsOnly.bind (lift_failsOnly (pop_failsOnly (.underflow _))) fun last =>
      FailsOnly.bind (lift_failsOnly (pop_failsOnly (.underflow _))) fun first =>
        FailsOnly.bind failsOnly_state fun env => ?_
    -- To restore the register changes nothing about how the rounds end.
    rw [forCount_eq_forEach]
    exact FailsOnly.forEach fun v =>
      FailsOnly.bind (failsOnly_modify _) fun _ => enter_failsOnly body

/-- The commands that operate on variables, with their operations. -/
inductive Operates : Command → Action Env Error Unit → Prop
  | declare (name : Token) : Operates (.declare (.ok name)) (Env.declare name)
  | fetch : Operates .fetch Env.fetch
  | store : Operates .store Env.store
  | allot : Operates .allot Env.allot

theorem Operates.failsOnly {c : Command} {m : Action Env Error Unit} (ho : Operates c m) :
    FailsOnly Env.Fault m := by
  cases ho with
  | declare name => exact declare_failsOnly name
  | fetch => exact fetch_failsOnly
  | store => exact store_failsOnly
  | allot => exact allot_failsOnly

variable {env : Env} {h : Halt}

/-- The plus sign fails for want of an operand, or it fails as a word. -/
theorem plus_fails (he : (plus inner env).result = .error h) :
    OwnFault h ∨ (perform inner "+" env).result = .error h := by
  by_cases hr : ∃ name, env.Chooses name
  · obtain ⟨name, hr⟩ := hr
    rw [plus_of_chooses hr] at he
    have hf : FailsOnly Builtin.Fault (chooseCell name) :=
      (pop_failsOnly (.underflow _)).bind fun _ => failsOnly_modify _
    exact .inl (lift_failsOnly hf env h he)
  · rw [plus_of_not_chooses hr] at he
    exact .inr he

/-- A command that is read from tokens fails because of its form or of operands, or as a word does,
    or it is an operation on variables that fails. -/
theorem execute_fails_cases {c : Command} {tokens : List Token}
    (hc : c ∈ Command.sequence tokens) (he : (execute inner c env).result = .error h) :
    OwnFault h ∨
      (∃ t, (c = .word t ∨ c = .plus ∧ t = "+") ∧ (perform inner t env).result = .error h) ∨
      ∃ m e, Operates c m ∧ h = .fault e ∧ (m env).result = .error e := by
  -- Where a form was read badly, it fails with that.
  have hform (hf : c.HasFault h) : OwnFault h := ownFault_of_halts (hf.halts hc)
  have hlift {m : Action Env Error Unit} (ho : Operates c m)
      (he : ((liftM m : Action Env Halt Unit) env).result = .error h) :
      ∃ m e, Operates c m ∧ h = .fault e ∧ (m env).result = .error e := by
    obtain ⟨e, rfl, hm⟩ := lift_result_eq_error.1 he
    exact ⟨m, e, ho, rfl, hm⟩
  cases c with
  | define r =>
    rcases r with h' | d <;> cases he
    exact .inl (hform rfl)
  | say r =>
    rcases r with h' | text <;> cases he
    exact .inl (hform rfl)
  | conditional r =>
    exact .inl (choose_failsOnly
      (fun h' (hr : (Command.conditional r).HasFault h') => hr.halts hc) env h he)
  | loop r =>
    exact .inl (repeatBody_failsOnly
      (fun h' (hr : (Command.loop r).HasFault h') => hr.halts hc) env h he)
  | declare r =>
    rcases r with h' | name
    · cases he
      exact .inl (hform rfl)
    · exact .inr (.inr (hlift (.declare name) he))
  | nameConstant r =>
    rcases r with h' | name
    · cases he
      exact .inl (hform rfl)
    · have hf : FailsOnly Builtin.Fault (nameConstant name) :=
        (pop_failsOnly (.underflow _)).bind fun _ => failsOnly_modify _
      exact .inl (lift_failsOnly hf env h he)
  | fetch => exact .inr (.inr (hlift .fetch he))
  | store => exact .inr (.inr (hlift .store he))
  | cells =>
    have hf : FailsOnly OwnFault (execute inner .cells) :=
      (lift_failsOnly (top_failsOnly _)).bind fun _ => failsOnly_pure _
    exact .inl (hf env h he)
  | allot => exact .inr (.inr (hlift .allot he))
  | plus =>
    rcases plus_fails he with hf | hf
    · exact .inl hf
    · exact .inr (.inl ⟨"+", .inr ⟨rfl, rfl⟩, hf⟩)
  | word t => exact .inr (.inl ⟨t, .inl rfl, he⟩)

/-- So what a command fails with is known, but for operations on variables. -/
theorem execute_fails {c : Command} {tokens : List Token} (hc : c ∈ Command.sequence tokens)
    (he : (execute inner c env).result = .error h) :
    Fault h ∨ ∃ m e, Operates c m ∧ h = .fault e ∧ (m env).result = .error e := by
  rcases execute_fails_cases hc he with hf | ⟨t, -, ht⟩ | ho
  · exact .inl hf.fault
  · exact .inl (perform_failsOnly t env h ht)
  · exact .inr ho

end Evaluator

end Wordstack
