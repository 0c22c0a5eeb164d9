import Mathlib
import Wordstack.Proofs.Faults
import Wordstack.Proofs.FixedNames
import Wordstack.Proofs.Operands

/-!
# What a failure costs

A word with a fixed meaning that fails has shown nothing and has changed nothing but the two stacks,
and these only by what it had already taken when it failed. Most of them look before they take
(`Action.FailsFirst`). The exceptions are few: operations that take the upper of two operands and
then miss the lower one, conditionals that take a condition before they look at their sides, loops
that miss the second bound, and allotments that are not possible (`Env.spends`). A fetch, a store
and such an allotment take a reference (`Env.spendsReference`).

So it is known exactly what is left after a failure (`execute_of_fixedNames`). What goes wrong in
the body of a conditional or of a loop is no failure of theirs (`Evaluator.enter_escapes`).
-/

namespace Wordstack

open Wordstack.Action Env

/-! ## Failures before anything is done -/

namespace Action

variable {σ ε α β : Type}

/-- The action fails only where it has done and shown nothing. -/
def FailsFirst (m : Action σ ε α) : Prop :=
  ∀ s e, (m s).result = .error e → m s = ⟨s, [], .error e⟩

/-- The action fails nowhere. -/
abbrev NeverFails (m : Action σ ε α) : Prop :=
  FailsOnly (fun _ => False) m

/-- The action fails only by escaping. -/
abbrev OnlyEscapes (m : Action σ Halt α) : Prop :=
  FailsOnly (fun h => ∃ x, h = .escape x) m

theorem failsFirst_query (f : σ → Except ε α) : FailsFirst (query f) := by
  intro s e h
  have h : f s = .error e := h
  rw [query, h]

theorem failsFirst_update (f : σ → Except ε σ) : FailsFirst (update f) := by
  intro s e h
  rw [update] at h ⊢
  split at h
  · cases h
  · cases h
    rfl

theorem FailsFirst.bind {m : Action σ ε α} {f : α → Action σ ε β} (hm : FailsFirst m)
    (hf : ∀ a, NeverFails (f a)) : FailsFirst (m >>= f) := by
  intro s e h
  rcases hs : m s with ⟨s', shown, e' | a⟩
  · rw [bind_of_error hs] at h ⊢
    cases h
    cases hs.symm.trans (hm s e (congrArg Outcome.result hs))
    rfl
  · rw [bind_of_ok hs] at h
    exact (hf a s' e h).elim

theorem NeverFails.failsFirst {m : Action σ ε α} (hm : NeverFails m) : FailsFirst m :=
  fun s e h => (hm s e h).elim

/-- What depends on a form fails first if it does for every content. -/
theorem failsFirst_ofExcept {r : Except ε α} {f : α → Action σ ε β} (hf : ∀ a, FailsFirst (f a)) :
    FailsFirst (ofExcept r >>= f) := by
  rcases r with e | a
  · intro s e' h
    cases h
    rfl
  · exact hf a

theorem FailsFirst.lift {m : Action σ Error α} (hm : FailsFirst m) :
    FailsFirst (liftM m : Action σ Halt α) := by
  intro s h he
  obtain ⟨e, rfl, hr⟩ := lift_result_eq_error.1 he
  exact lift_of_error (hm s e hr)

end Action

namespace Env

theorem pop_failsFirst (message : String) : FailsFirst (pop message) := by
  intro env e h
  rcases hs : env.stack with _ | ⟨v, stack⟩
  · rw [pop_of_nil hs] at h ⊢
    cases h
    rfl
  · rw [pop_of_cons hs] at h
    cases h

theorem declare_failsFirst (name : Token) : FailsFirst (declare name) :=
  (failsFirst_update _).bind fun _ => failsOnly_modify _

theorem nameConstant_failsFirst (name : Token) : FailsFirst (nameConstant name) :=
  (pop_failsFirst _).bind fun _ => failsOnly_modify _

theorem chooseCell_failsFirst (name : Token) : FailsFirst (chooseCell name) :=
  (pop_failsFirst _).bind fun _ => failsOnly_modify _

end Env

/-! ## Builtins -/

namespace Builtin

/-- Whether a builtin takes the upper of two operands before it looks for the lower one. -/
def takesFirst : Builtin → Bool
  | add | subtract | multiply | conjunction | disjunction => true
  | equal | unequal | less | greater | lessOrEqual | greaterOrEqual => true
  | _ => false

/-- These are arithmetic without division, and comparisons. -/
example : (table.filter fun e => e.2.takesFirst).map Prod.fst
    = ["!=", "*", "+", "-", "<", "<=", "<>", "=", ">", ">=", "and", "or"] := by
  decide

variable {env : Env} {name : String} {op : Int → Int → Int} {b : Builtin} {e : Error}

theorem exists_binary_of_takesFirst (h : b.takesFirst = true) :
    ∃ name op, b.run = binary name op := by
  cases b with
  | add | subtract | multiply | conjunction | disjunction => exact ⟨_, _, rfl⟩
  | equal | unequal | less | greater | lessOrEqual | greaterOrEqual => exact ⟨_, _, rfl⟩
  | _ => cases h

theorem division_failsFirst (name : String) (op : Int → Int → Int) :
    FailsFirst (division name op) := by
  intro env e h
  by_cases hl : env.stack.length < (2 : Int)
  · rw [division_of_lt hl] at h ⊢
    cases h
    rfl
  · obtain ⟨x, y, stack, hs⟩ := exists_pair (Int.ofNat_le.1 (Int.not_lt.1 hl))
    rw [division_of_cons hs] at h ⊢
    split at h
    · next hx =>
      rw [if_pos hx]
      cases h
      rfl
    · rw [binary_of_cons hs] at h
      cases h

theorem run_failsFirst (hb : b.takesFirst = false) : FailsFirst b.run := by
  cases b with
  | divide | modulo => exact division_failsFirst _ _
  | complement => exact (pop_failsFirst _).bind fun _ => failsOnly_modify _
  | duplicate => exact (failsFirst_query _).bind fun _ => failsOnly_modify _
  | discard => exact (pop_failsFirst _).bind fun _ => failsOnly_pure _
  | exchange | duplicateSecond | rotate =>
    exact (failsFirst_query _).bind fun _ => failsOnly_modify _
  | print | printCharacter => exact (pop_failsFirst _).bind fun _ => failsOnly_emit _
  | printLineEnd => exact NeverFails.failsFirst (failsOnly_emit _)
  | showStack | showWords | showVariables | showNames =>
    exact NeverFails.failsFirst (failsOnly_state.bind fun _ => failsOnly_emit _)
  | _ => cases hb

/-- A builtin that fails leaves the environment as it was, but for a single operand that it has
    taken. -/
theorem run_of_error (h : (b.run env).result = .error e) :
    b.run env = ⟨{ env with
        stack := if b.takesFirst = true ∧ env.stack.length = 1 then env.stack.tail else env.stack },
      [], .error e⟩ := by
  rcases hb : b.takesFirst with _ | _
  · rw [run_failsFirst hb env e h]
    simp
  · obtain ⟨name, op, hr⟩ := exists_binary_of_takesFirst hb
    rw [hr] at h ⊢
    rcases hs : env.stack with _ | ⟨x, _ | ⟨y, stack⟩⟩
    · rw [binary_of_nil hs] at h ⊢
      cases h
      rw [if_neg (by simp), ← hs]
    · rw [binary_of_singleton hs] at h ⊢
      cases h
      rfl
    · rw [binary_of_cons hs] at h
      cases h

end Builtin

/-! ## What is taken before the failure -/

namespace Env

/-- Whether the token means a builtin that takes the only operand before it fails. -/
def spendsOn (env : Env) (t : Token) : Bool :=
  match env.meaning t with
  | .ok (.builtin b) => b.takesFirst && env.stack.length == 1
  | _ => false

/-- Whether the variable is a scalar that an array of the length can be made of. -/
def canAllot (env : Env) (name : Token) (length : Int) : Bool :=
  match env.storage.get? name with
  | some (.scalar _) => 0 ≤ length
  | _ => false

/-- Whether a command fails after it has taken an operand: an operation on two operands that has
    one, a conditional that does not end or has nothing to do on one of its sides, a loop with one
    of its bounds, an allotment for a scalar that has a length but cannot be made. -/
def spends (env : Env) : Command → Bool
  | .word t => env.spendsOn t
  | .plus =>
    match env.references with
    | ⟨_, some _⟩ :: _ => false
    | _ => env.spendsOn "+"
  | .conditional branches =>
    env.stack != [] &&
      match branches with
      | .error _ => true
      | .ok branches => branches.whenTrue == [] || branches.whenFalse == some []
  | .loop (.ok body) => body != [] && env.stack.length == 1
  | .allot =>
    match env.references, env.stack with
    | ⟨name, none⟩ :: _, length :: _ => !env.canAllot name length
    | _, _ => false
  | _ => false

/-- Whether a command that fails has taken the top reference, if there was one. -/
def spendsReference (env : Env) : Command → Bool
  | .fetch | .store => true
  | .allot => env.spends .allot
  | _ => false

/-- What a command leaves of the environment if it fails. -/
def remains (env : Env) (c : Command) : Env :=
  { env with
    stack := if env.spends c then env.stack.tail else env.stack
    references := if env.spendsReference c then env.references.tail else env.references }

variable {env : Env} {c : Command}

theorem remains_eq_self (hs : env.spends c = false) (hr : env.spendsReference c = false) :
    env.remains c = env := by
  rw [remains, hs, hr]
  rfl

/-- Nothing but the two stacks is touched. -/
theorem remains_of_not_spendsReference (hr : env.spendsReference c = false) :
    env.remains c
      = { env with stack := if env.spends c then env.stack.tail else env.stack } := by
  rw [remains, hr]
  rfl

end Env

namespace Evaluator

variable {inner : Evaluator} {env : Env} {c : Command} {h : Halt} {e : Error} {t : Token}

/-- The command fails where it spends an operand, and wherever it fails, it leaves what remains and
    has shown nothing. -/
structure Loses (inner : Evaluator) (c : Command) (env : Env) : Prop where
  fails : env.spends c = true → ∃ e, (execute inner c env).result = .error (.fault e)
  remains : ∀ e, (execute inner c env).result = .error (.fault e) →
    execute inner c env = ⟨env.remains c, [], .error (.fault e)⟩

theorem loses_of_failsFirst (hf : FailsFirst (execute inner c)) (hs : env.spends c = false)
    (hr : env.spendsReference c = false) : Loses inner c env where
  fails h := by simp [hs] at h
  remains e he := by rw [hf env _ he, remains_eq_self hs hr]

/-- A command that fails loses what is foreseen if that is what it leaves. -/
theorem loses_of_error {env' : Env} (he : execute inner c env = ⟨env', [], .error (.fault e)⟩)
    (hr : env.remains c = env') : Loses inner c env where
  fails _ := ⟨e, congrArg Outcome.result he⟩
  remains e' he' := by
    rw [he] at he' ⊢
    cases he'
    rw [hr]

/-- A command that does not fail, unless it escapes, loses nothing. -/
theorem loses_of_escapes {m : Action Env Halt Unit} {env' : Env}
    (hm : OnlyEscapes m)
    (he : (execute inner c env).result = (m env').result) (hs : env.spends c = false) :
    Loses inner c env := by
  have hne (e : Error) : (execute inner c env).result ≠ .error (.fault e) := fun h => by
    obtain ⟨x, hx⟩ := hm env' _ (he.symm.trans h)
    cases hx
  exact ⟨fun h => by simp [hs] at h, fun e h => (hne e h).elim⟩

/-! ## Forms that are read and done -/

theorem define_loses (r : Except Halt Definition) : Loses inner (.define r) env :=
  loses_of_failsFirst (failsFirst_ofExcept fun _ =>
    (NeverFails.failsFirst (failsOnly_modify _)).lift) rfl rfl

theorem say_loses (r : Except Halt String) : Loses inner (.say r) env :=
  loses_of_failsFirst (failsFirst_ofExcept fun _ =>
    NeverFails.failsFirst (failsOnly_emit _)) rfl rfl

theorem declare_loses (r : Except Halt Token) : Loses inner (.declare r) env :=
  loses_of_failsFirst (failsFirst_ofExcept fun name => (declare_failsFirst name).lift) rfl rfl

theorem nameConstant_loses (r : Except Halt Token) : Loses inner (.nameConstant r) env :=
  loses_of_failsFirst (failsFirst_ofExcept fun name => (nameConstant_failsFirst name).lift) rfl rfl

theorem cells_loses : Loses inner .cells env :=
  loses_of_failsFirst ((failsFirst_query _).lift.bind fun _ => failsOnly_pure _) rfl rfl

/-! ## Words -/

theorem perform_fails_of_spendsOn (hs : env.spendsOn t = true) :
    ∃ e, (perform inner t env).result = .error (.fault e) := by
  rw [spendsOn] at hs
  split at hs
  · next b hm =>
    simp only [Bool.and_eq_true, beq_iff_eq] at hs
    obtain ⟨name, op, ho⟩ := Builtin.exists_binary_of_takesFirst hs.1
    obtain ⟨x, hx⟩ := List.length_eq_one_iff.1 hs.2
    rw [perform_of_builtin hm, ho, lift_of_error (Builtin.binary_of_singleton hx)]
    exact ⟨_, rfl⟩
  · cases hs

/-- A token that names a builtin fails as the builtin, if it fails. -/
theorem perform_of_fault {b : Builtin} (hb : Builtin.ofName? t = some b)
    (he : (perform inner t env).result = .error (.fault e)) :
    perform inner t env
      = ⟨{ env with stack := if env.spendsOn t then env.stack.tail else env.stack }, [],
          .error (.fault e)⟩ := by
  rcases hr : env.registers.get? t with _ | v
  · have hm := meaning_of_builtin hr hb
    rw [perform_of_builtin hm] at he ⊢
    obtain ⟨e, ⟨⟩, he⟩ := lift_result_eq_error.1 he
    rw [lift_of_error (Builtin.run_of_error he), spendsOn, hm]
    simp
  · rw [perform_of_value (meaning_of_register hr)] at he
    cases he

theorem word_loses {b : Builtin} (hb : Builtin.ofName? t = some b) :
    Loses inner (.word t) env where
  fails := perform_fails_of_spendsOn
  remains e he := by
    rw [remains_of_not_spendsReference rfl]
    exact perform_of_fault hb he

theorem spends_plus_of_chooses {name : Token} (hc : env.Chooses name) :
    env.spends .plus = false := by
  obtain ⟨position, references, hr⟩ := hc
  rw [spends, hr]
  rfl

theorem spends_plus_of_not_chooses (hc : ¬∃ name, env.Chooses name) :
    env.spends .plus = env.spendsOn "+" := by
  rw [spends]
  split
  · next name position references hr => exact absurd ⟨name, position, references, hr⟩ hc
  · rfl

theorem plus_loses : Loses inner .plus env := by
  by_cases hc : ∃ name, env.Chooses name
  · obtain ⟨name, hc⟩ := hc
    have hs := spends_plus_of_chooses hc
    have he : execute inner .plus env = _ := plus_of_chooses hc
    refine ⟨fun h => by simp [hs] at h, fun e h => ?_⟩
    rw [he] at h ⊢
    rw [(chooseCell_failsFirst name).lift env _ h, remains_eq_self hs rfl]
  · have hs := spends_plus_of_not_chooses hc
    have he : execute inner .plus env = _ := plus_of_not_chooses hc
    refine ⟨fun h => ?_, fun e h => ?_⟩
    · rw [he]
      exact perform_fails_of_spendsOn (hs ▸ h)
    · have hb : Builtin.ofName? "+" = some .add := rfl
      rw [he] at h ⊢
      rw [perform_of_fault hb h, remains_of_not_spendsReference rfl, hs]

/-! ## Blocks -/

/-- What goes wrong in a body is no failure outside. -/
theorem enter_escapes (body : Body) : OnlyEscapes (enter inner body) :=
  FailsOnly.bind (FailsOnly.mapError fun _ x _ => ⟨x, rfl⟩) fun _ => failsOnly_pure _

theorem follow_escapes {branches : Branches} (ht : branches.whenTrue ≠ [])
    (hf : branches.whenFalse ≠ some []) (condition : Int) :
    OnlyEscapes (follow inner condition branches) := by
  rw [follow, if_neg ht, if_neg hf]
  split
  · exact enter_escapes _
  · split
    · exact enter_escapes _
    · exact failsOnly_pure _

theorem conditional_loses {branches : Except Halt Branches}
    (hb : ∀ h, branches = .error h → ∃ e, h = .fault e) :
    Loses inner (.conditional branches) env := by
  rcases hs : env.stack with _ | ⟨condition, stack⟩
  · refine loses_of_error (choose_of_nil hs branches) ?_
    exact remains_eq_self (by simp [spends, hs]) rfl
  · rcases branches with h | branches
    · obtain ⟨e, rfl⟩ := hb h rfl
      refine loses_of_error (choose_error_of_cons hs _) ?_
      simp [remains, spends, spendsReference, hs]
    · have he : execute inner (.conditional (.ok branches)) env = _ :=
        choose_ok_of_cons hs branches
      by_cases ht : branches.whenTrue = []
      · refine loses_of_error (he.trans (by rw [follow, if_pos ht]; rfl)) ?_
        simp [remains, spends, spendsReference, hs, ht]
      by_cases hf : branches.whenFalse = some []
      · refine loses_of_error (he.trans (by rw [follow, if_neg ht, if_pos hf]; rfl)) ?_
        simp [remains, spends, spendsReference, hs, hf]
      · refine loses_of_escapes (follow_escapes ht hf condition) (congrArg _ he) ?_
        simp [spends, ht, hf]

theorem loop_loses (body : Except Halt Body) : Loses inner (.loop body) env := by
  rcases body with h | body
  · exact loses_of_failsFirst (fun _ _ h => by cases h; rfl) rfl rfl
  by_cases hb : body = []
  · subst hb
    exact loses_of_failsFirst (fun _ _ h => by cases h; rfl) rfl rfl
  rcases hs : env.stack with _ | ⟨last, _ | ⟨first, stack⟩⟩
  · refine loses_of_error (repeatBody_of_nil hb hs) ?_
    exact remains_eq_self (by simp [spends, hs]) rfl
  · refine loses_of_error (repeatBody_of_singleton hb hs) ?_
    simp [remains, spends, spendsReference, hs, hb]
  · have he : execute inner (.loop (.ok body)) env = _ := repeatBody_of_cons hb hs
    rw [forCount_eq_forEach] at he
    have hf : OnlyEscapes
        (forEach (iterate inner body) (consecutive first (last - first).toNat)) :=
      FailsOnly.forEach fun v => (failsOnly_modify _).bind fun _ => enter_escapes body
    -- To restore the register changes nothing about how the rounds end.
    exact loses_of_escapes hf (congrArg Outcome.result he :) (by simp [spends, hs])

end Evaluator

/-! ## Variables -/

namespace Env

variable {env : Env} {e : Error}

/-- A fetch that fails has taken the reference. -/
theorem fetch_of_error (h : (fetch env).result = .error e) :
    fetch env = ⟨{ env with references := env.references.tail }, [], .error e⟩ := by
  rcases hr : env.references with _ | ⟨⟨name, _ | position⟩, references⟩
  · rw [fetch_of_nil hr] at h ⊢
    cases h
    rw [List.tail_nil, ← hr]
  · rcases hs : env.scalar name with fault | v
    · rw [fetch_scalar_error hr hs] at h ⊢
      cases h
      rfl
    · rw [fetch_scalar_ok hr hs] at h
      cases h
  · rcases hs : env.slot name position with fault | v
    · rw [fetch_cell_error hr hs] at h ⊢
      cases h
      rfl
    · rw [fetch_cell_ok hr hs] at h
      cases h

/-- A store that fails has taken the reference, and the operand is still there. -/
theorem store_of_error (h : (store env).result = .error e) :
    store env = ⟨{ env with references := env.references.tail }, [], .error e⟩ := by
  rcases hr : env.references with _ | ⟨⟨name, _ | position⟩, references⟩
  · rw [store_of_nil hr] at h ⊢
    cases h
    rw [List.tail_nil, ← hr]
  · rcases hs : env.scalar name with fault | v
    · rw [store_scalar_error hr hs] at h ⊢
      cases h
      rfl
    rcases hv : env.stack with _ | ⟨w, stack⟩
    · rw [store_scalar_underflow hr hs hv] at h ⊢
      cases h
      rw [← hv]
      rfl
    · rw [store_scalar_ok hr hs hv] at h
      cases h
  · rcases hs : env.slot name position with fault | v
    · rw [store_cell_error hr hs] at h ⊢
      cases h
      rfl
    rcases hv : env.stack with _ | ⟨w, stack⟩
    · rw [store_cell_underflow hr hs hv] at h ⊢
      cases h
      rw [← hv]
      rfl
    · rw [store_cell_ok hr hs hv] at h
      cases h

theorem allotArray_of_canAllot {name : Token} {length : Int}
    (h : env.canAllot name length = true) : ∃ env', env.allotArray name length = .ok env' := by
  rw [canAllot] at h
  split at h
  · next v hv =>
    rw [allotArray_of_scalar hv, if_neg (Int.not_lt.2 (of_decide_eq_true h))]
    exact ⟨_, rfl⟩
  · cases h

theorem allotArray_of_not_canAllot {name : Token} {length : Int}
    (h : env.canAllot name length = false) :
    ∃ fault, env.allotArray name length = .error fault := by
  rcases ha : env.allotArray name length with fault | env'
  · exact ⟨fault, rfl⟩
  · obtain ⟨v, hv, hl, -⟩ := eq_of_allotArray ha
    simp [canAllot, hv, hl] at h

end Env

namespace Evaluator

variable {inner : Evaluator} {env : Env}

theorem fetch_loses : Loses inner .fetch env where
  fails := nofun
  remains e h := by
    obtain ⟨e, ⟨⟩, h⟩ := lift_result_eq_error.1 h
    exact lift_of_error (fetch_of_error h)

theorem store_loses : Loses inner .store env where
  fails := nofun
  remains e h := by
    obtain ⟨e, ⟨⟩, h⟩ := lift_result_eq_error.1 h
    exact lift_of_error (store_of_error h)

theorem allot_loses : Loses inner .allot env := by
  rcases hr : env.references with _ | ⟨⟨name, _ | position⟩, references⟩
  · refine loses_of_error (lift_of_error (allot_of_nil hr)) ?_
    exact remains_eq_self (by simp [spends, hr]) (by simp [spendsReference, spends, hr])
  · rcases hs : env.stack with _ | ⟨length, stack⟩
    · refine loses_of_error (lift_of_error (allot_underflow hr hs)) ?_
      exact remains_eq_self (by simp [spends, hr, hs]) (by simp [spendsReference, spends, hr, hs])
    -- The length and the reference are taken, and then only the variable matters.
    rcases hc : env.canAllot name length with _ | _
    · have hc' : canAllot { env with references, stack } name length = false := hc
      obtain ⟨fault, hf⟩ := allotArray_of_not_canAllot hc'
      have ha := (allot_of_cons hr hs).trans (storageUpdate_of_error hf)
      refine loses_of_error (lift_of_error ha) ?_
      simp [remains, spendsReference, spends, hr, hs, hc]
    · have hc' : canAllot { env with references, stack } name length = true := hc
      obtain ⟨env', he⟩ := allotArray_of_canAllot hc'
      have ha := (allot_of_cons hr hs).trans (storageUpdate_of_ok he)
      have hl : execute inner .allot env = _ := lift_of_ok ha
      exact loses_of_escapes (failsOnly_pure ()) (congrArg Outcome.result hl :)
        (by simp [spends, hr, hs, hc])
  · refine loses_of_error (lift_of_error (allot_of_cell hr)) ?_
    exact remains_eq_self (by simp [spends, hr]) (by simp [spendsReference, spends, hr])

/-! ## All commands -/

/-- What is wrong with the form of a conditional is an error. -/
theorem conditional_fault {ts : List Token} {h : Halt}
    (hc : (Scan.conditional ts).result = .error h) : ∃ e, h = .fault e := by
  rw [Scan.conditional] at hc
  split at hc
  · cases hc
    exact ⟨_, rfl⟩
  · cases hc

/-- Every command that begins with a form's token or a builtin loses what is foreseen. -/
theorem loses_of_fixedNames {w : Token} (hw : w ∈ fixedNames) (ts : List Token) :
    Loses inner (Command.read w ts).1 env := by
  by_cases hf : w ∈ Command.formNames
  · simp only [Command.formNames, List.mem_cons, List.not_mem_nil, or_false] at hf
    rcases hf with rfl | rfl | rfl | rfl | rfl | rfl | rfl | rfl | rfl | rfl | rfl
    · exact store_loses
    · exact plus_loses
    · exact say_loses _
    · exact define_loses _
    · exact fetch_loses
    · exact allot_loses
    · exact cells_loses
    · exact nameConstant_loses _
    · exact loop_loses _
    · exact conditional_loses fun _ => conditional_fault
    · exact declare_loses _
  · rw [Command.read_of_not_mem hf]
    have hn : w ∈ Builtin.names := (List.mem_append.1 hw).resolve_right hf
    obtain ⟨b, hb⟩ := Option.isSome_iff_exists.1 ((Builtin.ofName?_isSome_iff w).2 hn)
    exact word_loses hb

end Evaluator

/-- What a command spends is there. -/
theorem Env.stack_ne_nil_of_spends {env : Env} {c : Command} (h : env.spends c = true) :
    env.stack ≠ [] := by
  intro hs
  have ht (t : Token) : env.spendsOn t = false := by
    rw [spendsOn]
    split
    · simp [hs]
    · rfl
  cases c with
  | word t =>
    rw [spends, ht] at h
    cases h
  | plus =>
    rw [spends] at h
    split at h
    · cases h
    · rw [ht] at h
      cases h
  | conditional branches => simp [spends, hs] at h
  | loop body => rcases body with _ | body <;> simp [spends, hs] at h
  | allot => simp [spends, hs] at h
  | _ => cases h

/-- Where a word with a fixed meaning fails, nothing was shown, and only the stacks are touched: the
    operand stack has lost its top in the cases in which that is spent, and is as before in all
    others, and the reference stack likewise. In the cases in which an operand is spent there is
    one, and the word does fail. -/
theorem execute_of_fixedNames {w : Token} (hw : w ∈ fixedNames) (ts : List Token)
    (inner : Evaluator) (env : Env) :
    let c := (Command.read w ts).1
    (∀ e, (inner.execute c env).result = .error (.fault e) →
      inner.execute c env
        = ⟨{ env with
              stack := if env.spends c then env.stack.tail else env.stack
              references :=
                if env.spendsReference c then env.references.tail else env.references },
            [], .error (.fault e)⟩) ∧
    (env.spends c = true →
      env.stack ≠ [] ∧ ∃ e, (inner.execute c env).result = .error (.fault e)) := by
  have hl : Evaluator.Loses inner (Command.read w ts).1 env := Evaluator.loses_of_fixedNames hw ts
  exact ⟨hl.remains, fun h => ⟨stack_ne_nil_of_spends h, hl.fails h⟩⟩

/-- An array of negative length costs its length and the reference, and the scalar stays. -/
theorem execute_of_fixedNames_allot :
    let env : Env :=
      { stack := [-1, 5], storage := .ofList [("x", .scalar 7)], references := [.toScalar "x"] }
    "allot" ∈ fixedNames ∧ env.spends .allot = true ∧
      (∃ e, ((evaluate 3).execute .allot env).result = .error (.fault e)) ∧
      (evaluate 3).execute .allot env
        = ⟨{ env with stack := [5], references := [] }, [],
            .error (.fault (.storage (.negativeLength "x" (-1))))⟩ := by
  intro env
  have hw : "allot" ∈ fixedNames := by decide
  have hs : env.spends .allot = true := by cbv
  have hr : ((evaluate 3).execute .allot env).result
      = .error (.fault (.storage (.negativeLength "x" (-1)))) := by cbv
  obtain ⟨hleft, hfails⟩ := execute_of_fixedNames hw [] (evaluate 3) env
  exact ⟨hw, hs, (hfails hs).2, hleft _ hr⟩

end Wordstack
