import Wordstack.Proofs.Primitives

/-!
# Invariants

An action *keeps* a property of the state if the property holds after it whenever it held before,
however the action ends (`Action.Keeps`). What is put together of such actions is one again.

All that a command does to the environment, but for the registers of loops, comes in few kinds of
*changes* (`Env.Change`). A property that no change can end is *closed*; every command other than
a loop keeps it, if the evaluations within it do (`Evaluator.execute_keeps`). A loop also writes
numbers to a register, which the property has to bear, and puts back what was there before. Closed
properties of this kind are *invariants* (`Invariant`), and every evaluation keeps them
(`evaluate_keeps`).

A property may depend on what programs say, for instance on the names that they introduce. So it is
left open which *kind* of commands is considered. A program is made of commands of the kind if its
own commands are, and they may enter only bodies that are again made of such commands
(`Hereditary`).
-/

namespace Wordstack

namespace Action

variable {σ ε ε' α β : Type} {I : σ → Prop}

/-- The property holds after the action if it did before. -/
def Keeps (I : σ → Prop) (m : Action σ ε α) : Prop :=
  ∀ s, I s → I (m s).state

theorem keeps_pure (a : α) : Keeps I (pure a : Action σ ε α) := fun _ h => h

theorem keeps_state : Keeps I (Action.state : Action σ ε σ) := fun _ h => h

theorem keeps_query (f : σ → Except ε α) : Keeps I (query f) := fun _ h => h

theorem keeps_emit (event : Event) : Keeps I (emit event : Action σ ε Unit) := fun _ h => h

theorem keeps_fail (e : ε) : Keeps I (fail e : Action σ ε α) := fun _ h => h

theorem keeps_ofExcept (r : Except ε α) : Keeps I (ofExcept r : Action σ ε α) := fun _ h => h

theorem Keeps.bind {m : Action σ ε α} {f : α → Action σ ε β} (hm : Keeps I m)
    (hf : ∀ a, Keeps I (f a)) : Keeps I (m >>= f) := by
  intro s h
  have h' := hm s h
  rcases hs : m s with ⟨s', shown, e | a⟩ <;> rw [hs] at h'
  · rw [bind_of_error hs]
    exact h'
  · rw [bind_of_ok hs]
    exact hf a s' h'

theorem Keeps.mapError {m : Action σ ε α} (hm : Keeps I m) (f : ε → ε') :
    Keeps I (m.mapError f) := hm

theorem Keeps.lift {m : Action σ Error α} (hm : Keeps I m) :
    Keeps I (liftM m : Action σ Halt α) := hm.mapError _

theorem Keeps.forEach {f : α → Action σ ε Unit} {l : List α} (hf : ∀ a ∈ l, Keeps I (f a)) :
    Keeps I (forEach f l) := by
  induction l with
  | nil =>
    rw [forEach_nil]
    exact keeps_pure ()
  | cons a l ih =>
    rw [forEach_cons]
    exact (hf a List.mem_cons_self).bind fun _ => ih fun b hb => hf b (List.mem_cons_of_mem a hb)

end Action

open Wordstack.Action

/-! ## Changes -/

/-- The changes of the environment that commands of a kind are made of. -/
inductive Env.Change (kind : Command → Prop) (env : Env) : Env → Prop
  /-- Operands are moved or computed. -/
  | stack {stack : List Int} :
      (∀ v ∈ stack, v ∈ env.stack ∨ Cell.InRange v) → Change kind env { env with stack }
  | define {d : Definition} :
      kind (.define (.ok d)) →
      Change kind env { env with words := env.words.insert d.name d.body }
  | nameConstant {name : Token} {v : Int} {stack : List Int} :
      kind (.nameConstant (.ok name)) → env.stack = v :: stack →
      Change kind env { env with stack, constants := env.constants.insert name v }
  /-- A variable is created or reset, and spoken of. -/
  | declare {name : Token} :
      kind (.declare (.ok name)) → (∀ cells, env.storage.get? name ≠ some (.array cells)) →
      Change kind env { env with
        storage := env.storage.insert name (.scalar 0)
        references := .toScalar name :: env.references }
  /-- A variable is spoken of. -/
  | refer {name : Token} {r : Reference} :
      env.reference? name = some r → Change kind env { env with references := r :: env.references }
  /-- A reference is used. -/
  | useReference {r : Reference} {references : List Reference} :
      env.references = r :: references → Change kind env { env with references }
  | setScalar {name : Token} {v w : Int} {stack : List Int} :
      env.storage.get? name = some (.scalar w) → env.stack = v :: stack →
      Change kind env { env with stack, storage := env.storage.insert name (.scalar v) }
  | setCell {name : Token} {position v : Int} {s : Slot} {stack : List Int} :
      env.slot name position = .ok s → env.stack = v :: stack →
      Change kind env { env with stack, storage := env.storage.insert name (.array (s.set v)) }
  /-- A scalar becomes an array. -/
  | allot {name : Token} {w length : Int} :
      env.storage.get? name = some (.scalar w) →
      Change kind env { env with storage := env.storage.insert name (.zeros length) }
  /-- Another cell of an array is spoken of. -/
  | chooseCell {name : Token} {position position' : Int} {references : List Reference}
      {stack : List Int} :
      env.references = .toCell name position :: references → env.stack = position' :: stack →
      Change kind env { env with stack, references := .toCell name position' :: references }

/-- No change ends the property. -/
def Env.Closed (kind : Command → Prop) (I : Env → Prop) : Prop :=
  ∀ {env env' : Env}, env.Change kind env' → I env → I env'

/-- No change touches a register. -/
theorem Env.Change.registers_eq {kind : Command → Prop} {env env' : Env}
    (h : env.Change kind env') : env'.registers = env.registers := by
  cases h <;> rfl

variable {ε : Type} {kind : Command → Prop} {I : Env → Prop}

/-! ## Operands -/

namespace Env

theorem pop_keeps (hI : Closed kind I) (message : String) : Keeps I (pop message) := by
  intro env h
  cases hs : env.stack with
  | nil =>
    rw [pop_of_nil hs]
    exact h
  | cons v stack =>
    rw [pop_of_cons hs]
    refine hI (.stack fun w hw => .inl ?_) h
    rw [hs]
    exact List.mem_cons_of_mem v hw

theorem Closed.push (hI : Closed kind I) {env : Env} (h : I env) (v : Int) :
    I { env with stack := Cell.wrap v :: env.stack } := by
  refine hI (.stack fun w hw => ?_) h
  rcases List.mem_cons.1 hw with rfl | hw
  · exact .inr (Cell.inRange_wrap v)
  · exact .inl hw

theorem push_keeps (hI : Closed kind I) (v : Int) : Keeps I (push v : Action Env ε Unit) :=
  fun _ h => hI.push h v

theorem popReference_keeps (hI : Closed kind I) (message : String) :
    Keeps I (popReference message) := by
  intro env h
  cases hr : env.references with
  | nil =>
    rw [popReference_of_nil hr]
    exact h
  | cons r references =>
    rw [popReference_of_cons hr]
    exact hI (.useReference hr) h

theorem top_keeps (message : String) : Keeps I (top message) := keeps_query _

theorem require_keeps (count : Int) (message : String) : Keeps I (require count message) :=
  keeps_query _

end Env

open Env

namespace Builtin

theorem binary_keeps (hI : Closed kind I) (name : String) (op : Int → Int → Int) :
    Keeps I (binary name op) :=
  (pop_keeps hI _).bind fun _ => (pop_keeps hI _).bind fun _ => push_keeps hI _

theorem division_keeps (hI : Closed kind I) (name : String) (op : Int → Int → Int) :
    Keeps I (division name op) :=
  (require_keeps 2 _).bind fun _ => keeps_state.bind fun env => by
    split
    · exact keeps_fail _
    · exact binary_keeps hI name op

/-- An operation that puts no new operands on the stack keeps what no change ends. -/
theorem rearrange_keeps (hI : Closed kind I) {f : List Int → List Int}
    (hf : ∀ stack, ∀ v ∈ f stack, v ∈ stack) (name : String) (count : Int) :
    Keeps I (rearrange name count f) :=
  (require_keeps count _).bind fun _ env h => hI (.stack fun v hv => .inl (hf env.stack v hv)) h

theorem exchangeTop_subset (stack : List Int) : exchangeTop stack ⊆ stack := by
  intro v hv
  rcases stack with _ | ⟨x, _ | ⟨y, rest⟩⟩
  · exact hv
  · exact hv
  · simpa [exchangeTop, or_left_comm] using hv

theorem copySecond_subset (stack : List Int) : copySecond stack ⊆ stack := by
  intro v hv
  rcases stack with _ | ⟨x, _ | ⟨y, rest⟩⟩
  · exact hv
  · exact hv
  · simp only [copySecond, List.mem_cons] at hv ⊢
    grind

theorem rotateTop_subset (stack : List Int) : rotateTop stack ⊆ stack := by
  intro v hv
  rcases stack with _ | ⟨x, _ | ⟨y, _ | ⟨z, rest⟩⟩⟩
  · exact hv
  · exact hv
  · exact hv
  · simp only [rotateTop, List.mem_cons] at hv ⊢
    grind

/-- A builtin moves and computes operands, and does nothing else. -/
theorem run_keeps (hI : Closed kind I) (b : Builtin) : Keeps I b.run := by
  cases b with
  | add | subtract | multiply | conjunction | disjunction => exact binary_keeps hI _ _
  | divide | modulo => exact division_keeps hI _ _
  | equal | unequal | less | greater | lessOrEqual | greaterOrEqual => exact binary_keeps hI _ _
  | complement => exact (pop_keeps hI _).bind fun _ => push_keeps hI _
  | duplicate => exact (top_keeps _).bind fun _ => push_keeps hI _
  | discard => exact (pop_keeps hI _).bind fun _ => keeps_pure _
  | exchange => exact rearrange_keeps hI exchangeTop_subset _ _
  | duplicateSecond => exact rearrange_keeps hI copySecond_subset _ _
  | rotate => exact rearrange_keeps hI rotateTop_subset _ _
  | print | printCharacter => exact (pop_keeps hI _).bind fun _ => keeps_emit _
  | printLineEnd => exact keeps_emit _
  | showStack | showWords | showVariables | showNames =>
    exact keeps_state.bind fun _ => keeps_emit _

end Builtin

/-! ## References and variables -/

namespace Env

theorem nameConstant_keeps (hI : Closed kind I) {name : Token}
    (hk : kind (.nameConstant (.ok name))) : Keeps I (nameConstant name) := by
  intro env h
  cases hs : env.stack with
  | nil =>
    rw [nameConstant_of_nil hs]
    exact h
  | cons v stack =>
    rw [nameConstant_of_cons hs]
    exact hI (.nameConstant hk hs) h

theorem declare_keeps (hI : Closed kind I) {name : Token} (hk : kind (.declare (.ok name))) :
    Keeps I (declare name) := by
  intro env h
  by_cases hs : ∃ cells, env.storage.get? name = some (.array cells)
  · obtain ⟨cells, hs⟩ := hs
    rw [declare_of_array hs]
    exact h
  · have hs := not_exists.1 hs
    rw [declare_of_not_array hs]
    exact hI (.declare hk hs) h

theorem fetch_keeps (hI : Closed kind I) : Keeps I fetch := by
  intro env h
  rcases hr : env.references with _ | ⟨⟨name, _ | position⟩, references⟩
  · rw [fetch_of_nil hr]
    exact h
  · have h' := hI (.useReference hr) h
    rcases hs : env.scalar name with fault | v
    · rw [fetch_scalar_error hr hs]
      exact h'
    · rw [fetch_scalar_ok hr hs]
      exact hI.push h' v
  · have h' := hI (.useReference hr) h
    rcases hs : env.slot name position with fault | s
    · rw [fetch_cell_error hr hs]
      exact h'
    · rw [fetch_cell_ok hr hs]
      exact hI.push h' s.value

theorem store_keeps (hI : Closed kind I) : Keeps I store := by
  intro env h
  rcases hr : env.references with _ | ⟨⟨name, _ | position⟩, references⟩
  · rw [store_of_nil hr]
    exact h
  -- The reference is used up before it is clear whether there is anything to store.
  · have h' := hI (.useReference hr) h
    rcases hs : env.scalar name with fault | w
    · rw [store_scalar_error hr hs]
      exact h'
    · cases hv : env.stack with
      | nil =>
        rw [store_scalar_underflow hr hs hv]
        exact h'
      | cons v stack =>
        have hc : Change kind { env with references }
            { env with references, stack, storage := env.storage.insert name (.scalar v) } :=
          .setScalar (get?_of_scalar hs) hv
        rw [store_scalar_ok hr hs hv]
        exact hI hc h'
  · have h' := hI (.useReference hr) h
    rcases hs : env.slot name position with fault | s
    · rw [store_cell_error hr hs]
      exact h'
    · cases hv : env.stack with
      | nil =>
        rw [store_cell_underflow hr hs hv]
        exact h'
      | cons v stack =>
        have hc : Change kind { env with references }
            { env with references, stack, storage := env.storage.insert name (.array (s.set v)) } :=
          .setCell hs hv
        rw [store_cell_ok hr hs hv]
        exact hI hc h'

theorem storageUpdate_keeps {f : Env → Except StorageFault Env}
    (hf : ∀ env env', f env = .ok env' → I env → I env') : Keeps I (storageUpdate f) := by
  intro env h
  rcases he : f env with fault | env'
  · rw [storageUpdate_of_error he]
    exact h
  · rw [storageUpdate_of_ok he]
    exact hf env env' he h

theorem allotArray_keeps (hI : Closed kind I) (name : Token) (length : Int) :
    Keeps I (storageUpdate (allotArray · name length)) := by
  refine storageUpdate_keeps fun env env' he h => ?_
  obtain ⟨w, hw, -, rfl⟩ := eq_of_allotArray he
  exact hI (.allot hw) h

theorem allot_keeps (hI : Closed kind I) : Keeps I allot := by
  intro env h
  rcases hr : env.references with _ | ⟨⟨name, _ | position⟩, references⟩
  · rw [allot_of_nil hr]
    exact h
  · rw [allot_toScalar hr]
    refine ((pop_keeps hI _).bind fun length => ?_) env h
    exact (popReference_keeps hI _).bind fun _ => allotArray_keeps hI name length
  · rw [allot_of_cell hr]
    exact h

/-- To choose a cell of an array that is spoken of keeps what no change ends. -/
theorem chooseCell_keeps (hI : Closed kind I) {env : Env} {name : Token}
    (hc : env.Chooses name) (h : I env) : I (chooseCell name env).state := by
  obtain ⟨position, references, hr⟩ := hc
  cases hv : env.stack with
  | nil =>
    rw [chooseCell_of_nil hv]
    exact h
  | cons position' stack =>
    rw [chooseCell_of_cons hv, hr]
    exact hI (.chooseCell hr hv) h

end Env

/-! ## Commands -/

/-- All commands of the body are of the kind. -/
def Body.MadeOf (kind : Command → Prop) (body : Body) : Prop :=
  ∀ c ∈ Command.sequence body, kind c

/-- Commands of the kind enter bodies that are made of such commands only, where the property
    holds. -/
structure Hereditary (kind : Command → Prop) (I : Env → Prop) : Prop where
  sides {branches : Branches} :
    kind (.conditional (.ok branches)) →
    branches.whenTrue.MadeOf kind ∧ ∀ body, branches.whenFalse = some body → body.MadeOf kind
  rounds {body : Body} : kind (.loop (.ok body)) → body.MadeOf kind
  words {env : Env} {word : Token} {body : Body} :
    I env → env.words.get? word = some body → body.MadeOf kind

/-- Where all commands are considered, there is nothing to ask of bodies. -/
theorem hereditary_any : Hereditary (fun _ => True) I where
  sides _ := ⟨fun _ _ => trivial, fun _ _ _ _ => trivial⟩
  rounds _ _ _ := trivial
  words _ _ _ _ := trivial

namespace Evaluator

variable {inner : Evaluator}

theorem enter_keeps {body : Body} (hinner : Keeps I (inner body)) : Keeps I (enter inner body) :=
  (hinner.mapError _).bind fun _ => keeps_pure _

theorem call_keeps {body : Body} (hinner : Keeps I (inner body)) (word : Token) :
    Keeps I (call inner word body) :=
  (hinner.mapError _).bind fun _ => keeps_pure _

theorem perform_keeps (hI : Closed kind I) (hk : Hereditary kind I)
    (hinner : ∀ body : Body, body.MadeOf kind → Keeps I (inner body)) (t : Token) :
    Keeps I (perform inner t) := by
  intro env h
  rcases hm : env.meaning t with e | v | b | ⟨word, body⟩ | r
  · rw [perform_of_error hm]
    exact h
  · rw [perform_of_value hm]
    exact hI.push h v
  · rw [perform_of_builtin hm]
    exact (b.run_keeps hI).lift env h
  · rw [perform_of_call hm]
    exact call_keeps (hinner body (hk.words h (get?_of_meaning hm))) word env h
  · rw [perform_of_reference hm]
    exact hI (.refer (reference?_of_meaning hm)) h

theorem plus_keeps (hI : Closed kind I) (hk : Hereditary kind I)
    (hinner : ∀ body : Body, body.MadeOf kind → Keeps I (inner body)) : Keeps I (plus inner) := by
  intro env h
  by_cases hr : ∃ name, env.Chooses name
  · obtain ⟨name, hr⟩ := hr
    rw [plus_of_chooses hr]
    exact chooseCell_keeps hI hr h
  · rw [plus_of_not_chooses hr]
    exact perform_keeps hI hk hinner "+" env h

theorem choose_keeps (hI : Closed kind I) {branches : Except Halt Branches}
    (htrue : ∀ b, branches = .ok b → Keeps I (inner b.whenTrue))
    (hfalse : ∀ b body, branches = .ok b → b.whenFalse = some body → Keeps I (inner body)) :
    Keeps I (choose inner branches) := by
  refine (pop_keeps hI _).lift.bind fun condition => ?_
  cases branches with
  | error e => exact keeps_fail e
  | ok b =>
    rw [ofExcept_ok_bind]
    split
    · exact keeps_fail _
    · split
      · exact keeps_fail _
      · split
        · exact enter_keeps (htrue b rfl)
        · split
          · next hb => exact enter_keeps (hfalse b _ rfl hb)
          · exact keeps_pure ()

/-- Whether a command keeps a property that no change ends is a matter of the evaluations within
    it and of its loop, if it is one. -/
theorem execute_keeps (hI : Closed kind I) (hk : Hereditary kind I)
    (hinner : ∀ body : Body, body.MadeOf kind → Keeps I (inner body))
    (hloop : ∀ body : Body, body.MadeOf kind → Keeps I (repeatBody inner (.ok body))) {c : Command}
    (hc : kind c) : Keeps I (execute inner c) := by
  cases c with
  | define definition =>
    cases definition with
    | error e => exact keeps_fail e
    | ok d => exact fun env h => hI (.define hc) h
  | say text => exact (keeps_ofExcept _).bind fun _ => keeps_emit _
  | conditional branches =>
    refine choose_keeps hI (fun b hb => ?_) fun b body hb hf => ?_
    · subst hb
      exact hinner _ (hk.sides hc).1
    · subst hb
      exact hinner _ ((hk.sides hc).2 body hf)
  | loop body =>
    cases body with
    | error e => exact keeps_fail e
    | ok body => exact hloop body (hk.rounds hc)
  | declare name =>
    cases name with
    | error e => exact keeps_fail e
    | ok name => exact (declare_keeps hI hc).lift
  | nameConstant name =>
    cases name with
    | error e => exact keeps_fail e
    | ok name => exact (nameConstant_keeps hI hc).lift
  | fetch => exact (fetch_keeps hI).lift
  | store => exact (store_keeps hI).lift
  | cells => exact (top_keeps _).lift.bind fun _ => keeps_pure _
  | allot => exact (allot_keeps hI).lift
  | plus => exact plus_keeps hI hk hinner
  | word t => exact perform_keeps hI hk hinner t

end Evaluator

/-! ## Evaluations -/

/-- A property that holds on as long as nothing but commands of the kind are carried out. -/
structure Invariant (kind : Command → Prop) (I : Env → Prop) : Prop extends
    Hereditary kind I where
  change : Closed kind I
  /-- It bears the numbers of a loop with the bounds that were found. -/
  count {env env' : Env} {last first v : Int} {stack : List Int} :
    I env → env.stack = last :: first :: stack → first ≤ v → v < last → I env' →
    I { env' with registers := env'.registers.insert counter v }
  /-- It bears the register that was found. -/
  restore {env env' : Env} :
    I env → I env' → I (restoreRegister counter (env.registers.get? counter) env')

/-- A property that has nothing to do with the registers is an invariant if no change ends it. -/
theorem Invariant.of_closed (hI : Closed kind I) (hk : Hereditary kind I)
    (hr : ∀ env registers, I env → I { env with registers }) : Invariant kind I where
  toHereditary := hk
  change := hI
  count _ _ _ _ h := hr _ _ h
  restore {env env'} _ h := by
    cases env.registers.get? counter <;> exact hr _ _ h

namespace Evaluator

variable {inner : Evaluator}

/-- What a loop keeps is decided by its rounds and what is restored after them. -/
theorem repeatBody_keeps_of_rounds (hI : Closed kind I) {body : Body}
    (hrounds : ∀ {env : Env} {last first : Int} {stack : List Int}, I env →
      env.stack = last :: first :: stack → I { env with stack } →
      I ((Action.forEach (iterate inner body) (consecutive first (last - first).toNat)).ensuring
        (restoreRegister counter (env.registers.get? counter)) { env with stack }).state) :
    Keeps I (repeatBody inner (.ok body)) := by
  intro env h
  by_cases hb : body = []
  · rw [hb, repeatBody_empty]
    exact h
  · rcases hs : env.stack with _ | ⟨last, _ | ⟨first, stack⟩⟩
    · rw [repeatBody_of_nil hb hs]
      exact h
    · rw [repeatBody_of_singleton hb hs]
      exact hI (.stack nofun) h
    · have h' : I { env with stack } := by
        refine hI (.stack fun v hv => .inl ?_) h
        rw [hs]
        exact List.mem_cons_of_mem _ (List.mem_cons_of_mem _ hv)
      rw [repeatBody_of_cons hb hs, forCount_eq_forEach]
      exact hrounds h hs h'

/-- A round for a number between the bounds keeps what bears these bounds. -/
theorem iterate_keeps (hI : Invariant kind I) {body : Body} (hinner : Keeps I (inner body))
    {env : Env} {last first v : Int} {stack : List Int} (h : I env)
    (hs : env.stack = last :: first :: stack)
    (hv : v ∈ consecutive first (last - first).toNat) : Keeps I (iterate inner body v) := by
  intro env' h'
  rw [mem_consecutive] at hv
  exact enter_keeps hinner _ (hI.count h hs hv.1 (by omega) h')

theorem repeatBody_keeps (hI : Invariant kind I) {body : Body} (hinner : Keeps I (inner body)) :
    Keeps I (repeatBody inner (.ok body)) :=
  repeatBody_keeps_of_rounds hI.change fun h hs h' =>
    -- The numbers and what is restored are those of the environment before the loop.
    hI.restore h (Keeps.forEach (fun _ hv => iterate_keeps hI hinner h hs hv) _ h')

end Evaluator

theorem reporting_keeps {m : Action Env Halt Unit} (hm : Keeps I m) : Keeps I (reporting m) := by
  intro env h
  have h' := hm env h
  rcases hs : m env with ⟨env', shown, (e | x) | ⟨⟩⟩ <;> rw [hs] at h'
  · rw [reporting_of_fault hs]
    exact h'
  · rw [reporting_of_escape hs]
    exact h'
  · rw [reporting_of_ok hs]
    exact h'

/-- An evaluation keeps an invariant, whatever it evaluates and however it ends. -/
theorem evaluate_keeps (hI : Invariant kind I) (depth : Nat) {tokens : List Token}
    (ht : Body.MadeOf kind tokens) : Keeps I (evaluate depth tokens) := by
  induction depth generalizing tokens with
  | zero => exact keeps_fail _
  | succ depth ih =>
    rw [evaluate_succ]
    -- The bodies within are evaluated with one level less, and so they keep it by induction.
    exact reporting_keeps (Keeps.forEach fun c hc =>
      Evaluator.execute_keeps hI.change hI.toHereditary (fun _ => ih)
        (fun _ hb => Evaluator.repeatBody_keeps hI (ih hb)) (ht c hc))

/-- A command of the kind keeps an invariant, as it does in an evaluation. -/
theorem Invariant.keeps (hI : Invariant kind I) (depth : Nat) {c : Command} (hc : kind c) :
    Keeps I (Evaluator.execute (evaluate depth) c) :=
  Evaluator.execute_keeps hI.change hI.toHereditary (fun _ => evaluate_keeps hI depth)
    (fun _ hb => Evaluator.repeatBody_keeps hI (evaluate_keeps hI depth hb)) hc

end Wordstack
