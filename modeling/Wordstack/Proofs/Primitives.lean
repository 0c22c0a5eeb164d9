import Wordstack.Proofs.Execution

/-!
# What primitive operations come to

For each operation that takes something from a stack before it goes on: what it comes to, case by
case. A fetch and a store always take the reference; what else they do is decided by what the
variable holds that it is to. The operand of a store is taken only if it can be stored.
-/

namespace Wordstack.Env

open Wordstack.Action

variable {env : Env} {name : Token} {position v : Int} {stack : List Int}
  {references : List Reference} {fault : StorageFault}

/-! ## Declarations -/

theorem nameConstant_of_nil (h : env.stack = []) (name : Token) :
    nameConstant name env
      = ⟨env, [], .error (.underflow ("Stack empty to set constant " ++ name))⟩ := by
  rw [nameConstant, bind_of_error (pop_of_nil h _)]

theorem nameConstant_of_cons (h : env.stack = v :: stack) (name : Token) :
    nameConstant name env
      = ⟨{ env with stack, constants := env.constants.insert name v }, [], .ok ()⟩ := by
  rw [nameConstant, bind_of_ok (pop_of_cons h _)]
  rfl

theorem declare_of_array {cells : List Int} (h : env.storage.get? name = some (.array cells)) :
    declare name env = ⟨env, [], .error (.storage (.alreadyArray name))⟩ := by
  have hc : env.createVariable name = .error (.alreadyArray name) := by rw [createVariable, h]
  rw [declare, bind_of_error (storageUpdate_of_error hc)]

theorem declare_of_not_array (h : ∀ cells, env.storage.get? name ≠ some (.array cells)) :
    declare name env
      = ⟨{ env with
            storage := env.storage.insert name (.scalar 0)
            references := .toScalar name :: env.references }, [], .ok ()⟩ := by
  have hc : env.createVariable name = .ok (env.setVariable name (.scalar 0)) := by
    rw [createVariable]
    split
    · next cells hs => exact absurd hs (h cells)
    · rfl
  rw [declare, bind_of_ok (storageUpdate_of_ok hc)]
  rfl

/-! ## Fetches -/

theorem fetch_of_nil (h : env.references = []) :
    fetch env
      = ⟨env, [], .error (.noReference "No variable reference found to get value")⟩ := by
  rw [fetch, bind_of_error (popReference_of_nil h _)]

theorem fetch_cell_error (h : env.references = .toCell name position :: references)
    (hs : env.slot name position = .error fault) :
    fetch env = ⟨{ env with references }, [], .error (.storage fault)⟩ := by
  have hq : storageQuery (slot · name position) { env with references } = _ :=
    storageQuery_of_error hs
  rw [fetch, bind_of_ok (popReference_of_cons h _), after_nil]
  exact bind_of_error hq _

theorem fetch_cell_ok {s : Slot} (h : env.references = .toCell name position :: references)
    (hs : env.slot name position = .ok s) :
    fetch env
      = ⟨{ env with references, stack := Cell.wrap s.value :: env.stack }, [], .ok ()⟩ := by
  have hq : storageQuery (slot · name position) { env with references } = _ :=
    storageQuery_of_ok hs
  rw [fetch, bind_of_ok (popReference_of_cons h _), after_nil]
  exact bind_of_ok hq _

theorem fetch_scalar_error (h : env.references = .toScalar name :: references)
    (hs : env.scalar name = .error fault) :
    fetch env = ⟨{ env with references }, [], .error (.storage fault)⟩ := by
  have hq : storageQuery (scalar · name) { env with references } = _ := storageQuery_of_error hs
  rw [fetch, bind_of_ok (popReference_of_cons h _), after_nil]
  exact bind_of_error hq _

theorem fetch_scalar_ok (h : env.references = .toScalar name :: references)
    (hs : env.scalar name = .ok v) :
    fetch env = ⟨{ env with references, stack := Cell.wrap v :: env.stack }, [], .ok ()⟩ := by
  have hq : storageQuery (scalar · name) { env with references } = _ := storageQuery_of_ok hs
  rw [fetch, bind_of_ok (popReference_of_cons h _), after_nil]
  exact bind_of_ok hq _

/-- What is stored at the place that a reference speaks of, if there is such a place. -/
def stored? (env : Env) (r : Reference) : Option Int :=
  match env.storage.get? r.name, r.slot with
  | some (.scalar v), none => some v
  | some (.array cells), some position => if 0 ≤ position then cells[position.toNat]? else none
  | _, _ => none

theorem scalar_of_stored? (h : env.stored? (.toScalar name) = none) :
    ∃ fault, env.scalar name = .error fault := by
  rcases hs : env.scalar name with fault | v
  · exact ⟨fault, rfl⟩
  · rw [stored?, Reference.toScalar, get?_of_scalar hs] at h
    cases h

theorem slot_of_stored? (h : env.stored? (.toCell name position) = none) :
    ∃ fault, env.slot name position = .error fault := by
  rcases hv : env.storage.get? name with _ | w | cells
  · refine ⟨.unknown name, ?_⟩
    rw [slot, content_of_none hv]
    rfl
  · exact ⟨_, slot_of_scalar hv⟩
  · refine ⟨_, slot_of_outside hv fun hp => ?_⟩
    have hlt : position.toNat < cells.length := by omega
    rw [stored?, Reference.toCell, hv] at h
    simp only [if_pos hp.1, List.getElem?_eq_getElem hlt] at h
    cases h

theorem fetch_of_stored? {r : Reference} {references : List Reference} {v : Int}
    (hr : env.references = r :: references) (hv : env.stored? r = some v) :
    fetch env
      = ⟨{ env with references, stack := Cell.wrap v :: env.stack }, [], .ok ()⟩ := by
  obtain ⟨name, _ | position⟩ := r
  · rcases hs : env.storage.get? name with _ | w | cells <;> rw [stored?, hs] at hv <;> cases hv
    exact fetch_scalar_ok hr (scalar_of_scalar hs)
  · rcases hs : env.storage.get? name with _ | w | cells <;> rw [stored?, hs] at hv
    · cases hv
    · cases hv
    · simp only at hv
      split at hv
      · next hp =>
        obtain ⟨hlt, rfl⟩ := List.getElem?_eq_some_iff.1 hv
        exact fetch_cell_ok hr (slot_of_inside hs ⟨hp, by omega⟩)
      · cases hv

/-- Where there is no such place, a fetch fails. -/
theorem fetch_of_stored?_eq_none {r : Reference} (hr : env.references = r :: references)
    (h : env.stored? r = none) :
    ∃ fault, fetch env = ⟨{ env with references }, [], .error (.storage fault)⟩ := by
  obtain ⟨name, _ | position⟩ := r
  · obtain ⟨fault, hs⟩ := scalar_of_stored? h
    exact ⟨fault, fetch_scalar_error hr hs⟩
  · obtain ⟨fault, hs⟩ := slot_of_stored? h
    exact ⟨fault, fetch_cell_error hr hs⟩

/-! ## Stores -/

theorem store_of_nil (h : env.references = []) :
    store env
      = ⟨env, [], .error (.noReference "No variable reference found to set value")⟩ := by
  rw [store, bind_of_error (popReference_of_nil h _)]

theorem store_toCell (h : env.references = .toCell name position :: references) :
    store env
      = (do
          let _ ← storageQuery fun env => (env.slot name position).mapError (.notStored name)
          let v ← pop "Stack empty to set array value"
          storageUpdate (setCell · name position v) : Action Env Error Unit)
        { env with references } := by
  rw [store, bind_of_ok (popReference_of_cons h _)]
  rfl

theorem store_toScalar (h : env.references = .toScalar name :: references) :
    store env
      = (do
          let _ ← storageQuery (scalar · name)
          let v ← pop "Stack empty to set variable value"
          storageUpdate (setScalar · name v) : Action Env Error Unit)
        { env with references } := by
  rw [store, bind_of_ok (popReference_of_cons h _)]
  rfl

theorem store_cell_error (h : env.references = .toCell name position :: references)
    (hs : env.slot name position = .error fault) :
    store env = ⟨{ env with references }, [], .error (.storage (.notStored name fault))⟩ := by
  have hq : storageQuery (fun env => (env.slot name position).mapError (.notStored name))
      { env with references } = _ := storageQuery_of_error (congrArg (Except.mapError _) hs)
  rw [store_toCell h, bind_of_error hq]

theorem store_cell_underflow {s : Slot} (h : env.references = .toCell name position :: references)
    (hs : env.slot name position = .ok s) (hn : env.stack = []) :
    store env
      = ⟨{ env with references }, [], .error (.underflow "Stack empty to set array value")⟩ := by
  have hq : storageQuery (fun env => (env.slot name position).mapError (.notStored name))
      { env with references } = _ := storageQuery_of_ok (congrArg (Except.mapError _) hs)
  have hn : ({ env with references } : Env).stack = [] := hn
  rw [store_toCell h, bind_of_ok hq, bind_of_error (pop_of_nil hn _)]
  rfl

theorem store_cell_ok {s : Slot} (h : env.references = .toCell name position :: references)
    (hs : env.slot name position = .ok s) (hv : env.stack = v :: stack) :
    store env
      = ⟨{ env with
            references, stack, storage := env.storage.insert name (.array (s.set v)) },
          [], .ok ()⟩ := by
  have hq : storageQuery (fun env => (env.slot name position).mapError (.notStored name))
      { env with references } = _ := storageQuery_of_ok (congrArg (Except.mapError _) hs)
  -- The cell is looked up again to be written, and is still there.
  have hs' : slot { env with references, stack } name position = .ok s := hs
  have hu : setCell { env with references, stack } name position v
      = .ok { env with
          references, stack, storage := env.storage.insert name (.array (s.set v)) } := by
    rw [setCell, hs']
    rfl
  have hv : ({ env with references } : Env).stack = v :: stack := hv
  rw [store_toCell h, bind_of_ok hq, bind_of_ok (pop_of_cons hv _), storageUpdate_of_ok hu]
  rfl

theorem store_scalar_error (h : env.references = .toScalar name :: references)
    (hs : env.scalar name = .error fault) :
    store env = ⟨{ env with references }, [], .error (.storage fault)⟩ := by
  have hq : storageQuery (scalar · name) { env with references } = _ := storageQuery_of_error hs
  rw [store_toScalar h, bind_of_error hq]

theorem store_scalar_underflow {w : Int} (h : env.references = .toScalar name :: references)
    (hs : env.scalar name = .ok w) (hn : env.stack = []) :
    store env
      = ⟨{ env with references }, [], .error (.underflow "Stack empty to set variable value")⟩ := by
  have hq : storageQuery (scalar · name) { env with references } = _ := storageQuery_of_ok hs
  have hn : ({ env with references } : Env).stack = [] := hn
  rw [store_toScalar h, bind_of_ok hq, bind_of_error (pop_of_nil hn _)]
  rfl

theorem store_scalar_ok {w : Int} (h : env.references = .toScalar name :: references)
    (hs : env.scalar name = .ok w) (hv : env.stack = v :: stack) :
    store env
      = ⟨{ env with references, stack, storage := env.storage.insert name (.scalar v) },
          [], .ok ()⟩ := by
  have hq : storageQuery (scalar · name) { env with references } = _ := storageQuery_of_ok hs
  have hu : setScalar { env with references, stack } name v
      = .ok { env with references, stack, storage := env.storage.insert name (.scalar v) } := by
    simp only [setScalar, content, get?_of_scalar hs]
    rfl
  have hv : ({ env with references } : Env).stack = v :: stack := hv
  rw [store_toScalar h, bind_of_ok hq, bind_of_ok (pop_of_cons hv _), storageUpdate_of_ok hu]
  rfl

/-- Where there is no place to store anything, a store fails. -/
theorem store_of_stored?_eq_none {r : Reference} (hr : env.references = r :: references)
    (h : env.stored? r = none) :
    ∃ fault, store env = ⟨{ env with references }, [], .error (.storage fault)⟩ := by
  obtain ⟨name, _ | position⟩ := r
  · obtain ⟨fault, hs⟩ := scalar_of_stored? h
    exact ⟨fault, store_scalar_error hr hs⟩
  · obtain ⟨fault, hs⟩ := slot_of_stored? h
    exact ⟨_, store_cell_error hr hs⟩

/-! ## Arrays -/

theorem allot_of_nil (h : env.references = []) :
    allot env
      = ⟨env, [], .error (.noReference "No variable found to allocate as an array!")⟩ := by
  simp only [allot, state_bind, h]
  rfl

theorem allot_of_cell (h : env.references = .toCell name position :: references) :
    allot env = ⟨env, [], .error (.storage (.alreadyArray name))⟩ := by
  simp only [allot, state_bind, h]
  rfl

/-- An allotment for a scalar takes the length and the reference. -/
theorem allot_toScalar (h : env.references = .toScalar name :: references) :
    allot env
      = (do
          let length ← pop "Stack empty to allocate array"
          let _ ← popReference "No variable found to allocate as an array!"
          storageUpdate (allotArray · name length) : Action Env Error Unit) env := by
  simp only [allot, state_bind, h]
  rfl

theorem allot_underflow (h : env.references = .toScalar name :: references)
    (hn : env.stack = []) :
    allot env = ⟨env, [], .error (.underflow "Stack empty to allocate array")⟩ := by
  rw [allot_toScalar h, bind_of_error (pop_of_nil hn _)]

theorem allot_of_cons {length : Int} (h : env.references = .toScalar name :: references)
    (hv : env.stack = length :: stack) :
    allot env = storageUpdate (allotArray · name length) { env with references, stack } := by
  have h' : ({ env with stack } : Env).references = .toScalar name :: references := h
  rw [allot_toScalar h, bind_of_ok (pop_of_cons hv _), after_nil,
    bind_of_ok (popReference_of_cons h' _), after_nil]

theorem chooseCell_of_nil (h : env.stack = []) (name : Token) :
    chooseCell name env
      = ⟨env, [], .error (.underflow "Stack empty to set slot value for array")⟩ := by
  rw [chooseCell, bind_of_error (pop_of_nil h _)]

theorem chooseCell_of_cons (h : env.stack = position :: stack) (name : Token) :
    chooseCell name env
      = ⟨{ env with stack, references := .toCell name position :: env.references.tail },
          [], .ok ()⟩ := by
  rw [chooseCell, bind_of_ok (pop_of_cons h _)]
  rfl

end Wordstack.Env
