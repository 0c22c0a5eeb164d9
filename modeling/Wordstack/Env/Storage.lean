import Wordstack.Env

/-!
# Variables in the environment

A variable is created as a scalar that holds zero, and created again it is reset to that, unless
it has become an array meanwhile. It becomes an array of zeros once, and then never changes its
length. A cell of an array is reached through a *slot*, which exists only for a position within
the array. Programs speak of variables through the references that wait on the reference stack.
-/

namespace Wordstack

/-- A cell of an array. -/
structure Slot where
  /-- The array. -/
  cells : List Int
  /-- The position of the cell. -/
  index : Fin cells.length

/-- What the cell holds. -/
def Slot.value (s : Slot) : Int :=
  s.cells.get s.index

/-- The array with another value in the cell. -/
def Slot.set (s : Slot) (v : Int) : List Int :=
  s.cells.set s.index v

/-- An array has as many cells after a store as before. -/
@[simp] theorem Slot.length_set (s : Slot) (v : Int) : (s.set v).length = s.cells.length := by
  simp [Slot.set]

namespace Env

/-- What the variable of the name holds. -/
def content (env : Env) (name : Token) : Except StorageFault Variable :=
  match env.storage.get? name with
  | none => .error (.unknown name)
  | some v => .ok v

/-- The value of a scalar. -/
def scalar (env : Env) (name : Token) : Except StorageFault Int := do
  match ← env.content name with
  | .scalar v => .ok v
  | .array _ => .error (.arrayRead name)

/-- The cell of an array at a position. -/
def slot (env : Env) (name : Token) (position : Int) : Except StorageFault Slot := do
  match ← env.content name with
  | .scalar _ => .error (.notArray name)
  | .array cells =>
    if h : 0 ≤ position ∧ position < cells.length then .ok ⟨cells, position.toNat, by omega⟩
    else .error (.outOfRange position cells.length)

/-- The environment in which the variable holds something else. -/
def setVariable (env : Env) (name : Token) (v : Variable) : Env :=
  { env with storage := env.storage.insert name v }

/-- Creates or resets a scalar. -/
def createVariable (env : Env) (name : Token) : Except StorageFault Env :=
  match env.storage.get? name with
  | some (.array _) => .error (.alreadyArray name)
  | _ => .ok (env.setVariable name (.scalar 0))

/-- Makes a scalar an array of so many zeros. -/
def allotArray (env : Env) (name : Token) (length : Int) : Except StorageFault Env := do
  match ← env.content name with
  | .array _ => .error (.alreadyArray name)
  | .scalar _ =>
    if length < 0 then .error (.negativeLength name length)
    else .ok (env.setVariable name (.zeros length))

/-- Gives a scalar another value. -/
def setScalar (env : Env) (name : Token) (v : Int) : Except StorageFault Env := do
  match ← env.content name with
  | .scalar _ => .ok (env.setVariable name (.scalar v))
  | .array _ => .error (.arrayWritten name)

/-- Gives a cell of an array another value. -/
def setCell (env : Env) (name : Token) (position v : Int) : Except StorageFault Env := do
  let slot ← env.slot name position
  .ok (env.setVariable name (.array (slot.set v)))

/-- What can be told of the variables. -/
def storageQuery {α : Type} (f : Env → Except StorageFault α) : Action Env Error α :=
  .query fun env => (f env).mapError .storage

/-- Changes the variables, if that is possible. -/
def storageUpdate (f : Env → Except StorageFault Env) : Action Env Error Unit :=
  .update fun env => (f env).mapError .storage

/-- Puts a reference on top of those that wait. -/
def pushReference {ε : Type} (r : Reference) : Action Env ε Unit :=
  .modify fun env => { env with references := r :: env.references }

/-- Takes the top reference. -/
def popReference (message : String) : Action Env Error Reference := fun env =>
  match env.references with
  | [] => ⟨env, [], .error (.noReference message)⟩
  | r :: references => ⟨{ env with references }, [], .ok r⟩

/-- The environment with another reference in the place of the top one. -/
def replaceTopReference (env : Env) (r : Reference) : Env :=
  { env with references := r :: env.references.tail }

/-! ## Scalars and arrays -/

variable {env : Env} {name : Token} {v position : Int} {cells : List Int}

theorem scalar_of_scalar (h : env.storage.get? name = some (.scalar v)) :
    env.scalar name = .ok v := by
  simp only [scalar, content, h]
  rfl

theorem scalar_of_array (h : env.storage.get? name = some (.array cells)) :
    env.scalar name = .error (.arrayRead name) := by
  simp only [scalar, content, h]
  rfl

theorem slot_of_scalar (h : env.storage.get? name = some (.scalar v)) :
    env.slot name position = .error (.notArray name) := by
  simp only [slot, content, h]
  rfl

theorem slot_of_inside (h : env.storage.get? name = some (.array cells))
    (hp : 0 ≤ position ∧ position < cells.length) :
    env.slot name position = .ok ⟨cells, position.toNat, by omega⟩ := by
  simp only [slot, content, h]
  exact dif_pos hp

theorem slot_of_outside (h : env.storage.get? name = some (.array cells))
    (hp : ¬(0 ≤ position ∧ position < cells.length)) :
    env.slot name position = .error (.outOfRange position cells.length) := by
  simp only [slot, content, h]
  exact dif_neg hp

/-- A cell that there is belongs to an array of the name. -/
theorem get?_of_slot {s : Slot} (h : env.slot name position = .ok s) :
    env.storage.get? name = some (.array s.cells) := by
  rcases hv : env.storage.get? name with _ | w | cells
  · simp only [slot, content, hv] at h
    cases h
  · rw [slot_of_scalar hv] at h
    cases h
  · by_cases hp : 0 ≤ position ∧ position < cells.length
    · rw [slot_of_inside hv hp] at h
      cases h
      rfl
    · rw [slot_of_outside hv hp] at h
      cases h

/-- Without a variable, there is nothing to read or write. -/
theorem content_of_none (h : env.storage.get? name = none) :
    env.content name = .error (.unknown name) := by
  rw [content, h]

/-- A value that can be read is that of a scalar of the name. -/
theorem get?_of_scalar (h : env.scalar name = .ok v) :
    env.storage.get? name = some (.scalar v) := by
  rcases hv : env.storage.get? name with _ | w | cells
  · simp only [scalar, content_of_none hv] at h
    cases h
  · rw [scalar_of_scalar hv] at h
    cases h
    rfl
  · rw [scalar_of_array hv] at h
    cases h

theorem allotArray_of_array (h : env.storage.get? name = some (.array cells)) (length : Int) :
    env.allotArray name length = .error (.alreadyArray name) := by
  simp only [allotArray, content, h]
  rfl

theorem allotArray_of_scalar (h : env.storage.get? name = some (.scalar v)) (length : Int) :
    env.allotArray name length
      = if length < 0 then .error (.negativeLength name length)
        else .ok (env.setVariable name (.zeros length)) := by
  simp only [allotArray, content, h]
  rfl

/-- Only a scalar is made an array, of no less than no cells. -/
theorem eq_of_allotArray {length : Int} {env' : Env} (h : env.allotArray name length = .ok env') :
    ∃ w, env.storage.get? name = some (.scalar w) ∧ 0 ≤ length ∧
      env' = env.setVariable name (.zeros length) := by
  rcases hv : env.storage.get? name with _ | w | cells
  · simp only [allotArray, content_of_none hv] at h
    cases h
  · rw [allotArray_of_scalar hv] at h
    split at h
    · cases h
    · next hl =>
      cases h
      exact ⟨w, rfl, Int.not_lt.1 hl, rfl⟩
  · rw [allotArray_of_array hv] at h
    cases h

/-! ## Access from actions -/

theorem storageQuery_of_ok {α : Type} {f : Env → Except StorageFault α} {a : α}
    (h : f env = .ok a) : storageQuery f env = ⟨env, [], .ok a⟩ := by
  simp only [storageQuery, Action.query, h]
  rfl

theorem storageQuery_of_error {α : Type} {f : Env → Except StorageFault α} {fault : StorageFault}
    (h : f env = .error fault) : storageQuery f env = ⟨env, [], .error (.storage fault)⟩ := by
  simp only [storageQuery, Action.query, h]
  rfl

theorem storageUpdate_of_ok {f : Env → Except StorageFault Env} {env' : Env}
    (h : f env = .ok env') : storageUpdate f env = ⟨env', [], .ok ()⟩ := by
  simp only [storageUpdate, Action.update, h]
  rfl

theorem storageUpdate_of_error {f : Env → Except StorageFault Env} {fault : StorageFault}
    (h : f env = .error fault) : storageUpdate f env = ⟨env, [], .error (.storage fault)⟩ := by
  simp only [storageUpdate, Action.update, h]
  rfl

theorem popReference_of_nil (h : env.references = []) (message : String) :
    popReference message env = ⟨env, [], .error (.noReference message)⟩ := by
  simp [popReference, h]

theorem popReference_of_cons {r : Reference} {references : List Reference}
    (h : env.references = r :: references) (message : String) :
    popReference message env = ⟨{ env with references }, [], .ok r⟩ := by
  simp [popReference, h]

end Env

end Wordstack
