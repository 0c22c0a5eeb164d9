import Mathlib
import Wordstack.Proofs.Correspondence

/-!
# Names that definitions do not change

A word or a constant can be defined under any name that is no numeral, but not under any name does
it matter. A token that opens a form is not asked for its meaning, and one that names a builtin
means the builtin before it could mean a word or a constant; the plus sign is both. These names are
*fixed* (`fixedNames`).

Environments that agree except for what their tables have under fixed names cannot be told apart by
programs, and keep agreeing while programs go on to define such names (`evaluate_agrees`). They
look different only where the words are listed.
-/

namespace Wordstack

open Wordstack.Action Env

/-- The names that mean the same whatever is defined: those of builtins and those that open
    forms. -/
def fixedNames : List Token :=
  Builtin.names ++ Command.formNames

/-! ## Agreement -/

/-- The same is found under all names but these. -/
def Table.AgreeOff {α : Type} (names : List String) (t t' : Table α) : Prop :=
  ∀ n ∉ names, t'.get? n = t.get? n

namespace Table.AgreeOff

variable {α : Type} {names : List String} {t t' : Table α}

theorem refl (names : List String) (t : Table α) : t.AgreeOff names t :=
  fun _ _ => rfl

/-- Tables agree after the same insertion into both. -/
theorem insert (h : t.AgreeOff names t') (k : String) (v : α) :
    (t.insert k v).AgreeOff names (t'.insert k v) := fun n hn => by
  rw [get?_insert, get?_insert, h n hn]

/-- An insertion under one of the names does not matter. -/
theorem insert_right (h : t.AgreeOff names t') {k : String} (hk : k ∈ names) (v : α) :
    t.AgreeOff names (t'.insert k v) := fun n hn => by
  rw [get?_insert, if_neg fun he : k = n => hn (he ▸ hk), h n hn]

theorem mem_keys_iff (h : t.AgreeOff names t') {n : String} (hn : n ∉ names) :
    n ∈ t'.keys ↔ n ∈ t.keys := by
  rw [← get?_isSome_iff, ← get?_isSome_iff, h n hn]

end Table.AgreeOff

/-- The environments differ only in the words and constants under fixed names. -/
structure Env.Agrees (env env' : Env) : Prop where
  stack : env'.stack = env.stack
  storage : env'.storage = env.storage
  references : env'.references = env.references
  registers : env'.registers = env.registers
  words : env.words.AgreeOff fixedNames env'.words
  constants : env.constants.AgreeOff fixedNames env'.constants

/-- The events differ only if they list words, and then only in what they list under fixed
    names. -/
inductive Event.Agrees : Event → Event → Prop
  | same (event : Event) : Agrees event event
  | dictionary {words words' : Table Body} :
      words.AgreeOff fixedNames words' → Agrees (.dictionary words) (.dictionary words')
  | names {words words' : List Token} (builtins : List String) :
      (∀ n ∉ fixedNames, n ∈ words' ↔ n ∈ words) →
      Agrees (.names words builtins) (.names words' builtins)

/-- The comparison of environments that agree. -/
def Comparison.fixed : Comparison where
  envs := Env.Agrees
  events := Event.Agrees
  excluded _ := False

/-- The operation does not depend on what is defined under fixed names. -/
abbrev Unaffected {α : Type} (m : Action Env Error α) : Prop :=
  Follows .fixed Comparison.fixed.excluded m m

variable {α : Type} {env env' : Env}

/-! ## Meanings -/

theorem Env.Agrees.reference?_eq (h : env.Agrees env') (name : Token) :
    env'.reference? name = env.reference? name := by
  rw [reference?, reference?, h.storage]

/-- A token that opens no form means the same: if it names no builtin, it is not fixed. -/
theorem Env.Agrees.meaning_eq (h : env.Agrees env') {t : Token} (ht : t ∉ Command.formNames) :
    env'.meaning t = env.meaning t := by
  rw [meaning, meaning, h.registers]
  rcases env.registers.get? t with _ | v
  · rcases hb : Builtin.ofName? t with _ | b
    · have hn : t ∉ fixedNames := fun hm => by
        rcases List.mem_append.1 hm with hm | hm
        · simp [← Builtin.ofName?_isSome_iff, hb] at hm
        · exact ht hm
      rw [h.words t hn, plainMeaning, plainMeaning, h.constants t hn, h.reference?_eq]
    · rfl
  · rfl

/-! ## Operations -/

theorem modify_unaffected {g : Env → Env}
    (hg : ∀ {env env'}, env.Agrees env' → (g env).Agrees (g env')) : Unaffected (modify g) :=
  fun _ _ h _ => corresponds_of_silent (C := .fixed) (hg h) _

theorem query_unaffected {f : Env → Except Error α}
    (hf : ∀ {env env'}, env.Agrees env' → f env' = f env) : Unaffected (query f) := by
  intro env env' h _
  rw [query, query, hf h]
  exact corresponds_of_silent h _

/-- An action that depends on the state is unaffected if it is the same action in environments
    that agree. -/
theorem state_bind_unaffected {f : Env → Action Env Error α}
    (hf : ∀ {env env'}, env.Agrees env' → f env' = f env) (hm : ∀ env, Unaffected (f env)) :
    Unaffected (Action.state >>= f) := by
  intro env env' h hbad
  rw [state_bind] at hbad ⊢
  rw [state_bind, hf h]
  exact hm env env env' h hbad

theorem fail_unaffected (e : Error) : Unaffected (.fail e : Action Env Error α) :=
  fun _ _ h _ => corresponds_of_silent h _

theorem emit_unaffected (event : Event) : Unaffected (emit event) :=
  fun _ _ h _ => ⟨h, .cons (.same event) .nil, rfl⟩

theorem push_unaffected (v : Int) : Unaffected (push v) :=
  modify_unaffected fun h => { h with stack := congrArg (_ :: ·) h.stack }

theorem pop_unaffected (message : String) : Unaffected (pop message) := by
  intro env env' h _
  rcases hs : env.stack with _ | ⟨v, stack⟩
  · rw [pop_of_nil hs, pop_of_nil (h.stack.trans hs)]
    exact corresponds_of_silent h _
  · rw [pop_of_cons hs, pop_of_cons (h.stack.trans hs)]
    have h₁ : Env.Agrees { env with stack } { env' with stack } := { h with stack := rfl }
    exact corresponds_of_silent h₁ _

theorem top_unaffected (message : String) : Unaffected (top message) :=
  query_unaffected fun h => by rw [h.stack]

theorem require_unaffected (count : Int) (message : String) :
    Unaffected (require count message) :=
  query_unaffected fun h => by rw [h.stack]

theorem pushReference_unaffected (r : Reference) : Unaffected (pushReference r) :=
  modify_unaffected fun h => { h with references := congrArg (r :: ·) h.references }

theorem popReference_unaffected (message : String) : Unaffected (popReference message) := by
  intro env env' h _
  rcases hr : env.references with _ | ⟨r, references⟩
  · rw [popReference_of_nil hr, popReference_of_nil (h.references.trans hr)]
    exact corresponds_of_silent h _
  · rw [popReference_of_cons hr, popReference_of_cons (h.references.trans hr)]
    have h₁ : Env.Agrees { env with references } { env' with references } :=
      { h with references := rfl }
    exact corresponds_of_silent h₁ _

namespace Builtin

theorem binary_unaffected (name : String) (op : Int → Int → Int) : Unaffected (binary name op) :=
  (pop_unaffected _).bind fun _ => (pop_unaffected _).bind fun _ => push_unaffected _

theorem division_unaffected (name : String) (op : Int → Int → Int) :
    Unaffected (division name op) := by
  refine (require_unaffected _ _).bind fun _ => state_bind_unaffected ?_ fun env => ?_
  · intro env env' h
    rw [h.stack]
  · split
    · exact fail_unaffected _
    · exact binary_unaffected name op

theorem rearrange_unaffected (name : String) (count : Int) (f : List Int → List Int) :
    Unaffected (rearrange name count f) :=
  (require_unaffected _ _).bind fun _ =>
    modify_unaffected fun h => { h with stack := congrArg f h.stack }

/-- Only the listings of words show what is defined under fixed names. -/
theorem run_unaffected (b : Builtin) : Unaffected b.run := by
  cases b with
  | add | subtract | multiply | conjunction | disjunction => exact binary_unaffected _ _
  | equal | unequal | less | greater | lessOrEqual | greaterOrEqual =>
    exact binary_unaffected _ _
  | divide | modulo => exact division_unaffected _ _
  | complement => exact (pop_unaffected _).bind fun _ => push_unaffected _
  | duplicate => exact (top_unaffected _).bind fun _ => push_unaffected _
  | discard => exact (pop_unaffected _).bind fun _ _ _ h _ => corresponds_of_silent h _
  | exchange | duplicateSecond | rotate => exact rearrange_unaffected _ _ _
  | print | printCharacter => exact (pop_unaffected _).bind fun _ => emit_unaffected _
  | printLineEnd => exact emit_unaffected _
  | showStack =>
    refine state_bind_unaffected (fun h => ?_) fun _ => emit_unaffected _
    rw [stackEvent, stackEvent, h.stack]
  | showVariables =>
    refine state_bind_unaffected (fun h => ?_) fun _ => emit_unaffected _
    rw [h.storage]
  | showWords => exact fun _ _ h _ => ⟨h, .cons (.dictionary h.words) .nil, rfl⟩
  | showNames =>
    exact fun _ _ h _ => ⟨h, .cons (.names _ fun _ hn => h.words.mem_keys_iff hn) .nil, rfl⟩

end Builtin

/-! ## References -/

theorem Env.slot_of_storage_eq (h : env'.storage = env.storage) (name : Token) (position : Int) :
    env'.slot name position = env.slot name position := by
  simp only [slot, content, h]

theorem Env.scalar_of_storage_eq (h : env'.storage = env.storage) (name : Token) :
    env'.scalar name = env.scalar name := by
  simp only [scalar, content, h]

theorem storageQuery_unaffected {f : Env → Except StorageFault α}
    (hf : ∀ {env env' : Env}, env'.storage = env.storage → f env' = f env) :
    Unaffected (storageQuery f) :=
  query_unaffected fun h => congrArg _ (hf h.storage)

/-- An update gives a variable a content that depends on the variables alone, or fails. -/
theorem storageUpdate_unaffected (name : Token) {f : Env → Except StorageFault Env}
    (hf : ∀ {env env' : Env}, env'.storage = env.storage →
      ∃ r : Except StorageFault Variable,
        f env = r.map (env.setVariable name) ∧ f env' = r.map (env'.setVariable name)) :
    Unaffected (storageUpdate f) := by
  intro env env' h _
  obtain ⟨fault | v, hr, hr'⟩ := hf h.storage
  · rw [storageUpdate_of_error hr, storageUpdate_of_error hr']
    exact corresponds_of_silent h _
  · rw [storageUpdate_of_ok hr, storageUpdate_of_ok hr']
    have h₁ : (env.setVariable name v).Agrees (env'.setVariable name v) :=
      { h with storage := congrArg (·.insert name v) h.storage }
    exact corresponds_of_silent h₁ _

theorem declare_unaffected (name : Token) : Unaffected (declare name) := by
  refine (storageUpdate_unaffected name fun {env env'} h => ?_).bind fun _ =>
    pushReference_unaffected _
  rw [createVariable, createVariable, h]
  split
  · exact ⟨.error _, rfl, rfl⟩
  · exact ⟨.ok _, rfl, rfl⟩

theorem nameConstant_unaffected (name : Token) : Unaffected (nameConstant name) :=
  (pop_unaffected _).bind fun v =>
    modify_unaffected fun h => { h with constants := h.constants.insert name v }

theorem fetch_unaffected : Unaffected fetch := by
  refine (popReference_unaffected _).bind fun r => ?_
  split
  · exact (storageQuery_unaffected fun h => slot_of_storage_eq h _ _).bind fun _ =>
      push_unaffected _
  · exact (storageQuery_unaffected fun h => scalar_of_storage_eq h _).bind fun _ =>
      push_unaffected _

theorem setCell_unaffected (name : Token) (position v : Int) :
    Unaffected (storageUpdate (setCell · name position v)) := by
  refine storageUpdate_unaffected name fun {env env'} h => ?_
  simp only [setCell, slot_of_storage_eq h]
  rcases env.slot name position with fault | s
  · exact ⟨.error fault, rfl, rfl⟩
  · exact ⟨.ok (.array (s.set v)), rfl, rfl⟩

theorem setScalar_unaffected (name : Token) (v : Int) :
    Unaffected (storageUpdate (setScalar · name v)) := by
  refine storageUpdate_unaffected name fun {env env'} h => ?_
  simp only [setScalar, content, h]
  rcases env.storage.get? name with _ | w | cells
  · exact ⟨.error _, rfl, rfl⟩
  · exact ⟨.ok (.scalar v), rfl, rfl⟩
  · exact ⟨.error _, rfl, rfl⟩

theorem store_unaffected : Unaffected store := by
  refine (popReference_unaffected _).bind fun r => ?_
  split
  · refine (storageQuery_unaffected fun h => ?_).bind fun _ =>
      (pop_unaffected _).bind fun v => setCell_unaffected _ _ v
    rw [slot_of_storage_eq h]
  · exact (storageQuery_unaffected fun h => scalar_of_storage_eq h _).bind fun _ =>
      (pop_unaffected _).bind fun v => setScalar_unaffected _ v

theorem allotArray_unaffected (name : Token) (length : Int) :
    Unaffected (storageUpdate (allotArray · name length)) := by
  refine storageUpdate_unaffected name fun {env env'} h => ?_
  simp only [allotArray, content, h]
  rcases env.storage.get? name with _ | w | cells
  · exact ⟨.error _, rfl, rfl⟩
  · by_cases hl : length < 0
    · simp only [if_pos hl]
      exact ⟨.error _, rfl, rfl⟩
    · simp only [if_neg hl]
      exact ⟨.ok (.zeros length), rfl, rfl⟩
  · exact ⟨.error _, rfl, rfl⟩

theorem allot_unaffected : Unaffected allot := by
  refine state_bind_unaffected (fun h => ?_) fun env => ?_
  · rw [h.references]
  · split
    · exact fail_unaffected _
    · split
      · exact fail_unaffected _
      · exact (pop_unaffected _).bind fun length => (popReference_unaffected _).bind fun _ =>
          allotArray_unaffected _ length

theorem chooseCell_unaffected (name : Token) : Unaffected (chooseCell name) :=
  (pop_unaffected _).bind fun position =>
    modify_unaffected fun h =>
      { h with references := by rw [replaceTopReference, replaceTopReference, h.references] }

/-! ## Evaluations -/

theorem sound_fixed : Comparison.fixed.Sound where
  text s := .same _
  report e := .same _
  meaning h _ := h.meaning_eq
  registers_eq h := h.registers
  registers _ h := { h with registers := rfl }
  push v h := { h with stack := congrArg (v :: ·) h.stack }
  refer r h := { h with references := congrArg (r :: ·) h.references }
  define d h := { h with words := h.words.insert d.name d.body }
  chooses_iff h name := by rw [Env.Chooses, Env.Chooses, h.references]
  chooseCell h _ := chooseCell_unaffected _ _ _ h
  pop := pop_unaffected
  top := top_unaffected
  run := Builtin.run_unaffected
  declare := declare_unaffected
  nameConstant := nameConstant_unaffected
  fetch := fetch_unaffected
  store := store_unaffected
  allot := allot_unaffected

/-- Where environments differ only in the words and constants under fixed names, an evaluation ends
    alike and leaves them so, and it shows the same except in what it lists of the words. -/
theorem evaluate_agrees (depth : Nat) (tokens : List Token) {env env' : Env}
    (h : env.Agrees env') :
    (evaluate depth tokens env').result = (evaluate depth tokens env).result ∧
    (evaluate depth tokens env).state.Agrees (evaluate depth tokens env').state ∧
    List.Forall₂ Event.Agrees (evaluate depth tokens env).output
      (evaluate depth tokens env').output := by
  have hbad : ∀ m, Occurs depth tokens env m → m.outcome.Avoids Comparison.fixed.halts := by
    rintro m - (e | x) - ⟨⟩
  have hc := sound_fixed.evaluate_corresponds_of_moments h hbad
  exact ⟨hc.result, hc.state, hc.output⟩

/-- Words under the names of a builtin and of a form, a constant under the plus sign. The program
    calls the builtin from a word, defines it anew, adds, and lists the words. -/
theorem evaluate_agrees_dup :
    let env : Env := { words := .ofList [("sq", ["dup", "*"])] }
    let env' : Env :=
      { words := (env.words.insert "dup" ["drop"]).insert "if" [],
        constants := env.constants.insert "+" 7 }
    let tokens := ["3", "sq", ":", "dup", "swap", ";", "1", "dup", "+", "+", "words"]
    env.Agrees env' ∧
      (evaluate 3 tokens env').result = .ok none ∧
      (evaluate 3 tokens env').state.stack = [11] ∧
      (evaluate 3 tokens env').state.words.get? "sq" = some ["dup", "*"] ∧
      ∃ listed, (evaluate 3 tokens env').output = [listed] ∧
        Event.Agrees (.names ["sq", "dup"] Builtin.names) listed := by
  intro env env' tokens
  have h : env.Agrees env' := {
    stack := rfl
    storage := rfl
    references := rfl
    registers := rfl
    words := ((Table.AgreeOff.refl _ _).insert_right (by decide) _).insert_right (by decide) _
    constants := (Table.AgreeOff.refl _ _).insert_right (by decide) _ }
  have he : evaluate 3 tokens env
      = ⟨{ stack := [11], words := .ofList [("sq", ["dup", "*"]), ("dup", ["swap"])] },
          [.names ["sq", "dup"] Builtin.names], .ok none⟩ := by cbv
  obtain ⟨hresult, hstate, houtput⟩ := evaluate_agrees 3 tokens h
  rw [he] at hresult hstate houtput
  obtain ⟨listed, _, hlisted, hnil, houtput⟩ := List.forall₂_cons_left_iff.1 houtput
  rw [List.forall₂_nil_left_iff.1 hnil] at houtput
  refine ⟨h, hresult, hstate.stack, ?_, listed, houtput, hlisted⟩
  exact (hstate.words "sq" (by decide)).trans rfl

end Wordstack
