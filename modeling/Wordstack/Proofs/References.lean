import Mathlib
import Wordstack.Proofs.Faults
import Wordstack.Proofs.Moments
import Wordstack.Proofs.Reachability

/-!
# What references speak of

A reference is taken at one time and used at another, and the variable may have changed meanwhile.
But a variable never disappears, and an array never becomes a scalar again. So every reference that
waits speaks of a variable, and one to a cell speaks of an array (`Env.ReferencesSound`). This is an
invariant, which a fresh environment has, and it holds wherever programs lead
(`references_of_reachable`).

That leaves few ways in which a fetch or a store can fail (`fetch_result_eq_error_iff`,
`store_result_eq_error_iff`): there is no reference, the cell is not in the array, a reference to a
scalar is used after that has become an array, or there is nothing to store. Nothing is *dangling*:
nobody ever asks for a variable that does not exist, or for a cell of a scalar.
-/

namespace Wordstack

open Wordstack.Action Env

/-! ## Sound references -/

/-- The variable of the reference exists, and it is an array if the reference is to a cell. -/
def Reference.SoundIn (r : Reference) (storage : Table Variable) : Prop :=
  ∃ v, storage.get? r.name = some v ∧ (r.isArray = true → v.isArray = true)

/-- All references that wait are sound. -/
def Env.ReferencesSound (env : Env) : Prop :=
  ∀ r ∈ env.references, r.SoundIn env.storage

/-- A reference stays sound when a variable is created or written, if no array becomes a scalar. -/
theorem Reference.SoundIn.insert {r : Reference} {storage : Table Variable} {name : Token}
    {v : Variable} (h : r.SoundIn storage)
    (hv : ∀ w, storage.get? name = some w → w.isArray = true → v.isArray = true) :
    r.SoundIn (storage.insert name v) := by
  obtain ⟨w, hw, ha⟩ := h
  by_cases hn : name = r.name
  · refine ⟨v, ?_, fun hr => hv w (hn ▸ hw) (ha hr)⟩
    rw [Table.get?_insert, if_pos hn]
  · refine ⟨w, ?_, ha⟩
    rw [Table.get?_insert, if_neg hn, hw]

theorem Reference.soundIn_of_reference? {env : Env} {name : Token} {r : Reference}
    (h : env.reference? name = some r) : r.SoundIn env.storage := by
  obtain ⟨v, hv, rfl⟩ := Option.map_eq_some_iff.1 h
  cases v with
  | scalar w => exact ⟨.scalar w, hv, nofun⟩
  | array cells => exact ⟨.array cells, hv, fun _ => rfl⟩

theorem closed_referencesSound : Closed (fun _ => True) ReferencesSound := by
  intro env env' hc h
  cases hc with
  | stack | define | nameConstant => exact h
  | @declare name _ hs =>
    intro r hr
    rcases List.mem_cons.1 hr with rfl | hr
    · exact ⟨.scalar 0, Table.get?_insert_self _ _ _, nofun⟩
    · refine (h r hr).insert fun w hw ha => ?_
      -- The variable was no array, so there is no reference to one of its cells.
      cases w with
      | scalar w => cases ha
      | array cells => exact absurd hw (hs cells)
  | refer hr =>
    exact List.forall_mem_cons.2 ⟨Reference.soundIn_of_reference? hr, h⟩
  | useReference hr =>
    intro r hr'
    exact h r (hr ▸ List.mem_cons_of_mem _ hr')
  | setScalar hs _ =>
    intro r hr
    refine (h r hr).insert fun w hw ha => ?_
    cases hs.symm.trans hw
    cases ha
  | setCell _ _ => exact fun r hr => (h r hr).insert fun _ _ _ => rfl
  | allot _ => exact fun r hr => (h r hr).insert fun _ _ _ => rfl
  | chooseCell hr _ =>
    -- It is still the same array that the reference speaks of.
    rw [ReferencesSound, hr, List.forall_mem_cons] at h
    exact List.forall_mem_cons.2 h

theorem invariant_referencesSound : Invariant (fun _ => True) ReferencesSound :=
  .of_closed closed_referencesSound hereditary_any fun _ _ h => h

/-! ## Fetches and stores -/

/-- The ways in which a fetch can fail. -/
inductive Env.FetchFault (env : Env) : Error → Prop
  | noReference :
      env.references = [] →
      FetchFault env (.noReference "No variable reference found to get value")
  | outOfRange {name : Token} {position : Int} {references : List Reference} {cells : List Int} :
      env.references = .toCell name position :: references →
      env.storage.get? name = some (.array cells) →
      ¬(0 ≤ position ∧ position < cells.length) →
      FetchFault env (.storage (.outOfRange position cells.length))
  /-- The scalar has become an array. -/
  | arrayRead {name : Token} {references : List Reference} {cells : List Int} :
      env.references = .toScalar name :: references →
      env.storage.get? name = some (.array cells) →
      FetchFault env (.storage (.arrayRead name))

/-- The ways in which a store can fail. -/
inductive Env.StoreFault (env : Env) : Error → Prop
  | noReference :
      env.references = [] →
      StoreFault env (.noReference "No variable reference found to set value")
  | outOfRange {name : Token} {position : Int} {references : List Reference} {cells : List Int} :
      env.references = .toCell name position :: references →
      env.storage.get? name = some (.array cells) →
      ¬(0 ≤ position ∧ position < cells.length) →
      StoreFault env (.storage (.notStored name (.outOfRange position cells.length)))
  /-- The scalar has become an array. -/
  | arrayRead {name : Token} {references : List Reference} {cells : List Int} :
      env.references = .toScalar name :: references →
      env.storage.get? name = some (.array cells) →
      StoreFault env (.storage (.arrayRead name))
  | noCellValue {name : Token} {position : Int} {references : List Reference} {cells : List Int} :
      env.references = .toCell name position :: references →
      env.storage.get? name = some (.array cells) →
      0 ≤ position ∧ position < cells.length → env.stack = [] →
      StoreFault env (.underflow "Stack empty to set array value")
  | noScalarValue {name : Token} {references : List Reference} {w : Int} :
      env.references = .toScalar name :: references →
      env.storage.get? name = some (.scalar w) → env.stack = [] →
      StoreFault env (.underflow "Stack empty to set variable value")

variable {env : Env} {e : Error}

theorem Env.ReferencesSound.head (h : env.ReferencesSound) {r : Reference}
    {references : List Reference} (hr : env.references = r :: references) :
    r.SoundIn env.storage :=
  h r (hr ▸ List.mem_cons_self)

theorem fetch_result_eq_error_iff (h : env.ReferencesSound) :
    (fetch env).result = .error e ↔ env.FetchFault e := by
  constructor
  · rcases hr : env.references with _ | ⟨⟨name, _ | position⟩, references⟩
    · rw [fetch_of_nil hr]
      rintro ⟨⟩
      exact .noReference hr
    · obtain ⟨v, hv, -⟩ := h.head hr
      cases v with
      | scalar w =>
        rw [fetch_scalar_ok hr (scalar_of_scalar hv)]
        exact nofun
      | array cells =>
        rw [fetch_scalar_error hr (scalar_of_array hv)]
        rintro ⟨⟩
        exact .arrayRead hr hv
    · obtain ⟨v, hv, ha⟩ := h.head hr
      cases v with
      -- A reference to a cell does not speak of a scalar.
      | scalar w => exact absurd (ha rfl) nofun
      | array cells =>
        by_cases hp : 0 ≤ position ∧ position < cells.length
        · rw [fetch_cell_ok hr (slot_of_inside hv hp)]
          exact nofun
        · rw [fetch_cell_error hr (slot_of_outside hv hp)]
          rintro ⟨⟩
          exact .outOfRange hr hv hp
  · intro hf
    cases hf with
    | noReference hr => rw [fetch_of_nil hr]
    | outOfRange hr hv hp => rw [fetch_cell_error hr (slot_of_outside hv hp)]
    | arrayRead hr hv => rw [fetch_scalar_error hr (scalar_of_array hv)]

theorem store_result_eq_error_iff (h : env.ReferencesSound) :
    (store env).result = .error e ↔ env.StoreFault e := by
  constructor
  · rcases hr : env.references with _ | ⟨⟨name, _ | position⟩, references⟩
    · rw [store_of_nil hr]
      rintro ⟨⟩
      exact .noReference hr
    · obtain ⟨v, hv, -⟩ := h.head hr
      cases v with
      | scalar w =>
        rcases hs : env.stack with _ | ⟨v, stack⟩
        · rw [store_scalar_underflow hr (scalar_of_scalar hv) hs]
          rintro ⟨⟩
          exact .noScalarValue hr hv hs
        · rw [store_scalar_ok hr (scalar_of_scalar hv) hs]
          exact nofun
      | array cells =>
        rw [store_scalar_error hr (scalar_of_array hv)]
        rintro ⟨⟩
        exact .arrayRead hr hv
    · obtain ⟨v, hv, ha⟩ := h.head hr
      cases v with
      | scalar w => exact absurd (ha rfl) nofun
      | array cells =>
        by_cases hp : 0 ≤ position ∧ position < cells.length
        · rcases hs : env.stack with _ | ⟨v, stack⟩
          · rw [store_cell_underflow hr (slot_of_inside hv hp) hs]
            rintro ⟨⟩
            exact .noCellValue hr hv hp hs
          · rw [store_cell_ok hr (slot_of_inside hv hp) hs]
            exact nofun
        · rw [store_cell_error hr (slot_of_outside hv hp)]
          rintro ⟨⟩
          exact .outOfRange hr hv hp
  · intro hf
    cases hf with
    | noReference hr => rw [store_of_nil hr]
    | outOfRange hr hv hp => rw [store_cell_error hr (slot_of_outside hv hp)]
    | arrayRead hr hv => rw [store_scalar_error hr (scalar_of_array hv)]
    | noCellValue hr hv hp hs => rw [store_cell_underflow hr (slot_of_inside hv hp) hs]
    | noScalarValue hr hv hs => rw [store_scalar_underflow hr (scalar_of_scalar hv) hs]

/-! ## Nothing dangles -/

/-- Whether a variable was asked for that does not exist, or a cell of a scalar. -/
def StorageFault.isDangling : StorageFault → Bool
  | unknown _ | notArray _ => true
  | notStored _ cause => cause.isDangling
  | alreadyArray _ | negativeLength _ _ | arrayRead _ | arrayWritten _ | outOfRange _ _ => false

/-- Whether the error is that of a reference to nothing. -/
def Error.isDangling : Error → Bool
  | storage fault => fault.isDangling
  | _ => false

/-- Whether a command stops because of a reference to nothing. -/
def Halt.isDangling : Halt → Bool
  | fault e => e.isDangling
  | escape _ => false

theorem Evaluator.Fault.not_dangling {h : Halt} (hf : Evaluator.Fault h) :
    h.isDangling = false := by
  cases hf <;> rfl

theorem Env.FetchFault.not_dangling (hf : env.FetchFault e) : e.isDangling = false := by
  cases hf <;> rfl

theorem Env.StoreFault.not_dangling (hf : env.StoreFault e) : e.isDangling = false := by
  cases hf <;> rfl

theorem declare_not_dangling {name : Token} (he : (declare name env).result = .error e) :
    e.isDangling = false := by
  by_cases hs : ∃ cells, env.storage.get? name = some (.array cells)
  · obtain ⟨cells, hs⟩ := hs
    rw [declare_of_array hs] at he
    cases he
    rfl
  · rw [declare_of_not_array (not_exists.1 hs)] at he
    cases he

/-- A variable that exists can be an array already, or the length can be negative. -/
theorem allotArray_not_dangling {name : Token} {length : Int} {references : List Reference}
    {stack : List Int} (h : (Reference.toScalar name).SoundIn env.storage)
    (he : (storageUpdate (allotArray · name length) { env with references, stack }).result
      = .error e) : e.isDangling = false := by
  obtain ⟨v, hv, -⟩ := h
  have hv : ({ env with references, stack } : Env).storage.get? name = some v := hv
  cases v with
  | scalar w =>
    have ha := allotArray_of_scalar hv length
    by_cases hl : length < 0
    · rw [if_pos hl] at ha
      rw [storageUpdate_of_error ha] at he
      cases he
      rfl
    · rw [if_neg hl] at ha
      rw [storageUpdate_of_ok ha] at he
      cases he
  | array cells =>
    rw [storageUpdate_of_error (allotArray_of_array hv length)] at he
    cases he
    rfl

theorem allot_not_dangling (h : env.ReferencesSound) (he : (allot env).result = .error e) :
    e.isDangling = false := by
  rcases hr : env.references with _ | ⟨⟨name, _ | position⟩, references⟩
  · rw [allot_of_nil hr] at he
    cases he
    rfl
  · rcases hs : env.stack with _ | ⟨length, stack⟩
    · rw [allot_underflow hr hs] at he
      cases he
      rfl
    · rw [allot_of_cons hr hs] at he
      exact allotArray_not_dangling (h.head hr) he
  · rw [allot_of_cell hr] at he
    cases he
    rfl

namespace Evaluator

variable {inner : Evaluator} {h : Halt}

/-- A command that is read from tokens does not fail because of a reference to nothing. -/
theorem execute_not_dangling (hs : env.ReferencesSound) {c : Command} {tokens : List Token}
    (hc : c ∈ Command.sequence tokens) (he : (execute inner c env).result = .error h) :
    h.isDangling = false := by
  rcases execute_fails hc he with hf | ⟨m, e, ho, rfl, he⟩
  · exact hf.not_dangling
  · cases ho with
    | declare name => exact declare_not_dangling he
    | fetch => exact ((fetch_result_eq_error_iff hs).1 he).not_dangling
    | store => exact ((store_result_eq_error_iff hs).1 he).not_dangling
    | allot => exact allot_not_dangling hs he

end Evaluator

/-! ## Wherever programs lead -/

/-- In every session that programs and operands lead to, references are sound, and so they are at
    every moment of every evaluation there. Nothing dangles, at any level, and a fetch or a store
    fails in its few ways only. -/
theorem references_of_reachable {s : Session}
    (hs : Session.Reachable (fun r => r.isProgram = true) s) (depth : Nat) (tokens : List Token) :
    s.env.ReferencesSound ∧
      (∀ e, .report e ∈ (evaluate depth tokens s.env).output → e.isDangling = false) ∧
      ∀ m, Occurs depth tokens s.env m →
        m.env.ReferencesSound ∧
        (∀ h, m.outcome.result = .error h → h.isDangling = false) ∧
        (m.command = .fetch → ∀ h, m.outcome.result = .error h
          ↔ ∃ e, h = .fault e ∧ m.env.FetchFault e) ∧
        (m.command = .store → ∀ h, m.outcome.result = .error h
          ↔ ∃ e, h = .fault e ∧ m.env.StoreFault e) := by
  have hsound : s.env.ReferencesSound :=
    hs.invariant invariant_referencesSound (fun _ hr => absurd hr List.not_mem_nil) nofun
  have hmoment {m : Moment} (hm : Occurs depth tokens s.env m) : m.env.ReferencesSound :=
    hm.invariant invariant_referencesSound hsound
  have hdangling {m : Moment} (hm : Occurs depth tokens s.env m) {h : Halt}
      (he : m.outcome.result = .error h) : h.isDangling = false := by
    obtain ⟨tokens', hc⟩ := hm.mem_sequence
    exact Evaluator.execute_not_dangling (hmoment hm) hc he
  -- What is reported goes wrong at a moment, so it is enough to look at moments.
  refine ⟨hsound, fun e he => ?_, fun m hm => ⟨hmoment hm, fun h he => hdangling hm he, ?_, ?_⟩⟩
  · obtain ⟨m, hm, he⟩ := report_mem_evaluate_iff.1 he
    exact hdangling hm he
  · intro hc h
    rw [Moment.outcome, hc]
    refine lift_result_eq_error.trans (exists_congr fun e => ?_)
    exact and_congr_right fun _ => fetch_result_eq_error_iff (hmoment hm)
  · intro hc h
    rw [Moment.outcome, hc]
    refine lift_result_eq_error.trans (exists_congr fun e => ?_)
    exact and_congr_right fun _ => store_result_eq_error_iff (hmoment hm)

/-- A reference to a scalar that has become an array, used in a conditional. -/
theorem references_of_reachable_stale :
    let env : Env := { storage := .ofList [("a", .array [0, 0])], references := [.toScalar "a"] }
    Session.Reachable (fun r => r.isProgram = true) { env } ∧
      Occurs 3 ["1", "if", "@", "then", "@"] env ⟨1, .fetch, env⟩ ∧
      env.FetchFault (.storage (.arrayRead "a")) ∧
      .report (.storage (.arrayRead "a")) ∈ (evaluate 3 ["1", "if", "@", "then", "@"] env).output ∧
      (Error.storage (.arrayRead "a")).isDangling = false := by
  intro env
  have hsequence : Command.sequence ["variable", "a", "a", "2", "allot"]
      = [.declare (.ok "a"), .word "a", .word "2", .allot] := by
    have hv : Command.read "variable" ["a", "a", "2", "allot"]
        = (.declare (.ok "a"), ["a", "2", "allot"]) := rfl
    have ha : Command.read "allot" [] = (.allot, []) := rfl
    rw [Command.sequence_cons_of_read (by decide) hv,
      Command.sequence_cons_of_read (by decide) (Command.read_of_not_mem (by decide) _),
      Command.sequence_cons_of_read (by decide) (Command.read_of_not_mem (by decide) _),
      Command.sequence_cons_of_read (by decide) ha, Command.sequence_nil]
  have hs : Session.Reachable (fun r => r.isProgram = true) { env } := by
    have he (inner : Evaluator) : (reporting (.forEach (Evaluator.execute inner)
        [.declare (.ok "a"), .word "a", .word "2", .allot]) {}).state = env := by cbv
    have hp := Request.state_perform_evaluate ["variable", "a", "a", "2", "allot"] {}
    rw [evaluateTokens, nestingLimit, evaluate_succ, hsequence, he] at hp
    rw [← hp]
    exact .request (.fresh true) rfl
  have hm : Occurs 3 ["1", "if", "@", "then", "@"] env ⟨1, .fetch, env⟩ := by
    have h₁ : Evaluator.execute (evaluate 2) (.word "1") env
        = ⟨{ env with stack := [1] }, [], .ok ()⟩ := by cbv
    have hsequence : Command.sequence ["1", "if", "@", "then", "@"]
        = [.word "1", .conditional (.ok ⟨["@"], none⟩), .fetch] := by cbv
    have hr : Reaches (Evaluator.execute (evaluate 2))
        (Command.sequence ["1", "if", "@", "then", "@"]) env
        (.conditional (.ok ⟨["@"], none⟩)) { env with stack := [1] } := by
      rw [hsequence]
      exact .tail h₁ (.head _ _ _)
    have he : Evaluator.Enters (evaluate 2) { env with stack := [1] }
        (.conditional (.ok ⟨["@"], none⟩)) ["@"] env :=
      .whenTrue rfl Int.one_ne_zero (List.cons_ne_nil _ _)
        (Option.some_ne_none []).symm
    have hbody : Command.sequence ["@"] = [.fetch] := by cbv
    refine .within hr he (.here ?_)
    rw [hbody]
    exact .head _ _ _
  obtain ⟨-, hreports, hmoments⟩ := references_of_reachable hs 3 ["1", "if", "@", "then", "@"]
  have houtput : (evaluate 3 ["1", "if", "@", "then", "@"] env).output
      = [.report (.storage (.arrayRead "a")),
          .report (.noReference "No variable reference found to get value")] := by cbv
  have hreport : .report (.storage (.arrayRead "a"))
      ∈ (evaluate 3 ["1", "if", "@", "then", "@"] env).output := by
    rw [houtput]
    exact List.mem_cons_self
  obtain ⟨e, he, hf⟩ := ((hmoments _ hm).2.2.1 rfl (.fault (.storage (.arrayRead "a")))).1 (by cbv)
  cases he
  exact ⟨hs, hm, hf, hreport, hreports _ hreport⟩

end Wordstack
