import Wordstack.Proofs.Invariants

/-!
# What environments hold

The integers that an environment holds are the operands, what the variables, constants and
registers have for values, and the slots of the references that wait (`Env.Holds`). Programs bring
in cells only and move the rest about, and a loop brings in the numbers between its bounds. So if
all integers of an environment have a property that cells have, and integers between two that have
it, then this is an invariant (`Spans.invariant_holds`).
-/

namespace Wordstack

open Env

/-- The integers in a variable. -/
def Variable.values : Variable → List Int
  | scalar v => [v]
  | array cells => cells

/-- All integers in the environment have the property. -/
structure Env.Holds (P : Int → Prop) (env : Env) : Prop where
  operands : ∀ v ∈ env.stack, P v
  storage {name : Token} {x : Variable} :
    env.storage.get? name = some x → ∀ v ∈ x.values, P v
  constants {name : Token} {v : Int} : env.constants.get? name = some v → P v
  registers {name : Token} {v : Int} : env.registers.get? name = some v → P v
  slots : ∀ r ∈ env.references, ∀ position, r.slot = some position → P position

theorem Env.holds_empty (P : Int → Prop) : Env.Holds P {} where
  operands := nofun
  storage := nofun
  constants := nofun
  registers := nofun
  slots := nofun

/-- A property of integers that cells have, and integers between two that have it. -/
structure Spans (P : Int → Prop) : Prop where
  cell {v : Int} : Cell.InRange v → P v
  between {a b v : Int} : P a → P b → a ≤ v → v ≤ b → P v

namespace Spans

variable {P : Int → Prop} {kind : Command → Prop}

theorem zero (hP : Spans P) : P 0 :=
  hP.cell (by decide)

/-- Whatever a command brings into the environment is a cell. -/
theorem closed_holds (hP : Spans P) : Closed kind (Env.Holds P) := by
  intro env env' hc h
  -- The operands below the top stay when it is taken.
  have below {v : Int} {stack : List Int} (hs : env.stack = v :: stack) : ∀ w ∈ stack, P w :=
    fun w hw => h.operands w (hs ▸ List.mem_cons_of_mem v hw)
  have top {v : Int} {stack : List Int} (hs : env.stack = v :: stack) : P v :=
    h.operands v (hs ▸ List.mem_cons_self)
  -- A variable that is written holds what it is given, and others hold what they held.
  have written (name : Token) {x : Variable} (hx : ∀ v ∈ x.values, P v) {name' : Token}
      {x' : Variable} (hg : (env.storage.insert name x).get? name' = some x') :
      ∀ v ∈ x'.values, P v :=
    Table.of_get?_insert (P := fun x : Variable => ∀ v ∈ x.values, P v) hx h.storage hg
  cases hc with
  | stack hs => exact { h with operands := fun v hv => (hs v hv).elim (h.operands v) hP.cell }
  | define _ => exact { h with }
  | nameConstant _ hs =>
    exact { h with operands := below hs, constants := Table.of_get?_insert (top hs) h.constants }
  | @declare name _ _ =>
    refine { h with storage := written name ?_, slots := ?_ }
    · exact fun v hv => List.mem_singleton.1 hv ▸ hP.zero
    · exact List.forall_mem_cons.2 ⟨nofun, h.slots⟩
  | refer hr =>
    refine { h with slots := List.forall_mem_cons.2 ⟨fun position hp => ?_, h.slots⟩ }
    -- The name of an array speaks of its first cell.
    obtain ⟨x, -, rfl⟩ := Option.map_eq_some_iff.1 hr
    split at hp <;> cases hp
    exact hP.zero
  | useReference hr =>
    exact { h with slots := fun r hr' => h.slots r (hr ▸ List.mem_cons_of_mem _ hr') }
  | @setScalar name v _ _ _ hs =>
    refine { h with operands := below hs, storage := written name ?_ }
    exact fun w hw => List.mem_singleton.1 hw ▸ top hs
  | @setCell name _ v s _ hslot hs =>
    refine { h with operands := below hs, storage := written name fun w hw => ?_ }
    rcases List.mem_or_eq_of_mem_set hw with hw | rfl
    · exact h.storage (get?_of_slot hslot) w hw
    · exact top hs
  | @allot name _ length _ =>
    refine { h with storage := written name fun w hw => ?_ }
    rw [List.eq_of_mem_replicate hw]
    exact hP.zero
  | @chooseCell name _ position' _ _ hr hs =>
    refine { h with operands := below hs, slots := List.forall_mem_cons.2 ⟨?_, fun r hr' => ?_⟩ }
    · rintro _ ⟨⟩
      exact top hs
    · exact h.slots r (hr ▸ List.mem_cons_of_mem _ hr')

theorem invariant_holds (hP : Spans P) : Invariant (fun _ => True) (Env.Holds P) where
  toHereditary := hereditary_any
  change := hP.closed_holds
  count {env env' last first v stack} h hs hfirst hlast h' := by
    -- The number is between the bounds, which were operands.
    have hv : P v := by
      refine hP.between (h.operands first ?_) (h.operands last ?_) hfirst (by omega)
      · rw [hs]
        exact List.mem_cons_of_mem _ List.mem_cons_self
      · rw [hs]
        exact List.mem_cons_self
    exact { h' with registers := Table.of_get?_insert hv h'.registers }
  restore {env env'} h h' := by
    cases ho : env.registers.get? counter with
    | some v => exact { h' with registers := Table.of_get?_insert (h.registers ho) h'.registers }
    | none =>
      refine { h' with registers := fun {name v} hg => ?_ }
      have hg : (env'.registers.erase counter).get? name = some v := hg
      rw [Table.get?_erase] at hg
      split at hg
      · cases hg
      · exact h'.registers hg

end Spans

end Wordstack
