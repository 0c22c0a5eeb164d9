import Wordstack.Action

/-!
# Counting

An action can be taken for each of so many consecutive integers. That comes to the same as taking
it for the elements of the list of these integers (`forCount_eq_forEach`), but the list is never
there as a whole: a count of any length takes the room of one integer, and one that fails early
is over early.
-/

namespace Wordstack

/-- So many integers, one after the other, from the first on. -/
def consecutive (first : Int) : Nat → List Int
  | 0 => []
  | count + 1 => first :: consecutive (first + 1) count

@[simp] theorem length_consecutive (first : Int) (count : Nat) :
    (consecutive first count).length = count := by
  induction count generalizing first with
  | zero => rfl
  | succ count ih => simp [consecutive, ih]

theorem mem_consecutive {first v : Int} {count : Nat} :
    v ∈ consecutive first count ↔ first ≤ v ∧ v < first + count := by
  induction count generalizing first with
  | zero =>
    simp only [consecutive, List.not_mem_nil, false_iff]
    omega
  | succ count ih =>
    simp only [consecutive, List.mem_cons, ih]
    omega

/-- A count goes on where a shorter one ends. -/
theorem consecutive_add (first : Int) (m n : Nat) :
    consecutive first (m + n) = consecutive first m ++ consecutive (first + m) n := by
  induction m generalizing first with
  | zero => simp [consecutive]
  | succ m ih =>
    rw [Nat.succ_add, consecutive, ih]
    simp [consecutive, Int.add_assoc, Int.add_comm 1]

namespace Action

variable {σ ε : Type}

/-- Takes the actions of so many integers from the first on, after others that have shown
    something, latest first. -/
def forCountAfter (f : Int → Action σ ε Unit) : List Event → Int → Nat → Action σ ε Unit
  | shown, _, 0, s => ⟨s, shown.reverse, .ok ()⟩
  | shown, first, count + 1, s =>
    match f first s with
    | ⟨s', new, .ok ()⟩ => forCountAfter f (new.reverse ++ shown) (first + 1) count s'
    | ⟨s', new, .error e⟩ => ⟨s', (new.reverse ++ shown).reverse, .error e⟩

/-- Takes the actions of so many integers from the first on. -/
def forCount (f : Int → Action σ ε Unit) (first : Int) (count : Nat) : Action σ ε Unit :=
  forCountAfter f [] first count

theorem forCountAfter_eq (f : Int → Action σ ε Unit) (shown : List Event) (first : Int)
    (count : Nat) :
    forCountAfter f shown first count = forEachAfter f shown (consecutive first count) := by
  induction count generalizing shown first with
  | zero => rfl
  | succ count ih =>
    funext s
    rw [forCountAfter, consecutive, forEachAfter]
    rcases f first s with ⟨s', new, _ | _⟩
    · rfl
    · exact congrFun (ih _ _) s'

/-- To count is to go through the list of the integers. -/
theorem forCount_eq_forEach (f : Int → Action σ ε Unit) (first : Int) (count : Nat) :
    forCount f first count = forEach f (consecutive first count) :=
  forCountAfter_eq f [] first count

end Action

end Wordstack
