/-!
# Cells

A *cell* holds an integer of 32 bits in two's complement, from `-2³¹` to `2³¹ - 1`. Cells are
integers with a bound, not a type of their own: tables may hold larger integers, and only what
goes on the operand stack is *wrapped*, i.e., replaced by the one integer in range that is
congruent to it modulo `2³²` (`inRange_wrap`, `wrap_eq_self`).

Arithmetic is exact on the integers and wrapped afterwards. Division truncates toward zero, so
that the remainder has the sign of the dividend. The bitwise operations act on integers in two's
complement, which have bits without end. A comparison leaves a *flag*: all bits set for true, none
for false. Cells are shown in decimal, several of them as a *row* between brackets.
-/

namespace Wordstack.Cell

/-- The least value of a cell, `-2³¹`. -/
def least : Int := -0x80000000

/-- The greatest value of a cell, `2³¹ - 1`. -/
def greatest : Int := 0x7FFFFFFF

/-- The integers that a cell can hold. -/
def InRange (v : Int) : Prop :=
  least ≤ v ∧ v ≤ greatest

instance (v : Int) : Decidable (InRange v) :=
  inferInstanceAs (Decidable (_ ∧ _))

/-- The value of a cell into which an integer is forced. -/
def wrap (v : Int) : Int :=
  v.bmod 0x100000000

theorem inRange_wrap (v : Int) : InRange (wrap v) := by
  have h₁ := @Int.le_bmod v 0x100000000 (by decide)
  have h₂ := @Int.bmod_lt v 0x100000000 (by decide)
  constructor <;> simp only [wrap, least, greatest] <;> omega

@[simp] theorem wrap_eq_self {v : Int} (h : InRange v) : wrap v = v := by
  obtain ⟨h₁, h₂⟩ := h
  simp only [least, greatest] at h₁ h₂
  exact Int.bmod_eq_of_le (by omega) (by omega)

/-- The quotient of a division that truncates toward zero: that of the magnitudes, and negative if
    just one of the two integers is. -/
def quotient (y x : Int) : Int :=
  let magnitude : Int := (y.natAbs / x.natAbs : Nat)
  if y < 0 ↔ x < 0 then magnitude else -magnitude

/-- What the quotient leaves of the dividend. -/
def remainder (y x : Int) : Int :=
  y - x * quotient y x

/-- The quotient and the remainder of a division; there is none by zero. -/
def divMod? (y x : Int) : Option (Int × Int) :=
  if x = 0 then none else some (quotient y x, remainder y x)

/-- Every bit turned over: in two's complement, one less than the negative. -/
def complement (x : Int) : Int :=
  -x - 1

/-- The bits that two integers have in common. A negative integer has all bits but the finitely many
    of its complement. -/
def conjunction : Int → Int → Int
  | .ofNat m, .ofNat n => .ofNat (m &&& n)
  | .ofNat m, .negSucc n => .ofNat (m ^^^ (m &&& n))
  | .negSucc m, .ofNat n => .ofNat (n ^^^ (m &&& n))
  | .negSucc m, .negSucc n => .negSucc (m ||| n)

/-- The bits that at least one of two integers has: those that the complements do not have in
    common. -/
def disjunction (y x : Int) : Int :=
  complement (conjunction (complement y) (complement x))

/-- The flag of a condition. -/
def flag (p : Prop) [Decidable p] : Int :=
  if p then -1 else 0

/-- A row of integers between brackets. -/
def row (vs : List Int) : String :=
  "[" ++ String.intercalate ", " (vs.map toString) ++ "]"

end Wordstack.Cell
