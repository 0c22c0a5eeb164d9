import Mathlib
import Wordstack.Proofs.Operands

/-!
# Arithmetic of machine words

The operations on operands are exact, on integers without bound, and what comes out is wrapped. On
cells this is what a machine does that has nothing but words of 32 bits in two's complement
(`evaluate_machine`): sums, differences and products without their carries, division as the machine
divides signed words (the least cell divided by `-1` is itself), bits with bits, and signed
comparisons.

Taken as a word of the machine, an integer loses its bits beyond the lowest 32, and that is also
what wrapping takes away (`Cell.wrap_eq_toInt`). So it is enough that the word of a result is what
the machine makes of the words of the operands.
-/

namespace Wordstack

open Wordstack.Action Env

namespace Cell

variable {y x : Int}

/-! ## Words -/

/-- To wrap an integer is to take it for a word of 32 bits. -/
theorem wrap_eq_toInt (v : Int) : wrap v = (BitVec.ofInt 32 v).toInt := by
  rw [BitVec.toInt_ofInt]
  rfl

/-- A cell is the value of its word. -/
theorem toInt_ofInt (h : InRange x) : (BitVec.ofInt 32 x).toInt = x := by
  rw [← wrap_eq_toInt, wrap_eq_self h]

theorem ofInt_sub (y x : Int) :
    BitVec.ofInt 32 (y - x) = BitVec.ofInt 32 y - BitVec.ofInt 32 x := by
  rw [Int.sub_eq_add_neg, BitVec.ofInt_add, BitVec.ofInt_neg, BitVec.sub_eq_add_neg]

theorem ofInt_complement (x : Int) : BitVec.ofInt 32 (complement x) = ~~~BitVec.ofInt 32 x := by
  rw [complement, ofInt_sub, BitVec.ofInt_neg, BitVec.neg_eq_not_add]
  exact BitVec.add_sub_cancel _ _

/-! ## Bits -/

/-- The bits that a word has and another one has not. -/
theorem xor_and_eq_and_not (a b : BitVec 32) : a ^^^ (a &&& b) = a &&& ~~~b := by
  ext i hi
  cases ha : a[i] <;> simp [ha]

theorem ofInt_conjunction (y x : Int) :
    BitVec.ofInt 32 (conjunction y x) = BitVec.ofInt 32 y &&& BitVec.ofInt 32 x := by
  rcases y with m | m <;> rcases x with n | n
  · exact BitVec.ofNat_and
  · rw [conjunction, BitVec.ofInt_negSucc_eq_not_ofNat, ← xor_and_eq_and_not]
    exact BitVec.ofNat_xor.trans (congrArg _ BitVec.ofNat_and)
  · rw [conjunction, BitVec.ofInt_negSucc_eq_not_ofNat, BitVec.and_comm, ← xor_and_eq_and_not,
      BitVec.and_comm (BitVec.ofInt 32 _)]
    exact BitVec.ofNat_xor.trans (congrArg _ BitVec.ofNat_and)
  · rw [conjunction, BitVec.ofInt_negSucc_eq_not_ofNat, BitVec.ofInt_negSucc_eq_not_ofNat,
      BitVec.ofInt_negSucc_eq_not_ofNat, BitVec.ofNat_or, BitVec.not_or]

theorem ofInt_disjunction (y x : Int) :
    BitVec.ofInt 32 (disjunction y x) = BitVec.ofInt 32 y ||| BitVec.ofInt 32 x := by
  rw [disjunction, ofInt_complement, ofInt_conjunction, ofInt_complement, ofInt_complement,
    ← BitVec.not_or, BitVec.not_not]

/-! ## Division -/

/-- The quotient of the magnitudes with its sign is the one that truncates toward zero. -/
theorem quotient_eq_tdiv (y x : Int) : quotient y x = y.tdiv x := by
  have hlt (m : Nat) : ¬Int.ofNat m < 0 := Int.not_lt.2 (Int.natCast_nonneg m)
  simp only [quotient]
  rcases y with m | m <;> rcases x with n | n
  · rw [if_pos (iff_of_false (hlt m) (hlt n))]
    rfl
  · rw [if_neg fun h => hlt m (h.2 (Int.negSucc_lt_zero n))]
    rfl
  · rw [if_neg fun h => hlt n (h.1 (Int.negSucc_lt_zero m))]
    rfl
  · rw [if_pos (iff_of_true (Int.negSucc_lt_zero m) (Int.negSucc_lt_zero n))]
    rfl

theorem remainder_eq_tmod (y x : Int) : remainder y x = y.tmod x := by
  rw [remainder, quotient_eq_tdiv, Int.tmod_def]

/-! ## Operations of the machine -/

/-- On cells, the operation comes to that of the machine on their words. -/
def Refines (op : Int → Int → Int) (operation : BitVec 32 → BitVec 32 → BitVec 32) : Prop :=
  ∀ {y x : Int}, InRange y → InRange x →
    wrap (op y x) = (operation (.ofInt 32 y) (.ofInt 32 x)).toInt

/-- It is enough that the word of the result is the result for the words. -/
theorem refines_of_ofInt {op : Int → Int → Int} {operation : BitVec 32 → BitVec 32 → BitVec 32}
    (h : ∀ y x, BitVec.ofInt 32 (op y x) = operation (.ofInt 32 y) (.ofInt 32 x)) :
    Refines op operation := fun {y x} _ _ => by
  rw [wrap_eq_toInt, h]

theorem refines_add : Refines (· + ·) (· + ·) := refines_of_ofInt BitVec.ofInt_add

theorem refines_sub : Refines (· - ·) (· - ·) := refines_of_ofInt ofInt_sub

theorem refines_mul : Refines (· * ·) (· * ·) := refines_of_ofInt BitVec.ofInt_mul

theorem refines_conjunction : Refines conjunction (· &&& ·) := refines_of_ofInt ofInt_conjunction

theorem refines_disjunction : Refines disjunction (· ||| ·) := refines_of_ofInt ofInt_disjunction

/-- The quotient does not depend on the words alone: it takes cells to be the values of theirs. -/
theorem refines_quotient : Refines quotient BitVec.sdiv := fun {y x} hy hx => by
  rw [quotient_eq_tdiv, BitVec.toInt_sdiv, toInt_ofInt hy, toInt_ofInt hx]
  rfl

/-- A remainder is smaller than the divisor, so there is nothing to wrap. -/
theorem refines_remainder : Refines remainder BitVec.srem := fun {y x} hy hx => by
  have hr : remainder y x = ((BitVec.ofInt 32 y).srem (.ofInt 32 x)).toInt := by
    rw [remainder_eq_tmod, BitVec.toInt_srem, toInt_ofInt hy, toInt_ofInt hx]
  rw [hr, wrap_eq_toInt, BitVec.ofInt_toInt]

/-! ## Comparisons -/

/-- On cells, the relation is what the machine finds of their words. -/
def Decides (test : BitVec 32 → BitVec 32 → Bool) (rel : Int → Int → Prop) : Prop :=
  ∀ {y x : Int}, InRange y → InRange x → (test (.ofInt 32 y) (.ofInt 32 x) = true ↔ rel y x)

theorem decides_eq : Decides (· == ·) (· = ·) := fun {y x} hy hx => by
  rw [beq_iff_eq, ← BitVec.toInt_inj, toInt_ofInt hy, toInt_ofInt hx]

theorem decides_ne : Decides (· != ·) (· ≠ ·) := fun {y x} hy hx => by
  rw [bne_iff_ne, ne_eq, ← BitVec.toInt_inj, toInt_ofInt hy, toInt_ofInt hx]

theorem decides_lt : Decides BitVec.slt (· < ·) := fun {y x} hy hx => by
  rw [BitVec.slt_iff_toInt_lt, toInt_ofInt hy, toInt_ofInt hx]

theorem decides_le : Decides BitVec.sle (· ≤ ·) := fun {y x} hy hx => by
  rw [BitVec.sle_iff_toInt_le, toInt_ofInt hy, toInt_ofInt hx]

/-- What holds of two cells the other way round is tested the other way round. -/
theorem Decides.swap {test : BitVec 32 → BitVec 32 → Bool} {rel : Int → Int → Prop}
    (h : Decides test rel) : Decides (fun y x => test x y) (fun y x => rel x y) :=
  fun hy hx => h hx hy

/-- A flag is a cell. -/
theorem wrap_flag (p : Prop) [Decidable p] : wrap (flag p) = if p then -1 else 0 := by
  rw [flag]
  split <;> rfl

end Cell

/-! ## Builtins by themselves -/

variable {env env' : Env} {shown : List Event} {stack : List Int} {w : Token} {x y : Int}

namespace Builtin

/-- The plus sign is the only builtin that also opens a form. -/
theorem eq_plus_of_mem : ∀ w ∈ names, w ∈ Command.formNames → w = "+" := by decide

theorem isBlankText_of_mem : ∀ w ∈ names, Text.isBlankText w = false := by decide

end Builtin

/-- A builtin that nothing hides is a command by itself and does what it does. The plus sign is
    hidden by a reference to a cell. -/
theorem Evaluator.exists_read_of_builtin {b : Builtin} (hb : Builtin.ofName? w = some b)
    (hr : env.registers.get? w = none) (hp : w = "+" → ¬∃ name, env.Chooses name)
    (inner : Evaluator) :
    ∃ c, Command.read w [] = (c, []) ∧
      Evaluator.execute inner c env = (liftM b.run : Action Env Halt Unit) env := by
  have hperform : Evaluator.perform inner w env = (liftM b.run : Action Env Halt Unit) env :=
    Evaluator.perform_of_builtin (meaning_of_builtin hr hb)
  by_cases hf : w ∈ Command.formNames
  · obtain rfl := Builtin.eq_plus_of_mem w (Builtin.mem_names_of_ofName? hb) hf
    exact ⟨.plus, rfl, (Evaluator.plus_of_not_chooses (hp rfl)).trans hperform⟩
  · exact ⟨.word w, Command.read_of_not_mem hf [], hperform⟩

/-- What a builtin does that nothing hides, if it goes well. -/
theorem evaluate_builtin {b : Builtin} (hb : Builtin.ofName? w = some b)
    (hr : env.registers.get? w = none) (hp : w = "+" → ¬∃ name, env.Chooses name)
    (h : b.run env = ⟨env', shown, .ok ()⟩) (depth : Nat) :
    evaluate (depth + 1) [w] env = ⟨env', shown, .ok none⟩ := by
  obtain ⟨c, hc, he⟩ := Evaluator.exists_read_of_builtin hb hr hp (evaluate depth)
  exact evaluate_of_read (Builtin.isBlankText_of_mem w (Builtin.mem_names_of_ofName? hb)) hc
    (he.trans (lift_of_ok h))

/-- A builtin on two operands leaves what the operation makes of them. -/
theorem evaluate_binary {b : Builtin} {name : String} {op : Int → Int → Int}
    (hb : Builtin.ofName? w = some b) (hr : env.registers.get? w = none)
    (hp : w = "+" → ¬∃ name, env.Chooses name) (hs : env.stack = x :: y :: stack)
    (h : b.run env = Builtin.binary name op env) (depth : Nat) :
    evaluate (depth + 1) [w] env
      = ⟨{ env with stack := Cell.wrap (op y x) :: stack }, [], .ok none⟩ :=
  evaluate_builtin hb hr hp (h.trans (Builtin.binary_of_cons hs)) depth

theorem evaluate_invert (hr : env.registers.get? "invert" = none) (hs : env.stack = x :: stack)
    (depth : Nat) :
    evaluate (depth + 1) ["invert"] env
      = ⟨{ env with stack := Cell.wrap (Cell.complement x) :: stack }, [], .ok none⟩ := by
  refine evaluate_builtin (b := .complement) rfl hr (fun h => absurd h (by decide)) ?_ depth
  rw [Builtin.run, bind_of_ok (pop_of_cons hs _)]
  rfl

/-! ## The machine -/

/-- What a machine of 32 bits computes of two words, under the names that builtins have. -/
def machineOperations : List (Token × (BitVec 32 → BitVec 32 → BitVec 32)) := [
  ("+", (· + ·)), ("-", (· - ·)), ("*", (· * ·)), ("/", BitVec.sdiv), ("mod", BitVec.srem),
  ("and", (· &&& ·)), ("or", (· ||| ·))]

/-- What a machine of 32 bits can find of two words that have a sign. -/
def machineTests : List (Token × (BitVec 32 → BitVec 32 → Bool)) := [
  ("=", (· == ·)), ("!=", (· != ·)), ("<>", (· != ·)), ("<", BitVec.slt),
  (">", fun y x => x.slt y), ("<=", BitVec.sle), (">=", fun y x => x.sle y)]

theorem evaluate_machineOperation {operation : BitVec 32 → BitVec 32 → BitVec 32}
    (hw : (w, operation) ∈ machineOperations) (hr : env.registers.get? w = none)
    (hp : w = "+" → ¬∃ name, env.Chooses name) (hz : w = "/" ∨ w = "mod" → x ≠ 0)
    (hy : Cell.InRange y) (hx : Cell.InRange x) (hs : env.stack = x :: y :: stack)
    (depth : Nat) :
    evaluate (depth + 1) [w] env
      = ⟨{ env with stack := (operation (.ofInt 32 y) (.ofInt 32 x)).toInt :: stack }, [],
          .ok none⟩ := by
  have binary {b : Builtin} {name : String} {op : Int → Int → Int}
      (hop : Cell.Refines op operation) (hb : Builtin.ofName? w = some b)
      (h : b.run env = Builtin.binary name op env) :=
    hop hy hx ▸ evaluate_binary hb hr hp hs h depth
  -- Where the divisor is not zero, a division is an operation like others.
  have division {b : Builtin} {name : String} {op : Int → Int → Int}
      (hop : Cell.Refines op operation) (hb : Builtin.ofName? w = some b) (hx₀ : x ≠ 0)
      (h : b.run env = Builtin.division name op env) :=
    binary hop hb (h.trans ((Builtin.division_of_cons hs).trans (if_neg hx₀)))
  simp only [machineOperations, List.mem_cons, List.not_mem_nil, or_false, Prod.mk.injEq] at hw
  rcases hw with ⟨rfl, rfl⟩ | ⟨rfl, rfl⟩ | ⟨rfl, rfl⟩ | ⟨rfl, rfl⟩ | ⟨rfl, rfl⟩ | ⟨rfl, rfl⟩
    | ⟨rfl, rfl⟩
  · exact binary (b := .add) Cell.refines_add rfl rfl
  · exact binary (b := .subtract) Cell.refines_sub rfl rfl
  · exact binary (b := .multiply) Cell.refines_mul rfl rfl
  · exact division (b := .divide) Cell.refines_quotient rfl (hz (.inl rfl)) rfl
  · exact division (b := .modulo) Cell.refines_remainder rfl (hz (.inr rfl)) rfl
  · exact binary (b := .conjunction) Cell.refines_conjunction rfl rfl
  · exact binary (b := .disjunction) Cell.refines_disjunction rfl rfl

theorem evaluate_machineTest {test : BitVec 32 → BitVec 32 → Bool}
    (hw : (w, test) ∈ machineTests) (hr : env.registers.get? w = none)
    (hy : Cell.InRange y) (hx : Cell.InRange x) (hs : env.stack = x :: y :: stack)
    (depth : Nat) :
    evaluate (depth + 1) [w] env
      = ⟨{ env with stack := (if test (.ofInt 32 y) (.ofInt 32 x) then -1 else 0) :: stack }, [],
          .ok none⟩ := by
  have hne : w ≠ "+" := by
    rintro rfl
    simp [machineTests] at hw
  have compare {b : Builtin} {name : String} {rel : Int → Int → Prop} [DecidableRel rel]
      (ht : Cell.Decides test rel) (hb : Builtin.ofName? w = some b)
      (h : b.run env = Builtin.compare name rel env) :
      evaluate (depth + 1) [w] env
        = ⟨{ env with stack := (if test (.ofInt 32 y) (.ofInt 32 x) then -1 else 0) :: stack }, [],
            .ok none⟩ := by
    rw [evaluate_binary hb hr (fun h => absurd h hne) hs h depth, Cell.wrap_flag]
    simp only [ht hy hx]
  simp only [machineTests, List.mem_cons, List.not_mem_nil, or_false, Prod.mk.injEq] at hw
  rcases hw with ⟨rfl, rfl⟩ | ⟨rfl, rfl⟩ | ⟨rfl, rfl⟩ | ⟨rfl, rfl⟩ | ⟨rfl, rfl⟩ | ⟨rfl, rfl⟩
    | ⟨rfl, rfl⟩
  · exact compare (b := .equal) Cell.decides_eq rfl rfl
  · exact compare (b := .unequal) Cell.decides_ne rfl rfl
  · exact compare (b := .unequal) Cell.decides_ne rfl rfl
  · exact compare (b := .less) Cell.decides_lt rfl rfl
  · exact compare (b := .greater) Cell.decides_lt.swap rfl rfl
  · exact compare (b := .lessOrEqual) Cell.decides_le rfl rfl
  · exact compare (b := .greaterOrEqual) Cell.decides_le.swap rfl rfl

/-- On two cells, the arithmetic builtins leave what a machine of 32 bits computes of their words,
    and the comparisons a flag of what it finds; the complement turns over the bits of the word on
    top. The rest of the environment stays as it was. -/
theorem evaluate_machine (depth : Nat) (env : Env) (stack : List Int) {y x : Int}
    (hy : Cell.InRange y) (hx : Cell.InRange x) :
    (env.stack = x :: y :: stack →
      (∀ w operation, (w, operation) ∈ machineOperations → env.registers.get? w = none →
        (w = "+" → ¬∃ name, env.Chooses name) → (w = "/" ∨ w = "mod" → x ≠ 0) →
        evaluate (depth + 1) [w] env
          = ⟨{ env with stack := (operation (.ofInt 32 y) (.ofInt 32 x)).toInt :: stack }, [],
              .ok none⟩) ∧
      ∀ w test, (w, test) ∈ machineTests → env.registers.get? w = none →
        evaluate (depth + 1) [w] env
          = ⟨{ env with
                stack := (if test (.ofInt 32 y) (.ofInt 32 x) then -1 else 0) :: stack }, [],
              .ok none⟩) ∧
    (env.stack = x :: stack → env.registers.get? "invert" = none →
      evaluate (depth + 1) ["invert"] env
        = ⟨{ env with stack := (~~~BitVec.ofInt 32 x).toInt :: stack }, [], .ok none⟩) := by
  refine ⟨fun hs => ⟨fun w operation hw hr hp hz => ?_, fun w test hw hr => ?_⟩, fun hs hr => ?_⟩
  · exact evaluate_machineOperation hw hr hp hz hy hx hs depth
  · exact evaluate_machineTest hw hr hy hx hs depth
  · rw [evaluate_invert hr hs, Cell.wrap_eq_toInt, Cell.ofInt_complement]

/-- The least cell divided by `-1`, with a reference to an array on top. -/
theorem evaluate_machine_least :
    let env : Env := { stack := [-1, -0x80000000, 5], references := [.toCell "a" 1] }
    Cell.InRange (-0x80000000) ∧ Cell.InRange (-1) ∧
      evaluate 1 ["/"] env = ⟨{ env with stack := [-0x80000000, 5] }, [], .ok none⟩ ∧
      evaluate 1 ["mod"] env = ⟨{ env with stack := [0, 5] }, [], .ok none⟩ ∧
      evaluate 1 ["<"] env = ⟨{ env with stack := [-1, 5] }, [], .ok none⟩ ∧
      evaluate 1 ["invert"] env = ⟨{ env with stack := [0, -0x80000000, 5] }, [], .ok none⟩ := by
  intro env
  have hy : Cell.InRange (-0x80000000) := by decide
  have hx : Cell.InRange (-1) := by decide
  obtain ⟨hoperation, htest⟩ := (evaluate_machine 0 env [5] hy hx).1 rfl
  refine ⟨hy, hx, ?_, ?_, ?_, ?_⟩
  · exact hoperation "/" BitVec.sdiv (by simp [machineOperations]) rfl
      (fun h => absurd h (by decide)) (by decide)
  · exact hoperation "mod" BitVec.srem (by simp [machineOperations]) rfl
      (fun h => absurd h (by decide)) (by decide)
  · exact htest "<" BitVec.slt (by simp [machineTests]) rfl
  · exact (evaluate_machine 0 env [-0x80000000, 5] hy hx).2 rfl rfl

end Wordstack
