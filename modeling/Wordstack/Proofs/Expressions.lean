import Mathlib
import Wordstack.Proofs.Arithmetic
import Wordstack.Proofs.Hygiene
import Wordstack.Proofs.Numerals
import Wordstack.Proofs.Sequencing

/-!
# Expressions

An *expression* of sums, differences, products and complements of cells is written as a program by
putting every operator after what it is applied to. In an environment that nothing but programs
made, this program computes the expression: it leaves the exact value of the expression, wrapped
once, on top of the operands that were there (`evaluate_expression`). That the program wraps after
every operator, and the value is wrapped in the end only, makes no difference.

It matters that numerals and operators mean what they say. Programs cannot hide them: they name no
word by a number, and they bind no register but the counter of loops (`Env.Plain`). Only the plus
sign means something else while a reference to an array waits.
-/

namespace Wordstack

open Wordstack.Action Env

/-! ## Plain environments -/

/-- Nothing hides a numeral or a builtin: no word is named by a number, and there is at most the
    register of the counter. -/
structure Env.Plain (env : Env) : Prop where
  words : ∀ n ∈ env.words.keys, parseNumber n = .ok none
  registers : ∀ n ∈ env.registers.keys, n = counter

namespace Env

variable {env : Env} {n : Token}

theorem plain_empty : Plain {} where
  words := nofun
  registers := nofun

/-- The operands do not matter. -/
theorem Plain.withStack (h : env.Plain) (stack : List Int) : Plain { env with stack } :=
  ⟨h.words, h.registers⟩

theorem closed_plain : Closed (Command.Of fun _ => True) Plain := by
  intro env env' hc h
  have hregisters : ∀ n ∈ env'.registers.keys, n = counter := hc.registers_eq ▸ h.registers
  cases hc with
  | @define d hk =>
    have hn : parseNumber d.name = .ok none := (hk.introduces rfl).2
    exact ⟨Table.forall_mem_keys_insert hn h.words d.body, hregisters⟩
  | stack | nameConstant | declare | refer | useReference | setScalar | setCell | allot
  | chooseCell => exact ⟨h.words, hregisters⟩

/-- Loops write to no register but that of the counter. -/
theorem invariant_plain : Invariant (Command.Of fun _ => True) Plain where
  toHereditary := hereditary_of_speaks fun _ _ _ _ _ _ => trivial
  change := closed_plain
  count _ _ _ _ h' :=
    ⟨h'.words, Table.forall_mem_keys_insert (P := (· = counter)) rfl h'.registers _⟩
  restore {env env'} _ h' := by
    cases env.registers.get? counter with
    | some v =>
      exact ⟨h'.words, Table.forall_mem_keys_insert (P := (· = counter)) rfl h'.registers v⟩
    | none =>
      refine ⟨h'.words, fun n hn => h'.registers n ?_⟩
      have hn : n ∈ (env'.registers.erase counter).keys := hn
      rw [Table.keys_erase] at hn
      exact List.mem_of_mem_filter hn

/-- Whatever is evaluated, an environment stays plain. -/
theorem evaluate_keeps_plain (depth : Nat) (tokens : List Token) :
    Keeps Plain (evaluate depth tokens) :=
  evaluate_keeps invariant_plain depth (madeOf_of_forall fun _ _ => trivial)

theorem Plain.registers_get? (h : env.Plain) (hn : n ≠ counter) :
    env.registers.get? n = none := by
  rw [← Option.not_isSome_iff_eq_none, Table.get?_isSome_iff]
  exact fun hk => hn (h.registers n hk)

theorem ne_counter_of_parseNumber {v : Int} (hn : parseNumber n = .ok (some v)) :
    n ≠ counter := by
  rintro rfl
  cases (parseNumber_of_ofChars? (by decide)).symm.trans hn

theorem Plain.words_get? (h : env.Plain) {v : Int} (hn : parseNumber n = .ok (some v)) :
    env.words.get? n = none := by
  rw [← Option.not_isSome_iff_eq_none, Table.get?_isSome_iff]
  exact fun hk => by cases (h.words n hk).symm.trans hn

/-- A numeral means its number. -/
theorem Plain.evaluate_numeral (h : env.Plain) {v : Int} (hn : parseNumber n = .ok (some v))
    (depth : Nat) :
    evaluate (depth + 1) [n] env = ⟨{ env with stack := v :: env.stack }, [], .ok none⟩ :=
  Wordstack.evaluate_numeral (h.registers_get? (ne_counter_of_parseNumber hn)) (h.words_get? hn)
    hn depth

/-- A numeral puts its number on the operand stack, and the other tokens follow. -/
theorem Plain.run_numeral (h : env.Plain) {v : Int} (hn : parseNumber n = .ok (some v))
    (depth : Nat) (rest : List Token) :
    Evaluator.run (evaluate depth) (n :: rest) env
      = Evaluator.run (evaluate depth) rest { env with stack := v :: env.stack } := by
  have hone : Evaluator.run (evaluate depth) [n] env
      = ⟨{ env with stack := v :: env.stack }, [], .ok ()⟩ :=
    eq_of_reporting_eq_ok (h.evaluate_numeral hn depth)
  have happend := (Evaluator.run_append (evaluate depth) [n] rest env).1 (by rw [hone])
  rw [hone] at happend
  exact happend

theorem Plain.evaluate_invert (h : env.Plain) {x : Int} {stack : List Int}
    (hs : env.stack = x :: stack) (depth : Nat) :
    evaluate (depth + 1) ["invert"] env
      = ⟨{ env with stack := Cell.wrap (Cell.complement x) :: stack }, [], .ok none⟩ :=
  Wordstack.evaluate_invert (h.registers_get? (by decide)) hs depth

end Env

/-- What programs make of a fresh environment is plain. -/
theorem Session.Reachable.plain {s : Session}
    (hs : Session.Reachable (fun r => r.isProgram = true) s) : s.env.Plain := by
  have hkind (tokens : List Token) : Body.MadeOf (Command.Of fun _ => True) tokens :=
    madeOf_of_forall fun _ _ => trivial
  exact hs.invariant_of_kind invariant_plain (fun text => hkind _) plain_empty
    (fun tokens _ => hkind tokens) nofun

/-! ## Wrapping -/

namespace Cell

theorem ofInt_wrap (v : Int) : BitVec.ofInt 32 (wrap v) = BitVec.ofInt 32 v := by
  rw [wrap_eq_toInt, BitVec.ofInt_toInt]

theorem wrap_complement_wrap (x : Int) : wrap (complement (wrap x)) = wrap (complement x) := by
  rw [wrap_eq_toInt, ofInt_complement, ofInt_wrap, ← ofInt_complement, ← wrap_eq_toInt]

/-- Where the word of a result depends on the words of the operands alone, it does not matter
    whether these are wrapped. -/
theorem wrap_wrap_of_ofInt {op : Int → Int → Int} {operation : BitVec 32 → BitVec 32 → BitVec 32}
    (h : ∀ y x, BitVec.ofInt 32 (op y x) = operation (.ofInt 32 y) (.ofInt 32 x)) (y x : Int) :
    wrap (op (wrap y) (wrap x)) = wrap (op y x) := by
  rw [wrap_eq_toInt, h, ofInt_wrap, ofInt_wrap, ← h, ← wrap_eq_toInt]

end Cell

/-! ## Expressions and their programs -/

/-- An operator between two expressions. -/
inductive Operator where
  | add | subtract | multiply
  deriving DecidableEq, Repr

/-- An expression over cells. -/
inductive Expression where
  | literal (v : { v : Int // Cell.InRange v })
  | complement (e : Expression)
  | binary (operator : Operator) (left right : Expression)

namespace Operator

/-- The operation on integers. -/
def apply : Operator → Int → Int → Int
  | add => (· + ·)
  | subtract => (· - ·)
  | multiply => (· * ·)

/-- How the operator is written. -/
def token : Operator → Token
  | add => "+"
  | subtract => "-"
  | multiply => "*"

theorem wrap_apply (o : Operator) (y x : Int) :
    Cell.wrap (o.apply (Cell.wrap y) (Cell.wrap x)) = Cell.wrap (o.apply y x) := by
  cases o with
  | add => exact Cell.wrap_wrap_of_ofInt BitVec.ofInt_add y x
  | subtract => exact Cell.wrap_wrap_of_ofInt Cell.ofInt_sub y x
  | multiply => exact Cell.wrap_wrap_of_ofInt BitVec.ofInt_mul y x

theorem evaluate_token {env : Env} {x y : Int} {stack : List Int} (h : env.Plain)
    (hp : ¬∃ name, env.Chooses name) (hs : env.stack = x :: y :: stack) (o : Operator)
    (depth : Nat) :
    evaluate (depth + 1) [o.token] env
      = ⟨{ env with stack := Cell.wrap (o.apply y x) :: stack }, [], .ok none⟩ := by
  have hr (hn : o.token ≠ counter) : env.registers.get? o.token = none := h.registers_get? hn
  cases o with
  | add =>
    exact evaluate_binary (b := .add) rfl (hr (by decide)) (fun _ => hp) hs rfl depth
  | subtract =>
    exact evaluate_binary (b := .subtract) rfl (hr (by decide)) (fun _ => hp) hs rfl depth
  | multiply =>
    exact evaluate_binary (b := .multiply) rfl (hr (by decide)) (fun _ => hp) hs rfl depth

end Operator

namespace Expression

/-- The exact value. -/
def value : Expression → Int
  | literal v => v
  | complement e => Cell.complement e.value
  | binary o left right => o.apply left.value right.value

/-- The program: cells in decimal, and every operator after what it is applied to. -/
def tokens : Expression → List Token
  | literal v => [toString v.1]
  | complement e => e.tokens ++ ["invert"]
  | binary o left right => left.tokens ++ right.tokens ++ [o.token]

/-- In a plain environment, the program of an expression leaves its value. -/
theorem evaluate_of_plain {env : Env} (h : env.Plain) (hp : ¬∃ name, env.Chooses name)
    (e : Expression) (depth : Nat) :
    evaluate (depth + 1) e.tokens env
      = ⟨{ env with stack := Cell.wrap e.value :: env.stack }, [], .ok none⟩ := by
  -- For all environments, as the second operand is computed on top of the first.
  induction e generalizing env with
  | literal v =>
    rw [tokens, value, Cell.wrap_eq_self v.2]
    exact h.evaluate_numeral (parseNumber_toString v.2) depth
  | complement e ih =>
    have hinvert := (h.withStack (Cell.wrap e.value :: env.stack)).evaluate_invert rfl depth
    rw [tokens, evaluate_append_of_ok (ih h hp), after_nil, hinvert, Cell.wrap_complement_wrap]
    rfl
  | binary o left right ihleft ihright =>
    have hleft := ihleft h hp
    -- The operands below are other ones, but the tables and the references are the same.
    have hright := ihright (h.withStack (Cell.wrap left.value :: env.stack)) hp
    have hboth :=
      (evaluate_append_of_ok hleft right.tokens).trans (congrArg (Outcome.after []) hright)
    have hoperator := o.evaluate_token
      (h.withStack (Cell.wrap right.value :: Cell.wrap left.value :: env.stack)) hp rfl depth
    rw [tokens, evaluate_append_of_ok hboth, List.append_nil, after_nil, hoperator, o.wrap_apply]
    rfl

end Expression

/-- Wherever programs lead, if no reference to an array waits, the program of an expression leaves
    the exact value, wrapped, on top of the operands and changes nothing else. -/
theorem evaluate_expression {s : Session}
    (hs : Session.Reachable (fun r => r.isProgram = true) s) (hp : ¬∃ name, s.env.Chooses name)
    (e : Expression) (depth : Nat) :
    evaluate (depth + 1) e.tokens s.env
      = ⟨{ s.env with stack := Cell.wrap e.value :: s.env.stack }, [], .ok none⟩ :=
  e.evaluate_of_plain hs.plain hp depth

/-- The square of the greatest cell less the complement of the least, after a text that defines a
    word and leaves an operand. The value has more than 60 bits. -/
theorem evaluate_expression_square :
    let env : Env := { stack := [5], words := .ofList [("sq", ["dup", "*"])] }
    let greatest : Expression := .literal ⟨0x7FFFFFFF, by decide⟩
    let least : Expression := .literal ⟨-0x80000000, by decide⟩
    let e : Expression :=
      .binary .subtract (.binary .multiply greatest greatest) (.complement least)
    Session.Reachable (fun r => r.isProgram = true) { env } ∧
      e.tokens = ["2147483647", "2147483647", "*", "-2147483648", "invert", "-"] ∧
      e.value = 0x3FFFFFFE80000002 ∧
      evaluate 1 e.tokens env = ⟨{ env with stack := [-0x7FFFFFFE, 5] }, [], .ok none⟩ := by
  intro env greatest least e
  have htext : evaluateTokens (tokenize ": sq dup * ; 5") {} = ⟨env, [], .ok none⟩ := by cbv
  have hs : Session.Reachable (fun r => r.isProgram = true) { env } :=
    .execute_of_ok (.fresh true) rfl htext
  have hp : ¬∃ name, env.Chooses name := by
    rintro ⟨name, position, references, hr⟩
    cases hr
  exact ⟨hs, rfl, rfl, evaluate_expression hs hp e 0⟩

end Wordstack
