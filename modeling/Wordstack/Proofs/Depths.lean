import Mathlib
import Wordstack.Proofs.Expressions
import Wordstack.Proofs.Losses

/-!
# The depth of the operand stack

A *straight* program has no forms, only numerals and builtins. Every token of it *needs* so many
operands and has an *effect* on their number, whatever the operands are (`Token.need`,
`Token.effect`). So the depth of the operand stack before each token is known before anything is
evaluated (`Env.depthAt`), and with it where the program ends: at the first token that finds fewer
operands than it needs, or else divides by zero (`evaluate_straight`).

A token leaves what is below the operands that it needs (`Env.Clear.run_of_enough`). This carries
the prediction from one token to the next, together with the operands at the bottom that no token
comes near (`Env.Clear.run_take`).
-/

namespace Wordstack

open Wordstack.Action Env

/-! ## Builtins -/

/-- The action goes well and puts so many operands in the place of the upper ones. -/
def Action.Replaces {ε : Type} (m : Action Env ε Unit) (env : Env) (taken : Nat) (put : Int) :
    Prop :=
  ∃ top shown, m env = ⟨{ env with stack := top ++ env.stack.drop taken }, shown, .ok ()⟩ ∧
    (top.length : Int) = put

namespace Builtin

/-- How many operands more there are after a builtin than before. -/
def effect : Builtin → Int
  | duplicate | duplicateSecond => 1
  | exchange | rotate | complement => 0
  | printLineEnd | showStack | showWords | showVariables | showNames => 0
  | discard | print | printCharacter => -1
  | add | subtract | multiply | divide | modulo | conjunction | disjunction => -1
  | equal | unequal | less | greater | lessOrEqual | greaterOrEqual => -1

variable {b : Builtin} {env : Env} {name : String} {op : Int → Int → Int}

theorem binary_replaces (h : 2 ≤ env.stack.length) : Replaces (binary name op) env 2 1 := by
  obtain ⟨x, y, stack, hs⟩ := exists_pair h
  exact ⟨[Cell.wrap (op y x)], [], by rw [binary_of_cons hs, hs]; rfl, rfl⟩

/-- A division that is not one by zero is an operation like others. -/
theorem division_replaces (h : 2 ≤ env.stack.length) (hz : env.stack.head? ≠ some 0) :
    Replaces (division name op) env 2 1 := by
  obtain ⟨x, y, stack, hs⟩ := exists_pair h
  have hd : division name op env = binary name op env :=
    (division_of_cons hs).trans (if_neg fun hx => hz (by rw [hs, hx]; rfl))
  have hb : Replaces (binary name op) env 2 1 := binary_replaces h
  simpa only [Replaces, hd] using hb

/-- A rearrangement that only looks at the operands that it needs. -/
theorem rearrange_replaces {count : Nat} {f : List Int → List Int} {put : Nat}
    (hf : ∀ l rest, l.length = count → ∃ l', f (l ++ rest) = l' ++ rest ∧ l'.length = put)
    (h : count ≤ env.stack.length) : Replaces (rearrange name count f) env count put := by
  obtain ⟨top, htop, rfl⟩ := hf _ (env.stack.drop count) (List.length_take_of_le h)
  refine ⟨top, [], (rearrange_of_le (Int.ofNat_le.2 h)).trans ?_, rfl⟩
  rw [← htop, List.take_append_drop]

/-- What takes the top first puts what it then does in its place. -/
theorem pop_bind_replaces {m : Int → Action Env Error Unit} {message : String} {put : Int}
    (hm : ∀ v env, Replaces (m v) env 0 put) (h : 1 ≤ env.stack.length) :
    Replaces (do m (← pop message)) env 1 put := by
  obtain ⟨v, stack, hs⟩ := List.exists_cons_of_length_pos h
  obtain ⟨top, shown, he, hl⟩ := hm v { env with stack }
  refine ⟨top, shown, ?_, hl⟩
  rw [bind_of_ok (pop_of_cons hs message), he, hs]
  rfl

/-- A builtin that has its operands, and is not to divide by zero, puts others in their place. -/
theorem run_replaces (h : b.operands ≤ env.stack.length)
    (hz : b.divides = true → env.stack.head? ≠ some 0) :
    Replaces b.run env b.operands (b.operands + b.effect) := by
  cases b with
  | add | subtract | multiply | conjunction | disjunction => exact binary_replaces h
  | equal | unequal | less | greater | lessOrEqual | greaterOrEqual => exact binary_replaces h
  | divide | modulo => exact division_replaces h (hz rfl)
  | exchange =>
    refine rearrange_replaces (fun l rest hl => ?_) h
    obtain ⟨x, y, rfl⟩ := List.length_eq_two.1 hl
    exact ⟨[y, x], rfl, rfl⟩
  | duplicateSecond =>
    refine rearrange_replaces (fun l rest hl => ?_) h
    obtain ⟨x, y, rfl⟩ := List.length_eq_two.1 hl
    exact ⟨[y, x, y], rfl, rfl⟩
  | rotate =>
    refine rearrange_replaces (fun l rest hl => ?_) h
    obtain ⟨x, y, z, rfl⟩ := List.length_eq_three.1 hl
    exact ⟨[z, x, y], rfl, rfl⟩
  | duplicate =>
    obtain ⟨x, stack, hs⟩ := List.exists_cons_of_length_pos h
    refine ⟨[Cell.wrap x, x], [], ?_, rfl⟩
    rw [run, bind_of_ok (top_of_cons hs _), push_apply, hs]
    rfl
  | complement => exact pop_bind_replaces (fun v env => ⟨[_], [], rfl, rfl⟩) h
  | discard => exact pop_bind_replaces (fun v env => ⟨[], [], rfl, rfl⟩) h
  | print | printCharacter => exact pop_bind_replaces (fun v env => ⟨[], [_], rfl, rfl⟩) h
  | printLineEnd | showStack | showWords | showVariables | showNames =>
    exact ⟨[], [_], rfl, rfl⟩

end Builtin

/-! ## Tokens -/

namespace Token

/-- How many operands a token needs: a builtin its own, a numeral none. -/
def need (t : Token) : Nat :=
  ((Builtin.ofName? t).map Builtin.operands).getD 0

/-- How many operands more there are after a token than before: after a numeral, it is one. -/
def effect (t : Token) : Int :=
  ((Builtin.ofName? t).map Builtin.effect).getD 1

/-- The token is a builtin or a numeral. -/
def Straight (t : Token) : Prop :=
  t ∈ Builtin.names ∨ ∃ v, parseNumber t = .ok (some v)

variable {t : Token} {b : Builtin}

theorem need_of_builtin (hb : Builtin.ofName? t = some b) : t.need = b.operands := by
  rw [need, hb]
  rfl

theorem effect_of_builtin (hb : Builtin.ofName? t = some b) : t.effect = b.effect := by
  rw [effect, hb]
  rfl

theorem Straight.exists_of_ofName? (h : t.Straight) (hb : Builtin.ofName? t = none) :
    ∃ v, parseNumber t = .ok (some v) :=
  h.resolve_left fun hn => by
    have hs := (Builtin.ofName?_isSome_iff t).2 hn
    rw [hb] at hs
    cases hs

theorem divides_iff (hb : Builtin.ofName? t = some b) :
    b.divides = true ↔ t = "/" ∨ t = "mod" := by
  have h : ∀ t ∈ Builtin.names,
      ((Builtin.ofName? t).any Builtin.divides = true ↔ t = "/" ∨ t = "mod") := by decide
  simpa [hb] using h t (Builtin.mem_names_of_ofName? hb)

end Token

/-- Nothing hides a builtin or a numeral: no register has the name of either, no word is named by a
    number, and the top reference is not to a cell. -/
structure Env.Clear (env : Env) : Prop where
  registers : ∀ t : Token, t.Straight → env.registers.get? t = none
  words : ∀ t v, parseNumber t = .ok (some v) → env.words.get? t = none
  references : ¬∃ name, env.Chooses name

/-- In a plain environment, only the plus sign can be hidden. -/
theorem Env.Plain.clear {env : Env} (h : env.Plain) (hr : ¬∃ name, env.Chooses name) :
    env.Clear where
  registers t ht := h.registers_get? fun hc => by
    rcases ht with hn | ⟨v, hv⟩
    · exact absurd (hc ▸ hn) (by decide)
    · exact ne_counter_of_parseNumber hv hc
  words t v hv := h.words_get? hv
  references := hr

namespace Env.Clear

variable {env : Env} {t : Token} {v : Int}

/-- The operands do not matter. -/
theorem withStack (h : env.Clear) (stack : List Int) : Clear { env with stack } :=
  ⟨h.registers, h.words, h.references⟩

theorem run_builtin (h : env.Clear) {b : Builtin} (hb : Builtin.ofName? t = some b)
    (inner : Evaluator) :
    Evaluator.run inner [t] env = (liftM b.run : Action Env Halt Unit) env := by
  have hn := Builtin.mem_names_of_ofName? hb
  obtain ⟨c, hr, he⟩ := Evaluator.exists_read_of_builtin hb (h.registers t (.inl hn))
    (fun _ => h.references) inner
  rw [Evaluator.run_of_read (Builtin.isBlankText_of_mem t hn) hr, he]

theorem run_numeral (h : env.Clear) (hv : parseNumber t = .ok (some v)) (depth : Nat) :
    Evaluator.run (evaluate depth) [t] env
      = ⟨{ env with stack := v :: env.stack }, [], .ok ()⟩ :=
  eq_of_reporting_eq_ok
    (evaluate_numeral (h.registers t (.inr ⟨v, hv⟩)) (h.words t v hv) hv depth)

/-- A token that has the operands that it needs, and is not to divide by zero, puts others in their
    place. -/
theorem run_of_enough (h : env.Clear) (ht : t.Straight) (hn : t.need ≤ env.stack.length)
    (hz : t = "/" ∨ t = "mod" → env.stack.head? ≠ some 0) (depth : Nat) :
    Replaces (Evaluator.run (evaluate depth) [t]) env t.need (t.need + t.effect) := by
  rcases hb : Builtin.ofName? t with _ | b
  · obtain ⟨v, hv⟩ := ht.exists_of_ofName? hb
    refine ⟨[v], [], ?_, ?_⟩
    · rw [h.run_numeral hv, Token.need, hb]
      rfl
    · rw [Token.need, Token.effect, hb]
      rfl
  · rw [Token.need_of_builtin hb] at hn ⊢
    rw [Token.effect_of_builtin hb]
    obtain ⟨top, shown, hr, hl⟩ :=
      Builtin.run_replaces hn fun hd => hz ((Token.divides_iff hb).1 hd)
    exact ⟨top, shown, (h.run_builtin hb _).trans (lift_of_ok hr), hl⟩

/-- A token that lacks operands fails for want of them. -/
theorem run_of_missing (h : env.Clear) (hn : env.stack.length < t.need) (depth : Nat) :
    ∃ stack message, Evaluator.run (evaluate depth) [t] env
      = ⟨{ env with stack }, [], .error (.fault (.underflow message))⟩ := by
  rcases hb : Builtin.ofName? t with _ | b
  · rw [Token.need, hb] at hn
    exact absurd hn (Nat.not_lt_zero _)
  · rw [Token.need_of_builtin hb] at hn
    obtain ⟨message, he⟩ := Builtin.run_of_lt hn
    exact ⟨_, message, (h.run_builtin hb _).trans (lift_of_error (Builtin.run_of_error he))⟩

/-- A division by zero fails if it does not lack operands. -/
theorem run_of_zero (h : env.Clear) (ht : t = "/" ∨ t = "mod") (hn : t.need ≤ env.stack.length)
    (hz : env.stack.head? = some 0) (depth : Nat) :
    Evaluator.run (evaluate depth) [t] env = ⟨env, [], .error (.fault .divisionByZero)⟩ := by
  obtain ⟨b, hb⟩ : ∃ b, Builtin.ofName? t = some b := by
    rcases ht with rfl | rfl <;> exact ⟨_, rfl⟩
  have hd : b.divides = true := (Token.divides_iff hb).2 ht
  have htwo : t.need = 2 := by rcases ht with rfl | rfl <;> rfl
  obtain ⟨x, y, stack, hs⟩ := exists_pair (htwo ▸ hn)
  obtain rfl : x = 0 := by simpa [hs] using hz
  exact (h.run_builtin hb _).trans (lift_of_error (Builtin.run_of_zero hd hs))

end Env.Clear

/-! ## Programs -/

namespace Env

variable (env : Env) (tokens : List Token)

/-- The number of operands that there are to be when so many tokens have been evaluated. -/
def depthAt (k : Nat) : Int :=
  env.stack.length + ((tokens.take k).map Token.effect).sum

/-- There are to be fewer operands than the token at the position needs. -/
def LacksAt (k : Nat) : Prop :=
  ∃ t, tokens[k]? = some t ∧ env.depthAt tokens k < t.need

/-- The token at the position has operands and would divide by zero: that is what the tokens before
    it leave on top. -/
def DividesByZeroAt (depth : Nat) (k : Nat) : Prop :=
  ∃ t, tokens[k]? = some t ∧ (t = "/" ∨ t = "mod") ∧ t.need ≤ env.depthAt tokens k ∧
    (evaluate depth (tokens.take k) env).state.stack.head? = some 0

/-- The program ends at the position. -/
def StopsAt (depth : Nat) (k : Nat) : Prop :=
  env.LacksAt tokens k ∨ env.DividesByZeroAt tokens depth k

variable {env} {tokens} {k : Nat} {t : Token}

theorem stopsAt_iff (ht : tokens[k]? = some t) {depth : Nat} :
    env.StopsAt tokens depth k ↔ env.depthAt tokens k < t.need ∨
      (t = "/" ∨ t = "mod") ∧ t.need ≤ env.depthAt tokens k ∧
        (evaluate depth (tokens.take k) env).state.stack.head? = some 0 := by
  simp [StopsAt, LacksAt, DividesByZeroAt, ht]

theorem depthAt_zero : env.depthAt tokens 0 = env.stack.length := by
  simp [depthAt]

theorem depthAt_succ (ht : tokens[k]? = some t) :
    env.depthAt tokens (k + 1) = env.depthAt tokens k + t.effect := by
  rw [depthAt, List.take_add_one, ht, Option.toList_some, List.map_append, List.sum_append,
    ← Int.add_assoc]
  simp [depthAt]

/-- What is put in the place of the upper operands does not matter for those at the bottom. -/
theorem take_reverse_append_drop (top : List Int) {stack : List Int} {m n : Nat}
    (h : m + n ≤ stack.length) :
    (top ++ stack.drop n).reverse.take m = stack.reverse.take m := by
  have hm : m ≤ stack.length - n := Nat.le_sub_of_add_le h
  rw [List.reverse_append, List.reverse_drop, List.take_append_of_le_length, List.take_take,
    Nat.min_eq_left hm]
  rw [List.length_take, List.length_reverse]
  exact Nat.le_min.2 ⟨hm, Nat.le_trans hm (Nat.sub_le _ _)⟩

/-- As long as the program does not end, the depth is as predicted, and the operands at the bottom
    that no token needs stay there. -/
theorem Clear.run_take (h : env.Clear) (ht : ∀ t ∈ tokens, t.Straight) (depth : Nat)
    (hk : k ≤ tokens.length) (hs : ∀ j < k, ¬env.StopsAt tokens (depth + 1) j) :
    ∃ stack shown, Evaluator.run (evaluate depth) (tokens.take k) env
        = ⟨{ env with stack }, shown, .ok ()⟩ ∧
      stack.length = env.depthAt tokens k ∧
      ∀ m : Nat, (∀ j < k, ∀ t, tokens[j]? = some t → m + t.need ≤ env.depthAt tokens j) →
        stack.reverse.take m = env.stack.reverse.take m := by
  induction k with
  | zero =>
    refine ⟨env.stack, [], ?_, depthAt_zero.symm, fun _ _ => rfl⟩
    rw [List.take_zero, Evaluator.run_nil]
    rfl
  | succ k ih =>
    obtain ⟨stack, shown, hr, hl, hm⟩ :=
      ih (Nat.le_of_succ_le hk) fun j hj => hs j (Nat.lt_succ_of_lt hj)
    obtain ⟨t, hkt⟩ : ∃ t, tokens[k]? = some t := ⟨_, List.getElem?_eq_getElem hk⟩
    have hok : evaluate (depth + 1) (tokens.take k) env = ⟨{ env with stack }, shown, .ok none⟩ :=
      reporting_of_ok hr
    obtain ⟨hlack, hzero⟩ := not_or.1 (mt (stopsAt_iff hkt).2 (hs k (Nat.lt_succ_self k)))
    have hn : t.need ≤ stack.length := by omega
    have hz : t = "/" ∨ t = "mod" → stack.head? ≠ some 0 := fun hd hz =>
      hzero ⟨hd, by omega, by rw [hok]; exact hz⟩
    obtain ⟨top, more, he, htop⟩ :=
      (h.withStack stack).run_of_enough (ht t (List.mem_of_getElem? hkt)) hn hz depth
    refine ⟨top ++ stack.drop t.need, shown ++ more, ?_, ?_, fun m hj => ?_⟩
    · rw [List.take_add_one, hkt, Option.toList_some]
      have ha := (Evaluator.run_append (evaluate depth) (tokens.take k) [t] env).1 (by rw [hr])
      rw [ha, hr, he]
      rfl
    · rw [depthAt_succ hkt, List.length_append, List.length_drop]
      omega
    · have hmt := hj k (Nat.lt_succ_self k) t hkt
      rw [take_reverse_append_drop top (by omega)]
      exact hm m fun j hjk => hj j (Nat.lt_succ_of_lt hjk)

/-- The program ends at a token that fails, and the tokens after it do not count. -/
theorem evaluate_of_fails {env₁ env₂ : Env} {shown : List Event} {e : Error} {depth : Nat}
    (hr : Evaluator.run (evaluate depth) (tokens.take k) env = ⟨env₁, shown, .ok ()⟩)
    (ht : tokens[k]? = some t)
    (he : Evaluator.run (evaluate depth) [t] env₁ = ⟨env₂, [], .error (.fault e)⟩)
    (ho : e.isOpen = false) :
    evaluate (depth + 1) tokens env = ⟨env₂, shown ++ [.report e], .ok (some e)⟩ := by
  have hsplit : tokens = tokens.take k ++ ([t] ++ tokens.drop (k + 1)) := by
    obtain ⟨hk, rfl⟩ := List.getElem?_eq_some_iff.1 ht
    rw [List.singleton_append, List.getElem_cons_drop, List.take_append_drop]
  have hrest : Evaluator.run (evaluate depth) ([t] ++ tokens.drop (k + 1)) env₁
      = ⟨env₂, [], .error (.fault e)⟩ := by
    rw [(Evaluator.run_append (evaluate depth) [t] _ env₁).2 (.fault e) (by rw [he]) ho, he]
  have hall := (Evaluator.run_append (evaluate depth) (tokens.take k)
    ([t] ++ tokens.drop (k + 1)) env).1 (by rw [hr])
  rw [← hsplit, hr, hrest] at hall
  exact reporting_of_fault (hall.trans (by simp [Outcome.after]))

end Env

/-- A straight program ends at the first token that lacks operands by the count of needs and
    effects, with an underflow, or that finds its operands and divides by zero, with that error;
    the tokens before it go well. If there is none, all goes well, and the depth in the end is the
    one at the beginning with all effects added; the operands at the bottom that no token needs are
    then the same as before. -/
theorem evaluate_straight (depth : Nat) {env : Env} {tokens : List Token} (h : env.Clear)
    (ht : ∀ t ∈ tokens, t.Straight) :
    (∀ k, (∀ j < k, ¬env.StopsAt tokens (depth + 1) j) →
      (env.LacksAt tokens k → ∃ reached stack shown message,
        evaluate (depth + 1) (tokens.take k) env
            = ⟨{ env with stack := reached }, shown, .ok none⟩ ∧
          evaluate (depth + 1) tokens env
            = ⟨{ env with stack }, shown ++ [.report (.underflow message)],
                .ok (some (.underflow message))⟩) ∧
      (env.DividesByZeroAt tokens (depth + 1) k → ∃ stack shown,
        evaluate (depth + 1) (tokens.take k) env = ⟨{ env with stack }, shown, .ok none⟩ ∧
          evaluate (depth + 1) tokens env
            = ⟨{ env with stack }, shown ++ [.report .divisionByZero],
                .ok (some .divisionByZero)⟩)) ∧
    ((∀ k, ¬env.StopsAt tokens (depth + 1) k) → ∃ stack shown,
      evaluate (depth + 1) tokens env = ⟨{ env with stack }, shown, .ok none⟩ ∧
        stack.length = env.stack.length + (tokens.map Token.effect).sum ∧
        ∀ m : Nat, (∀ k t, tokens[k]? = some t → m + t.need ≤ env.depthAt tokens k) →
          stack.reverse.take m = env.stack.reverse.take m) := by
  refine ⟨fun k hs => ⟨?_, ?_⟩, fun hs => ?_⟩
  · rintro ⟨t, hkt, hn⟩
    have hk := Nat.le_of_lt (List.getElem?_eq_some_iff.1 hkt).1
    obtain ⟨reached, shown, hr, hl, -⟩ := h.run_take ht depth hk hs
    obtain ⟨stack, message, he⟩ :=
      (h.withStack reached).run_of_missing (t := t) (by simp only; omega) depth
    exact ⟨reached, stack, shown, message, reporting_of_ok hr, evaluate_of_fails hr hkt he rfl⟩
  · rintro ⟨t, hkt, hd, hn, hz⟩
    have hk := Nat.le_of_lt (List.getElem?_eq_some_iff.1 hkt).1
    obtain ⟨reached, shown, hr, hl, -⟩ := h.run_take ht depth hk hs
    have hok : evaluate (depth + 1) (tokens.take k) env
        = ⟨{ env with stack := reached }, shown, .ok none⟩ := reporting_of_ok hr
    rw [hok] at hz
    have he := (h.withStack reached).run_of_zero hd (by simp only; omega) hz depth
    exact ⟨reached, shown, hok, evaluate_of_fails hr hkt he rfl⟩
  · obtain ⟨stack, shown, hr, hl, hm⟩ := h.run_take ht depth (Nat.le_refl _) fun j _ => hs j
    rw [List.take_length] at hr
    refine ⟨stack, shown, reporting_of_ok hr, ?_, fun m hj => hm m fun j _ => hj j⟩
    rw [hl, depthAt, List.take_length]

/-- A token that lacks an operand, a division by zero, and a program that goes well and leaves the
    lower operand. -/
theorem evaluate_straight_pair :
    let env : Env := { stack := [9, 8] }
    (∃ message, (evaluate 1 ["5", "swap", "drop", "rot", "cr"] env).result
        = .ok (some (.underflow message))) ∧
      (evaluate 1 ["dup", "dup", "-", "/", "cr"] env).result = .ok (some .divisionByZero) ∧
      (evaluate 1 ["+1", "+", "."] env).result = .ok none ∧
      (evaluate 1 ["+1", "+", "."] env).state.stack.reverse.take 1 = [8] := by
  intro env
  have h : env.Clear := (plain_empty.withStack [9, 8]).clear (by simp [Chooses])
  have straight (tokens : List Token)
      (ht : ∀ t ∈ tokens, t ∈ Builtin.names ∨ t = "5" ∨ t = "+1") : ∀ t ∈ tokens, t.Straight :=
    fun t hm => (ht t hm).imp_right fun hv => by
      rcases hv with rfl | rfl
      · exact ⟨5, by decide +kernel⟩
      · exact ⟨1, by decide +kernel⟩
  have safe (tokens : List Token) (n : Nat) (hd : ∀ t ∈ tokens.take n, ¬(t = "/" ∨ t = "mod"))
      (hn : ∀ j < n, ∀ t ∈ tokens[j]?, t.need ≤ env.depthAt tokens j) :
      ∀ j < n, ¬env.StopsAt tokens 1 j := by
    rintro j hj (⟨t, ht, hl⟩ | ⟨t, ht, hz, -⟩)
    · exact absurd (hn j hj t ht) (by omega)
    · exact hd t (List.mem_of_getElem? ((List.getElem?_take_of_lt hj).trans ht)) hz
  refine ⟨?_, ?_, ?_⟩
  · have hs := safe ["5", "swap", "drop", "rot", "cr"] 3 (by decide) (by decide)
    have hlack : env.LacksAt ["5", "swap", "drop", "rot", "cr"] 3 := ⟨"rot", rfl, by decide⟩
    obtain ⟨_, _, _, message, _, he⟩ :=
      ((evaluate_straight 0 h (straight _ (by decide))).1 3 hs).1 hlack
    exact ⟨message, by rw [he]⟩
  · have hs := safe ["dup", "dup", "-", "/", "cr"] 3 (by decide) (by decide)
    have hzero : env.DividesByZeroAt ["dup", "dup", "-", "/", "cr"] 1 3 :=
      ⟨"/", rfl, .inl rfl, by decide, by cbv⟩
    obtain ⟨_, _, _, he⟩ :=
      ((evaluate_straight 0 h (straight _ (by decide))).1 3 hs).2 hzero
    rw [he]
  · have hs (k : Nat) : ¬env.StopsAt ["+1", "+", "."] 1 k := by
      rcases Nat.lt_or_ge k 3 with hk | hk
      · exact safe _ 3 (by decide) (by decide) k hk
      · rintro (⟨t, ht, -⟩ | ⟨t, ht, -⟩) <;> cases (List.getElem?_eq_none hk).symm.trans ht
    have hm : ∀ k < 3, ∀ t ∈ ["+1", "+", "."][k]?,
        (1 : Nat) + (Token.need t : Int) ≤ env.depthAt ["+1", "+", "."] k := by decide
    obtain ⟨stack, shown, he, -, hbottom⟩ :=
      (evaluate_straight 0 h (straight _ (by decide))).2 hs
    rw [he]
    exact ⟨rfl, hbottom 1 fun k t ht => hm k (List.getElem?_eq_some_iff.1 ht).1 t ht⟩

end Wordstack
