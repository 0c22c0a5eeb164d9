import Wordstack.Evaluation
import Wordstack.Proofs.Faults

/-!
# Numerals in programs

A numeral is taken apart into its sign and its digits (`Numeral.ofChars?_eq_some_iff`), and a cell
that is written in decimal is read back as itself (`parseNumber_toString`). A token that is read as
a number is never blank, it opens no form and it names no builtin. So it means the number, unless a
register or a word has it for a name, and by itself it puts the number on the operand stack
(`evaluate_numeral`).
-/

namespace Wordstack

open Wordstack.Action

variable {t : Token} {v : Int}

/-! ## The parts of numerals -/

namespace Numeral

/-- Digits are the numeral with the sign and the digits. -/
theorem ofDigits?_eq_some_iff {negative : Bool} {cs : List Char} {n : Numeral} :
    ofDigits? negative cs = some n ↔
      n = ⟨negative, cs⟩ ∧ cs ≠ [] ∧ ∀ c ∈ cs, c.isDigit = true := by
  rw [ofDigits?, Option.ite_none_right_eq_some, List.all_eq_true, Option.some.injEq]
  exact ⟨fun ⟨hd, hn⟩ => ⟨hn.symm, hd⟩, fun ⟨hn, hd⟩ => ⟨hd, hn.symm⟩⟩

/-- Characters that do not begin with a sign are those of a numeral without one. -/
theorem ofChars?_of_head {cs : List Char} (h : ∀ c ∈ cs.head?, c.isDigit = true) :
    ofChars? cs = ofDigits? false cs := by
  unfold ofChars?
  split
  · exact absurd (h '-' rfl) (by decide)
  · exact absurd (h '+' rfl) (by decide)
  · rfl

/-- Characters are taken for a numeral if they are a sign, or none, and then digits. -/
theorem ofChars?_eq_some_iff {cs : List Char} {n : Numeral} :
    ofChars? cs = some n ↔
      (∃ sign ∈ [[], ['+'], ['-']], cs = sign ++ n.digits ∧ n.negative = decide (sign = ['-'])) ∧
        n.digits ≠ [] ∧ ∀ c ∈ n.digits, c.isDigit = true := by
  constructor
  · intro h
    unfold ofChars? at h
    split at h
    all_goals obtain ⟨rfl, hd⟩ := ofDigits?_eq_some_iff.1 h
    · exact ⟨⟨['-'], by simp, rfl, rfl⟩, hd⟩
    · exact ⟨⟨['+'], by simp, rfl, rfl⟩, hd⟩
    · exact ⟨⟨[], by simp, rfl, rfl⟩, hd⟩
  · rintro ⟨⟨sign, hs, rfl, hn⟩, hd⟩
    have hdigits : ofDigits? n.negative n.digits = some n := ofDigits?_eq_some_iff.2 ⟨rfl, hd⟩
    rw [hn] at hdigits
    simp only [List.mem_cons, List.not_mem_nil, or_false] at hs
    rcases hs with rfl | rfl | rfl
    · rw [List.nil_append, ofChars?_of_head fun c hc => hd.2 c (List.mem_of_mem_head? hc)]
      exact hdigits
    · exact hdigits
    · exact hdigits

/-! ## Numerals that are written -/

/-- An integer is written as the digits of its absolute value, with a minus before if it is
    negative. -/
theorem toList_toString (v : Int) :
    (toString v).toList = (if v < 0 then ['-'] else []) ++ Nat.toDigits 10 v.natAbs := by
  rcases v with n | n
  · have hn : ¬Int.ofNat n < 0 := Int.not_lt.2 (Int.natCast_nonneg n)
    change n.repr.toList = _
    rw [Nat.repr_eq_ofList_toDigits, String.toList_ofList, if_neg hn]
    rfl
  · change ("-" ++ (n + 1).repr).toList = _
    rw [String.toList_append, Nat.repr_eq_ofList_toDigits, String.toList_ofList,
      String.toList_ofList, if_pos (Int.negSucc_lt_zero n)]
    rfl

theorem isDigit_of_mem_toDigits {n : Nat} {c : Char} (h : c ∈ Nat.toDigits 10 n) :
    c.isDigit = true :=
  Nat.isDigit_of_mem_toDigits (by decide) (by decide) h

/-- Nothing but digits and the minus is needed to write integers. -/
theorem not_mem_toString {c : Char} (hm : c ≠ '-') (hd : c.isDigit = false) (v : Int) :
    c ∉ (toString v).toList := by
  rw [toList_toString, List.mem_append]
  rintro (h | h)
  · split at h
    · exact hm (List.mem_singleton.1 h)
    · cases h
  · exact Bool.false_ne_true (hd.symm.trans (isDigit_of_mem_toDigits h))

theorem toString_ne_empty (v : Int) : toString v ≠ "" := fun h => by
  have hlist := toList_toString v
  rw [h] at hlist
  exact Nat.toDigits_ne_nil (List.append_eq_nil_iff.1 hlist.symm).2

theorem ofChars?_toString (v : Int) :
    ofChars? (toString v).toList = some ⟨decide (v < 0), Nat.toDigits 10 v.natAbs⟩ := by
  refine ofChars?_eq_some_iff.2 ⟨⟨_, ?_, toList_toString v, ?_⟩, Nat.toDigits_ne_nil,
    fun _ => isDigit_of_mem_toDigits⟩ <;> split <;> simp [*]

theorem value_toDigits (v : Int) : value ⟨decide (v < 0), Nat.toDigits 10 v.natAbs⟩ = v := by
  simp only [value, Nat.ofDigitChars_ten_toDigits, decide_eq_true_eq]
  split <;> omega

end Numeral

/-- A cell is read back from its decimal digits. -/
theorem parseNumber_toString (h : Cell.InRange v) : parseNumber (toString v) = .ok (some v) := by
  have hlength : ¬Numeral.digitLimit < (Nat.toDigits 10 v.natAbs).length := by
    have hlt : v.natAbs < 10 ^ 10 := by
      obtain ⟨h₁, h₂⟩ := h
      simp only [Cell.least, Cell.greatest] at h₁ h₂
      omega
    have hle := (Nat.length_toDigits_le_iff (by decide) (by decide)).2 hlt
    exact Nat.not_lt.2 (Nat.le_trans hle (by decide))
  simp only [parseNumber, Numeral.ofChars?_toString, Numeral.denote, if_neg hlength,
    Numeral.value_toDigits, if_pos h]

/-! ## Numerals that are read -/

/-- A token that is read as a number has a digit. -/
theorem exists_digit_of_parseNumber (h : parseNumber t = .ok (some v)) :
    ∃ c ∈ t.toList, c.isDigit = true := by
  rcases hn : Numeral.ofChars? t.toList with _ | n
  · rw [parseNumber, hn] at h
    cases h
  · obtain ⟨⟨sign, -, ht, -⟩, hne, hd⟩ := Numeral.ofChars?_eq_some_iff.1 hn
    obtain ⟨c, hc⟩ := List.exists_mem_of_ne_nil _ hne
    exact ⟨c, ht ▸ List.mem_append_right sign hc, hd c hc⟩

theorem isBlank_of_isDigit {c : Char} (h : c.isDigit = true) : Text.isBlank c = false := by
  simp only [Char.isDigit, Bool.and_eq_true, decide_eq_true_eq] at h
  have h : 0x30 ≤ c.toNat ∧ c.toNat ≤ 0x39 := h
  simp only [Text.isBlank, Bool.or_eq_false_iff, Bool.and_eq_false_iff, decide_eq_false_iff_not,
    beq_eq_false_iff_ne]
  omega

theorem isBlankText_of_parseNumber (h : parseNumber t = .ok (some v)) :
    Text.isBlankText t = false := by
  obtain ⟨c, hc, hd⟩ := exists_digit_of_parseNumber h
  rw [Text.isBlankText, List.all_eq_false]
  exact ⟨c, hc, by simp [isBlank_of_isDigit hd]⟩

theorem parseNumber_of_ofChars? (h : Numeral.ofChars? t.toList = none) :
    parseNumber t = .ok none := by
  rw [parseNumber, h]

theorem ofChars?_of_mem_names : ∀ t ∈ Builtin.names, Numeral.ofChars? t.toList = none := by
  decide

theorem ofChars?_of_mem_formNames :
    ∀ t ∈ Command.formNames, Numeral.ofChars? t.toList = none := by decide

theorem ofName?_of_parseNumber (h : parseNumber t = .ok (some v)) : Builtin.ofName? t = none := by
  rw [← Option.not_isSome_iff_eq_none, Builtin.ofName?_isSome_iff]
  exact fun hn => by cases (parseNumber_of_ofChars? (ofChars?_of_mem_names t hn)).symm.trans h

/-- A number is what a token means that is read as one, if neither a register nor a word has its
    name. -/
theorem meaning_of_parseNumber {env : Env} (hr : env.registers.get? t = none)
    (hw : env.words.get? t = none) (h : parseNumber t = .ok (some v)) :
    env.meaning t = .ok (.value v) := by
  simp only [Env.meaning, hr, ofName?_of_parseNumber h, hw, Env.plainMeaning, h]

/-- A numeral that nothing hides puts its number on the operand stack. -/
theorem evaluate_numeral {env : Env} (hr : env.registers.get? t = none)
    (hw : env.words.get? t = none) (h : parseNumber t = .ok (some v)) (depth : Nat) :
    evaluate (depth + 1) [t] env = ⟨{ env with stack := v :: env.stack }, [], .ok none⟩ := by
  have hf : t ∉ Command.formNames := fun hf => by
    cases (parseNumber_of_ofChars? (ofChars?_of_mem_formNames t hf)).symm.trans h
  have he : Evaluator.execute (evaluate depth) (.word t) env
      = ⟨{ env with stack := v :: env.stack }, [], .ok ()⟩ := by
    refine (Evaluator.perform_of_value (meaning_of_parseNumber hr hw h)).trans ?_
    rw [Cell.wrap_eq_self (inRange_of_parseNumber h)]
  exact evaluate_of_read (isBlankText_of_parseNumber h) (Command.read_of_not_mem hf []) he

end Wordstack
