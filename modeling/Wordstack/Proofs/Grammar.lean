import Mathlib
import Wordstack.Proofs.Escapes
import Wordstack.Proofs.Numerals
import Wordstack.Text.Pieces

/-!
# The grammar of numerals

A token is a numeral if it is a sign, or none, before decimal digits, and its value is the one that
the digits spell in base ten (`Token.Spells`). This is the numeral that is taken apart, with its
value (`Token.spells_iff`). So whether a token escapes, denotes a number or denotes nothing is a
matter of how many digits it has, and of the value (`parseNumber_grammar`).

What is written can be read again: a cell because its decimal digits are a numeral, a row of cells
because numerals have no comma, at which the row is cut (`Text.splitAt_intercalate`).
-/

namespace Wordstack

open Wordstack.Action

/-! ## Separators of more than one character -/

namespace Text

/-- The pieces of the text between its separators, when so many characters of the last separator
    have not been passed. Separators are found from the left, and none begins within another. -/
def piecesAfter (sep : List Char) : Nat → List Char → List (List Char)
  | _, [] => [[]]
  | skip + 1, _ :: cs => piecesAfter sep skip cs
  | 0, c :: cs =>
    if sep <+: c :: cs then [] :: piecesAfter sep (sep.length - 1) cs
    else consPiece c (piecesAfter sep 0 cs)

/-- The texts between the separators, of which there is one more than separators. -/
def splitAt (sep text : String) : List String :=
  (piecesAfter sep.toList 0 text.toList).map String.ofList

variable {c : Char} {sep p : List Char}

theorem piecesAfter_append {skipped : List Char} (rest : List Char) :
    piecesAfter sep skipped.length (skipped ++ rest) = piecesAfter sep 0 rest := by
  induction skipped with
  | nil => rfl
  | cons d skipped ih => exact ih

/-- A separator does not begin with any other character than its first. -/
theorem piecesAfter_cons_of_ne {d : Char} (h : d ≠ c) (cs : List Char) :
    piecesAfter (c :: sep) 0 (d :: cs) = consPiece d (piecesAfter (c :: sep) 0 cs) :=
  if_neg fun hp => h (List.cons_prefix_cons.1 hp).1.symm

theorem piecesAfter_of_not_mem (h : c ∉ p) : piecesAfter (c :: sep) 0 p = [p] := by
  induction p with
  | nil => rfl
  | cons d p ih =>
    rw [piecesAfter_cons_of_ne (List.ne_of_not_mem_cons h).symm,
      ih (List.not_mem_of_not_mem_cons h)]
    rfl

/-- The text up to the first separator is the first piece. -/
theorem piecesAfter_append_sep (h : c ∉ p) (rest : List Char) :
    piecesAfter (c :: sep) 0 (p ++ (c :: sep) ++ rest) = p :: piecesAfter (c :: sep) 0 rest := by
  induction p with
  | nil =>
    refine (if_pos (List.prefix_append _ _)).trans ?_
    exact congrArg ([] :: ·) (piecesAfter_append rest)
  | cons d p ih =>
    rw [List.cons_append, List.cons_append,
      piecesAfter_cons_of_ne (List.ne_of_not_mem_cons h).symm, ih (List.not_mem_of_not_mem_cons h)]
    rfl

theorem piecesAfter_intercalate {ps : List (List Char)} (hne : ps ≠ [])
    (h : ∀ p ∈ ps, c ∉ p) : piecesAfter (c :: sep) 0 ((c :: sep).intercalate ps) = ps := by
  induction ps with
  | nil => exact absurd rfl hne
  | cons p ps ih =>
    have hp : c ∉ p := h p List.mem_cons_self
    cases ps with
    | nil => simpa using piecesAfter_of_not_mem hp
    | cons q qs =>
      rw [List.intercalate_cons_cons, piecesAfter_append_sep hp,
        ih (List.cons_ne_nil q qs) fun r hr => h r (List.mem_cons_of_mem p hr)]

/-- Texts that are joined by a separator, of which they have not even the first character, are found
    again. -/
theorem splitAt_intercalate {sep : String} {texts : List String}
    (hsep : sep.toList.head? = some c) (hne : texts ≠ []) (h : ∀ text ∈ texts, c ∉ text.toList) :
    splitAt sep (String.intercalate sep texts) = texts := by
  obtain ⟨cs, hcs⟩ := List.head?_eq_some_iff.1 hsep
  have hp : ∀ p ∈ texts.map String.toList, c ∉ p := by simpa using h
  rw [splitAt, String.toList_intercalate, hcs, piecesAfter_intercalate (by simpa using hne) hp,
    List.map_map]
  simp [Function.comp_def]

-- A comma alone separates nothing, and of two spaces the second belongs to the next piece.
example : splitAt ", " "1,2,  -3, " = ["1,2", " -3", ""] := by decide +kernel

end Text

/-! ## What numerals spell -/

/-- The token is a sign, or none, before so many decimal digits, and this is the value that they
    spell: the first digit counts most, and a minus makes the value negative. -/
def Token.Spells (t : Token) (count : Nat) (v : Int) : Prop :=
  ∃ sign digits : List Char, t.toList = sign ++ digits ∧ sign ∈ [[], ['+'], ['-']] ∧
    (∀ c ∈ digits, c.isDigit = true) ∧ digits.length = count ∧
    v = (if sign = ['-'] then -1 else 1)
      * (Nat.ofDigits 10 (digits.reverse.map fun c => c.toNat - '0'.toNat) : Nat)

variable {t : Token} {v : Int} {count : Nat} {x : Escape}

theorem Token.isNumeral_iff_spells : t.IsNumeral count ↔ ∃ v, t.Spells count v :=
  ⟨fun ⟨sign, digits, ht, hs, hd, hl⟩ => ⟨_, sign, digits, ht, hs, hd, hl, rfl⟩,
    fun ⟨_, sign, digits, ht, hs, hd, hl, _⟩ => ⟨sign, digits, ht, hs, hd, hl⟩⟩

namespace Numeral

/-- The value of digits, the last of which counts least. -/
theorem ofDigitChars_eq_ofDigits (digits : List Char) :
    Nat.ofDigitChars 10 digits 0
      = Nat.ofDigits 10 (digits.reverse.map fun c => c.toNat - '0'.toNat) := by
  induction digits using List.reverseRecOn with
  | nil => rfl
  | append_singleton digits c ih =>
    rw [Nat.ofDigitChars_append, Nat.ofDigitChars_cons, Nat.ofDigitChars_nil,
      List.reverse_append, List.reverse_singleton, List.singleton_append, List.map_cons,
      Nat.ofDigits_cons, ← ih, Nat.add_comm]

theorem value_eq (n : Numeral) :
    n.value = (if n.negative then -1 else 1)
      * (Nat.ofDigits 10 (n.digits.reverse.map fun c => c.toNat - '0'.toNat) : Nat) := by
  rw [value, ← ofDigitChars_eq_ofDigits]
  cases n.negative <;> simp

end Numeral

/-- A token spells a value with some digits if it is taken for a numeral with the value. -/
theorem Token.spells_iff :
    1 ≤ count ∧ t.Spells count v ↔
      ∃ n, Numeral.ofChars? t.toList = some n ∧ n.digits.length = count ∧ n.value = v := by
  constructor
  · rintro ⟨hc, sign, digits, ht, hs, hd, rfl, rfl⟩
    refine ⟨⟨decide (sign = ['-']), digits⟩, Numeral.ofChars?_eq_some_iff.2
      ⟨⟨sign, hs, ht, rfl⟩, List.ne_nil_of_length_pos hc, hd⟩, rfl, ?_⟩
    simp only [Numeral.value_eq, decide_eq_true_eq]
  · rintro ⟨n, hn, rfl, rfl⟩
    obtain ⟨⟨sign, hs, ht, hneg⟩, hne, hd⟩ := Numeral.ofChars?_eq_some_iff.1 hn
    refine ⟨List.length_pos_iff.2 hne, sign, n.digits, ht, hs, hd, rfl, ?_⟩
    simp only [Numeral.value_eq, hneg, decide_eq_true_eq]

/-! ## What is read -/

/-- A token escapes if it has too many digits. -/
theorem parseNumber_eq_error_iff :
    parseNumber t = .error x ↔
      ∃ count, x = .oversized count ∧ Numeral.digitLimit < count ∧ t.IsNumeral count := by
  refine ⟨oversized_of_parseNumber, ?_⟩
  rintro ⟨count, rfl, hl, ht⟩
  obtain ⟨v, hv⟩ := Token.isNumeral_iff_spells.1 ht
  obtain ⟨n, hn, rfl, -⟩ := Token.spells_iff.1 ⟨Nat.one_le_of_lt hl, hv⟩
  rw [parseNumber, hn]
  exact if_pos hl

/-- A token denotes the number that it spells, if that has not too many digits and is a cell. -/
theorem parseNumber_eq_some_iff :
    parseNumber t = .ok (some v) ↔
      ∃ count, 1 ≤ count ∧ count ≤ Numeral.digitLimit ∧ t.Spells count v ∧ Cell.InRange v := by
  constructor
  · intro h
    have hv := inRange_of_parseNumber h
    rw [parseNumber] at h
    split at h
    · cases h
    · next n hn =>
      rw [Numeral.denote] at h
      split at h
      · cases h
      · next hl =>
        have hval : n.value = v := by
          split at h <;> cases h
          rfl
        obtain ⟨hc, hs⟩ := Token.spells_iff.2 ⟨n, hn, rfl, hval⟩
        exact ⟨_, hc, Nat.not_lt.1 hl, hs, hv⟩
  · rintro ⟨count, hc, hl, hs, hv⟩
    obtain ⟨n, hn, rfl, rfl⟩ := Token.spells_iff.1 ⟨hc, hs⟩
    rw [parseNumber, hn]
    exact (if_neg (Nat.not_lt.2 hl)).trans (if_pos hv)

/-- A row of cells is read back from what is between its brackets. -/
theorem parseNumber_row {vs : List Int} (hne : vs ≠ []) (h : ∀ v ∈ vs, Cell.InRange v) :
    ∃ inner, Cell.row vs = "[" ++ inner ++ "]" ∧
      (Text.splitAt ", " inner).map parseNumber = vs.map fun v => .ok (some v) := by
  refine ⟨_, rfl, ?_⟩
  have hc : ∀ text ∈ vs.map toString, ',' ∉ text.toList := by
    simpa using fun v _ => Numeral.not_mem_toString (by decide) (by decide) v
  rw [Text.splitAt_intercalate (by rfl) (by simpa using hne) hc, List.map_map]
  exact List.map_congr_left fun v hv => parseNumber_toString (h v hv)

/-- A token escapes exactly if it is a sign, or none, before too many decimal digits. It denotes a
    number exactly if it is a sign, or none, before at least one digit and not too many, and spells
    a number that a cell can hold, which is then the one that it denotes. In all other cases it
    denotes nothing. Cells that are printed, and rows of cells, are read back. -/
theorem parseNumber_grammar :
    (∀ t x, parseNumber t = .error x ↔
      ∃ count, x = .oversized count ∧ Numeral.digitLimit < count ∧ t.IsNumeral count) ∧
    (∀ t v, parseNumber t = .ok (some v) ↔
      ∃ count, 1 ≤ count ∧ count ≤ Numeral.digitLimit ∧ t.Spells count v ∧ Cell.InRange v) ∧
    (∀ t, parseNumber t = .ok none ↔
      (¬∃ count, Numeral.digitLimit < count ∧ t.IsNumeral count) ∧
      ¬∃ v count, 1 ≤ count ∧ count ≤ Numeral.digitLimit ∧ t.Spells count v ∧ Cell.InRange v) ∧
    (∀ env v stack, env.stack = v :: stack → Cell.InRange v →
      ∃ text, Builtin.print.run env = ⟨{ env with stack }, [.text (text ++ " ")], .ok ()⟩ ∧
        parseNumber text = .ok (some v)) ∧
    ∀ env : Env, env.stack ≠ [] → (∀ v ∈ env.stack, Cell.InRange v) →
      ∃ inner, env.stackRow = "[" ++ inner ++ "]" ∧
        (Text.splitAt ", " inner).map parseNumber
          = env.stack.reverse.map fun v => .ok (some v) := by
  refine ⟨fun t x => parseNumber_eq_error_iff, fun t v => parseNumber_eq_some_iff, fun t => ?_,
    fun env v stack hs hv => ⟨toString v, ?_, parseNumber_toString hv⟩, fun env hne h => ?_⟩
  · have herror := fun x => @parseNumber_eq_error_iff t x
    have hsome := fun v => @parseNumber_eq_some_iff t v
    simp only [← hsome]
    rcases hp : parseNumber t with x | _ | v
    · obtain ⟨count, -, hl⟩ := (herror x).1 hp
      exact iff_of_false nofun fun h => h.1 ⟨count, hl⟩
    · refine iff_of_true rfl ⟨fun ⟨count, hl⟩ => ?_, nofun⟩
      cases hp.symm.trans ((herror _).2 ⟨count, rfl, hl⟩)
    · exact iff_of_false nofun fun h => h.2 ⟨v, rfl⟩
  · rw [Builtin.run, bind_of_ok (Env.pop_of_cons hs _)]
    rfl
  · exact parseNumber_row (by simpa using hne) (by simpa using h)

/-- One digit too many, the greatest cell with a sign and zeros before it, and two operands that
    are shown. -/
theorem parseNumber_grammar_bounds :
    parseNumber (.ofList (List.replicate 4301 '1')) = .error (.oversized 4301) ∧
      parseNumber "+002147483647" = .ok (some 2147483647) ∧
      (∃ text, Builtin.print.run { stack := [-5, 12] }
          = ⟨{ stack := [12] }, [.text (text ++ " ")], .ok ()⟩ ∧
        parseNumber text = .ok (some (-5))) ∧
      ∃ inner, ({ stack := [-5, 12] } : Env).stackRow = "[" ++ inner ++ "]" ∧
        (Text.splitAt ", " inner).map parseNumber = [.ok (some 12), .ok (some (-5))] := by
  obtain ⟨herror, hsome, -, hprint, hrow⟩ := parseNumber_grammar
  refine ⟨(herror _ _).2 ⟨4301, rfl, by decide, [], List.replicate 4301 '1', String.toList_ofList,
      by simp, fun c hc => ?_, List.length_replicate⟩,
    (hsome _ _).2 ⟨12, by decide, by decide,
      ⟨['+'], "002147483647".toList, by decide +kernel, by simp, by simp,
        by decide +kernel, by simp [Nat.ofDigits_cons]⟩, by decide⟩,
    hprint _ _ _ rfl (by decide), hrow _ (by simp) (by decide)⟩
  rw [List.eq_of_mem_replicate hc]
  decide

end Wordstack
