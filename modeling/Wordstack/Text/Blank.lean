/-!
# Blank characters

The characters that a *trim* removes from the two ends of a text. The class is wider than the
blanks of ASCII: it holds the tab and the line and page controls, the four information
separators, the next-line control, and every space and separator of Unicode that is one by its
bidirectional class or its general category. The zero-width space and the byte-order mark are
not blank.

A text is *blank* when it holds nothing else (`isBlankText`), which is when a trim leaves
nothing (`trim_eq_nil_iff`). What a trim leaves neither begins nor ends with a blank
(`isBlank_ends_trim`), and a text that does not do so either is left alone (`trim_of_ends`).
-/

namespace Wordstack.Text

/-- The blank characters. -/
def isBlank (c : Char) : Bool :=
  let n := c.toNat
  (0x09 ≤ n && n ≤ 0x0D) || (0x1C ≤ n && n ≤ 0x20) || n == 0x85 || n == 0xA0 || n == 0x1680
    || (0x2000 ≤ n && n ≤ 0x200A) || n == 0x2028 || n == 0x2029 || n == 0x202F || n == 0x205F
    || n == 0x3000

/-- Every character that ASCII counts as white space is blank. -/
theorem isBlank_of_isWhitespace {c : Char} (h : c.isWhitespace = true) : isBlank c = true := by
  simp only [Char.isWhitespace, Bool.or_eq_true, decide_eq_true_eq] at h
  rcases h with ((rfl | rfl) | rfl) | rfl <;> decide

/-- The text without the blanks at its two ends. -/
def trim (cs : List Char) : List Char :=
  ((cs.dropWhile isBlank).reverse.dropWhile isBlank).reverse

@[simp] theorem trim_nil : trim [] = [] := rfl

theorem dropWhile_isBlank_eq_nil_iff {cs : List Char} :
    cs.dropWhile isBlank = [] ↔ ∀ c ∈ cs, isBlank c = true := by
  induction cs with
  | nil => simp
  | cons c cs ih => cases h : isBlank c <;> simp [h, ih]

/-- Nothing is left of a text exactly when it is all blank: a character that is not blank
    stops the removal from either end. -/
theorem trim_eq_nil_iff {cs : List Char} : trim cs = [] ↔ ∀ c ∈ cs, isBlank c = true := by
  rw [trim, List.reverse_eq_nil_iff, dropWhile_isBlank_eq_nil_iff,
    ← @dropWhile_isBlank_eq_nil_iff cs]
  simp only [List.mem_reverse]
  constructor
  · intro h
    -- The removal from the front stops at a character that is not blank, but all left are.
    cases hd : cs.dropWhile isBlank with
    | nil => rfl
    | cons c r =>
      have hc : isBlank c = true := h c (by simp [hd])
      have := List.head_dropWhile_not isBlank (l := cs) (by simp [hd])
      simp [hd, hc] at this
  · intro h
    simp [h]

/-- A trim takes nothing from within. -/
theorem trim_subset (cs : List Char) : trim cs ⊆ cs := by
  intro c hc
  rw [trim, List.mem_reverse] at hc
  have hc' := (List.dropWhile_sublist _).subset hc
  exact (List.dropWhile_sublist _).subset (List.mem_reverse.1 hc')

/-- What is left by a removal from the front does not begin with a blank. -/
theorem isBlank_head?_dropWhile {cs : List Char} {c : Char}
    (h : (cs.dropWhile isBlank).head? = some c) : isBlank c = false := by
  have hn := List.head?_dropWhile_not isBlank cs
  rwa [h] at hn

/-- What is left by a trim neither begins nor ends with a blank. -/
theorem isBlank_ends_trim (cs : List Char) :
    (∀ c ∈ (trim cs).head?, isBlank c = false) ∧ ∀ c ∈ (trim cs).getLast?, isBlank c = false := by
  refine ⟨fun c hc => ?_, fun c hc => ?_⟩
  · -- The removal from the end leaves a beginning of what was left before.
    have hp : trim cs <+: cs.dropWhile isBlank := by
      rw [trim, ← List.reverse_suffix, List.reverse_reverse]
      exact List.dropWhile_suffix _
    obtain ⟨rest, hrest⟩ := hp
    have hd : c ∈ (cs.dropWhile isBlank).head? := by
      rw [← hrest, List.head?_append, Option.mem_def.1 hc, Option.some_or]
      rfl
    exact isBlank_head?_dropWhile hd
  · rw [trim, List.getLast?_reverse] at hc
    exact isBlank_head?_dropWhile hc

/-- A blank at the end is removed. -/
theorem trim_append_of_isBlank {c : Char} (h : isBlank c = true) (cs : List Char) :
    trim (cs ++ [c]) = trim cs := by
  rw [trim, trim, List.dropWhile_append]
  split
  · next hd =>
    rw [List.isEmpty_iff.1 hd]
    simp [h]
  · rw [List.reverse_append]
    simp [h]

/-- A blank in front is removed. -/
theorem trim_cons_of_isBlank {c : Char} (h : isBlank c = true) (cs : List Char) :
    trim (c :: cs) = trim cs := by
  rw [trim, List.dropWhile_cons_of_pos h]
  rfl

/-- A text that neither begins nor ends with a blank is its own trim. -/
theorem trim_of_ends {cs : List Char} (hh : ∀ c ∈ cs.head?, isBlank c = false)
    (hl : ∀ c ∈ cs.getLast?, isBlank c = false) : trim cs = cs := by
  have h₁ : cs.dropWhile isBlank = cs := by
    cases cs with
    | nil => rfl
    | cons c cs => simp [hh c (by simp)]
  have h₂ : cs.reverse.dropWhile isBlank = cs.reverse := by
    cases h : cs.reverse with
    | nil => rfl
    | cons c r =>
      have : cs.getLast? = some c := by rw [← List.head?_reverse, h]; rfl
      simp [hl c (by simp [this])]
  rw [trim, h₁, h₂, List.reverse_reverse]

/-- A text without blanks is its own trim. -/
theorem trim_of_forall {cs : List Char} (h : ∀ c ∈ cs, isBlank c = false) : trim cs = cs :=
  trim_of_ends (fun c hc => h c (List.mem_of_mem_head? hc))
    fun c hc => h c (List.mem_of_getLast? hc)

/-- Whether the text holds blanks only; the empty text does. -/
def isBlankText (s : String) : Bool :=
  s.toList.all isBlank

theorem isBlankText_iff {s : String} : isBlankText s = true ↔ trim s.toList = [] := by
  rw [isBlankText, List.all_eq_true, trim_eq_nil_iff]

end Wordstack.Text
