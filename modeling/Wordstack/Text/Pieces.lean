/-!
# Pieces of a text

A *separator* character cuts a text into pieces, one more than there are separators: two
separators side by side have an empty piece between them, and a separator at an end has one
beyond it. Joining the pieces with the separator gives the text back (`intercalate_pieces`), and
the pieces of two texts with a separator between them are those of the one and then those of the
other (`pieces_append_cons`).
-/

namespace Wordstack.Text

/-- Puts a character in front of the first piece. -/
def consPiece (c : Char) : List (List Char) → List (List Char)
  | [] => [[c]]
  | p :: ps => (c :: p) :: ps

/-- The pieces of the text between its separators. -/
def pieces (sep : Char) (cs : List Char) : List (List Char) :=
  cs.foldr (fun c ps => if c = sep then [] :: ps else consPiece c ps) [[]]

variable {sep : Char}

@[simp] theorem pieces_nil : pieces sep [] = [[]] := rfl

@[simp] theorem pieces_sep_cons (cs : List Char) :
    pieces sep (sep :: cs) = [] :: pieces sep cs := by
  simp [pieces]

theorem pieces_cons_of_ne {c : Char} (h : c ≠ sep) (cs : List Char) :
    pieces sep (c :: cs) = consPiece c (pieces sep cs) := by
  simp [pieces, h]

/-- There is always a first piece. -/
theorem pieces_ne_nil (cs : List Char) : pieces sep cs ≠ [] := by
  cases cs with
  | nil => simp
  | cons c cs =>
    by_cases h : c = sep
    · simp [h]
    · rw [pieces_cons_of_ne h]
      cases pieces sep cs <;> simp [consPiece]

/-- A text without the separator is one piece. -/
theorem pieces_of_not_mem {cs : List Char} (h : sep ∉ cs) : pieces sep cs = [cs] := by
  induction cs with
  | nil => rfl
  | cons c cs ih =>
    rw [pieces_cons_of_ne (by grind), ih (by grind)]
    rfl

/-- The text up to its first separator is its first piece. -/
theorem pieces_append_sep_cons {cs : List Char} (h : sep ∉ cs) (rest : List Char) :
    pieces sep (cs ++ sep :: rest) = cs :: pieces sep rest := by
  induction cs with
  | nil => simp
  | cons c cs ih =>
    rw [List.cons_append, pieces_cons_of_ne (by grind), ih (by grind)]
    rfl

theorem consPiece_append {ps : List (List Char)} (h : ps ≠ []) (c : Char)
    (qs : List (List Char)) : consPiece c (ps ++ qs) = consPiece c ps ++ qs := by
  cases ps with
  | nil => exact absurd rfl h
  | cons p ps => rfl

/-- A separator divides the pieces of a text into those before it and those after it. -/
theorem pieces_append_cons (cs rest : List Char) :
    pieces sep (cs ++ sep :: rest) = pieces sep cs ++ pieces sep rest := by
  induction cs with
  | nil => simp
  | cons c cs ih =>
    by_cases hc : c = sep
    · subst hc
      rw [List.cons_append, pieces_sep_cons, pieces_sep_cons, ih, List.cons_append]
    · rw [List.cons_append, pieces_cons_of_ne hc, pieces_cons_of_ne hc, ih,
        consPiece_append (pieces_ne_nil cs)]

/-- A character at the end of a text, other than the separator, belongs to the last piece. -/
theorem pieces_append_singleton {c : Char} (h : c ≠ sep) (cs : List Char) :
    ∃ ps p, pieces sep cs = ps ++ [p] ∧ pieces sep (cs ++ [c]) = ps ++ [p ++ [c]] := by
  induction cs with
  | nil => exact ⟨[], [], rfl, by simp [pieces_cons_of_ne h, consPiece]⟩
  | cons d cs ih =>
    obtain ⟨ps, p, hcs, hcsc⟩ := ih
    rw [List.cons_append]
    by_cases hd : d = sep
    · subst hd
      exact ⟨[] :: ps, p, by rw [pieces_sep_cons, hcs]; rfl, by rw [pieces_sep_cons, hcsc]; rfl⟩
    · rw [pieces_cons_of_ne hd, pieces_cons_of_ne hd, hcs, hcsc]
      -- If there is only one piece, it is the first and the last.
      cases ps with
      | nil => exact ⟨[], d :: p, rfl, rfl⟩
      | cons q qs => exact ⟨(d :: q) :: qs, p, rfl, rfl⟩

/-- No piece holds the separator. -/
theorem not_mem_of_mem_pieces {cs p : List Char} (h : p ∈ pieces sep cs) : sep ∉ p := by
  induction cs generalizing p with
  | nil => simp_all
  | cons c cs ih =>
    by_cases hc : c = sep
    · subst hc
      rcases List.mem_cons.1 (pieces_sep_cons cs ▸ h) with rfl | h
      · simp
      · exact ih h
    · rw [pieces_cons_of_ne hc] at h
      cases hp : pieces sep cs with
      | nil => exact absurd hp (pieces_ne_nil cs)
      | cons q qs =>
        rw [hp] at h
        rcases List.mem_cons.1 h with rfl | h
        · have := ih (p := q) (by simp [hp])
          grind
        · exact ih (by simp [hp, h])

/-- A piece has its characters from the text. -/
theorem subset_of_mem_pieces {cs p : List Char} (h : p ∈ pieces sep cs) : p ⊆ cs := by
  induction cs generalizing p with
  | nil => simp_all
  | cons c cs ih =>
    by_cases hc : c = sep
    · rw [hc, pieces_sep_cons] at h
      rcases List.mem_cons.1 h with rfl | h
      · exact List.nil_subset _
      · exact List.subset_cons_of_subset c (ih h)
    · rw [pieces_cons_of_ne hc] at h
      cases hp : pieces sep cs with
      | nil => exact absurd hp (pieces_ne_nil cs)
      | cons q qs =>
        rw [hp] at h
        rcases List.mem_cons.1 h with rfl | h
        · exact List.cons_subset_cons c (ih (hp ▸ List.mem_cons_self))
        · exact List.subset_cons_of_subset c (ih (hp ▸ List.mem_cons_of_mem q h))

/-- Joined by the separator, the pieces are the text again. -/
theorem intercalate_pieces (cs : List Char) : [sep].intercalate (pieces sep cs) = cs := by
  induction cs with
  | nil => rfl
  | cons c cs ih =>
    cases hp : pieces sep cs with
    | nil => exact absurd hp (pieces_ne_nil cs)
    | cons q qs =>
      rw [hp] at ih
      by_cases hc : c = sep
      · subst hc
        rw [pieces_sep_cons, hp]
        simpa [List.intercalate] using ih
      · rw [pieces_cons_of_ne hc, hp, consPiece]
        cases qs <;> simpa [List.intercalate] using ih

end Wordstack.Text
