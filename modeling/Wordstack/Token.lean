import Wordstack.Text.Blank
import Wordstack.Text.Pieces

/-!
# Tokens

A program is a sequence of *tokens*. The text of a program is cut at its spaces alone, each piece
is trimmed of blanks of every kind, and what is left of the pieces, where something is left, are
the tokens (`tokenize`): other blanks therefore end no token, and stay inside one that they do
not begin or end.

A *body* is a sequence of tokens that is kept to be run later, by a word or within a block. Its
text is its tokens with one space between them (`Body.text`).
-/

namespace Wordstack

/-- A unit of a program. -/
abbrev Token := String

/-- A stretch of a program that is kept to be run. -/
abbrev Body := List Token

/-- The tokens of a program text. -/
def tokenize (text : String) : List Token :=
  (((Text.pieces ' ' text.toList).map Text.trim).filter (· ≠ [])).map String.ofList

/-- The tokens joined by single spaces. -/
def Body.text (body : Body) : String :=
  String.intercalate " " body

@[simp] theorem tokenize_empty : tokenize "" = [] := rfl

/-- A token of a text is never empty. -/
theorem ne_empty_of_mem_tokenize {text : String} {t : Token} (h : t ∈ tokenize text) :
    t ≠ "" := by
  simp only [tokenize, List.mem_map, List.mem_filter] at h
  obtain ⟨cs, ⟨-, hcs⟩, rfl⟩ := h
  simpa [← String.toList_inj] using hcs

end Wordstack
