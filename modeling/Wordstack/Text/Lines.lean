import Wordstack.Text.Pieces

/-!
# Lines of a text

A line ends at a newline, at a carriage return, or at the two in that order, which count as one
end; nothing else ends a line. All three ends are first made newlines (`unifyLineEnds`), which
changes nothing in a text without carriage returns (`unifyLineEnds_of_not_mem`); the newlines
then cut the text into its *terminated* lines and the rest after the last of them, the *open*
line, which is empty when the text ends with a line end.
-/

namespace Wordstack.Text

/-- The text with every line end a newline. -/
def unifyLineEnds (cs : List Char) : List Char :=
  (cs.foldr (fun c (out, atNewline) =>
    if c = '\r' then (if atNewline then out else '\n' :: out, false)
    else (c :: out, c = '\n')) ([], false)).1

theorem unifyLineEnds_of_not_mem {cs : List Char} (h : '\r' ∉ cs) : unifyLineEnds cs = cs := by
  induction cs with
  | nil => rfl
  | cons c cs ih =>
    have hc : c ≠ '\r' := fun hc => h (by simp [hc])
    have hcs : '\r' ∉ cs := fun hm => h (by simp [hm])
    simpa [unifyLineEnds, hc] using ih hcs

/-- The lines of a text. -/
structure Lines where
  /-- The lines that end within the text, without their ends. -/
  terminated : List (List Char)
  /-- What follows the last line end. -/
  openLine : List Char
  deriving DecidableEq, Repr

/-- The lines that newlines alone cut a text into. -/
def Lines.ofNewlines (cs : List Char) : Lines :=
  let ps := pieces '\n' cs
  ⟨ps.dropLast, ps.getLast (pieces_ne_nil cs)⟩

/-- The lines of a text with line ends of any kind. -/
def Lines.ofText (cs : List Char) : Lines :=
  .ofNewlines (unifyLineEnds cs)

/-- The open line is a line of its own unless it is empty. -/
def Lines.toList (l : Lines) : List (List Char) :=
  if l.openLine = [] then l.terminated else l.terminated ++ [l.openLine]

/-- The same lines, each with its end, which the open line does not have. -/
def Lines.withEnds (l : Lines) : List (List Char) :=
  l.terminated.map (· ++ ['\n']) ++ if l.openLine = [] then [] else [l.openLine]

@[simp] theorem Lines.ofNewlines_nil : Lines.ofNewlines [] = ⟨[], []⟩ := rfl

/-- A text up to its first newline is its first line. -/
theorem Lines.ofNewlines_append {cs : List Char} (h : '\n' ∉ cs) (rest : List Char) :
    Lines.ofNewlines (cs ++ '\n' :: rest)
      = ⟨cs :: (Lines.ofNewlines rest).terminated, (Lines.ofNewlines rest).openLine⟩ := by
  simp [ofNewlines, pieces_append_sep_cons h, List.dropLast_cons_of_ne_nil (pieces_ne_nil rest),
    List.getLast_cons (pieces_ne_nil rest)]

/-- A text without newlines is all open line. -/
theorem Lines.ofNewlines_of_not_mem {cs : List Char} (h : '\n' ∉ cs) :
    Lines.ofNewlines cs = ⟨[], cs⟩ := by
  simp [ofNewlines, pieces_of_not_mem h]

end Wordstack.Text
