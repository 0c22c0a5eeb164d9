import Wordstack.Text.Printable

/-!
# Quoted text

The *quoted* form of a text shows every character of it between two delimiters. The delimiter is
the apostrophe, unless the text holds an apostrophe and no quotation mark: then it is the
quotation mark. Inside, a backslash and the delimiter stand behind a backslash, the newline, the
carriage return and the tab are written by their letters, and any other character that is not
printable is written by its code point, in the fewest of two, four or eight hexadecimal digits.
All else stands for itself (`escape_of_isPrintable`).
-/

namespace Wordstack.Text

/-- The mark at both ends of the quoted form. -/
def delimiter (cs : List Char) : Char :=
  if '\x27' ∈ cs ∧ '"' ∉ cs then '"' else '\x27'

/-- The lowest hexadecimal digits of a number, so many of them, highest first. -/
def hexDigits : Nat → Nat → List Char
  | 0, _ => []
  | width + 1, n => hexDigits width (n / 16) ++ [Nat.digitChar (n % 16)]

@[simp] theorem length_hexDigits (width n : Nat) : (hexDigits width n).length = width := by
  induction width generalizing n with
  | zero => rfl
  | succ width ih => simp [hexDigits, ih]

/-- The code point of a character: a letter that tells the width, then the digits. -/
def codePoint (c : Char) : List Char :=
  let n := c.toNat
  if n < 0x100 then 'x' :: hexDigits 2 n
  else if n < 0x10000 then 'u' :: hexDigits 4 n
  else 'U' :: hexDigits 8 n

/-- How a character is written between two marks. -/
def escape (mark c : Char) : List Char :=
  if c = '\\' ∨ c = mark then ['\\', c]
  else if c = '\n' then ['\\', 'n']
  else if c = '\r' then ['\\', 'r']
  else if c = '\t' then ['\\', 't']
  else if isPrintable c then [c]
  else '\\' :: codePoint c

theorem escape_of_isPrintable {mark c : Char} (h : isPrintable c = true) (hb : c ≠ '\\')
    (hm : c ≠ mark) : escape mark c = [c] := by
  have hn : c ≠ '\n' := by rintro rfl; revert h; decide
  have hr : c ≠ '\r' := by rintro rfl; revert h; decide
  have ht : c ≠ '\t' := by rintro rfl; revert h; decide
  simp [escape, h, hb, hm, hn, hr, ht]

/-- The quoted form, as characters. -/
def quoteChars (cs : List Char) : List Char :=
  let mark := delimiter cs
  mark :: (cs.flatMap (escape mark) ++ [mark])

/-- The quoted form of a text. -/
def quote (s : String) : String :=
  .ofList (quoteChars s.toList)

@[simp] theorem toList_quote (s : String) : (quote s).toList = quoteChars s.toList := by
  simp [quote]

end Wordstack.Text
