import Wordstack.Scan

/-!
# Commands

The tokens of a program are read as a sequence of *commands*: forms, each with what it takes from
the tokens after it, and single words. What is wrong with a form is kept in the command and comes
to light when the command is carried out, after those before it. The reading depends on the
tokens alone, never on the state, so it can be done for all of them before the first command is
carried out. Tokens that are all blank stand for nothing.

The tokens that open a form have that meaning always and everywhere (`Command.formNames`). One of
them, the plus sign, is a form only sometimes, which is decided when it is carried out.
-/

namespace Wordstack

/-- A step of a program. -/
inductive Command where
  /-- Defines a word. -/
  | define (definition : Except Halt Definition)
  /-- Shows a text. -/
  | say (text : Except Halt String)
  /-- Does one of two things. -/
  | conditional (branches : Except Halt Branches)
  /-- Counts and does the same thing for every number. -/
  | loop (body : Except Halt Body)
  /-- Creates a variable. -/
  | declare (name : Except Halt Token)
  /-- Gives a name to the top operand. -/
  | nameConstant (name : Except Halt Token)
  /-- Reads the variable that is spoken of. -/
  | fetch
  /-- Writes the variable that is spoken of. -/
  | store
  /-- The size of so many cells, which is their number. -/
  | cells
  /-- Makes the variable that is spoken of an array. -/
  | allot
  /-- Chooses the cell that is spoken of, or adds. -/
  | plus
  /-- A token with the meaning that the environment gives it. -/
  | word (token : Token)

namespace Command

/-- The tokens that open a form, in order. -/
def formNames : List String :=
  ["!", "+", ".\"", ":", "@", "allot", "cells", "constant", "do", "if", "variable"]

/-- The command that begins with the token, and the tokens after it. -/
def read (t : Token) (ts : List Token) : Command × List Token :=
  match t with
  | ":" => (.define (Scan.definition ts).result, (Scan.definition ts).rest)
  | ".\"" => (.say (Scan.string ts).result, (Scan.string ts).rest)
  | "if" => (.conditional (Scan.conditional ts).result, (Scan.conditional ts).rest)
  | "do" => (.loop (Scan.loop ts).result, (Scan.loop ts).rest)
  | "variable" => (.declare (Scan.name .variable ts).result, (Scan.name .variable ts).rest)
  | "constant" => (.nameConstant (Scan.name .constant ts).result, (Scan.name .constant ts).rest)
  | "@" => (.fetch, ts)
  | "!" => (.store, ts)
  | "cells" => (.cells, ts)
  | "allot" => (.allot, ts)
  | "+" => (.plus, ts)
  | _ => (.word t, ts)

theorem read_rest_le (t : Token) (ts : List Token) : (read t ts).2.length ≤ ts.length := by
  unfold read
  split
  · exact Scan.definition_rest_le ts
  · exact Scan.string_rest_le ts
  · exact Scan.conditional_rest_le ts
  · exact Scan.loop_rest_le ts
  · exact Scan.name_rest_le .variable ts
  · exact Scan.name_rest_le .constant ts
  all_goals exact Nat.le_refl _

/-- A token that opens no form is a word. -/
theorem read_of_not_mem {t : Token} (h : t ∉ formNames) (ts : List Token) :
    read t ts = (.word t, ts) := by
  unfold read
  split
  case h_12 => rfl
  all_goals exact absurd (by decide) h

/-- The commands of a sequence of tokens. -/
def sequence : List Token → List Command
  | [] => []
  | t :: ts =>
    if Text.isBlankText t then sequence ts
    else (read t ts).1 :: sequence (read t ts).2
termination_by tokens => tokens.length
decreasing_by
  · exact Nat.lt_succ_self _
  · exact Nat.lt_succ_of_le (read_rest_le t ts)

@[simp] theorem sequence_nil : sequence [] = [] := by
  rw [sequence]

theorem sequence_cons_of_blank {t : Token} (h : Text.isBlankText t = true) (ts : List Token) :
    sequence (t :: ts) = sequence ts := by
  rw [sequence, if_pos h]

theorem sequence_cons {t : Token} (h : Text.isBlankText t = false) (ts : List Token) :
    sequence (t :: ts) = (read t ts).1 :: sequence (read t ts).2 := by
  rw [sequence, if_neg (by simp [h])]

/-- What the first command leaves is read on. -/
theorem sequence_cons_of_read {t : Token} {ts rest : List Token} {c : Command}
    (h : Text.isBlankText t = false) (hr : read t ts = (c, rest)) :
    sequence (t :: ts) = c :: sequence rest := by
  rw [sequence_cons h, hr]

end Command

end Wordstack
