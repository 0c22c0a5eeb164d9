import Wordstack.Numeral

/-!
# Scanning forms

Some tokens open a *form*, which takes a stretch of the tokens that follow: a name, a string up
to the token with its closing mark, a definition up to its end, or a *block* up to the closer of
its own level, since blocks nest. A scan says what the form holds, or what is wrong with it, and
which tokens are left to read.

A form that does not end takes all tokens there are. An invalid name takes itself only. Whatever
is left is shorter than what was there or as long (`*_rest_le`), so that a program comes to an
end.
-/

namespace Wordstack

/-- What a scan found and what it left. -/
structure Scan (α : Type) where
  /-- The content of the form, or what is wrong with it. -/
  result : Except Halt α
  /-- The tokens after the form. -/
  rest : List Token

/-- A word with its body. -/
structure Definition where
  name : Token
  body : Body
  deriving DecidableEq, Repr

/-- The two sides of a conditional. -/
structure Branches where
  /-- What is done if the condition holds. -/
  whenTrue : Body
  /-- What is done otherwise, if that is said. -/
  whenFalse : Option Body
  deriving DecidableEq, Repr

/-- How deep a token leaves one who was so deep before it: an opener leads one level down, a
    closer one level up. -/
def level (opener closer : Token) (depth : Nat) (t : Token) : Nat :=
  if t = opener then depth + 1 else if t = closer then depth - 1 else depth

/-- The parts of a body between the separators of its own level. -/
def alternatives (opener separator closer : Token) : Nat → Body → List Body
  | _, [] => [[]]
  | depth, t :: ts =>
    if t = separator ∧ depth = 0 then [] :: alternatives opener separator closer 0 ts
    else match alternatives opener separator closer (level opener closer depth t) ts with
      | [] => [[t]]
      | b :: bs => (t :: b) :: bs

/-- The sides of a conditional: the part before the first separator, and all that comes after
    it, further separators left out. -/
def Branches.ofBody (body : Body) : Branches :=
  match alternatives "if" "else" "then" 0 body with
  | [] => ⟨[], none⟩
  | [b] => ⟨b, none⟩
  | b :: bs => ⟨b, some bs.flatten⟩

namespace Scan

variable {α : Type}

/-- A form without its end: nothing is left. -/
def unfinished (fault : FormFault) : Scan α :=
  ⟨.error (.fault (.malformed fault)), []⟩

/-- The tokens before the first one of a kind, that one, and the tokens after it. -/
def cut (p : Token → Bool) (tokens : List Token) : Option (List Token × Token × List Token) :=
  match tokens.dropWhile (!p ·) with
  | [] => none
  | t :: after => some (tokens.takeWhile (!p ·), t, after)

/-- The parts of a cut make up the whole, and the cut is at the first token of the kind. -/
theorem eq_of_cut {p : Token → Bool} {tokens before after : List Token} {t : Token}
    (h : cut p tokens = some (before, t, after)) :
    tokens = before ++ t :: after ∧ (∀ u ∈ before, p u = false) ∧ p t = true := by
  unfold cut at h
  split at h
  · cases h
  · next hd =>
    cases h
    -- What is dropped begins with the first token of the kind, and what is taken holds none.
    refine ⟨?_, fun u hu => ?_, ?_⟩
    · rw [← hd, List.takeWhile_append_dropWhile]
    · simpa using List.all_eq_true.1 List.all_takeWhile u hu
    · have := List.head?_dropWhile_not (!p ·) tokens
      simpa [hd] using this

/-! ## Forms that do not nest -/

/-- The name that comes next. -/
def name (kind : NameKind) : List Token → Scan Token
  | [] => unfinished (.missingName kind)
  | t :: rest =>
    match isValidName t with
    | .ok true => ⟨.ok t, rest⟩
    | .ok false => ⟨.error (.fault (.malformed (.invalidName kind t))), rest⟩
    | .error e => ⟨.error (.escape e), rest⟩

/-- Whether the token has the closing mark of a string at its end. -/
def closesString (t : Token) : Bool :=
  t.toList.getLast? = some '"'

/-- A string: its tokens up to the one with the closing mark, with one space between them. -/
def string (tokens : List Token) : Scan String :=
  match cut closesString tokens with
  | none => unfinished .openString
  | some (before, last, rest) =>
    ⟨.ok (Body.text (before ++ [.ofList last.toList.dropLast])), rest⟩

/-- A definition: a name, then a body up to the first semicolon. -/
def definition (tokens : List Token) : Scan Definition :=
  match name .word tokens with
  | ⟨.error h, rest⟩ => ⟨.error h, rest⟩
  | ⟨.ok name, rest⟩ =>
    match cut (· = ";") rest with
    | none => unfinished (.openDefinition name)
    | some (body, _, rest) => ⟨.ok ⟨name, body⟩, rest⟩

/-! ## Blocks -/

/-- The tokens up to the closer of the own level, and the tokens after it. What lies between is
    so many levels down. -/
def block (opener closer : Token) : Nat → List Token → Option (Body × List Token)
  | _, [] => none
  | depth, t :: ts =>
    if t = closer ∧ depth = 0 then some ([], ts)
    else (block opener closer (level opener closer depth t) ts).map fun (b, rest) => (t :: b, rest)

/-- A conditional up to its end. -/
def conditional (tokens : List Token) : Scan Branches :=
  match block "if" "then" 0 tokens with
  | none => unfinished .openConditional
  | some (body, rest) => ⟨.ok (.ofBody body), rest⟩

/-- The body of a loop up to its end. -/
def loop (tokens : List Token) : Scan Body :=
  match block "do" "loop" 0 tokens with
  | none => unfinished .openLoop
  | some (body, rest) => ⟨.ok body, rest⟩

/-! ## What is left -/

theorem name_rest_le (kind : NameKind) (tokens : List Token) :
    (name kind tokens).rest.length ≤ tokens.length := by
  unfold name
  split
  · exact Nat.zero_le _
  · split <;> simp

theorem string_rest_le (tokens : List Token) : (string tokens).rest.length ≤ tokens.length := by
  unfold string
  split
  · exact Nat.zero_le _
  · next h =>
    rw [(eq_of_cut h).1]
    simp only [List.length_append, List.length_cons]
    omega

theorem definition_rest_le (tokens : List Token) :
    (definition tokens).rest.length ≤ tokens.length := by
  have hn := name_rest_le .word tokens
  unfold definition
  split
  · next h => simpa [h] using hn
  · next h =>
    rw [h] at hn
    split
    · exact Nat.zero_le _
    · next hc =>
      rw [(eq_of_cut hc).1] at hn
      simp only [List.length_append, List.length_cons] at hn
      simp only
      omega

/-- A block and its closer stand before what is left. -/
theorem eq_of_block {opener closer : Token} {depth : Nat} {tokens : List Token} {b : Body}
    {rest : List Token} (h : block opener closer depth tokens = some (b, rest)) :
    tokens = b ++ closer :: rest := by
  induction tokens generalizing depth b with
  | nil => cases h
  | cons t ts ih =>
    rw [block] at h
    split at h
    · next hc =>
      cases h
      rw [hc.1, List.nil_append]
    · obtain ⟨⟨b', rest'⟩, hb, h⟩ := Option.map_eq_some_iff.1 h
      cases h
      rw [List.cons_append, ← ih hb]

theorem length_of_block {opener closer : Token} {depth : Nat} {tokens : List Token} {b : Body}
    {rest : List Token} (h : block opener closer depth tokens = some (b, rest)) :
    tokens.length = b.length + 1 + rest.length := by
  rw [eq_of_block h, List.length_append, List.length_cons]
  omega

theorem conditional_rest_le (tokens : List Token) :
    (conditional tokens).rest.length ≤ tokens.length := by
  unfold conditional
  split
  · exact Nat.zero_le _
  · next h =>
    have := length_of_block h
    simp only
    omega

theorem loop_rest_le (tokens : List Token) : (loop tokens).rest.length ≤ tokens.length := by
  unfold loop
  split
  · exact Nat.zero_le _
  · next h =>
    have := length_of_block h
    simp only
    omega

end Scan

end Wordstack
