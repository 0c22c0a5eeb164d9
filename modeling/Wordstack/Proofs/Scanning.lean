import Wordstack.Command

/-!
# How far a scan reads

A scan reads up to the end of its form and no further: if it gets there, it finds the same when
more tokens follow, and leaves them too (`Scan.Local`). Only a form that is not at its end when
the tokens are can be changed by more of them. Its fault is then an *open* one
(`FormFault.isOpen`); an invalid name or an empty branch stays what it is.
-/

namespace Wordstack

/-- Whether the fault is that the tokens end before the form does. -/
def FormFault.isOpen : FormFault → Bool
  | openString | openConditional | openLoop | openDefinition _ | missingName _ => true
  | emptyBranch | emptyAlternative | emptyLoop | invalidName _ _ => false

/-- Whether the error is a form that is not at its end when the tokens are. -/
def Error.isOpen : Error → Bool
  | malformed fault => fault.isOpen
  | _ => false

/-- Whether a command stops because its form is not at its end when the tokens are. -/
def Halt.isOpen : Halt → Bool
  | fault e => e.isOpen
  | escape _ => false

namespace Scan

variable {α : Type} {p : Token → Bool} {tokens before after : List Token} {t : Token}

theorem eq_of_result {s : Scan α} {r : Except Halt α} (h : s.result = r) : s = ⟨r, s.rest⟩ := by
  rw [← h]

/-! ## Up to the first token of a kind -/

theorem cut_cons (t : Token) (tokens : List Token) :
    cut p (t :: tokens)
      = if p t then some ([], t, tokens)
        else (cut p tokens).map fun (before, u, after) => (t :: before, u, after) := by
  rw [cut, cut]
  cases h : p t with
  | true => simp [h]
  | false =>
    cases hd : tokens.dropWhile (!p ·) <;> simp [h, hd]

/-- The cut is at the first token of the kind. -/
theorem cut_of_first (hb : ∀ u ∈ before, p u = false) (ht : p t = true) (after : List Token) :
    cut p (before ++ t :: after) = some (before, t, after) := by
  induction before with
  | nil => rw [List.nil_append, cut_cons, if_pos ht]
  | cons u before ih =>
    rw [List.cons_append, cut_cons, hb u List.mem_cons_self,
      ih fun v hv => hb v (List.mem_cons_of_mem u hv)]
    rfl

/-- A cut at a token is at the first place where this token stands. -/
theorem cut_of_not_mem (hb : t ∉ before) (after : List Token) :
    cut (· = t) (before ++ t :: after) = some (before, t, after) :=
  cut_of_first (fun u hu => decide_eq_false fun h : u = t => hb (h ▸ hu)) (decide_eq_true rfl) after

theorem cut_eq_none_iff : cut p tokens = none ↔ ∀ u ∈ tokens, p u = false := by
  induction tokens with
  | nil => simp [cut]
  | cons t tokens ih =>
    rw [cut_cons, List.forall_mem_cons, ← ih]
    cases p t <;> simp

/-- A string goes up to the first token that closes it. -/
theorem string_append {pieces : List Token} {last : Token}
    (hp : ∀ p ∈ pieces, closesString p = false) (hl : closesString last = true)
    (rest : List Token) :
    string (pieces ++ last :: rest)
      = ⟨.ok (Body.text (pieces ++ [.ofList last.toList.dropLast])), rest⟩ := by
  rw [string, cut_of_first hp hl]

/-- A cut stays where it is when more tokens follow. -/
theorem cut_append (h : cut p tokens = some (before, t, after)) (more : List Token) :
    cut p (tokens ++ more) = some (before, t, after ++ more) := by
  obtain ⟨rfl, hb, ht⟩ := eq_of_cut h
  rw [List.append_assoc, List.cons_append, cut_of_first hb ht]

/-- A block ends where it does when more tokens follow. -/
theorem block_append_of_eq {opener closer : Token} {depth : Nat} {b : Body} {rest : List Token}
    (h : block opener closer depth tokens = some (b, rest)) (more : List Token) :
    block opener closer depth (tokens ++ more) = some (b, rest ++ more) := by
  induction tokens generalizing depth b with
  | nil => cases h
  | cons t tokens ih =>
    rw [block] at h
    rw [List.cons_append, block]
    -- Whether the block ends here is a matter of this token and the depth.
    by_cases hc : t = closer ∧ depth = 0
    · rw [if_pos hc] at h ⊢
      cases h
      rfl
    · rw [if_neg hc] at h ⊢
      obtain ⟨⟨b', rest'⟩, hb, h⟩ := Option.map_eq_some_iff.1 h
      cases h
      rw [ih hb]
      rfl

/-! ## Forms -/

/-- What is found does not depend on the tokens that follow, unless the form is open. -/
def Local (scan : List Token → Scan α) : Prop :=
  ∀ tokens, (∃ fault, fault.isOpen = true ∧ scan tokens = unfinished fault) ∨
    ∀ more, scan (tokens ++ more) = ⟨(scan tokens).result, (scan tokens).rest ++ more⟩

/-- What is found is also found when more tokens follow, which are left then. -/
theorem Local.ok_append {scan : List Token → Scan α} (hs : Local scan) {a : α}
    {rest : List Token} (h : scan tokens = ⟨.ok a, rest⟩) (more : List Token) :
    scan (tokens ++ more) = ⟨.ok a, rest ++ more⟩ := by
  rcases hs tokens with ⟨fault, -, hf⟩ | hm
  · cases hf.symm.trans h
  · rw [hm, h]

theorem name_local (kind : NameKind) : Local (name kind)
  | [] => .inl ⟨.missingName kind, rfl, rfl⟩
  | t :: tokens => by
    refine .inr fun more => ?_
    rw [List.cons_append, name, name]
    split <;> rfl

theorem string_local : Local string := by
  intro tokens
  simp only [string]
  cases h : cut closesString tokens with
  | none => exact .inl ⟨.openString, rfl, rfl⟩
  | some c => exact .inr fun more => by rw [cut_append h]

theorem definition_local : Local definition := by
  intro tokens
  simp only [definition]
  rcases name_local .word tokens with ⟨fault, ho, hn⟩ | hn
  · exact .inl ⟨fault, ho, by rw [hn]; rfl⟩
  · rcases hs : name .word tokens with ⟨e | n, rest⟩ <;> rw [hs] at hn
    -- Without a name, the definition is not read any further.
    · exact .inr fun more => by rw [hn]
    · cases hc : cut (· = ";") rest with
      | none => exact .inl ⟨.openDefinition n, rfl, by simp only [hc]⟩
      | some c => exact .inr fun more => by simp only [hn, hc, cut_append hc]

theorem conditional_local : Local conditional := by
  intro tokens
  simp only [conditional]
  cases h : block "if" "then" 0 tokens with
  | none => exact .inl ⟨.openConditional, rfl, rfl⟩
  | some c => exact .inr fun more => by rw [block_append_of_eq h]

theorem loop_local : Local loop := by
  intro tokens
  simp only [loop]
  cases h : block "do" "loop" 0 tokens with
  | none => exact .inl ⟨.openLoop, rfl, rfl⟩
  | some c => exact .inr fun more => by rw [block_append_of_eq h]

end Scan

end Wordstack
