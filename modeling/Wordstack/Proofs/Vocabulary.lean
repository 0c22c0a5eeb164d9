import Wordstack.Proofs.Forms

/-!
# Where the tokens of a command come from

Reading makes up no tokens. What a scan keeps and what it leaves are tokens that were there, in the
order in which they were (`Scan.Within`), and so the tokens of a command, be they names or bodies to
be evaluated later, are tokens of the program (`Command.tokens_sublist`). A program of tokens of
some kind, its *vocabulary*, therefore never comes to speak of anything else; and what is to be
evaluated later is shorter than the program (`Command.length_tokens_lt`).
-/

namespace Wordstack

open scoped List

/-- The tokens of a definition. -/
def Definition.tokens (d : Definition) : List Token :=
  d.name :: d.body

/-- The tokens of both sides. -/
def Branches.tokens (b : Branches) : List Token :=
  b.whenTrue ++ b.whenFalse.getD []

/-! ## Sides -/

/-- The separators aside, the parts of a body make up the body. -/
theorem flatten_alternatives_sublist (opener separator closer : Token) (depth : Nat)
    (body : Body) : (alternatives opener separator closer depth body).flatten <+ body := by
  induction body generalizing depth with
  | nil => exact .slnil
  | cons t ts ih =>
    rw [alternatives]
    split
    · rw [List.flatten_cons, List.nil_append]
      exact (ih 0).cons t
    · have h := ih (level opener closer depth t)
      split <;> next ha =>
        rw [ha] at h
        rw [List.flatten_cons, List.cons_append]
        exact h.cons_cons t

theorem Branches.tokens_ofBody_sublist (body : Body) : (ofBody body).tokens <+ body := by
  have h := flatten_alternatives_sublist "if" "else" "then" 0 body
  rw [ofBody]
  split
  · exact List.nil_sublist body
  · next ha =>
    rw [ha] at h
    simpa [tokens] using h
  · next ha =>
    rw [ha] at h
    exact h

namespace Scan

variable {α : Type} {tokens : List Token}

/-- The scan keeps and leaves tokens of those that there were. -/
structure Within (tokens : List Token) (kept : α → List Token) (s : Scan α) : Prop where
  rest : s.rest <+ tokens
  kept {a : α} : s.result = .ok a → kept a <+ tokens

/-- A scan that finds nothing keeps nothing. -/
theorem within_of_error {kept : α → List Token} {h : Halt} {rest : List Token}
    (hr : rest <+ tokens) : Within tokens kept ⟨.error h, rest⟩ :=
  ⟨hr, nofun⟩

theorem within_of_ok {kept : α → List Token} {a : α} {rest : List Token} (ha : kept a <+ tokens)
    (hr : rest <+ tokens) : Within tokens kept ⟨.ok a, rest⟩ := by
  refine ⟨hr, ?_⟩
  rintro _ ⟨⟩
  exact ha

/-- A scan with an end leaves what comes after it and keeps what was before it. -/
theorem within_of_append {kept : α → List Token} {a : α} {body rest : List Token} {t : Token}
    (ha : kept a <+ body) : Within (body ++ t :: rest) kept ⟨.ok a, rest⟩ :=
  within_of_ok (ha.trans (List.sublist_append_left _ _))
    ((List.sublist_cons_self t rest).trans (List.sublist_append_right _ _))

theorem name_within (kind : NameKind) (tokens : List Token) :
    Within tokens (fun n => [n]) (name kind tokens) := by
  cases tokens with
  | nil => exact within_of_error (List.nil_sublist _)
  | cons t rest =>
    have hr : rest <+ t :: rest := List.sublist_cons_self t rest
    rw [name]
    split
    · exact within_of_ok (List.singleton_sublist.2 List.mem_cons_self) hr
    · exact within_of_error hr
    · exact within_of_error hr

theorem string_within (tokens : List Token) :
    Within tokens (fun _ => []) (string tokens) := by
  rw [string]
  split
  · exact within_of_error (List.nil_sublist _)
  · next hc =>
    rw [(eq_of_cut hc).1]
    exact within_of_append (List.nil_sublist _)

theorem definition_within (tokens : List Token) :
    Within tokens Definition.tokens (definition tokens) := by
  have hr := readsDefinition tokens
  generalize definition tokens = s at hr
  cases hr with
  | missing | unclosed => exact within_of_error (List.nil_sublist _)
  | escaped | invalid => exact within_of_error (List.sublist_cons_self _ _)
  -- What stands before the semicolon stood after the name.
  | closed =>
    rw [← List.cons_append]
    exact within_of_append (List.Sublist.refl _)

theorem conditional_within (tokens : List Token) :
    Within tokens Branches.tokens (conditional tokens) := by
  rw [conditional]
  split
  · exact within_of_error (List.nil_sublist _)
  · next body rest hb =>
    rw [eq_of_block hb]
    exact within_of_append (Branches.tokens_ofBody_sublist body)

theorem loop_within (tokens : List Token) : Within tokens id (loop tokens) := by
  rw [loop]
  split
  · exact within_of_error (List.nil_sublist _)
  · next hb =>
    rw [eq_of_block hb]
    exact within_of_append (List.Sublist.refl _)

end Scan

/-! ## Commands -/

namespace Command

/-- The tokens that a command keeps: a name, what is to be evaluated, or the word that it is. -/
def tokens : Command → List Token
  | .define (.ok d) => d.tokens
  | .conditional (.ok b) => b.tokens
  | .loop (.ok body) => body
  | .declare (.ok n) | .nameConstant (.ok n) => [n]
  | .word t => [t]
  | _ => []

/-- What is read after the token and what is left are tokens that were there. -/
theorem read_sublist (t : Token) (ts : List Token) :
    ((read t ts).1 = .word t ∨ (read t ts).1.tokens <+ ts) ∧ (read t ts).2 <+ ts := by
  -- A form keeps what its scan keeps.
  have form {α : Type} {kept : α → List Token} {s : Scan α} (hs : s.Within ts kept)
      {command : Except Halt α → Command} (ho : ∀ a, (command (.ok a)).tokens = kept a)
      (he : ∀ h, (command (.error h)).tokens = []) :
      (command s.result = .word t ∨ (command s.result).tokens <+ ts) ∧ s.rest <+ ts := by
    refine ⟨.inr ?_, hs.rest⟩
    rcases hr : s.result with h | a
    · rw [he]
      exact List.nil_sublist ts
    · rw [ho]
      exact hs.kept hr
  unfold read
  split
  · exact form (Scan.definition_within ts) (fun _ => rfl) fun _ => rfl
  · exact form (Scan.string_within ts) (fun _ => rfl) fun _ => rfl
  · exact form (Scan.conditional_within ts) (fun _ => rfl) fun _ => rfl
  · exact form (Scan.loop_within ts) (fun _ => rfl) fun _ => rfl
  · exact form (Scan.name_within .variable ts) (fun _ => rfl) fun _ => rfl
  · exact form (Scan.name_within .constant ts) (fun _ => rfl) fun _ => rfl
  case h_12 => exact ⟨.inl rfl, .refl ts⟩
  all_goals exact ⟨.inr (List.nil_sublist ts), .refl ts⟩

/-- A command is read from tokens of the program. -/
theorem exists_read_of_mem {c : Command} {tokens : List Token} (h : c ∈ sequence tokens) :
    ∃ t ts, t :: ts <+ tokens ∧ c = (read t ts).1 := by
  induction tokens using sequence.induct with
  | case1 =>
    rw [sequence_nil] at h
    cases h
  | case2 t ts ht ih =>
    rw [sequence_cons_of_blank ht] at h
    obtain ⟨u, us, hs, rfl⟩ := ih h
    exact ⟨u, us, hs.cons t, rfl⟩
  | case3 t ts ht ih =>
    rw [sequence_cons (by simpa using ht)] at h
    rcases List.mem_cons.1 h with rfl | h
    · exact ⟨t, ts, .refl _, rfl⟩
    · obtain ⟨u, us, hs, rfl⟩ := ih h
      exact ⟨u, us, (hs.trans (read_sublist t ts).2).cons t, rfl⟩

/-- What is a word of a program opens no form. -/
theorem not_mem_formNames_of_mem {t : Token} {tokens : List Token}
    (h : .word t ∈ sequence tokens) : t ∉ formNames := by
  obtain ⟨u, us, -, hr⟩ := exists_read_of_mem h
  unfold read at hr
  split at hr
  case h_12 =>
    cases hr
    simp_all [formNames]
  all_goals cases hr

/-- A program that defines words says so. -/
theorem colon_mem_of_define {definition : Except Halt Definition} {tokens : List Token}
    (h : .define definition ∈ sequence tokens) : ":" ∈ tokens := by
  obtain ⟨u, us, hs, hr⟩ := exists_read_of_mem h
  unfold read at hr
  split at hr
  case h_1 => exact hs.subset List.mem_cons_self
  all_goals cases hr

/-- The tokens of a command are tokens of the program. -/
theorem tokens_sublist {c : Command} {tokens : List Token} (h : c ∈ sequence tokens) :
    c.tokens <+ tokens := by
  obtain ⟨t, ts, hs, rfl⟩ := exists_read_of_mem h
  rcases (read_sublist t ts).1 with hw | hr
  · rw [hw]
    exact (List.singleton_sublist.2 List.mem_cons_self).trans hs
  · exact (hr.cons t).trans hs

/-- What a command is to do with tokens is less than the program, but for a single word. -/
theorem length_tokens_lt {c : Command} {tokens : List Token} (h : c ∈ sequence tokens)
    (hw : ∀ t, c ≠ .word t) : c.tokens.length < tokens.length := by
  obtain ⟨t, ts, hs, rfl⟩ := exists_read_of_mem h
  exact Nat.lt_of_le_of_lt ((read_sublist t ts).1.resolve_left (hw t)).length_le hs.length_le

end Command

end Wordstack
