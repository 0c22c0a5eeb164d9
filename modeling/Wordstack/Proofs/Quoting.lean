import Mathlib
import Wordstack.Text.Pieces
import Wordstack.Text.Quoted

/-!
# Texts that tell where they end

A code, which gives every value a text, is *self-delimiting* if the text of a value cannot be taken
for that of another one, nor for a text of another length, whatever follows it
(`Text.SelfDelimiting`). Self-delimiting codes can be put side by side, and any number of their
texts can be put in a row, if the mark at the end of the row begins none of them
(`Text.SelfDelimiting.flatMap_end`, `Text.SelfDelimiting.intercalate_end`).

The quoted form is such a code (`Text.selfDelimiting_quoteChars`). Of the characters between the
marks, one that is not a backslash stands for itself. Behind a backslash a letter says which
character is meant, or how many digits of its code point follow (`Text.escape_cases`); and no
character is written with the mark in front.
-/

namespace Wordstack.Text

/-- Whatever follows the text of a value, it is the text of no other value and ends nowhere
    else. -/
def SelfDelimiting {α : Type} (f : α → List Char) : Prop :=
  ∀ ⦃a b : α⦄ ⦃r s : List Char⦄, f a ++ r = f b ++ s → a = b ∧ r = s

/-- Every text begins, and with another character than this one. -/
def BeginsWithout {α : Type} (c : Char) (f : α → List Char) : Prop :=
  ∀ a, ∃ d p, f a = d :: p ∧ d ≠ c

variable {α β : Type} {f : α → List Char} {g : β → List Char} {c d : Char}

theorem BeginsWithout.append_ne (hc : BeginsWithout c f) (a : α) (r s : List Char) :
    f a ++ r ≠ c :: s := fun h => by
  obtain ⟨d, p, hp, hd⟩ := hc a
  rw [hp] at h
  exact hd (List.cons.inj h).1

/-! ## Rows -/

/-- What is joined is the first part, and the others with the separator before each. -/
theorem intercalate_cons (sep p : List Char) (ps : List (List Char)) :
    sep.intercalate (p :: ps) = p ++ ps.flatMap (sep ++ ·) := by
  induction ps generalizing p with
  | nil => simp
  | cons q ps ih =>
    rw [List.intercalate_cons_cons, ih, List.flatMap_cons, List.append_assoc, List.append_assoc]

theorem not_mem_intercalate {sep : List Char} {ps : List (List Char)} (hs : c ∉ sep)
    (h : ∀ p ∈ ps, c ∉ p) : c ∉ sep.intercalate ps := by
  cases ps with
  | nil => simp
  | cons p ps =>
    rw [intercalate_cons, List.mem_append, List.mem_flatMap]
    rintro (hp | ⟨q, hq, hm⟩)
    · exact h p List.mem_cons_self hp
    · exact (List.mem_append.1 hm).elim hs (h q (List.mem_cons_of_mem p hq))

/-! ## Self-delimiting codes -/

/-- Texts that differ, and hold a character at their end and only there, are self-delimiting. -/
theorem selfDelimiting_of_end (hf : Function.Injective f)
    (hc : ∀ a, ∃ p, f a = p ++ [c] ∧ c ∉ p) : SelfDelimiting f := by
  intro a b r s h
  obtain ⟨p, hp, hcp⟩ := hc a
  obtain ⟨q, hq, hcq⟩ := hc b
  have hpq : p = q := by
    have hpieces := congrArg (pieces c) h
    rw [hp, hq, List.append_assoc, List.append_assoc, List.singleton_append,
      List.singleton_append, pieces_append_sep_cons hcp, pieces_append_sep_cons hcq] at hpieces
    exact (List.cons.inj hpieces).1
  have hab : a = b := hf (by rw [hp, hq, hpq])
  exact ⟨hab, List.append_cancel_left (hab ▸ h)⟩

namespace SelfDelimiting

theorem injective (hf : SelfDelimiting f) : Function.Injective f := fun _ _ h =>
  (hf (congrArg (· ++ []) h)).1

theorem comp (hf : SelfDelimiting f) {k : β → α} (hk : Function.Injective k) :
    SelfDelimiting fun b => f (k b) := fun _ _ _ _ h =>
  ⟨hk (hf h).1, (hf h).2⟩

theorem append_left (hf : SelfDelimiting f) (p : List Char) :
    SelfDelimiting fun a => p ++ f a := by
  intro a b r s h
  rw [List.append_assoc, List.append_assoc] at h
  exact hf (List.append_cancel_left h)

/-- A text of one code and then one of another are a text for two values. -/
theorem prod (hf : SelfDelimiting f) (hg : SelfDelimiting g) :
    SelfDelimiting fun v : α × β => f v.1 ++ g v.2 := by
  intro v w r s h
  rw [List.append_assoc, List.append_assoc] at h
  obtain ⟨h₁, h⟩ := hf h
  obtain ⟨h₂, h⟩ := hg h
  exact ⟨Prod.ext h₁ h₂, h⟩

/-- Texts side by side end at a character with which no text begins. -/
theorem flatMap_end (hf : SelfDelimiting f) (hc : BeginsWithout c f) :
    SelfDelimiting fun as : List α => as.flatMap f ++ [c] := by
  intro as bs r s h
  simp only [List.append_assoc, List.singleton_append] at h
  induction as generalizing bs with
  | nil =>
    cases bs with
    | nil => exact ⟨rfl, (List.cons.inj h).2⟩
    | cons b bs =>
      rw [List.flatMap_cons, List.append_assoc] at h
      exact absurd h.symm (hc.append_ne b _ _)
  | cons a as ih =>
    rw [List.flatMap_cons, List.append_assoc] at h
    cases bs with
    | nil => exact absurd h (hc.append_ne a _ _)
    | cons b bs =>
      rw [List.flatMap_cons, List.append_assoc] at h
      obtain ⟨rfl, hrest⟩ := hf h
      obtain ⟨rfl, hrs⟩ := ih hrest
      exact ⟨rfl, hrs⟩

/-- So do texts that are joined by a separator that does not begin with the character either. -/
theorem intercalate_end (hf : SelfDelimiting f) (hc : BeginsWithout c f) (hd : d ≠ c)
    (sep : List Char) :
    SelfDelimiting fun as : List α => (d :: sep).intercalate (as.map f) ++ [c] := by
  have hrest : SelfDelimiting fun as : List α => as.flatMap (fun a => d :: sep ++ f a) ++ [c] :=
    (hf.append_left (d :: sep)).flatMap_end fun a => ⟨d, sep ++ f a, rfl, hd⟩
  have hcons (a : α) (as : List α) (r : List Char) :
      (d :: sep).intercalate ((a :: as).map f) ++ [c] ++ r
        = f a ++ (as.flatMap (fun a => d :: sep ++ f a) ++ [c]) ++ r := by
    rw [List.map_cons, intercalate_cons, List.flatMap_map, List.append_assoc (f a)]
  intro as bs r s h
  cases as with
  | nil =>
    cases bs with
    | nil => exact ⟨rfl, (List.cons.inj h).2⟩
    | cons b bs =>
      have h := h.trans (hcons b bs s)
      rw [List.append_assoc (f b)] at h
      exact absurd h.symm (hc.append_ne b _ _)
  | cons a as =>
    have h := (hcons a as r).symm.trans h
    cases bs with
    | nil =>
      rw [List.append_assoc (f a)] at h
      exact absurd h (hc.append_ne a _ _)
    | cons b bs =>
      obtain ⟨hab, hrs⟩ := hf.prod hrest (a := (a, as)) (b := (b, bs)) (h.trans (hcons b bs s))
      cases hab
      exact ⟨rfl, hrs⟩

end SelfDelimiting

/-! ## Escapes -/

/-- Only numbers with a digit more differ by nothing else. -/
theorem hexDigits_inj {width m n : Nat} (hm : m < 16 ^ width) (hn : n < 16 ^ width)
    (h : hexDigits width m = hexDigits width n) : m = n := by
  have hdigit : ∀ i < 16, ∀ j < 16, Nat.digitChar i = Nat.digitChar j → i = j := by decide
  induction width generalizing m n with
  | zero => omega
  | succ width ih =>
    rw [Nat.pow_succ] at hm hn
    obtain ⟨hhigh, hlow⟩ := List.append_inj' h rfl
    have := ih (Nat.div_lt_of_lt_mul (Nat.mul_comm _ 16 ▸ hm))
      (Nat.div_lt_of_lt_mul (Nat.mul_comm _ 16 ▸ hn)) hhigh
    have := hdigit _ (Nat.mod_lt m (by decide)) _ (Nat.mod_lt n (by decide))
      (List.cons.inj hlow).1
    omega

/-- The number of digits after a letter behind a backslash. -/
def digitCount (letter : Char) : Nat :=
  if letter = 'x' then 2 else if letter = 'u' then 4 else if letter = 'U' then 8 else 0

/-- The character that is meant by a letter behind a backslash, if there are no digits. -/
def meant (letter : Char) : Char :=
  if letter = 'n' then '\n' else if letter = 'r' then '\r' else if letter = 't' then '\t'
  else letter

theorem delimiter_cases (cs : List Char) : delimiter cs = '"' ∨ delimiter cs = '\x27' := by
  rw [delimiter]
  split
  · exact .inl rfl
  · exact .inr rfl

/-- A code point is written in as many digits as it takes. -/
theorem codePoint_cases (c : Char) :
    ∃ letter, codePoint c = letter :: hexDigits (digitCount letter) c.toNat ∧
      digitCount letter ≠ 0 ∧ c.toNat < 16 ^ digitCount letter := by
  simp only [codePoint]
  split
  · next hx => exact ⟨'x', rfl, by decide, hx⟩
  · split
    · next hu => exact ⟨'u', rfl, by decide, hu⟩
    · exact ⟨'U', rfl, by decide, c.val.toNat_lt⟩

/-- A character stands for itself, or there is a backslash before a letter that tells what follows
    and what is meant. -/
theorem escape_cases {mark : Char} (hm : mark = '"' ∨ mark = '\x27') (c : Char) :
    (escape mark c = [c] ∧ c ≠ '\\' ∧ c ≠ mark) ∨
      ∃ letter, escape mark c = '\\' :: letter :: hexDigits (digitCount letter) c.toNat ∧
        (if digitCount letter = 0 then c = meant letter
          else c.toNat < 16 ^ digitCount letter) := by
  unfold escape
  split
  · next h =>
    refine .inr ⟨c, ?_⟩
    rcases h with rfl | rfl
    · exact ⟨rfl, rfl⟩
    · rcases hm with rfl | rfl <;> exact ⟨rfl, rfl⟩
  · next h =>
    split
    · next h => exact h ▸ .inr ⟨'n', rfl, rfl⟩
    split
    · next h => exact h ▸ .inr ⟨'r', rfl, rfl⟩
    split
    · next h => exact h ▸ .inr ⟨'t', rfl, rfl⟩
    split
    · exact .inl ⟨rfl, not_or.1 h⟩
    · obtain ⟨letter, hcode, hz, hlt⟩ := codePoint_cases c
      exact .inr ⟨letter, congrArg _ hcode, (if_neg hz).mpr hlt⟩

/-- What is meant can be read off the letter and the digits. -/
theorem selfDelimiting_escape {mark : Char} (hm : mark = '"' ∨ mark = '\x27') :
    SelfDelimiting (escape mark) := by
  intro a b r s h
  rcases escape_cases hm a with ⟨ha, hae, -⟩ | ⟨x, ha, hax⟩ <;>
    rcases escape_cases hm b with ⟨hb, hbe, -⟩ | ⟨y, hb, hby⟩ <;> rw [ha, hb] at h
  · exact List.cons.inj h
  · exact absurd (List.cons.inj h).1 hae
  · exact absurd (List.cons.inj h).1.symm hbe
  · obtain ⟨rfl, h⟩ := List.cons.inj (List.cons.inj h).2
    obtain ⟨hd, hrs⟩ := List.append_inj h (by simp)
    refine ⟨?_, hrs⟩
    split at hax
    · next hz => exact hax.trans (if_pos hz ▸ hby).symm
    · next hz =>
      rw [if_neg hz] at hby
      exact Char.toNat_inj.1 (hexDigits_inj hax hby hd)

/-- A character is not written with the mark in front, as a mark has a backslash before it. -/
theorem beginsWithout_escape {mark : Char} (hm : mark = '"' ∨ mark = '\x27') :
    BeginsWithout mark (escape mark) := fun c => by
  rcases escape_cases hm c with ⟨hc, -, hne⟩ | ⟨x, hc, -⟩
  · exact ⟨c, [], hc, hne⟩
  · refine ⟨'\\', _, hc, ?_⟩
    rcases hm with rfl | rfl <;> decide

/-! ## Quoted forms -/

/-- A quoted form ends at its second mark, which is the first character. -/
theorem selfDelimiting_quoteChars : SelfDelimiting quoteChars := by
  intro cs ds r s h
  rw [quoteChars, quoteChars, List.cons_append, List.cons_append] at h
  obtain ⟨hmark, h⟩ := List.cons.inj h
  have hm := delimiter_cases ds
  rw [hmark] at h
  exact (selfDelimiting_escape hm).flatMap_end (beginsWithout_escape hm) h

theorem selfDelimiting_quote : SelfDelimiting fun text : String => (quote text).toList := by
  simp only [toList_quote]
  exact selfDelimiting_quoteChars.comp fun _ _ => String.toList_inj.1

end Wordstack.Text
