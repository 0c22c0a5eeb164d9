import Wordstack.Proofs.Balance
import Wordstack.Proofs.Scanning

/-!
# Structured programs

Most programs have a structure that is not in their tokens: they are sequences of *phrases*, and
some phrases, the definitions, conditionals and loops, hold such sequences again. The tokens of a
*tree* of phrases are got by writing it down from left to right (`Tree.flatten`). A tree is *well
formed* if its blocks are not empty and none of the words that structure a program, the
*keywords*, stands where a name or a piece of a string is meant (`Phrase.WellFormed`).

All that a scan needs in order to find the structure again is that the tokens of a well-formed
tree are balanced, for conditionals and for loops (`Tree.balanced`), and undivided
(`Tree.undivided`).
-/

namespace Wordstack

/-- The tokens that structure a program. -/
def keywords : List Token := ["if", "then", "else", "do", "loop", ";"]

/-- The tokens that take a name or pieces of a string from those after them. -/
def introducers : List Token := [":", ".\"", "variable", "constant"]

/-- A part of a structured program. -/
inductive Phrase where
  /-- A token that stands for itself. -/
  | plain (token : Token)
  | declare (name : Token)
  | nameConstant (name : Token)
  /-- A string, by the tokens up to the one that closes it. -/
  | say (pieces : List Token) (last : Token)
  | define (name : Token) (body : List Phrase)
  /-- A conditional without an alternative. -/
  | when (body : List Phrase)
  /-- A conditional with an alternative. -/
  | choose (whenTrue whenFalse : List Phrase)
  | loop (body : List Phrase)

/-- A structured program. -/
abbrev Tree := List Phrase

mutual

/-- The tokens of a phrase. -/
def Phrase.flatten : Phrase → List Token
  | .plain t => [t]
  | .declare name => ["variable", name]
  | .nameConstant name => ["constant", name]
  | .say pieces last => ".\"" :: (pieces ++ [last])
  | .define name body => ":" :: name :: (Tree.flatten body ++ [";"])
  | .when body => "if" :: (Tree.flatten body ++ ["then"])
  | .choose whenTrue whenFalse =>
    "if" :: ((Tree.flatten whenTrue ++ "else" :: Tree.flatten whenFalse) ++ ["then"])
  | .loop body => "do" :: (Tree.flatten body ++ ["loop"])

/-- The tokens of a structured program. -/
def Tree.flatten : Tree → List Token
  | [] => []
  | n :: tree => n.flatten ++ Tree.flatten tree

end

/-- No keyword stands where it would structure anything else, and no block is empty. -/
inductive Phrase.WellFormed : Phrase → Prop
  | plain {t : Token} : t ∉ keywords → t ∉ introducers → WellFormed (.plain t)
  | declare {name : Token} : name ∉ keywords → WellFormed (.declare name)
  | nameConstant {name : Token} : name ∉ keywords → WellFormed (.nameConstant name)
  | say {pieces : List Token} {last : Token} :
      (∀ p ∈ pieces, p ∉ keywords ∧ Scan.closesString p = false) →
      Scan.closesString last = true → WellFormed (.say pieces last)
  | define {name : Token} {body : Tree} :
      name ∉ keywords → (∀ n ∈ body, n.WellFormed) → ";" ∉ Tree.flatten body →
      WellFormed (.define name body)
  | when {body : Tree} : body ≠ [] → (∀ n ∈ body, n.WellFormed) → WellFormed (.when body)
  | choose {whenTrue whenFalse : Tree} :
      whenTrue ≠ [] → whenFalse ≠ [] → (∀ n ∈ whenTrue, n.WellFormed) →
      (∀ n ∈ whenFalse, n.WellFormed) → WellFormed (.choose whenTrue whenFalse)
  | loop {body : Tree} : body ≠ [] → (∀ n ∈ body, n.WellFormed) → WellFormed (.loop body)

/-- A structured program of well-formed phrases. -/
def Tree.WellFormed (tree : Tree) : Prop :=
  ∀ n ∈ tree, n.WellFormed

theorem Phrase.WellFormed.cons {n : Phrase} {tree : Tree} (hn : n.WellFormed)
    (h : tree.WellFormed) : Tree.WellFormed (n :: tree) :=
  List.forall_mem_cons.2 ⟨hn, h⟩

/-! ## Tokens of phrases -/

theorem Phrase.flatten_ne_nil (n : Phrase) : n.flatten ≠ [] := by
  cases n <;> rw [Phrase.flatten] <;> exact List.cons_ne_nil _ _

theorem Tree.flatten_ne_nil {tree : Tree} (h : tree ≠ []) : Tree.flatten tree ≠ [] := by
  cases tree with
  | nil => exact absurd rfl h
  | cons n tree =>
    rw [Tree.flatten]
    exact List.append_ne_nil_of_left_ne_nil n.flatten_ne_nil _

/-- A token that closes a string is no keyword. -/
theorem not_mem_keywords_of_closesString {t : Token} (h : Scan.closesString t = true) :
    t ∉ keywords := by
  intro ht
  simp only [keywords, List.mem_cons, List.not_mem_nil, or_false] at ht
  rcases ht with rfl | rfl | rfl | rfl | rfl | rfl <;> exact absurd h (by decide)

/-- Whether the phrase holds no others. -/
def Phrase.isLeaf : Phrase → Bool
  | .plain _ | .declare _ | .nameConstant _ | .say _ _ => true
  | .define _ _ | .when _ | .choose _ _ | .loop _ => false

/-- There are no keywords but where phrases hold others. -/
theorem Phrase.WellFormed.not_mem_keywords {n : Phrase} (h : n.WellFormed) (hl : n.isLeaf = true) :
    ∀ t ∈ n.flatten, t ∉ keywords := by
  intro t ht
  cases h with
  | plain hk _ =>
    rw [Phrase.flatten, List.mem_singleton] at ht
    exact ht ▸ hk
  | declare hk =>
    rw [Phrase.flatten, List.mem_cons, List.mem_singleton] at ht
    rcases ht with rfl | rfl
    · decide
    · exact hk
  | nameConstant hk =>
    rw [Phrase.flatten, List.mem_cons, List.mem_singleton] at ht
    rcases ht with rfl | rfl
    · decide
    · exact hk
  | say hp hc =>
    rw [Phrase.flatten, List.mem_cons, List.mem_append, List.mem_singleton] at ht
    rcases ht with rfl | ht | rfl
    · decide
    · exact (hp t ht).1
    · exact not_mem_keywords_of_closesString hc
  | define _ _ _ => cases hl
  | when _ _ => cases hl
  | choose _ _ _ _ => cases hl
  | loop _ _ => cases hl

/-! ## Balance -/

/-- The opener and the closer of a block. -/
inductive IsBlock : Token → Token → Prop
  | conditional : IsBlock "if" "then"
  | loop : IsBlock "do" "loop"

namespace IsBlock

variable {opener closer : Token} {ts xs : List Token}

theorem mem_keywords (hb : IsBlock opener closer) : opener ∈ keywords ∧ closer ∈ keywords := by
  cases hb <;> decide

theorem balanced_of_not_keywords (hb : IsBlock opener closer) (h : ∀ t ∈ ts, t ∉ keywords) :
    Balanced opener closer ts :=
  balanced_of_not_mem (fun ho => h _ ho hb.mem_keywords.1) fun hc => h _ hc hb.mem_keywords.2

/-- A balanced stretch stays balanced in a block, be it of the same kind or of the other. -/
theorem balanced_block {opener' closer' : Token} (hb : IsBlock opener closer)
    (hb' : IsBlock opener' closer') (h : Balanced opener closer ts) :
    Balanced opener closer (opener' :: (ts ++ [closer'])) := by
  cases hb with
  | conditional =>
    cases hb' with
    | conditional => exact h.enclose (by decide)
    | loop =>
      have ho : Balanced "if" "then" ["do"] := balanced_of_not_mem (by decide) (by decide)
      exact ho.append (h.append (balanced_of_not_mem (by decide) (by decide)))
  | loop =>
    cases hb' with
    | conditional =>
      have ho : Balanced "do" "loop" ["if"] := balanced_of_not_mem (by decide) (by decide)
      exact ho.append (h.append (balanced_of_not_mem (by decide) (by decide)))
    | loop => exact h.enclose (by decide)

/-- Two balanced stretches with a separator between them are balanced. -/
theorem balanced_else (hb : IsBlock opener closer) (hx : Balanced opener closer xs)
    (hy : Balanced opener closer ts) : Balanced opener closer (xs ++ "else" :: ts) := by
  have he : Balanced opener closer ["else"] := by
    cases hb <;> exact balanced_of_not_mem (by decide) (by decide)
  exact hx.append (he.append hy)

end IsBlock

theorem Tree.balanced_of_forall {opener closer : Token} {tree : Tree}
    (h : ∀ n ∈ tree, Balanced opener closer n.flatten) :
    Balanced opener closer (Tree.flatten tree) := by
  induction tree with
  | nil => exact balanced_of_not_mem List.not_mem_nil List.not_mem_nil
  | cons n tree ih =>
    rw [Tree.flatten]
    exact (h n List.mem_cons_self).append (ih fun m hm => h m (List.mem_cons_of_mem n hm))

/-- In a well-formed phrase, blocks of either kind begin and end in pairs. -/
theorem Phrase.WellFormed.balanced {n : Phrase} (h : n.WellFormed) {opener closer : Token}
    (hb : IsBlock opener closer) : Balanced opener closer n.flatten := by
  induction h with
  | plain hk hi => exact hb.balanced_of_not_keywords ((plain hk hi).not_mem_keywords rfl)
  | declare hk => exact hb.balanced_of_not_keywords ((declare hk).not_mem_keywords rfl)
  | nameConstant hk => exact hb.balanced_of_not_keywords ((nameConstant hk).not_mem_keywords rfl)
  | say hp hc => exact hb.balanced_of_not_keywords ((say hp hc).not_mem_keywords rfl)
  | @define name body hn _ _ ih =>
    rw [Phrase.flatten]
    have hd : Balanced opener closer [":", name] :=
      hb.balanced_of_not_keywords (by simpa using ⟨by decide, hn⟩)
    -- Neither what is before the body nor what is after it belongs to a block.
    have he : Balanced opener closer [";"] := by
      cases hb <;> exact balanced_of_not_mem (by decide) (by decide)
    exact hd.append ((Tree.balanced_of_forall ih).append he)
  | when _ _ ih =>
    rw [Phrase.flatten]
    exact hb.balanced_block .conditional (Tree.balanced_of_forall ih)
  | choose _ _ _ _ iht ihf =>
    rw [Phrase.flatten]
    exact hb.balanced_block .conditional
      (hb.balanced_else (Tree.balanced_of_forall iht) (Tree.balanced_of_forall ihf))
  | loop _ _ ih =>
    rw [Phrase.flatten]
    exact hb.balanced_block .loop (Tree.balanced_of_forall ih)

theorem Tree.balanced {tree : Tree} (h : tree.WellFormed) {opener closer : Token}
    (hb : IsBlock opener closer) : Balanced opener closer tree.flatten :=
  Tree.balanced_of_forall fun n hn => (h n hn).balanced hb

/-! ## Alternatives -/

theorem undivided_of_not_keywords {ts : List Token} (h : ∀ t ∈ ts, t ∉ keywords) :
    Undivided "if" "else" "then" ts :=
  undivided_of_not_mem fun he => h _ he (by decide)

theorem Tree.undivided_of_forall {tree : Tree} (hw : tree.WellFormed)
    (h : ∀ n ∈ tree, Undivided "if" "else" "then" n.flatten) :
    Undivided "if" "else" "then" tree.flatten := by
  induction tree with
  | nil => exact undivided_of_not_mem List.not_mem_nil
  | cons n tree ih =>
    rw [Tree.flatten]
    exact Undivided.append ((hw n List.mem_cons_self).balanced .conditional)
      (h n List.mem_cons_self)
      (ih (fun m hm => hw m (List.mem_cons_of_mem n hm)) fun m hm =>
        h m (List.mem_cons_of_mem n hm))

/-- In a well-formed phrase, every separator belongs to a conditional within it. -/
theorem Phrase.WellFormed.undivided {n : Phrase} (h : n.WellFormed) :
    Undivided "if" "else" "then" n.flatten := by
  induction h with
  | plain hk hi => exact undivided_of_not_keywords ((plain hk hi).not_mem_keywords rfl)
  | declare hk => exact undivided_of_not_keywords ((declare hk).not_mem_keywords rfl)
  | nameConstant hk => exact undivided_of_not_keywords ((nameConstant hk).not_mem_keywords rfl)
  | say hp hc => exact undivided_of_not_keywords ((say hp hc).not_mem_keywords rfl)
  | @define name body hn hw _ ih =>
    rw [Phrase.flatten]
    have hd : ∀ t ∈ [":", name], t ∉ keywords := by simpa using ⟨by decide, hn⟩
    exact Undivided.append (IsBlock.conditional.balanced_of_not_keywords hd)
      (undivided_of_not_keywords hd)
      (Undivided.append (Tree.balanced hw .conditional) (Tree.undivided_of_forall hw ih)
        (undivided_of_not_mem (by decide)))
  | when _ hw _ =>
    rw [Phrase.flatten]
    exact (Tree.balanced hw .conditional).undivided_enclose (by decide) (by decide) (by decide)
  | choose _ _ ht hf _ _ =>
    rw [Phrase.flatten]
    exact (IsBlock.conditional.balanced_else (Tree.balanced ht .conditional)
      (Tree.balanced hf .conditional)).undivided_enclose (by decide) (by decide) (by decide)
  -- A loop does not enclose its separators, but they are those of its body.
  | loop _ hw ih =>
    rw [Phrase.flatten]
    have hd : Balanced "if" "then" ["do"] := balanced_of_not_mem (by decide) (by decide)
    have hu : Undivided "if" "else" "then" ["do"] := undivided_of_not_mem (by decide)
    exact hu.append hd (Undivided.append (Tree.balanced hw .conditional)
      (Tree.undivided_of_forall hw ih) (undivided_of_not_mem (by decide)))

theorem Tree.undivided {tree : Tree} (h : tree.WellFormed) :
    Undivided "if" "else" "then" tree.flatten :=
  Tree.undivided_of_forall h fun n hn => (h n hn).undivided

end Wordstack
