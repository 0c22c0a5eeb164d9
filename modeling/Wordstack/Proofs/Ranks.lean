import Mathlib
import Wordstack.Proofs.Nesting

/-!
# Words without recursion

The words of a table can be *ranked* if the body of each names only words of lower rank
(`Table.Ranked`). Then no call of a word leads to another call of it, provided that nothing defines
words anew. How many levels an evaluation needs is thus bounded, and by what can be told before it
from the program and the words alone (`nestingBound`): whatever the data are, and however often a
loop runs, there are levels enough (`evaluate_of_ranked`).

The bound is one more than the number of all tokens, of the program and of the bodies of the words.
For a block is shorter than the tokens that it stands in, and the body of a word is evaluated where
only words of lower rank are left to be called, so that its tokens need not be counted again
(`not_exhausts_of_covers`).
-/

namespace Wordstack

open Wordstack.Action Env Evaluator
open scoped List

variable {α : Type} [Preorder α] {words : Table Body} {rank : Token → α} {tokens : List Token}

/-- Every word that the body of a word names is of a lower rank than that word. -/
def Table.Ranked (words : Table Body) (rank : Token → α) : Prop :=
  ∀ e ∈ words.entries, ∀ t ∈ e.2, t ∈ words.keys → rank t < rank e.1

/-- No body defines words. -/
def Table.DefinesNone (words : Table Body) : Prop :=
  ∀ e ∈ words.entries, ":" ∉ e.2

instance [DecidableLT α] (words : Table Body) (rank : Token → α) :
    Decidable (words.Ranked rank) :=
  inferInstanceAs (Decidable (∀ e ∈ words.entries, ∀ t ∈ e.2, t ∈ words.keys → rank t < rank e.1))

instance (words : Table Body) : Decidable words.DefinesNone :=
  inferInstanceAs (Decidable (∀ e ∈ words.entries, ":" ∉ e.2))

/-- The number of tokens in the bodies. -/
def bodySize (entries : List (Token × Body)) : Nat :=
  (entries.map fun e => e.2.length).sum

/-- So many levels are enough for the tokens. -/
def nestingBound (words : Table Body) (tokens : List Token) : Nat :=
  tokens.length + bodySize words.entries + 1

@[simp] theorem bodySize_cons (e : Token × Body) (entries : List (Token × Body)) :
    bodySize (e :: entries) = e.2.length + bodySize entries := rfl

theorem bodySize_filter_le (p : Token × Body → Bool) (entries : List (Token × Body)) :
    bodySize (entries.filter p) ≤ bodySize entries :=
  (List.filter_sublist.map _).sum_le_sum fun _ _ => Nat.zero_le _

/-- An entry that is left out takes its size with it. -/
theorem bodySize_filter_add_le {entries : List (Token × Body)} {w : Token} {body : Body}
    {p : Token × Body → Bool} (he : (w, body) ∈ entries) (hp : p (w, body) = false) :
    bodySize (entries.filter p) + body.length ≤ bodySize entries := by
  induction entries with
  | nil => cases he
  | cons e entries ih =>
    rcases List.mem_cons.1 he with rfl | he
    · have hle := bodySize_filter_le p entries
      rw [List.filter_cons_of_neg (by simp [hp]), bodySize_cons, Nat.add_comm]
      exact Nat.add_le_add_left hle _
    · have hle := ih he
      rw [List.filter_cons]
      split <;> simp only [bodySize_cons] <;> omega

/-! ## The words that are left -/

/-- The entries hold all words that the evaluation of the tokens may call, directly or not. -/
structure Table.Covers (words : Table Body) (rank : Token → α) (entries : List (Token × Body))
    (tokens : List Token) : Prop where
  named {t : Token} {body : Body} :
    t ∈ tokens → words.get? t = some body → (t, body) ∈ entries
  lower {w t : Token} {body body' : Body} :
    (w, body) ∈ entries → rank t < rank w → words.get? t = some body' → (t, body') ∈ entries

theorem Table.covers_entries (words : Table Body) (rank : Token → α) (tokens : List Token) :
    words.Covers rank words.entries tokens where
  named _ h := mem_of_get? h
  lower _ _ h := mem_of_get? h

namespace Table.Covers

variable {entries : List (Token × Body)}

theorem mono {tokens' : List Token} (h : words.Covers rank entries tokens)
    (ht : tokens' ⊆ tokens) : words.Covers rank entries tokens' where
  named hm := h.named (ht hm)
  lower := h.lower

/-- For the body of a word, those of lower rank are enough. -/
theorem call [DecidableLT α] (h : words.Covers rank entries tokens) (hr : words.Ranked rank)
    {w : Token} {body : Body} (hw : (w, body) ∈ entries) (hb : words.get? w = some body) :
    words.Covers rank (entries.filter fun e => rank e.1 < rank w) body where
  named {t body'} ht hg := by
    have hk : t ∈ words.keys := by
      rw [← Table.get?_isSome_iff, hg]
      rfl
    have hlt : rank t < rank w := hr _ (mem_of_get? hb) t ht hk
    exact List.mem_filter.2 ⟨h.lower hw hlt hg, decide_eq_true hlt⟩
  lower {v t _ _} hv hlt hg := by
    obtain ⟨-, hvw⟩ := List.mem_filter.1 hv
    have htw : rank t < rank w := hlt.trans (of_decide_eq_true hvw)
    exact List.mem_filter.2 ⟨h.lower hw htw hg, decide_eq_true htw⟩

end Table.Covers

/-! ## Words that stay -/

/-- Where neither the program nor the words define any, the words stay as they are. -/
theorem invariant_words (hn : words.DefinesNone) :
    Invariant (Command.Of (· ≠ ":")) fun env => env.words = words := by
  have hspeaks {env : Env} (he : env.words = words) : env.Speaks (· ≠ ":") := by
    intro w body hg t ht hc
    rw [he] at hg
    exact hn _ (Table.mem_of_get? hg) (hc ▸ ht)
  refine .of_closed ?_ (hereditary_of_speaks hspeaks) fun _ _ h => h
  intro env env' hc h
  cases hc with
  | define hk =>
    obtain ⟨tokens, ht, hm⟩ := hk
    exact absurd rfl (ht _ (Command.colon_mem_of_define hm))
  | stack | nameConstant | declare | refer | useReference | setScalar | setCell | allot
  | chooseCell => exact h

/-! ## Levels -/

/-- What a command enters is shorter than the program and made of its tokens, if it is not the body
    of a word. -/
theorem Evaluator.Enters.word_or_block {inner : Evaluator} {env env' : Env} {c : Command}
    {body : Body} (he : Enters inner env c body env') (hc : c ∈ Command.sequence tokens) :
    (∃ t ∈ tokens, env.words.get? t = some body) ∨
      body ⊆ tokens ∧ body.length < tokens.length := by
  have block (hb : body <+ c.tokens) (hw : ∀ t, c ≠ .word t) :
      body ⊆ tokens ∧ body.length < tokens.length :=
    ⟨(hb.trans (Command.tokens_sublist hc)).subset,
      Nat.lt_of_le_of_lt hb.length_le (Command.length_tokens_lt hc hw)⟩
  cases he with
  | whenTrue => exact .inr (block (List.sublist_append_left _ _) nofun)
  | whenFalse => exact .inr (block (List.sublist_append_right _ _) nofun)
  | round => exact .inr (block (.refl _) nofun)
  | @call t word _ hm =>
    obtain ⟨rfl, hg⟩ := eq_and_get?_of_meaning hm
    exact .inl ⟨word, (Command.tokens_sublist hc).subset List.mem_cons_self, hg⟩

/-- Where all words that can be called are among the entries, no more levels are needed than there
    are tokens, in the program and in the bodies of the entries. -/
theorem not_exhausts_of_covers (hr : words.Ranked rank) (hn : words.DefinesNone)
    {entries : List (Token × Body)} (hcovers : words.Covers rank entries tokens)
    (ht : ":" ∉ tokens) {env : Env} (he : env.words = words) {depth : Nat}
    (hd : tokens.length + bodySize entries < depth) : ¬Exhausts depth tokens env := by
  classical
  intro hx
  induction hx generalizing entries with
  | here => exact absurd hd (Nat.not_lt_zero _)
  | @within depth tokens env env₁ env₂ c body hreach henters _ ih =>
    have hI := invariant_words hn
    have hkind : Body.MadeOf (Command.Of (· ≠ ":")) tokens :=
      madeOf_of_forall fun t htm hc => ht (hc ▸ htm)
    have h₁ : env₁.words = words := hreach.keeps (fun c hc => hI.keeps depth (hkind c hc)) he
    have hbody := henters.madeOf hI.toHereditary (hkind c hreach.mem) h₁
    have h₂ : env₂.words = words := henters.keeps hI (evaluate_keeps hI depth hbody) h₁
    rcases henters.word_or_block hreach.mem with ⟨w, hw, hg⟩ | ⟨hsub, hlt⟩
    -- The word itself is not left, and so its body makes up for the levels that it needs.
    · rw [h₁] at hg
      have hmem := hcovers.named hw hg
      have hsize := bodySize_filter_add_le (p := fun e => rank e.1 < rank w) hmem
        (decide_eq_false (lt_irrefl _))
      have hpos := List.length_pos_of_mem hw
      refine ih (hcovers.call hr hmem hg) (hn (w, body) (Table.mem_of_get? hg)) h₂ ?_
      omega
    · exact ih (hcovers.mono hsub) (fun h => ht (hsub h)) h₂ (by omega)

/-- If neither the program nor a word defines words, and the words can be ranked, the program has
    levels enough with the bound, wherever it is evaluated: it does not escape for its nesting, and
    no word is reported for it, at any level. -/
theorem evaluate_of_ranked (hr : words.Ranked rank) (hn : words.DefinesNone) (ht : ":" ∉ tokens)
    {depth : Nat} (hd : nestingBound words tokens ≤ depth) {env : Env} (he : env.words = words) :
    ¬Exhausts depth tokens env ∧
      (evaluate depth tokens env).result ≠ .error .tooDeep ∧
      ∀ word, .report (.recursionTooDeep word) ∉ (evaluate depth tokens env).output := by
  have hx : ¬Exhausts depth tokens env :=
    not_exhausts_of_covers hr hn (words.covers_entries rank tokens) ht he hd
  exact ⟨hx, fun h => hx (exhausts_of_tooDeep h), fun _ h => hx (exhausts_of_report h)⟩

/-- A word that calls another, in a conditional in a loop. There are levels enough with one more than
    the ten tokens of the program and the four of the words. -/
theorem evaluate_of_ranked_quad :
    let words : Table Body := .ofList [("sq", ["dup", "*"]), ("quad", ["sq", "sq"])]
    let tokens : List Token := ["0", "4", "do", "i", "1", "if", "quad", ".", "then", "loop"]
    let env : Env := { stack := [7], words }
    nestingBound words tokens = 15 ∧ ¬Exhausts 15 tokens env ∧
      evaluate 15 tokens env
        = ⟨env, [.text "0 ", .text "1 ", .text "16 ", .text "81 "], .ok none⟩ := by
  intro words tokens env
  have hr : words.Ranked fun t => if t = "quad" then 1 else 0 := by decide
  have hn : words.DefinesNone := by decide
  have ht : ":" ∉ tokens := by decide
  exact ⟨rfl, (evaluate_of_ranked hr hn ht (Nat.le_refl 15) rfl).1, by cbv⟩

end Wordstack
