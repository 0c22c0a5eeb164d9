import Mathlib
import Wordstack.Proofs.Sequencing
import Wordstack.Proofs.Tokens
import Wordstack.Session

/-!
# Strings

A string is written between `." ` and a quotation mark. By the time it is read its text is in
pieces, which may look like words, numerals or keywords, and the last of them has the mark at its
end, or is nothing else. What is shown is the text of the string *condensed* (`Text.condensed`):
its stretches without spaces, with single spaces between them.

Two things could go wrong: a stretch could be taken for the end of the string, or a space at its
end could be lost. The first is excluded because there is no other quotation mark
(`closesString_of_mem_pieces`). As for the second, the last piece is empty exactly if the text ends
with a space, or is empty itself (`Text.eq_nil_iff_of_pieces`), and an empty last piece is not lost
but joined to the others (`Text.text_stretches`).
-/

namespace Wordstack

open Wordstack.Action

namespace Text

variable {cs p : List Char} {ps : List (List Char)} {sep : Char} {text : String}

/-! ## Stretches of a text -/

/-- The pieces are those into which the library splits a list. -/
theorem pieces_eq_splitOn (sep : Char) (cs : List Char) : pieces sep cs = cs.splitOn sep := by
  induction cs with
  | nil => rfl
  | cons c cs ih =>
    rw [List.splitOn_cons_eq_if_modifyHead, ← ih]
    by_cases hc : c = sep
    · rw [hc, pieces_sep_cons, if_pos (beq_self_eq_true sep)]
    · rw [pieces_cons_of_ne hc, if_neg (by simpa using hc)]
      cases hp : pieces sep cs with
      | nil => exact absurd hp (pieces_ne_nil cs)
      | cons p ps => rfl

/-- The text with single spaces only: one between the stretches without spaces, none before the
    first of them, and one after the last if the text ends with a space. -/
def condensed (text : String) : String :=
  let stretches := (text.toList.splitOn ' ').filter (· ≠ [])
  String.intercalate " " (stretches.map String.ofList)
    ++ if text.toList.getLast? = some ' ' ∧ stretches ≠ [] then " " else ""

/-- Where spaces are the only blanks, there are none in the pieces. -/
theorem isBlank_of_mem_pieces (hb : ∀ c ∈ cs, isBlank c = true → c = ' ')
    (hp : p ∈ pieces ' ' cs) : ∀ c ∈ p, isBlank c = false := fun c hc => by
  by_contra h
  have hs := hb c (subset_of_mem_pieces hp hc) (by simpa using h)
  exact not_mem_of_mem_pieces hp (hs ▸ hc)

/-- The last piece is empty if the text is, or if it ends with a separator. -/
theorem eq_nil_iff_of_pieces (h : pieces sep cs = ps ++ [p]) :
    p = [] ↔ cs = [] ∨ cs.getLast? = some sep := by
  have hlast {q : List Char} (qs : List (List Char)) (hq : pieces sep cs = qs ++ [q]) : p = q := by
    have he := congrArg List.getLast? (h.symm.trans hq)
    rw [List.getLast?_concat, List.getLast?_concat] at he
    exact Option.some.inj he
  rcases cs.eq_nil_or_concat' with rfl | ⟨init, c, rfl⟩
  · exact iff_of_true (hlast [] rfl) (.inl rfl)
  · by_cases hc : c = sep
    · subst hc
      exact iff_of_true (hlast _ (pieces_append_cons init [])) (.inr List.getLast?_concat)
    · obtain ⟨qs, q, -, hq⟩ := pieces_append_singleton hc init
      rw [hlast qs hq, List.getLast?_concat]
      simp [hc]

/-- What a string puts together of the pieces of a text: its stretches up to the last space, and
    what follows that, which may be nothing. -/
theorem text_stretches (h : pieces ' ' text.toList = ps ++ [p]) :
    Body.text ((ps.filter (· ≠ [])).map String.ofList ++ [String.ofList p]) = condensed text := by
  have hp := eq_nil_iff_of_pieces h
  rw [condensed, ← pieces_eq_splitOn, h, Body.text]
  by_cases hn : p = []
  · subst hn
    have hf : (ps ++ [[]]).filter (· ≠ []) = ps.filter (· ≠ []) := by simp
    simp only [hf]
    by_cases hs : ps.filter (· ≠ []) = []
    · rw [hs]
      simp
    -- With a stretch before it, the last piece can only be empty because of a space.
    · have hl : text.toList.getLast? = some ' ' := (hp.1 rfl).resolve_left fun ht => by
        rw [ht, pieces_nil, List.self_eq_append_left] at h
        exact hs (by rw [h]; rfl)
      rw [if_pos ⟨hl, hs⟩, String.intercalate_append_of_ne_nil (by simpa using hs) (by simp)]
      simp
  · have hl : text.toList.getLast? ≠ some ' ' := fun hl => hn (hp.2 (.inr hl))
    simp [hl, hn]

end Text

open Text

variable {text : String}

/-! ## The tokens of a string -/

/-- Without a quotation mark in the text, none of its pieces closes a string. -/
theorem closesString_of_mem_pieces {p : List Char} (hq : '"' ∉ text.toList)
    (hp : p ∈ pieces ' ' text.toList) : Scan.closesString (String.ofList p) = false := by
  rw [Scan.closesString, String.toList_ofList, decide_eq_false_iff_not]
  exact fun hl => hq (subset_of_mem_pieces hp (List.mem_of_getLast? hl))

/-- The tokens of a text with the closing mark of a string: the stretches up to the last space, and
    what follows that, with the mark. -/
theorem tokenize_closed (hb : ∀ c ∈ text.toList, isBlank c = true → c = ' ') :
    ∃ ps p, pieces ' ' text.toList = ps ++ [p] ∧
      tokenize (text ++ "\"")
        = (ps.filter (· ≠ [])).map String.ofList ++ [String.ofList (p ++ ['"'])] := by
  have hspace : '"' ≠ ' ' := by decide
  obtain ⟨ps, p, hp, hpc⟩ := pieces_append_singleton hspace text.toList
  refine ⟨ps, p, hp, ?_⟩
  have hn {q : List Char} (hq : q ∈ ps ++ [p]) := isBlank_of_mem_pieces hb (hp ▸ hq)
  have hps : ps.map trim = ps :=
    (List.map_congr_left fun q hq => trim_of_forall (hn (List.mem_append_left _ hq))).trans
      (List.map_id ps)
  have hlast : trim (p ++ ['"']) = p ++ ['"'] := trim_of_forall fun c hc => by
    rcases List.mem_append.1 hc with hc | hc
    · exact hn (List.mem_append_right _ List.mem_cons_self) c hc
    · rw [List.mem_singleton.1 hc]
      decide
  have htext : (text ++ "\"").toList = text.toList ++ ['"'] := String.toList_append
  simp only [tokenize, htext, hpc, List.map_append, List.filter_append, hps, List.map_cons,
    List.map_nil, hlast]
  simp

/-- The tokens of a string with a text after it. -/
theorem tokenize_string (text rest : String) :
    tokenize (".\" " ++ text ++ "\" " ++ rest)
      = ".\"" :: (tokenize (text ++ "\"") ++ tokenize rest) := by
  have hjoin : ".\" " ++ text ++ "\" " ++ rest
      = ".\"" ++ " " ++ (text ++ "\"" ++ " " ++ rest) := by
    simp [← String.toList_inj]
  have hopen : tokenize ".\"" = [".\""] := by decide +kernel
  rw [hjoin, tokenize_append_space, tokenize_append_space, hopen]
  rfl

/-! ## What a string shows -/

/-- A string shows its text condensed, and the program goes on behind it as if there had been no
    string. -/
theorem evaluate_string (hq : '"' ∉ text.toList)
    (hb : ∀ c ∈ text.toList, isBlank c = true → c = ' ') (rest : String) (depth : Nat)
    (env : Env) :
    evaluate (depth + 1) (tokenize (".\" " ++ text ++ "\" " ++ rest)) env
      = (evaluate (depth + 1) (tokenize rest) env).after [.text (condensed text)] := by
  obtain ⟨ps, p, hp, ht⟩ := tokenize_closed hb
  have hopen : ∀ q ∈ (ps.filter (· ≠ [])).map String.ofList, Scan.closesString q = false := by
    intro q hqm
    obtain ⟨cs, hcs, rfl⟩ := List.mem_map.1 hqm
    exact closesString_of_mem_pieces hq (hp ▸ List.mem_append_left _ (List.mem_of_mem_filter hcs))
  have hclose : Scan.closesString (String.ofList (p ++ ['"'])) = true := by
    simp [Scan.closesString]
  have hrun : Evaluator.run (evaluate depth) (tokenize (".\" " ++ text ++ "\" " ++ rest)) env
      = (Evaluator.run (evaluate depth) (tokenize rest) env).after [.text (condensed text)] := by
    rw [tokenize_string, ht, List.append_assoc, List.singleton_append,
      Evaluator.run_cons (by decide), Command.read, Scan.string_append hopen hclose,
      String.toList_ofList, List.dropLast_concat, text_stretches hp]
    rfl
  exact reporting_after hrun

/-- A text that begins with a string, without further quotation marks in it nor blanks other than
    spaces, shows the text of the string condensed. All else is as for what follows the string: the
    environment, what is shown then, and the end; in an evaluation by itself and in a session. -/
theorem execute_string (hq : '"' ∉ text.toList)
    (hb : ∀ c ∈ text.toList, isBlank c = true → c = ' ') (rest : String) :
    (∀ depth env, evaluate (depth + 1) (tokenize (".\" " ++ text ++ "\" " ++ rest)) env
      = (evaluate (depth + 1) (tokenize rest) env).after [.text (condensed text)]) ∧
    ∀ s, Session.execute (".\" " ++ text ++ "\" " ++ rest) s
      = (Session.execute rest s).after [.text (condensed text)] := by
  refine ⟨evaluate_string hq hb rest, fun s => ?_⟩
  have he := evaluate_string hq hb rest (nestingLimit - 1) s.env
  rcases hr : evaluateTokens (tokenize rest) s.env with ⟨env, shown, x | error⟩
  · rw [Session.execute_of_escape hr]
    exact Session.execute_of_escape (he.trans (congrArg (Outcome.after _) hr))
  · rw [Session.execute_of_ok hr,
      Session.execute_of_ok (he.trans (congrArg (Outcome.after _) hr))]
    rfl

/-- Keywords and a numeral in a string, with spaces around them, before a sum. -/
theorem execute_string_keywords :
    Session.execute (".\" " ++ " if  7 ; " ++ "\" " ++ "2 3 + .") {}
      = ⟨{}, [.text "if 7 ; ", .text "5 ", .stack "=> " []], .ok ()⟩ := by
  have hq : '"' ∉ " if  7 ; ".toList := by simp
  have hb : ∀ c ∈ " if  7 ; ".toList, isBlank c = true → c = ' ' := by simp [isBlank]
  have hc : condensed " if  7 ; " = "if 7 ; " := by decide +kernel
  rw [(execute_string hq hb "2 3 + .").2, hc]
  cbv

end Wordstack
