import Wordstack.Token

/-!
# Texts and their tokens

A space in a text divides its tokens into those before it and those after it
(`tokenize_append_space`), and blanks of any kind at its ends make no difference
(`tokenize_append_blanks`, `tokenize_blanks_append`). So the tokens of texts that are joined by
spaces are those of the texts (`tokenize_intercalate`).

What can be a token of a text is *proper*: it is not empty, holds no space, and neither begins nor
ends with a blank (`proper_of_mem_tokenize`). A proper token is its own text, and the bodies of
proper tokens are those that can be read back from their texts (`tokenize_text_eq_iff`).
-/

namespace Wordstack

open Text

/-- The token can be one of a text. -/
structure Token.Proper (t : Token) : Prop where
  ne_empty : t ≠ ""
  noSpace : ' ' ∉ t.toList
  first : ∀ c ∈ t.toList.head?, isBlank c = false
  last : ∀ c ∈ t.toList.getLast?, isBlank c = false

/-! ## Texts side by side -/

/-- A space divides a text. -/
theorem tokenize_append_space (a b : String) :
    tokenize (a ++ " " ++ b) = tokenize a ++ tokenize b := by
  have h : (a ++ " " ++ b).toList = a.toList ++ ' ' :: b.toList := by
    simp only [String.toList_append, List.append_assoc]
    rfl
  simp only [tokenize, h, pieces_append_cons, List.map_append, List.filter_append]

/-- The tokens of texts with spaces between them are those of the texts. -/
theorem tokenize_intercalate (texts : List String) :
    tokenize (String.intercalate " " texts) = texts.flatMap tokenize := by
  induction texts with
  | nil => rfl
  | cons a texts ih =>
    cases texts with
    | nil => simp
    | cons b texts =>
      rw [String.intercalate_cons_cons, tokenize_append_space, ih]
      rfl

theorem tokenize_append_blank {c : Char} (h : isBlank c = true) (text : String) :
    tokenize (text ++ .singleton c) = tokenize text := by
  simp only [tokenize, String.toList_append, String.toList_singleton]
  by_cases hc : c = ' '
  -- Behind a space there is one more piece, and it is empty.
  · rw [hc, pieces_append_cons]
    simp
  · obtain ⟨ps, p, hp, hpc⟩ := pieces_append_singleton hc text.toList
    simp [hp, hpc, trim_append_of_isBlank h]

/-- It makes no difference what blanks there are at the end of a text. -/
theorem tokenize_append_blanks {blanks : String} (h : isBlankText blanks = true)
    (text : String) : tokenize (text ++ blanks) = tokenize text := by
  rw [isBlankText, List.all_eq_true] at h
  rw [← @String.ofList_toList blanks]
  generalize blanks.toList = cs at h
  induction cs generalizing text with
  | nil => simp
  | cons c cs ih =>
    have hc : text ++ String.ofList (c :: cs) = text ++ .singleton c ++ String.ofList cs := by
      simp [← String.toList_inj]
    rw [hc, ih (text ++ .singleton c) fun d hd => h d (List.mem_cons_of_mem c hd),
      tokenize_append_blank (h c List.mem_cons_self)]

theorem tokenize_cons_of_isBlank {c : Char} (h : isBlank c = true) (cs : List Char) :
    tokenize (.ofList (c :: cs)) = tokenize (.ofList cs) := by
  simp only [tokenize, String.toList_ofList]
  by_cases hc : c = ' '
  -- Before a space there is one more piece, and it is empty.
  · rw [hc, pieces_sep_cons]
    simp
  · rw [pieces_cons_of_ne hc]
    cases hp : pieces ' ' cs with
    | nil => exact absurd hp (pieces_ne_nil cs)
    | cons p ps => rw [consPiece, List.map_cons, List.map_cons, trim_cons_of_isBlank h]

/-- It makes no difference what blanks there are in front of a text. -/
theorem tokenize_blanks_append {blanks : String} (h : isBlankText blanks = true)
    (text : String) : tokenize (blanks ++ text) = tokenize text := by
  rw [isBlankText, List.all_eq_true] at h
  rw [← @String.ofList_toList (blanks ++ text), String.toList_append]
  generalize blanks.toList = cs at h
  induction cs with
  | nil => rw [List.nil_append, String.ofList_toList]
  | cons c cs ih =>
    rw [List.cons_append, tokenize_cons_of_isBlank (h c List.mem_cons_self),
      ih fun d hd => h d (List.mem_cons_of_mem c hd)]

theorem tokenize_of_isBlankText {text : String} (h : isBlankText text = true) :
    tokenize text = [] := by
  simpa using tokenize_append_blanks h ""

/-! ## Proper tokens -/

theorem proper_of_mem_tokenize {text : String} {t : Token} (h : t ∈ tokenize text) :
    t.Proper := by
  have hne := ne_empty_of_mem_tokenize h
  simp only [tokenize, List.mem_map, List.mem_filter] at h
  obtain ⟨cs, ⟨⟨p, hp, rfl⟩, -⟩, rfl⟩ := h
  -- A token is what a trim leaves of a piece, and there are no spaces in pieces.
  have hs : ' ' ∉ trim p := fun hs => not_mem_of_mem_pieces hp (trim_subset p hs)
  have he := isBlank_ends_trim p
  exact ⟨hne, by rwa [String.toList_ofList], by rw [String.toList_ofList]; exact he.1,
    by rw [String.toList_ofList]; exact he.2⟩

/-- A proper token is not read as anything else. -/
theorem Token.Proper.tokenize_eq {t : Token} (h : t.Proper) : tokenize t = [t] := by
  have hne : t.toList ≠ [] := fun he => h.ne_empty (String.toList_inj.1 he)
  simp [tokenize, pieces_of_not_mem h.noSpace, trim_of_ends h.first h.last, hne]

/-- A body of proper tokens is what is read of its text. -/
theorem tokenize_text {body : Body} (h : ∀ t ∈ body, t.Proper) :
    tokenize (Body.text body) = body := by
  rw [Body.text, tokenize_intercalate]
  induction body with
  | nil => rfl
  | cons t body ih =>
    rw [List.flatMap_cons, (h t List.mem_cons_self).tokenize_eq,
      ih fun u hu => h u (List.mem_cons_of_mem t hu)]
    rfl

/-- The bodies that can be read back from their texts are those of proper tokens. -/
theorem tokenize_text_eq_iff {body : Body} :
    tokenize (Body.text body) = body ↔ ∀ t ∈ body, t.Proper := by
  refine ⟨fun h t ht => ?_, tokenize_text⟩
  rw [← h] at ht
  exact proper_of_mem_tokenize ht

/-- A space divides a text, blanks at the ends of a text make no difference, and all tokens of a
    text are proper. Proper tokens, and no others, are those of their text, so the tokens of any
    text are found again when they are joined. -/
theorem tokenize_laws :
    (∀ a b, tokenize (a ++ " " ++ b) = tokenize a ++ tokenize b) ∧
    (∀ before a after, isBlankText before = true → isBlankText after = true →
      tokenize (before ++ a ++ after) = tokenize a) ∧
    (∀ a, ∀ t ∈ tokenize a, t.Proper) ∧
    (∀ body, tokenize (Body.text body) = body ↔ ∀ t ∈ body, t.Proper) ∧
    ∀ a, tokenize (Body.text (tokenize a)) = tokenize a := by
  refine ⟨tokenize_append_space, fun before a after hb ha => ?_,
    fun a t ht => proper_of_mem_tokenize ht, fun body => tokenize_text_eq_iff,
    fun a => tokenize_text fun t ht => proper_of_mem_tokenize ht⟩
  rw [tokenize_append_blanks ha, tokenize_blanks_append hb]

/-- Blanks of several kinds, outside and inside of tokens. -/
theorem tokenize_laws_tab :
    isBlankText "\t " = true ∧ isBlankText "\n" = true ∧
      tokenize ("\t " ++ "1\t2 +" ++ "\n") = ["1\t2", "+"] ∧
      tokenize (Body.text ["1\t2", "+"]) = ["1\t2", "+"] := by
  obtain ⟨-, hblanks, -, -, hagain⟩ := tokenize_laws
  have ht : tokenize "1\t2 +" = ["1\t2", "+"] := by decide +kernel
  have hb : isBlankText "\t " = true := by decide +kernel
  have ha : isBlankText "\n" = true := by decide +kernel
  exact ⟨hb, ha, (hblanks _ _ _ hb ha).trans ht, ht ▸ hagain "1\t2 +"⟩

end Wordstack
