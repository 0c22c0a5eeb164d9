import Wordstack.Event
import Wordstack.Proofs.Grammar
import Wordstack.Proofs.Quoting

/-!
# What listings tell

The listing of the words and that of the variables lose nothing: the table can be told from the
text, with the order of its entries (`listings_injective`). Names may hold whatever they like, also
what looks like the end of an entry or the beginning of another one, as they are quoted. An entry
tells where it ends: the text of a body is quoted as well, and what a variable holds is shown with a
parenthesis at the end that is not found in numbers (`Variable.selfDelimiting_describe`).

What is quoted of a body are its tokens with spaces between them, so a token must not be empty nor
hold a space to be found again (`Body.Separable`).
-/

namespace Wordstack

open Text

/-- The tokens can be told apart when they are joined by spaces. -/
def Body.Separable (body : Body) : Prop :=
  ∀ t ∈ body, t ≠ "" ∧ ' ' ∉ t.toList

instance (body : Body) : Decidable body.Separable :=
  inferInstanceAs (Decidable (∀ t ∈ body, _))

/-! ## Joined texts -/

section

variable {c : Char} {sep : String} {texts texts' : List String}

/-- Where no text is empty, the texts are found again also if there are none. -/
theorem Text.filter_splitAt_intercalate (hsep : sep.toList.head? = some c)
    (h : ∀ text ∈ texts, text ≠ "" ∧ c ∉ text.toList) :
    (splitAt sep (String.intercalate sep texts)).filter (· ≠ "") = texts := by
  cases texts with
  | nil => rfl
  | cons text texts =>
    rw [splitAt_intercalate hsep (List.cons_ne_nil _ _) fun s hs => (h s hs).2,
      List.filter_eq_self]
    exact fun s hs => decide_eq_true (h s hs).1

theorem Text.eq_of_intercalate_eq (hsep : sep.toList.head? = some c)
    (h : ∀ text ∈ texts, text ≠ "" ∧ c ∉ text.toList)
    (h' : ∀ text ∈ texts', text ≠ "" ∧ c ∉ text.toList)
    (he : String.intercalate sep texts = String.intercalate sep texts') : texts = texts' := by
  rw [← filter_splitAt_intercalate hsep h, he, filter_splitAt_intercalate hsep h']

end

/-- The tokens of a body, when its text is known. -/
def Body.ofText (text : String) : Body :=
  (splitAt " " text).filter (· ≠ "")

theorem Body.ofText_text {body : Body} (h : body.Separable) : ofText body.text = body :=
  filter_splitAt_intercalate rfl h

/-! ## Variables -/

namespace Cell

/-- A row is cut at the commas, as integers have none. -/
theorem row_injective : Function.Injective row := by
  have htext (vs : List Int) : ∀ text ∈ vs.map toString, text ≠ "" ∧ ',' ∉ text.toList := by
    simpa using fun v _ =>
      ⟨Numeral.toString_ne_empty v, Numeral.not_mem_toString (by decide) (by decide) v⟩
  intro vs ws h
  have hinner : String.intercalate ", " (vs.map toString)
      = String.intercalate ", " (ws.map toString) := by
    simpa [row] using h
  exact List.map_injective_iff.2 (fun _ _ => Int.repr_injective)
    (Text.eq_of_intercalate_eq rfl (htext vs) (htext ws) hinner)

theorem not_mem_row (vs : List Int) : ')' ∉ (row vs).toList := by
  have hinner : ')' ∉ [',', ' '].intercalate (vs.map fun v => (toString v).toList) :=
    not_mem_intercalate (by decide) (by
      simpa using fun v _ => Numeral.not_mem_toString (by decide) (by decide) v)
  simpa [row, String.toList_intercalate, Function.comp_def] using hinner

end Cell

namespace Variable

theorem describe_injective : Function.Injective describe := by
  intro x y h
  cases x <;> cases y
  case scalar.scalar v w =>
    have hvw : v = w := by simpa [describe] using h
    rw [hvw]
  case array.array vs ws =>
    have hrow : Cell.row vs = Cell.row ws := by simpa [describe] using h
    rw [Cell.row_injective hrow]
  all_goals exact absurd (congrArg (·.toList.head?) h) (by simp [describe])

/-- What a variable holds is shown up to a parenthesis, and there is none before. -/
theorem exists_toList_describe (x : Variable) :
    ∃ p, x.describe.toList = p ++ [')'] ∧ ')' ∉ p := by
  cases x with
  | scalar v =>
    refine ⟨"Var(".toList ++ (toString v).toList, by simp [describe], ?_⟩
    rw [List.mem_append, not_or]
    exact ⟨by decide, Numeral.not_mem_toString (by decide) (by decide) v⟩
  | array vs =>
    refine ⟨"Array(".toList ++ (Cell.row vs).toList, by simp [describe], ?_⟩
    rw [List.mem_append, not_or]
    exact ⟨by decide, Cell.not_mem_row vs⟩

theorem selfDelimiting_describe : SelfDelimiting fun x : Variable => x.describe.toList :=
  selfDelimiting_of_end (fun _ _ h => describe_injective (String.toList_inj.1 h))
    exists_toList_describe

end Variable

/-! ## Listings -/

namespace Event

variable {α : Type} {text : α → String}

/-- How an entry is shown, if this is how its value is shown. -/
def entryChars (text : α → String) (e : String × α) : List Char :=
  quoteChars e.1.toList ++ ([':', ' '] ++ (text e.2).toList)

theorem toList_listing (text : α → String) (es : List (String × α)) :
    (listing (es.map fun e => (e.1, text e.2))).toList
      = '\x7b' :: ([',', ' '].intercalate (es.map (entryChars text)) ++ ['\x7d']) := by
  simp only [listing, String.toList_append, String.toList_intercalate, List.map_map,
    Function.comp_def, toList_quote, List.append_assoc]
  rfl

theorem selfDelimiting_entryChars (ht : SelfDelimiting fun a => (text a).toList) :
    SelfDelimiting (entryChars text) := by
  have hname := selfDelimiting_quoteChars.comp (k := String.toList) fun _ _ => String.toList_inj.1
  exact hname.prod (ht.append_left [':', ' '])

/-- An entry begins with the mark before its name. -/
theorem beginsWithout_entryChars (text : α → String) : BeginsWithout '\x7d' (entryChars text) :=
  fun e => by
    refine ⟨delimiter e.1.toList, _, rfl, ?_⟩
    rcases delimiter_cases e.1.toList with h | h <;> rw [h] <;> decide

theorem listing_inj (ht : SelfDelimiting fun a => (text a).toList) {es es' : List (String × α)}
    (h : listing (es.map fun e => (e.1, text e.2)) = listing (es'.map fun e => (e.1, text e.2))) :
    es = es' := by
  have hlist := congrArg String.toList h
  rw [toList_listing, toList_listing] at hlist
  exact ((selfDelimiting_entryChars ht).intercalate_end (beginsWithout_entryChars text)
    (by decide) [' ']).injective (List.cons.inj hlist).2

theorem variableListing_injective : Function.Injective variableListing := fun _ _ h =>
  Table.ext (listing_inj Variable.selfDelimiting_describe h)

theorem wordListing_inj {words words' : Table Body} (h : ∀ e ∈ words.entries, e.2.Separable)
    (h' : ∀ e ∈ words'.entries, e.2.Separable) (he : wordListing words = wordListing words') :
    words = words' := by
  have htexts : words.entries.map (fun e => (e.1, e.2.text))
      = words'.entries.map fun e => (e.1, e.2.text) :=
    listing_inj selfDelimiting_quote (by simpa [wordListing, Function.comp_def] using he)
  have hentries {ws : Table Body} (hw : ∀ e ∈ ws.entries, e.2.Separable) :
      (ws.entries.map fun e => (e.1, e.2.text)).map (fun e => (e.1, Body.ofText e.2))
        = ws.entries := by
    have hid : ∀ e ∈ ws.entries, (e.1, Body.ofText e.2.text) = id e := fun e he =>
      Prod.ext rfl (Body.ofText_text (hw e he))
    rw [List.map_map]
    exact (List.map_congr_left hid).trans (List.map_id _)
  exact Table.ext (by rw [← hentries h, htexts, hentries h'])

end Event

/-- Words whose tokens are not empty and hold no space are the same if their listings are, and
    listed in the same order. So are variables, whatever they hold. -/
theorem listings_injective :
    (∀ words words' : Table Body, (∀ e ∈ words.entries, e.2.Separable) →
      (∀ e ∈ words'.entries, e.2.Separable) →
      Event.wordListing words = Event.wordListing words' → words = words') ∧
    ∀ contents contents' : Table Variable,
      Event.variableListing contents = Event.variableListing contents' → contents = contents' :=
  ⟨fun _ _ => Event.wordListing_inj, fun _ _ h => Event.variableListing_injective h⟩

/-- A word that was given another body has kept its place. A name that looks like an entry and the
    name of the next one is not taken for them, and the order of two variables shows. -/
theorem listings_injective_entries :
    Table.ofList [("a", ["1"]), ("b'", ["'", "\\"]), ("a", ["2", "+"])]
        = Table.ofList [("a", ["2", "+"]), ("b'", ["'", "\\"])] ∧
      Event.wordListing (Table.ofList [("a': 'b', 'c", ["d"])])
        ≠ Event.wordListing (Table.ofList [("a", ["b"]), ("c", ["d"])]) ∧
      Event.variableListing (Table.ofList [("x", .scalar 0), ("y", .array [0])])
        ≠ Event.variableListing (Table.ofList [("y", .array [0]), ("x", .scalar 0)]) := by
  obtain ⟨hwords, hvariables⟩ := listings_injective
  refine ⟨hwords _ _ (by decide) (by decide) (by decide +kernel), fun h => ?_, fun h => ?_⟩
  · exact absurd (hwords _ _ (by decide) (by decide) h) (by decide)
  · exact absurd (hvariables _ _ h) (by decide)

end Wordstack
