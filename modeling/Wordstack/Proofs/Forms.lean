import Wordstack.Proofs.Scanning

/-!
# Forms that do not nest

A string ends at the first token with the closing mark at its end, whatever stands before it, and a
definition at the first semicolon after its name, even if the name is a semicolon itself. Either
leaves the tokens after its end, as they are (`Scan.string_eq_ok_iff`,
`Scan.definition_eq_ok_iff`). Without an end nothing is left, but an invalid name takes nothing
except itself (`Scan.string_eq_error_iff`, `Scan.definition_eq_fault_iff`). So what is found is also
found when more tokens follow (`scan_flat_forms`).

A definition has a name to read before its body, and so more outcomes than a string. They are the
cases of `Scan.ReadsDefinition`, from which everything else about definitions follows.
-/

namespace Wordstack

variable {t : Token} {tokens rest : List Token}

/-- The token has the closing mark of a string at its end. -/
def Token.Closing (t : Token) : Prop :=
  ∃ piece : String, t = piece ++ "\""

namespace Scan

/-- What a definition finds and leaves, by what there is. -/
inductive ReadsDefinition : List Token → Scan Definition → Prop
  | missing : ReadsDefinition [] ⟨.error (.fault (.malformed (.missingName .word))), []⟩
  | escaped {n : Token} {rest : List Token} {x : Escape} :
    isValidName n = .error x → ReadsDefinition (n :: rest) ⟨.error (.escape x), rest⟩
  | invalid {n : Token} {rest : List Token} : isValidName n = .ok false →
    ReadsDefinition (n :: rest) ⟨.error (.fault (.malformed (.invalidName .word n))), rest⟩
  | unclosed {n : Token} {rest : List Token} : isValidName n = .ok true → ";" ∉ rest →
    ReadsDefinition (n :: rest) ⟨.error (.fault (.malformed (.openDefinition n))), []⟩
  | closed {d : Definition} {rest : List Token} : isValidName d.name = .ok true →
    ";" ∉ d.body → ReadsDefinition (d.name :: (d.body ++ ";" :: rest)) ⟨.ok d, rest⟩

variable {text : String} {h : Halt} {d : Definition} {e : Error} {x : Escape}

theorem closesString_iff : closesString t = true ↔ t.Closing := by
  rw [closesString, decide_eq_true_eq, List.getLast?_eq_some_iff]
  constructor
  · rintro ⟨cs, hcs⟩
    exact ⟨.ofList cs, by rw [← String.toList_inj, String.toList_append, hcs]; simp⟩
  · rintro ⟨piece, rfl⟩
    exact ⟨piece.toList, String.toList_append⟩

theorem closesString_eq_false_iff : closesString t = false ↔ ¬t.Closing := by
  rw [← closesString_iff, Bool.not_eq_true]

/-! ## Strings -/

/-- A string is found if some token closes one, and the first of them does. -/
theorem string_eq_ok_iff :
    string tokens = ⟨.ok text, rest⟩ ↔
      ∃ pieces last, tokens = pieces ++ (last ++ "\"") :: rest ∧ (∀ p ∈ pieces, ¬p.Closing) ∧
        text = Body.text (pieces ++ [last]) := by
  have hlast (last : String) : String.ofList (last ++ "\"").toList.dropLast = last := by
    simp [String.toList_append]
  constructor
  · intro hs
    rw [string] at hs
    split at hs
    · cases hs
    · next hc =>
      obtain ⟨rfl, hb, ht⟩ := eq_of_cut hc
      obtain ⟨last, rfl⟩ := closesString_iff.1 ht
      cases hs
      exact ⟨_, last, rfl, fun p hp => closesString_eq_false_iff.1 (hb p hp), by rw [hlast]⟩
  · rintro ⟨pieces, last, rfl, hp, rfl⟩
    rw [string_append (fun p hm => closesString_eq_false_iff.2 (hp p hm))
      (closesString_iff.2 ⟨last, rfl⟩), hlast]

theorem string_eq_error_iff :
    string tokens = ⟨.error h, rest⟩ ↔
      (∀ t ∈ tokens, ¬t.Closing) ∧ h = .fault (.malformed .openString) ∧ rest = [] := by
  simp only [← closesString_eq_false_iff, ← cut_eq_none_iff]
  rw [string]
  cases cut closesString tokens with
  | none =>
    simp only [unfinished, mk.injEq, Except.error.injEq, true_and]
    exact and_congr eq_comm eq_comm
  | some c => simp

theorem isOk_string_iff : (string tokens).result.isOk = true ↔ ∃ t ∈ tokens, t.Closing := by
  rcases hs : string tokens with ⟨h | text, rest⟩
  · have hc := (string_eq_error_iff.1 hs).1
    exact iff_of_false nofun fun ⟨t, hm, ht⟩ => hc t hm ht
  · obtain ⟨pieces, last, rfl, -, -⟩ := string_eq_ok_iff.1 hs
    exact iff_of_true rfl ⟨last ++ "\"", by simp, last, rfl⟩

/-! ## Definitions -/

section

variable {n : Token} {body : Body}

theorem definition_of_error (hn : isValidName n = .error x) (rest : List Token) :
    definition (n :: rest) = ⟨.error (.escape x), rest⟩ := by
  simp only [definition, name, hn]

theorem definition_of_invalid (hn : isValidName n = .ok false) (rest : List Token) :
    definition (n :: rest) = ⟨.error (.fault (.malformed (.invalidName .word n))), rest⟩ := by
  simp only [definition, name, hn]

theorem definition_of_open (hn : isValidName n = .ok true) (hs : ";" ∉ rest) :
    definition (n :: rest) = unfinished (.openDefinition n) := by
  have hc : cut (· = ";") rest = none :=
    cut_eq_none_iff.2 fun t ht => decide_eq_false fun h : t = ";" => hs (h ▸ ht)
  simp only [definition, name, hn, hc]

theorem definition_of_semicolon (hn : isValidName n = .ok true) (hb : ";" ∉ body)
    (rest : List Token) : definition (n :: (body ++ ";" :: rest)) = ⟨.ok ⟨n, body⟩, rest⟩ := by
  simp only [definition, name, hn, cut_of_not_mem hb]

end

theorem readsDefinition (tokens : List Token) : ReadsDefinition tokens (definition tokens) := by
  cases tokens with
  | nil => exact .missing
  | cons n after =>
    rcases hn : isValidName n with x | _ | _
    · exact definition_of_error hn after ▸ .escaped hn
    · exact definition_of_invalid hn after ▸ .invalid hn
    · by_cases hs : ";" ∈ after
      · obtain ⟨body, rest, rfl, hb⟩ := List.eq_append_cons_of_mem hs
        exact definition_of_semicolon hn hb rest ▸ .closed (d := ⟨n, body⟩) hn hb
      · exact definition_of_open hn hs ▸ .unclosed hn hs

/-- A definition is found if there is a name with a semicolon after it, and the first of these
    ends the body. -/
theorem definition_eq_ok_iff :
    definition tokens = ⟨.ok d, rest⟩ ↔
      tokens = d.name :: (d.body ++ ";" :: rest) ∧ isValidName d.name = .ok true ∧
        ";" ∉ d.body := by
  refine ⟨fun hd => ?_, fun ⟨ht, hn, hb⟩ => ht ▸ definition_of_semicolon hn hb rest⟩
  have hr := readsDefinition tokens
  rw [hd] at hr
  cases hr with
  | closed hn hb => exact ⟨rfl, hn, hb⟩

theorem definition_eq_fault_iff :
    definition tokens = ⟨.error (.fault e), rest⟩ ↔
      tokens = [] ∧ e = .malformed (.missingName .word) ∧ rest = [] ∨
      ∃ n after, tokens = n :: after ∧
        (isValidName n = .ok false ∧ e = .malformed (.invalidName .word n) ∧ rest = after ∨
          isValidName n = .ok true ∧ ";" ∉ after ∧ e = .malformed (.openDefinition n) ∧
            rest = []) := by
  constructor
  · intro hd
    have hr := readsDefinition tokens
    rw [hd] at hr
    cases hr with
    | missing => exact .inl ⟨rfl, rfl, rfl⟩
    | invalid hn => exact .inr ⟨_, _, rfl, .inl ⟨hn, rfl, rfl⟩⟩
    | unclosed hn hs => exact .inr ⟨_, _, rfl, .inr ⟨hn, hs, rfl, rfl⟩⟩
  · rintro (⟨rfl, rfl, rfl⟩ | ⟨n, after, rfl, ⟨hn, rfl, rfl⟩ | ⟨hn, hs, rfl, rfl⟩⟩)
    · rfl
    · exact definition_of_invalid hn rest
    · exact definition_of_open hn hs

theorem definition_eq_escape_iff :
    definition tokens = ⟨.error (.escape x), rest⟩ ↔
      ∃ n, tokens = n :: rest ∧ isValidName n = .error x := by
  refine ⟨fun hd => ?_, fun ⟨n, ht, hn⟩ => ht ▸ definition_of_error hn rest⟩
  have hr := readsDefinition tokens
  rw [hd] at hr
  cases hr with
  | escaped hn => exact ⟨_, rfl, hn⟩

theorem isOk_definition_iff :
    (definition tokens).result.isOk = true ↔
      ∃ n after, tokens = n :: after ∧ isValidName n = .ok true ∧ ";" ∈ after := by
  constructor
  · intro hd
    have hr := readsDefinition tokens
    generalize definition tokens = s at hd hr
    cases hr with
    | closed hn hb => exact ⟨_, _, rfl, hn, by simp⟩
    | _ => cases hd
  · rintro ⟨n, after, rfl, hn, hs⟩
    obtain ⟨body, rest, rfl, hb⟩ := List.eq_append_cons_of_mem hs
    rw [definition_of_semicolon hn hb]
    rfl

end Scan

/-- A string is found if some token has the closing mark at its end, and a definition if there is a
    name with a semicolon after it: up to the first such token, and whatever follows is left. What
    else there can be are a form without its end, which takes all tokens, and a name that is
    invalid or escapes, which takes itself. What is found is found as well before more tokens. -/
theorem scan_flat_forms (tokens : List Token) :
    ((Scan.string tokens).result.isOk = true ↔ ∃ t ∈ tokens, t.Closing) ∧
    (∀ text rest, Scan.string tokens = ⟨.ok text, rest⟩ ↔
      ∃ pieces last, tokens = pieces ++ (last ++ "\"") :: rest ∧ (∀ p ∈ pieces, ¬p.Closing) ∧
        text = Body.text (pieces ++ [last])) ∧
    (∀ h rest, Scan.string tokens = ⟨.error h, rest⟩ ↔
      (∀ t ∈ tokens, ¬t.Closing) ∧ h = .fault (.malformed .openString) ∧ rest = []) ∧
    ((Scan.definition tokens).result.isOk = true ↔
      ∃ n after, tokens = n :: after ∧ isValidName n = .ok true ∧ ";" ∈ after) ∧
    (∀ d rest, Scan.definition tokens = ⟨.ok d, rest⟩ ↔
      tokens = d.name :: (d.body ++ ";" :: rest) ∧ isValidName d.name = .ok true ∧
        ";" ∉ d.body) ∧
    (∀ e rest, Scan.definition tokens = ⟨.error (.fault e), rest⟩ ↔
      tokens = [] ∧ e = .malformed (.missingName .word) ∧ rest = [] ∨
      ∃ n after, tokens = n :: after ∧
        (isValidName n = .ok false ∧ e = .malformed (.invalidName .word n) ∧ rest = after ∨
          isValidName n = .ok true ∧ ";" ∉ after ∧ e = .malformed (.openDefinition n) ∧
            rest = [])) ∧
    (∀ x rest, Scan.definition tokens = ⟨.error (.escape x), rest⟩ ↔
      ∃ n, tokens = n :: rest ∧ isValidName n = .error x) ∧
    (∀ text rest, Scan.string tokens = ⟨.ok text, rest⟩ →
      ∀ more, Scan.string (tokens ++ more) = ⟨.ok text, rest ++ more⟩) ∧
    ∀ d rest, Scan.definition tokens = ⟨.ok d, rest⟩ →
      ∀ more, Scan.definition (tokens ++ more) = ⟨.ok d, rest ++ more⟩ :=
  ⟨Scan.isOk_string_iff, fun _ _ => Scan.string_eq_ok_iff, fun _ _ => Scan.string_eq_error_iff,
    Scan.isOk_definition_iff, fun _ _ => Scan.definition_eq_ok_iff,
    fun _ _ => Scan.definition_eq_fault_iff, fun _ _ => Scan.definition_eq_escape_iff,
    fun _ _ h more => Scan.string_local.ok_append h more,
    fun _ _ h more => Scan.definition_local.ok_append h more⟩

/-- A string with a lone mark at its end, before a word; and a semicolon that is defined, with an
    opener of definitions in its body. -/
theorem scan_flat_forms_marks :
    Scan.string (["if", "\"", "dup"] ++ ["\""]) = ⟨.ok "if ", ["dup", "\""]⟩ ∧
      Scan.definition ([";", ":", "1", ";"] ++ [";"]) = ⟨.ok ⟨";", [":", "1"]⟩, [";"]⟩ := by
  obtain ⟨-, hs, -, -, -, -, -, hsmore, -⟩ := scan_flat_forms ["if", "\"", "dup"]
  obtain ⟨-, -, -, -, hd, -, -, -, hdmore⟩ := scan_flat_forms [";", ":", "1", ";"]
  have hopen : ¬Token.Closing "if" := by
    rw [← Scan.closesString_eq_false_iff]
    decide +kernel
  refine ⟨hsmore _ _ ((hs _ _).2 ⟨["if"], "", rfl, ?_, by decide +kernel⟩) _,
    hdmore _ _ ((hd ⟨";", [":", "1"]⟩ _).2 ⟨rfl, rfl, by decide⟩) _⟩
  simpa using hopen

end Wordstack
