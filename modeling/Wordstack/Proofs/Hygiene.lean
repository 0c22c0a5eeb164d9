import Mathlib
import Wordstack.Proofs.Escapes
import Wordstack.Proofs.Forms
import Wordstack.Proofs.Reachability
import Wordstack.Proofs.Tokens

/-!
# Names and bodies

Whatever a program text puts into the tables of an environment has been a token of some text. So
the names are proper tokens, and none of them denotes a number, since they are looked at before
they are introduced (`Command.Of.introduces`). The bodies of words are proper tokens as well, and
as a body ends at the first semicolon, it holds none. An environment of which all this is true is
*tidy* (`Env.Tidy`), and that is an invariant of program texts (`Env.invariant_tidy`).

In a tidy environment a word can be written down and read back: the text of its definition is read
as this definition (`sequence_definition_text`), and to execute it changes nothing
(`tidy_of_reachable`).
-/

namespace Wordstack

open Wordstack.Action Env

/-! ## Names -/

/-- The token can be introduced as a name: no number is meant by it. -/
structure Token.Nameable (t : Token) : Prop where
  proper : t.Proper
  noNumber : parseNumber t = .ok none

theorem isValidName_eq_ok_true_iff {t : Token} :
    isValidName t = .ok true ↔ parseNumber t = .ok none := by
  rw [isValidName]
  rcases parseNumber t with x | _ | v <;> simp [Except.map]

namespace Scan

variable {tokens : List Token}

theorem parseNumber_of_name_eq_ok {kind : NameKind} {n : Token}
    (h : (name kind tokens).result = .ok n) : parseNumber n = .ok none := by
  cases tokens with
  | nil => cases h
  | cons t rest =>
    rw [name] at h
    split at h
    · next hn =>
      cases h
      exact isValidName_eq_ok_true_iff.1 hn
    · cases h
    · cases h

/-- The name of a definition denotes no number, and its body ends before the first semicolon. -/
theorem name_and_body_of_definition {d : Definition} (h : (definition tokens).result = .ok d) :
    parseNumber d.name = .ok none ∧ ";" ∉ d.body := by
  obtain ⟨-, hn, hb⟩ := definition_eq_ok_iff.1 (eq_of_result h)
  exact ⟨isValidName_eq_ok_true_iff.1 hn, hb⟩

end Scan

/-- The name that a command introduces. -/
def Command.introduces? : Command → Option Token
  | .define (.ok d) => some d.name
  | .declare (.ok n) | .nameConstant (.ok n) => some n
  | _ => none

variable {T : Token → Prop} {c : Command} {n : Token}

theorem Command.introduces?_subset (h : c.introduces? = some n) : n ∈ c.tokens := by
  unfold introduces? at h
  split at h <;> cases h
  · exact List.mem_cons_self
  · exact List.mem_singleton.2 rfl
  · exact List.mem_singleton.2 rfl

/-- What a program introduces as a name denotes no number. -/
theorem Command.parseNumber_of_introduces? {tokens : List Token} (hc : c ∈ sequence tokens)
    (h : c.introduces? = some n) : parseNumber n = .ok none := by
  obtain ⟨t, ts, -, rfl⟩ := exists_read_of_mem hc
  unfold read at h
  split at h
  · rcases hd : (Scan.definition ts).result with e | d <;> rw [hd] at h <;> cases h
    exact (Scan.name_and_body_of_definition hd).1
  case h_5 | h_6 =>
    rcases hn : (Scan.name _ ts).result with e | n' <;> rw [hn] at h <;> cases h
    exact Scan.parseNumber_of_name_eq_ok hn
  all_goals cases h

/-- A name that is introduced is a token of the program, and it denotes no number. -/
theorem Command.Of.introduces (hc : c.Of T) (h : c.introduces? = some n) :
    T n ∧ parseNumber n = .ok none := by
  refine ⟨hc.forall_tokens n (introduces?_subset h), ?_⟩
  obtain ⟨tokens, -, hm⟩ := hc
  exact parseNumber_of_introduces? hm h

/-- The body of a definition holds no semicolon. -/
theorem Command.Of.semicolon_not_mem {d : Definition} (hc : (Command.define (.ok d)).Of T) :
    ";" ∉ d.body := by
  obtain ⟨tokens, -, hm⟩ := hc
  obtain ⟨t, ts, -, hr⟩ := exists_read_of_mem hm
  unfold read at hr
  split at hr
  · exact (Scan.name_and_body_of_definition (Command.define.inj hr).symm).2
  all_goals cases hr

/-! ## Tidy environments -/

/-- All names are fit to be names, and all bodies can be read back from their texts. -/
structure Env.Tidy (env : Env) : Prop where
  words : ∀ n ∈ env.words.keys, Token.Nameable n
  constants : ∀ n ∈ env.constants.keys, Token.Nameable n
  storage : ∀ n ∈ env.storage.keys, Token.Nameable n
  references : ∀ r ∈ env.references, r.name.Proper
  bodies {word : Token} {body : Body} :
    env.words.get? word = some body → ∀ t ∈ body, t.Proper
  semicolon {word : Token} {body : Body} : env.words.get? word = some body → ";" ∉ body

theorem Table.forall_mem_keys_insert {α : Type} {P : String → Prop} {t : Table α} {k : String}
    (hk : P k) (ht : ∀ k ∈ t.keys, P k) (v : α) : ∀ k' ∈ (t.insert k v).keys, P k' := by
  rw [keys_insert]
  split
  · exact ht
  · exact fun k' hk' => (List.mem_append.1 hk').elim (ht k') fun h => List.mem_singleton.1 h ▸ hk

namespace Env

variable {env : Env}

theorem tidy_empty : Tidy {} where
  words := nofun
  constants := nofun
  storage := nofun
  references := nofun
  bodies := nofun
  semicolon := nofun

theorem mem_keys_of_reference? {name : Token} {r : Reference}
    (h : env.reference? name = some r) : name ∈ env.storage.keys ∧ r.name = name := by
  obtain ⟨v, hv, rfl⟩ := Option.map_eq_some_iff.1 h
  refine ⟨(Table.get?_isSome_iff _ _).1 (Option.isSome_iff_exists.2 ⟨v, hv⟩), ?_⟩
  split <;> rfl

theorem closed_tidy : Closed (Command.Of Token.Proper) Tidy := by
  intro env env' hc h
  -- A variable that is written is there already, and others keep their names.
  have written {name : Token} {x : Variable} (hx : env.storage.get? name = some x)
      (v : Variable) : ∀ n ∈ (env.storage.insert name v).keys, Token.Nameable n :=
    Table.forall_mem_keys_insert
      (h.storage name ((Table.get?_isSome_iff _ _).1 (Option.isSome_iff_exists.2 ⟨x, hx⟩)))
      h.storage v
  cases hc with
  | stack => exact { h with }
  | @define d hk =>
    have hn := hk.introduces rfl
    refine { h with
      words := Table.forall_mem_keys_insert ⟨hn.1, hn.2⟩ h.words d.body, bodies := ?_,
      semicolon := ?_ }
    · exact fun hg => closed_speaks (.define hk) h.bodies hg
    · exact fun hg => Table.of_get?_insert (P := fun body : Body => ";" ∉ body)
        hk.semicolon_not_mem h.semicolon hg
  | nameConstant hk _ =>
    have hn := hk.introduces rfl
    exact { h with constants := Table.forall_mem_keys_insert ⟨hn.1, hn.2⟩ h.constants _ }
  | @declare name hk _ =>
    have hn := hk.introduces rfl
    exact { h with
      storage := Table.forall_mem_keys_insert ⟨hn.1, hn.2⟩ h.storage _
      references := List.forall_mem_cons.2 ⟨hn.1, h.references⟩ }
  | refer hr =>
    obtain ⟨hm, hn⟩ := mem_keys_of_reference? hr
    exact { h with
      references := List.forall_mem_cons.2 ⟨hn ▸ (h.storage _ hm).proper, h.references⟩ }
  | useReference hr =>
    exact { h with references := fun r hr' => h.references r (hr ▸ List.mem_cons_of_mem _ hr') }
  | setScalar hs _ => exact { h with storage := written hs _ }
  | setCell hs _ => exact { h with storage := written (get?_of_slot hs) _ }
  | allot hs => exact { h with storage := written hs _ }
  | chooseCell hr _ =>
    -- The reference is to another cell, but of the same array.
    have hrs := h.references
    rw [hr, List.forall_mem_cons] at hrs
    exact { h with references := List.forall_mem_cons.2 hrs }

theorem invariant_tidy : Invariant (Command.Of Token.Proper) Tidy :=
  .of_closed closed_tidy (hereditary_of_speaks fun h => h.bodies) fun _ _ h => { h with }

end Env

/-! ## Definitions as texts -/

/-- How a definition is written. -/
def Definition.text (d : Definition) : String :=
  ": " ++ d.name ++ " " ++ Body.text d.body ++ " ;"

theorem tokenize_definition_text {d : Definition} (hn : d.name.Proper)
    (hb : ∀ t ∈ d.body, t.Proper) :
    tokenize d.text = ":" :: d.name :: (d.body ++ [";"]) := by
  have ht : d.text = ":" ++ " " ++ d.name ++ " " ++ Body.text d.body ++ " " ++ ";" := by
    simp only [Definition.text, ← String.toList_inj, String.toList_append]
    simp
  rw [ht, tokenize_append_space, tokenize_append_space, tokenize_append_space, hn.tokenize_eq,
    tokenize_text hb, List.append_assoc]
  rfl

/-- The text of a definition is read as the definition. -/
theorem sequence_definition_text {d : Definition} (hn : d.name.Nameable)
    (hb : ∀ t ∈ d.body, t.Proper) (hs : ";" ∉ d.body) :
    Command.sequence (tokenize d.text) = [.define (.ok d)] := by
  have hd := Scan.definition_of_semicolon (isValidName_eq_ok_true_iff.2 hn.noNumber) hs []
  have hr : Command.read ":" (d.name :: (d.body ++ [";"])) = (.define (.ok d), []) := by
    rw [Command.read, hd]
  rw [tokenize_definition_text hn.proper hb, Command.sequence_cons_of_read (by decide) hr,
    Command.sequence_nil]

/-- To define a word once more with the body that it has changes nothing. -/
theorem evaluate_definition {env : Env} {d : Definition} {tokens : List Token}
    (hs : Command.sequence tokens = [.define (.ok d)]) (hw : env.words.get? d.name = some d.body)
    (depth : Nat) : evaluate (depth + 1) tokens env = ⟨env, [], .ok none⟩ := by
  have hd : Evaluator.execute (evaluate depth) (.define (.ok d)) env = ⟨env, [], .ok ()⟩ := by
    have hi : Evaluator.execute (evaluate depth) (.define (.ok d)) env
        = ⟨{ env with words := env.words.insert d.name d.body }, [], .ok ()⟩ := rfl
    rw [hi, Table.insert_of_get? hw]
  rw [evaluate_succ, hs, forEach_cons, forEach_nil]
  exact reporting_of_ok (bind_of_ok hd _)

/-! ## Wherever program texts lead -/

/-- Whether the request is for a program text or for operands, but not for tokens that are of no
    text and not for the environment itself. -/
def Request.isText : Request → Bool
  | .evaluate _ | .env _ => false
  | _ => true

/-- In every session that program texts lead to, names and bodies are tidy. So each body can be read
    back from its text, and the text of its definition, executed, changes nothing. -/
theorem tidy_of_reachable {s : Session}
    (hs : Session.Reachable (fun r => r.isText = true) s) :
    s.env.Tidy ∧
    ∀ word body, s.env.words.get? word = some body →
      tokenize (Body.text body) = body ∧
      (Session.execute (": " ++ word ++ " " ++ Body.text body ++ " ;") s).state
        = { s with lastError := none } := by
  have htidy : s.env.Tidy := by
    refine hs.invariant_of_kind invariant_tidy (fun text => ?_) tidy_empty nofun nofun
    exact madeOf_of_forall fun t ht => proper_of_mem_tokenize ht
  refine ⟨htidy, fun word body hw => ⟨tokenize_text (htidy.bodies hw), ?_⟩⟩
  have hk : word ∈ s.env.words.keys :=
    (Table.get?_isSome_iff _ _).1 (Option.isSome_iff_exists.2 ⟨body, hw⟩)
  have he : evaluateTokens (tokenize (Definition.text ⟨word, body⟩)) s.env
      = ⟨s.env, [], .ok none⟩ :=
    evaluate_definition (d := ⟨word, body⟩)
      (sequence_definition_text (htidy.words word hk) (htidy.bodies hw) (htidy.semicolon hw)) hw _
  exact congrArg Outcome.state (Session.execute_of_ok he)

/-- Two texts, of which the second has blanks within it and defines the word of the first anew. -/
theorem tidy_of_reachable_square :
    let env : Env := { words := .ofList [("sq", ["dup", "*"])] }
    Session.Reachable (fun r => r.isText = true) { env } ∧
      env.Tidy ∧ tokenize (Body.text ["dup", "*"]) = ["dup", "*"] ∧
      (Session.execute ": sq dup * ;" { env }).state = { env } := by
  intro env
  have hfirst : evaluateTokens (tokenize ": sq sq ;") {}
      = ⟨{ words := .ofList [("sq", ["sq"])] }, [], .ok none⟩ := by cbv
  have hsecond : evaluateTokens (tokenize " : sq  dup\t * ;\n")
      { words := .ofList [("sq", ["sq"])] } = ⟨env, [], .ok none⟩ := by cbv
  have hs₁ : Session.Reachable (fun r => r.isText = true)
      { env := { words := .ofList [("sq", ["sq"])] } } :=
    .execute_of_ok (.fresh true) rfl hfirst
  have hs : Session.Reachable (fun r => r.isText = true) { env } := hs₁.execute_of_ok rfl hsecond
  obtain ⟨htidy, hwords⟩ := tidy_of_reachable hs
  exact ⟨hs, htidy, hwords "sq" ["dup", "*"] (by cbv)⟩

end Wordstack
