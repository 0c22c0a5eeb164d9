import Wordstack.Proofs.Faults
import Wordstack.Proofs.Moments
import Wordstack.Proofs.Numerals

/-!
# Where escapes come from

An evaluation that escapes either is nested too deeply or meets a numeral that is too long to be
read. No operation on the environment escapes. So if it is a numeral, then that is one of the
tokens that were to be evaluated, or of a word that was called (`parseNumber_of_evaluate`). What
words are called is for the evaluation to find out, but their tokens are those of the program and
of the words that the environment began with (`Env.invariant_speaks`).

A nesting that is too deep becomes an error at the call of a word, and nowhere else
(`Evaluator.execute_tooDeep`).
-/

namespace Wordstack

open Wordstack.Action Env

variable {x : Escape} {t : Token} {tokens : List Token}

/-! ## Numerals -/

/-- The token consists of so many decimal digits, with or without one sign before them. -/
def Token.IsNumeral (t : Token) (count : Nat) : Prop :=
  ∃ sign digits : List Char, t.toList = sign ++ digits ∧ sign ∈ [[], ['+'], ['-']] ∧
    (∀ c ∈ digits, c.isDigit = true) ∧ digits.length = count

theorem isNumeral_of_ofChars? {n : Numeral} (h : Numeral.ofChars? t.toList = some n) :
    Token.IsNumeral t n.digits.length := by
  obtain ⟨⟨sign, hs, ht, -⟩, -, hd⟩ := Numeral.ofChars?_eq_some_iff.1 h
  exact ⟨sign, n.digits, ht, hs, hd, rfl⟩

/-- Only a numeral of too many digits cannot be read. -/
theorem oversized_of_parseNumber (h : parseNumber t = .error x) :
    ∃ count, x = .oversized count ∧ Numeral.digitLimit < count ∧ Token.IsNumeral t count := by
  rw [parseNumber] at h
  split at h
  · cases h
  · next n hn =>
    rw [Numeral.denote] at h
    split at h
    · next hl =>
      cases h
      exact ⟨_, rfl, hl, isNumeral_of_ofChars? hn⟩
    · split at h <;> cases h

/-! ## Forms and words -/

theorem parseNumber_of_isValidName (h : isValidName t = .error x) : parseNumber t = .error x := by
  rw [isValidName] at h
  rcases hp : parseNumber t with y | v <;> rw [hp] at h <;> cases h
  rfl

namespace Scan

theorem parseNumber_of_name {kind : NameKind}
    (h : (name kind tokens).result = .error (.escape x)) :
    ∃ t ∈ tokens, parseNumber t = .error x := by
  cases tokens with
  | nil => cases h
  | cons t rest =>
    rw [name] at h
    split at h
    · cases h
    · cases h
    · next hn =>
      cases h
      exact ⟨t, List.mem_cons_self, parseNumber_of_isValidName hn⟩

theorem parseNumber_of_definition (h : (definition tokens).result = .error (.escape x)) :
    ∃ t ∈ tokens, parseNumber t = .error x := by
  obtain ⟨n, ht, hn⟩ := definition_eq_escape_iff.1 (eq_of_result h)
  rw [ht]
  exact ⟨n, List.mem_cons_self, parseNumber_of_isValidName hn⟩

theorem string_ne_escape : (string tokens).result ≠ .error (.escape x) := fun h => by
  cases (string_eq_error_iff.1 (eq_of_result h)).2.1

theorem conditional_ne_escape : (conditional tokens).result ≠ .error (.escape x) := by
  intro h
  rw [conditional] at h
  split at h <;> cases h

theorem loop_ne_escape : (loop tokens).result ≠ .error (.escape x) := by
  intro h
  rw [loop] at h
  split at h <;> cases h

end Scan

/-- Where a form escapes, it is because of a name. -/
theorem Command.HasFault.parseNumber {c : Command} (h : c.HasFault (.escape x))
    (hc : c ∈ sequence tokens) : ∃ t ∈ tokens, parseNumber t = .error x := by
  obtain ⟨t, ts, hs, rfl⟩ := exists_read_of_mem hc
  have inRest (h : ∃ u ∈ ts, Wordstack.parseNumber u = .error x) :
      ∃ u ∈ tokens, Wordstack.parseNumber u = .error x :=
    h.imp fun _ hu => ⟨hs.subset (List.mem_cons_of_mem t hu.1), hu.2⟩
  unfold read at h
  split at h
  · exact inRest (Scan.parseNumber_of_definition h)
  · exact absurd h Scan.string_ne_escape
  · exact absurd h Scan.conditional_ne_escape
  · exact absurd h Scan.loop_ne_escape
  · exact inRest (Scan.parseNumber_of_name h)
  · exact inRest (Scan.parseNumber_of_name h)
  all_goals exact h.elim

theorem Env.parseNumber_of_meaning {env : Env} (h : env.meaning t = .error (.escape x)) :
    parseNumber t = .error x := by
  have hp := plainMeaning_of_meaning h nofun nofun nofun
  rw [plainMeaning] at hp
  split at hp
  · next hn =>
    cases hp
    exact hn
  · cases hp
  · split at hp
    · cases hp
    · split at hp <;> cases hp

/-! ## Commands -/

namespace Evaluator

variable {inner : Evaluator} {env : Env} {body : Body} {c : Command}

theorem lift_ne_escape {α : Type} {m : Action Env Error α} :
    ((liftM m : Action Env Halt α) env).result ≠ .error (.escape x) := by
  intro h
  obtain ⟨e, he, -⟩ := lift_result_eq_error.1 h
  cases he

theorem result_of_enter (h : (enter inner body env).result = .error (.escape x)) :
    (inner body env).result = .error x := by
  obtain ⟨y, hy, hx⟩ := mapError_drop_result_eq_error.1 h
  cases hx
  exact hy

theorem result_of_call {word : Token}
    (h : (call inner word body env).result = .error (.escape x)) :
    (inner body env).result = .error x := by
  obtain ⟨y, hy, hx⟩ := mapError_drop_result_eq_error.1 h
  cases y with
  | oversized digits =>
    cases hx
    exact hy
  | tooDeep => cases hx

theorem perform_escapes (h : (perform inner t env).result = .error (.escape x)) :
    parseNumber t = .error x ∨
      ∃ body env', Enters inner env (.word t) body env' ∧ (inner body env').result = .error x := by
  rcases hm : env.meaning t with e | v | b | ⟨word, body⟩ | r
  · rw [perform_of_error hm] at h
    cases h
    exact .inl (parseNumber_of_meaning hm)
  · rw [perform_of_value hm] at h
    cases h
  · rw [perform_of_builtin hm] at h
    exact absurd h lift_ne_escape
  · rw [perform_of_call hm] at h
    exact .inr ⟨body, env, .call hm, result_of_call h⟩
  · rw [perform_of_reference hm] at h
    cases h

theorem plus_ne_escape : (plus inner env).result ≠ .error (.escape x) := by
  intro h
  by_cases hr : ∃ name, env.Chooses name
  · obtain ⟨name, hr⟩ := hr
    rw [plus_of_chooses hr] at h
    exact lift_ne_escape h
  · rw [plus_of_not_chooses hr] at h
    rcases perform_escapes h with hp | ⟨body, env', he, -⟩
    · cases hp
    · cases he with
      | call hm => exact meaning_plus_ne_call env _ _ hm

theorem choose_escapes {branches : Except Halt Branches}
    (h : (choose inner branches env).result = .error (.escape x)) :
    branches = .error (.escape x) ∨
      ∃ body env', Enters inner env (.conditional branches) body env' ∧
        (inner body env').result = .error x := by
  rcases choose_cases branches with ⟨env', r, hr, hx⟩ | ⟨body, env', he⟩
  · rw [hr] at h
    exact .inl (hx x h)
  · rw [he.choose_eq] at h
    exact .inr ⟨body, env', he, result_of_enter h⟩

theorem repeatBody_escapes {body : Except Halt Body}
    (h : (repeatBody inner body env).result = .error (.escape x)) :
    body = .error (.escape x) ∨
      ∃ body' env', Enters inner env (.loop body) body' env' ∧
        (inner body' env').result = .error x := by
  rcases repeatBody_cases body with ⟨env', r, hr, hx⟩ | ⟨b, last, first, stack, rfl, hb, hs⟩
  · rw [hr] at h
    exact .inl (hx x h)
  · rw [repeatBody_of_cons hb hs, forCount_eq_forEach] at h
    obtain ⟨v, env', hv, he⟩ := result_forEach_eq_error.1 h
    exact .inr ⟨b, _, .round hb hs hv, result_of_enter he⟩

/-- A command that escapes was not read, or is a word that cannot be, or has entered a body that
    escapes. -/
theorem execute_escapes (h : (execute inner c env).result = .error (.escape x)) :
    c.HasFault (.escape x) ∨ (∃ t, c = .word t ∧ parseNumber t = .error x) ∨
      ∃ body env', Enters inner env c body env' ∧ (inner body env').result = .error x := by
  cases c with
  | conditional branches => exact (choose_escapes h).imp id .inr
  | loop body => exact (repeatBody_escapes h).imp id .inr
  | word t => exact .inr ((perform_escapes h).imp (fun hp => ⟨t, rfl, hp⟩) id)
  | plus => exact absurd h plus_ne_escape
  | define definition =>
    cases definition with
    | error e => exact .inl (by cases h; rfl)
    | ok d => cases h
  | say text =>
    cases text with
    | error e => exact .inl (by cases h; rfl)
    | ok s => cases h
  | declare name =>
    cases name with
    | error e => exact .inl (by cases h; rfl)
    | ok name => exact (lift_ne_escape (m := Env.declare name) h).elim
  | nameConstant name =>
    cases name with
    | error e => exact .inl (by cases h; rfl)
    | ok name => exact (lift_ne_escape (m := Env.nameConstant name) h).elim
  | fetch | store | allot => exact absurd h lift_ne_escape
  | cells =>
    obtain ⟨e, -, he⟩ := mapError_drop_result_eq_error.1 h
    cases he

/-- A word fails because of its nesting if it is called and its body is nested too deeply. -/
theorem perform_tooDeep {word : Token}
    (h : (perform inner t env).result = .error (.fault (.recursionTooDeep word))) :
    ∃ body, env.meaning t = .ok (.call word body) ∧ (inner body env).result = .error .tooDeep := by
  rcases hm : env.meaning t with e | v | b | ⟨word', body⟩ | r
  · rw [perform_of_error hm] at h
    cases h
    rcases eq_of_meaning_eq_error hm with he | ⟨x, he⟩ <;> cases he
  · rw [perform_of_value hm] at h
    cases h
  · rw [perform_of_builtin hm] at h
    cases lift_failsOnly b.run_failsOnly env _ h
  · rw [perform_of_call hm] at h
    obtain ⟨y, hy, hx⟩ := mapError_drop_result_eq_error.1 h
    cases y with
    | oversized digits => cases hx
    | tooDeep =>
      cases hx
      exact ⟨body, rfl, hy⟩
  · rw [perform_of_reference hm] at h
    cases h

/-- No other command fails because of its nesting. -/
theorem execute_tooDeep {word : Token} (hc : c ∈ Command.sequence tokens)
    (h : (execute inner c env).result = .error (.fault (.recursionTooDeep word))) :
    ∃ body env', Enters inner env c body env' ∧ (inner body env').result = .error .tooDeep := by
  rcases execute_fails_cases hc h with hf | ⟨t, ht, hp⟩ | ⟨m, e, ho, he, hm⟩
  · cases hf
  · obtain ⟨body, hm, hb⟩ := perform_tooDeep hp
    rcases ht with rfl | ⟨rfl, rfl⟩
    · exact ⟨body, env, .call hm, hb⟩
    · exact absurd hm (meaning_plus_ne_call env word body)
  · cases he
    cases ho.failsOnly env _ hm

end Evaluator

/-! ## Vocabularies -/

/-- The command is one of those of tokens with the property. -/
def Command.Of (T : Token → Prop) (c : Command) : Prop :=
  ∃ tokens, (∀ t ∈ tokens, T t) ∧ c ∈ sequence tokens

/-- The tokens of all words have the property. -/
def Env.Speaks (T : Token → Prop) (env : Env) : Prop :=
  ∀ {word : Token} {body : Body}, env.words.get? word = some body → ∀ t ∈ body, T t

variable {T : Token → Prop}

theorem madeOf_of_forall (h : ∀ t ∈ tokens, T t) : Body.MadeOf (Command.Of T) tokens :=
  fun _ hc => ⟨tokens, h, hc⟩

theorem Command.Of.forall_tokens {c : Command} (h : c.Of T) : ∀ t ∈ c.tokens, T t := by
  obtain ⟨tokens, ht, hc⟩ := h
  exact fun t htc => ht t ((tokens_sublist hc).subset htc)

theorem closed_speaks : Closed (Command.Of T) (Env.Speaks T) := by
  intro env env' hc h
  cases hc with
  | @define d hk =>
    have hd : ∀ t ∈ d.body, T t := fun t ht => hk.forall_tokens t (List.mem_cons_of_mem d.name ht)
    intro word body hg
    exact Table.of_get?_insert (P := fun body : Body => ∀ t ∈ body, T t) hd h hg
  | stack | nameConstant | declare | refer | useReference | setScalar | setCell | allot
  | chooseCell => exact h

/-- Where all words speak of certain tokens only, so do the bodies that are entered. -/
theorem hereditary_of_speaks {I : Env → Prop} (hI : ∀ {env : Env}, I env → env.Speaks T) :
    Hereditary (Command.Of T) I where
  sides {branches} hk := by
    refine ⟨madeOf_of_forall fun t ht => hk.forall_tokens t (List.mem_append_left _ ht),
      fun body hb => madeOf_of_forall fun t ht => ?_⟩
    refine hk.forall_tokens t (List.mem_append_right _ ?_)
    rw [hb]
    exact ht
  rounds hk := madeOf_of_forall hk.forall_tokens
  words h hw := madeOf_of_forall (hI h hw)

/-- Where all words speak of certain tokens only, programs that do so as well define no others. -/
theorem Env.invariant_speaks : Invariant (Command.Of T) (Env.Speaks T) :=
  .of_closed closed_speaks (hereditary_of_speaks fun h => h) fun _ _ h => h

/-! ## Evaluations -/

theorem result_reporting_eq_error {action : Action Env Halt Unit} {env : Env} :
    (reporting action env).result = .error x ↔ (action env).result = .error (.escape x) := by
  rcases hs : action env with ⟨env', shown, (e | y) | ⟨⟩⟩
  · rw [reporting_of_fault hs]
    simp
  · rw [reporting_of_escape hs]
    simp
  · rw [reporting_of_ok hs]
    simp

/-- An evaluation that escapes, but not because it is nested too deeply, does so because of one of
    the tokens of the program or of the words. -/
theorem parseNumber_of_evaluate {depth : Nat} {env : Env} (ht : Body.MadeOf (Command.Of T) tokens)
    (hs : env.Speaks T) (h : (evaluate depth tokens env).result = .error x) :
    x = .tooDeep ∨ ∃ t, T t ∧ parseNumber t = .error x := by
  induction depth generalizing tokens env with
  | zero =>
    cases h
    exact .inl rfl
  | succ depth ih =>
    rw [evaluate_succ, result_reporting_eq_error] at h
    obtain ⟨c, env₁, hr, hc⟩ := result_forEach_eq_error.1 h
    have hk : c.Of T := ht c hr.mem
    have h₁ : env₁.Speaks T :=
      hr.keeps (fun c hc => invariant_speaks.keeps depth (ht c hc)) hs
    rcases Evaluator.execute_escapes hc with hf | ⟨t, rfl, hp⟩ | ⟨body, env₂, he, hx⟩
    · obtain ⟨tokens', ht', hc'⟩ := hk
      obtain ⟨t, htm, hp⟩ := hf.parseNumber hc'
      exact .inr ⟨t, ht' t htm, hp⟩
    · exact .inr ⟨t, hk.forall_tokens t List.mem_cons_self, hp⟩
    -- The body is made of the same tokens, and it escapes one level down.
    · have hb := he.madeOf invariant_speaks.toHereditary hk h₁
      exact ih hb (he.keeps invariant_speaks (evaluate_keeps invariant_speaks depth hb) h₁) hx

end Wordstack
