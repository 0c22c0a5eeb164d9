import Wordstack.Builtin
import Wordstack.Numeral

/-!
# What a token means

A token that is not part of a form has the first *meaning* that an environment has for it, asked
in a fixed order: as the name of a register, of a builtin, of a defined word; as a numeral; as
the name of a constant, of a variable. Names of registers and builtins therefore hide all others,
and a name that is also a numeral could only ever be reached as a word. A numeral too long to be
read escapes, but only if no earlier meaning was found.
-/

namespace Wordstack

/-- The meaning of a token. -/
inductive Meaning where
  /-- The value of a register, a numeral or a constant. -/
  | value (v : Int)
  | builtin (b : Builtin)
  /-- A defined word with its body. -/
  | call (word : Token) (body : Body)
  /-- A variable to speak of. -/
  | reference (r : Reference)
  deriving DecidableEq, Repr

namespace Env

/-- The meaning of a token that names neither a register, a builtin nor a word. -/
def plainMeaning (env : Env) (t : Token) : Except Halt Meaning :=
  match parseNumber t with
  | .error e => .error (.escape e)
  | .ok (some v) => .ok (.value v)
  | .ok none =>
    match env.constants.get? t with
    | some v => .ok (.value v)
    | none =>
      match env.reference? t with
      | some r => .ok (.reference r)
      | none => .error (.fault (.unbound t))

/-- The meaning of a token. -/
def meaning (env : Env) (t : Token) : Except Halt Meaning :=
  match env.registers.get? t with
  | some v => .ok (.value v)
  | none =>
    match Builtin.ofName? t with
    | some b => .ok (.builtin b)
    | none =>
      match env.words.get? t with
      | some body => .ok (.call t body)
      | none => env.plainMeaning t

theorem meaning_of_register {env : Env} {t : Token} {v : Int}
    (h : env.registers.get? t = some v) : env.meaning t = .ok (.value v) := by
  simp [meaning, h]

theorem meaning_of_builtin {env : Env} {t : Token} {b : Builtin}
    (hr : env.registers.get? t = none) (hb : Builtin.ofName? t = some b) :
    env.meaning t = .ok (.builtin b) := by
  simp [meaning, hr, hb]

theorem meaning_of_word {env : Env} {t : Token} {body : Body}
    (hr : env.registers.get? t = none) (hb : Builtin.ofName? t = none)
    (hw : env.words.get? t = some body) : env.meaning t = .ok (.call t body) := by
  simp [meaning, hr, hb, hw]

/-- A token that means a call is the name of the word with this body. -/
theorem eq_and_get?_of_meaning {env : Env} {t word : Token} {body : Body}
    (h : env.meaning t = .ok (.call word body)) :
    word = t ∧ env.words.get? word = some body := by
  rw [meaning] at h
  split at h
  · cases h
  · split at h
    · cases h
    · split at h
      · next hw =>
        cases h
        exact ⟨rfl, hw⟩
      · rw [plainMeaning] at h
        split at h
        · cases h
        · cases h
        · split at h
          · cases h
          · split at h <;> cases h

theorem get?_of_meaning {env : Env} {t word : Token} {body : Body}
    (h : env.meaning t = .ok (.call word body)) : env.words.get? word = some body :=
  (eq_and_get?_of_meaning h).2

/-- What is no value, builtin or call is meant plainly. -/
theorem plainMeaning_of_meaning {env : Env} {t : Token} {r : Except Halt Meaning}
    (h : env.meaning t = r) (hv : ∀ v, r ≠ .ok (.value v)) (hb : ∀ b, r ≠ .ok (.builtin b))
    (hc : ∀ word body, r ≠ .ok (.call word body)) : env.plainMeaning t = r := by
  rw [meaning] at h
  split at h
  · exact absurd h.symm (hv _)
  · split at h
    · exact absurd h.symm (hb _)
    · split at h
      · exact absurd h.symm (hc _ _)
      · exact h

/-- A token that means a reference is the name of the variable. -/
theorem reference?_of_meaning {env : Env} {t : Token} {r : Reference}
    (h : env.meaning t = .ok (.reference r)) : env.reference? t = some r := by
  have hp := plainMeaning_of_meaning h nofun nofun nofun
  rw [plainMeaning] at hp
  split at hp
  · cases hp
  · cases hp
  · split at hp
    · cases hp
    · split at hp
      · next hr =>
        cases hp
        exact hr
      · cases hp

/-- A token without a meaning is unbound, unless it escapes. -/
theorem eq_of_meaning_eq_error {env : Env} {t : Token} {e : Halt}
    (h : env.meaning t = .error e) : e = .fault (.unbound t) ∨ ∃ x, e = .escape x := by
  have hp := plainMeaning_of_meaning h nofun nofun nofun
  rw [plainMeaning] at hp
  split at hp
  · next x _ =>
    cases hp
    exact .inr ⟨x, rfl⟩
  · cases hp
  · split at hp
    · cases hp
    · split at hp
      · cases hp
      · cases hp
        exact .inl rfl

end Env

end Wordstack
