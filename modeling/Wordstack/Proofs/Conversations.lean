import Mathlib
import Wordstack.Proofs.Escapes
import Wordstack.Proofs.Reachability
import Wordstack.Session.Conversation

/-!
# What comes of a conversation

A conversation is over at the first input that *stops* it, and what it comes to is what the lines
before that come to when they are executed one after the other (`converse_eq`). Interrupts are
answered and blank lines are not, but neither has any part in what becomes of the session. What is
shown is said input by input, by what the lines before it have made of the session
(`Session.answer`).

A conversation has an end unless the execution of a line escapes. As long as neither the lines nor
the words of the session have numerals that are too long to be read, the only such escape is a
nesting that is too deep (`Session.tooDeep_of_executes`).
-/

namespace Wordstack

open Wordstack.Action

/-! ## Actions one by one -/

namespace Action

variable {σ ε α : Type}

/-- What is shown is what each element shows in the state that those before it have led to, if they
    went well. -/
theorem output_forEach (f : α → Action σ ε Unit) (l : List α) (s : σ) :
    (forEach f l s).output = l.zipIdx.flatMap fun (a, k) =>
      match forEach f (l.take k) s with
      | ⟨s', _, .ok ()⟩ => (f a s').output
      | ⟨_, _, .error _⟩ => [] := by
  induction l using List.reverseRecOn with
  | nil => rfl
  | append_singleton l a ih =>
    have hinit : (l.zipIdx.flatMap fun (b, k) =>
          match forEach f ((l ++ [a]).take k) s with
          | ⟨s', _, .ok ()⟩ => (f b s').output
          | ⟨_, _, .error _⟩ => [])
        = (forEach f l s).output := by
      rw [ih]
      refine List.flatMap_congr fun ⟨b, k⟩ hb => ?_
      have hk : k ≤ l.length := Nat.le_of_lt (List.snd_lt_of_mem_zipIdx hb)
      simp only [List.take_append_of_le_length hk]
    rw [List.zipIdx_append, List.flatMap_append, hinit, forEach_append, forEach_cons, forEach_nil,
      bind_pure_unit]
    simp only [List.zipIdx_singleton, List.flatMap_singleton, Nat.zero_add, List.take_left]
    rw [bind_apply]
    rcases forEach f l s with ⟨s', shown, e | ⟨⟩⟩
    · simp
    · rfl

/-- An action with a fixed value after it. -/
theorem bind_pure_apply (m : Action σ ε Unit) (a : α) (s : σ) :
    (do m; pure a : Action σ ε α) s
      = ⟨(m s).state, (m s).output, (m s).result.map fun _ => a⟩ := by
  rw [bind_apply]
  rcases m s with ⟨s', shown, e | ⟨⟩⟩
  · rfl
  · simp [pure_apply, Outcome.after, Except.map]

end Action

/-! ## Inputs -/

namespace Input

/-- Whether the input ends a conversation. -/
def isStop : Input → Bool
  | .endOfInput => true
  | .interrupt => false
  | .line text => isFarewell text

/-- The text that is executed on the input, if there is one. -/
def text? : Input → Option String
  | .line text => if Text.isBlankText text then none else some text
  | .interrupt | .endOfInput => none

end Input

namespace Session

/-- Responds to an input with which the conversation goes on. -/
def respond : Input → Action Session Escape Unit
  | .interrupt => .emit (.text interruptNotice)
  | .line text => if Text.isBlankText text then pure () else execute text
  | .endOfInput => pure ()

/-- What is shown on an input, when the session has executed the lines among the inputs before. -/
def answer (s : Session) (before : List Input) (input : Input) : List Event :=
  match forEach execute (before.filterMap Input.text?) s with
  | ⟨s', _, .ok ()⟩ => (respond input s').output
  | ⟨_, _, .error _⟩ => []

variable {input : Input} {inputs : List Input}

/-- What is shown on an input is its response in the session that the lines before it made. -/
theorem answer_of_ok {s s' : Session} {texts : List String} {shown : List Event}
    (ht : inputs.filterMap Input.text? = texts)
    (h : forEach execute texts s = ⟨s', shown, .ok ()⟩) (input : Input) :
    s.answer inputs input = (respond input s').output := by
  rw [answer, ht, h]

theorem receive_of_isStop (h : input.isStop = true) : receive input = pure true := by
  cases input with
  | endOfInput => rfl
  | interrupt => cases h
  | line text => exact if_pos h

theorem receive_of_not_isStop (h : input.isStop = false) :
    receive input = (do respond input; pure false) := by
  cases input with
  | endOfInput => cases h
  | interrupt => rfl
  | line text =>
    have hf : ¬isFarewell text = true := fun hf => by cases h.symm.trans hf
    rw [receive, if_neg hf, respond]
    split
    · rfl
    · rfl

/-- A session listens up to the input that stops it, or to the end of the inputs. -/
theorem listen_eq (inputs : List Input) :
    listen none inputs = (do
      forEach respond (inputs.takeWhile (!·.isStop))
      pure ⟨(inputs.takeWhile (!·.isStop)).length + 1, (inputs.dropWhile (!·.isStop)).tail⟩) := by
  induction inputs with
  | nil => rfl
  | cons input inputs ih =>
    rw [listen, ask, pure_bind]
    rcases hi : input.isStop with _ | _
    · rw [receive_of_not_isStop hi]
      simp [hi, ih]
    · rw [receive_of_isStop hi]
      simp [hi]

/-- The responses come to what the executions of the lines come to, but for what is shown. -/
theorem forEach_respond (inputs : List Input) (s : Session) :
    (forEach respond inputs s).state = (forEach execute (inputs.filterMap Input.text?) s).state ∧
      (forEach respond inputs s).result
        = (forEach execute (inputs.filterMap Input.text?) s).result := by
  induction inputs generalizing s with
  | nil => exact ⟨rfl, rfl⟩
  | cons input inputs ih =>
    rw [forEach_cons]
    cases input with
    | endOfInput => exact ih s
    | interrupt => exact ih s
    | line text =>
      rw [List.filterMap_cons]
      by_cases hb : Text.isBlankText text = true
      · simp only [respond, Input.text?, if_pos hb]
        exact ih s
      · simp only [respond, Input.text?, if_neg hb, forEach_cons, bind_apply]
        rcases execute text s with ⟨s', shown, x | ⟨⟩⟩
        · exact ⟨rfl, rfl⟩
        · exact ih s'

/-- What the responses show is what is shown on each of the inputs. -/
theorem output_forEach_respond (inputs : List Input) (s : Session) :
    (forEach respond inputs s).output
      = inputs.zipIdx.flatMap fun (input, k) => s.answer (inputs.take k) input := by
  rw [output_forEach]
  refine List.flatMap_congr fun ⟨input, k⟩ _ => ?_
  obtain ⟨hstate, hresult⟩ := forEach_respond (inputs.take k) s
  simp only [answer]
  rcases hr : forEach respond (inputs.take k) s with ⟨s₁, shown₁, r₁⟩
  rcases he : forEach execute ((inputs.take k).filterMap Input.text?) s with ⟨s₂, shown₂, r₂⟩
  rw [hr, he] at hstate hresult
  obtain rfl : s₁ = s₂ := hstate
  obtain rfl : r₁ = r₂ := hresult
  rcases r₁ with _ | ⟨⟩ <;> rfl

/-! ## Escapes -/

variable {text : String} {s : Session} {x : Escape}

theorem evaluateTokens_of_execute (h : (execute text s).result = .error x) :
    (evaluateTokens (tokenize text) s.env).result = .error x := by
  rcases he : evaluateTokens (tokenize text) s.env with ⟨env, shown, y | error⟩
  · rw [execute_of_escape he] at h
    cases h
    rfl
  · rw [execute_of_ok he] at h
    cases h

end Session

/-- The token is no numeral that is too long to be read. -/
def Token.IsShort (t : Token) : Prop :=
  ∀ count, t.IsNumeral count → count ≤ Numeral.digitLimit

theorem Token.isShort_of_length_le {t : Token} (h : t.toList.length ≤ Numeral.digitLimit) :
    t.IsShort := by
  rintro count ⟨sign, digits, ht, -, -, rfl⟩
  rw [ht, List.length_append] at h
  exact Nat.le_trans (Nat.le_add_left _ _) h

namespace Session

variable {s : Session} {x : Escape}

/-- If all numerals can be read, only a nesting that is too deep escapes. -/
theorem tooDeep_of_executes {texts : List String}
    (ht : ∀ text ∈ texts, ∀ t ∈ tokenize text, t.IsShort) (hs : s.env.Speaks Token.IsShort)
    (h : (forEach execute texts s).result = .error x) : x = .tooDeep := by
  obtain ⟨text, s', hr, he⟩ := result_forEach_eq_error.1 h
  have hmade (text : String) (hm : text ∈ texts) :
      Body.MadeOf (Command.Of Token.IsShort) (tokenize text) := madeOf_of_forall (ht text hm)
  have hs' : s'.env.Speaks Token.IsShort :=
    hr.keeps (I := fun s : Session => s.env.Speaks Token.IsShort)
      (fun text hm => execute_keeps Env.invariant_speaks (hmade text hm)) hs
  rcases parseNumber_of_evaluate (hmade text hr.mem) hs' (evaluateTokens_of_execute he) with
    rfl | ⟨t, hshort, hp⟩
  · rfl
  · obtain ⟨count, -, hl, hn⟩ := oversized_of_parseNumber hp
    exact absurd (hshort count hn) (Nat.not_le.2 hl)

/-! ## The whole conversation -/

/-- The session listens once for each input that it is told, and once more if none of them stops
    it. -/
theorem prompts_eq (inputs : List Input) :
    (inputs.takeWhile (!·.isStop)).length + 1
      = inputs.length - (inputs.dropWhile (!·.isStop)).tail.length
        + if inputs.any Input.isStop then 0 else 1 := by
  induction inputs with
  | nil => rfl
  | cons input inputs ih =>
    have hle : (inputs.dropWhile (!·.isStop)).tail.length ≤ inputs.length :=
      (List.Sublist.trans (List.tail_sublist _) (List.dropWhile_sublist _)).length_le
    rcases hi : input.isStop with _ | _
    · simp only [hi, Bool.not_false, List.takeWhile_cons_of_pos, List.dropWhile_cons_of_pos,
        List.length_cons, List.any_cons, Bool.false_or, ih]
      omega
    · simp [hi]

/-- What a conversation comes to. The inputs that are heard are those before the first that stops
    it, and the texts that are executed are their lines that are not blank. The session is then what
    the executions of these texts in order make of it. The conversation ends unless one of them
    escapes, with the inputs behind the one that stopped it still unread, after as many prompts as
    inputs have been read and another one if none of them stopped it. The banner is shown first, and
    then what is shown on each input that is heard. If all numerals can be read, the only escape is
    that of a nesting that is too deep. -/
theorem converse_eq (inputs : List Input) (s : Session) :
    let heard := inputs.takeWhile (!·.isStop)
    let texts := heard.filterMap Input.text?
    let unread := (inputs.dropWhile (!·.isStop)).tail
    let executed := forEach execute texts s
    let o := converse none inputs s
    o.state = executed.state ∧
      o.result = executed.result.map (fun _ =>
        ⟨inputs.length - unread.length + if inputs.any Input.isStop then 0 else 1, unread⟩) ∧
      o.output = .text banner ::
        heard.zipIdx.flatMap (fun (input, k) => s.answer (heard.take k) input) ∧
      ((∀ text ∈ texts, ∀ t ∈ tokenize text, t.IsShort) → s.env.Speaks Token.IsShort →
        (∃ c, o.result = .ok c) ∨ o.result = .error .tooDeep) := by
  intro heard texts unread executed o
  have ho : o = ⟨(forEach respond heard s).state,
      .text banner :: (forEach respond heard s).output,
      (forEach respond heard s).result.map fun _ => ⟨heard.length + 1, unread⟩⟩ := by
    have hl : listen none inputs s = _ := congrFun (listen_eq inputs) s
    rw [bind_pure_apply] at hl
    exact congrArg (Outcome.after [.text banner]) hl
  obtain ⟨hstate, hresult⟩ := forEach_respond heard s
  rw [hstate, hresult, output_forEach_respond, prompts_eq] at ho
  refine ⟨by rw [ho], by rw [ho], by rw [ho], fun ht hs => ?_⟩
  rw [ho]
  rcases hr : (forEach execute texts s).result with x | ⟨⟩
  · exact .inr (congrArg Except.error (tooDeep_of_executes ht hs hr))
  · exact .inl ⟨_, rfl⟩

/-- An interrupt, a sum, a blank line, two words that are not a farewell, and a farewell before the
    last line. -/
theorem converse_eq_farewell :
    let inputs : List Input := [.interrupt, .line "1 2 +", .line " \t", .line "bye bye",
      .line " Bye", .line "never read"]
    let o := converse none inputs {}
    o.state = { env := { stack := [3] }, lastError := some (.unbound "bye") } ∧
      o.result = .ok ⟨5, [.line "never read"]⟩ ∧
      o.output = [.text banner, .text interruptNotice, .stack "=> " [3], .report (.unbound "bye"),
        .stack "=> " [3]] ∧
      ((∃ c, o.result = .ok c) ∨ o.result = .error .tooDeep) := by
  intro inputs o
  have hheard : inputs.takeWhile (!·.isStop)
      = [.interrupt, .line "1 2 +", .line " \t", .line "bye bye"] := by decide +kernel
  have hrest : inputs.dropWhile (!·.isStop) = [.line " Bye", .line "never read"] := by
    decide +kernel
  have htexts : [.interrupt, .line "1 2 +", .line " \t", .line "bye bye"].filterMap Input.text?
      = ["1 2 +", "bye bye"] := by decide +kernel
  have hsum : execute "1 2 +" {} = ⟨{ env := { stack := [3] } }, [.stack "=> " [3]], .ok ()⟩ := by
    cbv
  have hbye : execute "bye bye" { env := { stack := [3] } }
      = ⟨{ env := { stack := [3] }, lastError := some (.unbound "bye") },
        [.report (.unbound "bye"), .stack "=> " [3]], .ok ()⟩ := by cbv
  have hexecuted : forEach execute ["1 2 +", "bye bye"] {}
      = ⟨{ env := { stack := [3] }, lastError := some (.unbound "bye") },
        [.stack "=> " [3], .report (.unbound "bye"), .stack "=> " [3]], .ok ()⟩ := by
    rw [forEach_cons, bind_of_ok hsum, forEach_cons, bind_of_ok hbye]
    rfl
  have hone : forEach execute ["1 2 +"] {}
      = ⟨{ env := { stack := [3] } }, [.stack "=> " [3]], .ok ()⟩ := by
    rw [forEach_cons, bind_of_ok hsum]
    rfl
  obtain ⟨hstate, hresult, houtput, hescape⟩ := converse_eq inputs {}
  rw [hheard, htexts] at hstate hresult hescape
  rw [hexecuted] at hstate hresult
  rw [hrest] at hresult
  rw [hheard] at houtput
  refine ⟨hstate, hresult, houtput.trans ?_, hescape ?_ ?_⟩
  · have h1 : answer {} [.interrupt] (.line "1 2 +") = [.stack "=> " [3]] :=
      congrArg Outcome.output hsum
    have h2 : answer {} [.interrupt, .line "1 2 +"] (.line " \t") = [] :=
      answer_of_ok (by decide +kernel) hone _
    have h3 : answer {} [.interrupt, .line "1 2 +", .line " \t"] (.line "bye bye")
        = [.report (.unbound "bye"), .stack "=> " [3]] :=
      (answer_of_ok (by decide +kernel) hone _).trans (congrArg Outcome.output hbye)
    simp only [List.zipIdx_cons, List.zipIdx_nil, List.flatMap_cons, List.flatMap_nil,
      List.take_succ_cons, List.take_zero, Nat.zero_add, Nat.reduceAdd, h1, h2, h3]
    rfl
  · have hshort (text : String) (h : (tokenize text).all (·.toList.length ≤ 4300) = true) :
        ∀ t ∈ tokenize text, t.IsShort := fun t ht =>
      Token.isShort_of_length_le (of_decide_eq_true (List.all_eq_true.1 h t ht))
    intro text ht
    rcases List.mem_pair.1 ht with rfl | rfl
    · exact hshort _ (by decide +kernel)
    · exact hshort _ (by decide +kernel)
  · rintro word body h
    cases h

end Session

end Wordstack
