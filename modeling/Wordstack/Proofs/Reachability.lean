import Wordstack.Proofs.Invariants
import Wordstack.Session.Request

/-!
# Reachable sessions

What holds of every session in use is shown of the sessions that are *reachable*: those that begin
with a fresh environment and are then asked for one thing after the other, whatever comes of it
(`Session.Reachable`). Which requests are considered is left open. Most of them are programs and
operands, which cannot break an invariant (`Request.perform_keeps`); those that reach into the
environment can, and have to be looked at in each case (`Session.Reachable.invariant`). A property
that depends on what programs say is kept where all of them are of the kind in question
(`Session.Reachable.invariant_of_kind`).
-/

namespace Wordstack

open Wordstack.Action Env

/-- Whether the request is for a program or for operands, and not for the environment itself. -/
def Request.isProgram : Request → Bool
  | .env _ => false
  | _ => true

/-- The sessions that requests of a kind lead to. -/
inductive Session.Reachable (may : Request → Prop) : Session → Prop
  | fresh (echo : Bool) : Reachable may { echo }
  | request {s : Session} {r : Request} :
      Reachable may s → may r → Reachable may (r.perform s).state

variable {ε ε' α : Type} {kind : Command → Prop} {I : Env → Prop}

namespace Session

theorem onEnv_keeps {m : Action Env ε α} (hm : Keeps I m) :
    Keeps (fun s : Session => I s.env) (onEnv m) :=
  fun s h => hm s.env h

theorem pop?_keeps (hI : Closed kind I) :
    Keeps (fun s : Session => I s.env) (pop? : Action Session ε (Option Int)) := by
  intro s h
  have hp := pop_keeps hI "" s.env h
  rcases hs : s.env.stack with _ | ⟨v, stack⟩
  · simpa only [pop?, hs] using h
  · rw [pop_of_cons hs] at hp
    simpa only [pop?, hs] using hp

theorem execute_keeps (hI : Invariant kind I) {text : String}
    (ht : Body.MadeOf kind (tokenize text)) :
    Keeps (fun s : Session => I s.env) (execute text) :=
  -- The echo and the remembered error leave the environment alone.
  (onEnv_keeps (evaluate_keeps hI nestingLimit ht)).bind fun _ =>
    Keeps.bind (fun _ h => h) fun _ _ h => h

theorem receive_keeps (hI : Invariant kind I) (ht : ∀ text, Body.MadeOf kind (tokenize text))
    (input : Input) : Keeps (fun s : Session => I s.env) (receive input) := by
  cases input with
  | endOfInput => exact keeps_pure true
  | interrupt => exact (keeps_emit _).bind fun _ => keeps_pure false
  | line text =>
    rw [receive]
    split
    · exact keeps_pure true
    · split
      · exact keeps_pure false
      · exact (execute_keeps hI (ht text)).bind fun _ => keeps_pure false

theorem ask_keeps (prompt : Option String) :
    Keeps (fun s : Session => I s.env) (ask prompt) := by
  cases prompt with
  | none => exact keeps_pure ()
  | some p => exact keeps_emit _

theorem listen_keeps (hI : Invariant kind I) (ht : ∀ text, Body.MadeOf kind (tokenize text))
    (prompt : Option String) (inputs : List Input) :
    Keeps (fun s : Session => I s.env) (listen prompt inputs) := by
  induction inputs with
  | nil => exact (ask_keeps prompt).bind fun _ => keeps_pure _
  | cons input inputs ih =>
    refine (ask_keeps prompt).bind fun _ => (receive_keeps hI ht input).bind fun ended => ?_
    split
    · exact keeps_pure _
    · exact ih.bind fun _ => keeps_pure _

end Session

/-- Programs and operands keep an invariant, if the programs are made of commands of its kind. -/
theorem Request.perform_keeps (hI : Invariant kind I)
    (htext : ∀ text, Body.MadeOf kind (tokenize text)) {r : Request} (hr : r.isProgram = true)
    (htokens : ∀ tokens, r = .evaluate tokens → Body.MadeOf kind tokens) :
    Keeps (fun s : Session => I s.env) r.perform := by
  -- What is only looked up is not changed.
  have ask {f : Session → Reply} : Keeps (fun s : Session => I s.env)
      (do return f (← Action.state) : Action Session Failure Reply) :=
    keeps_state.bind fun _ => keeps_pure _
  cases r with
  | execute text =>
    exact (((Session.execute_keeps hI (htext text)).mapError _).bind fun _ => ask)
  | evaluate tokens =>
    have hk : Keeps I (evaluateTokens tokens) :=
      evaluate_keeps hI nestingLimit (htokens tokens rfl)
    exact ((Session.onEnv_keeps hk).mapError _).bind fun _ => keeps_pure _
  | push values =>
    exact (Session.onEnv_keeps (Keeps.forEach fun v _ => push_keeps hI.change v)).bind fun _ =>
      keeps_pure _
  | pop => exact (Session.pop?_keeps hI.change).bind fun _ => keeps_pure _
  | peek | describe | lastError => exact ask
  | attach echo => exact Keeps.bind (fun _ h => h) fun _ => keeps_pure _
  | converse inputs =>
    exact (((keeps_emit _).bind fun _ =>
      Session.listen_keeps hI htext none inputs).mapError _).bind fun _ => keeps_pure _
  | env request => cases hr

/-- To evaluate tokens in a session is to evaluate them in its environment. -/
theorem Request.state_perform_evaluate (tokens : List Token) (s : Session) :
    ((Request.evaluate tokens).perform s).state
      = { s with env := (evaluateTokens tokens s.env).state } := by
  have hm : ((Session.onEnv (evaluateTokens tokens)).mapError Failure.escape s).state
      = { s with env := (evaluateTokens tokens s.env).state } := rfl
  rw [← hm]
  rcases h : (Session.onEnv (evaluateTokens tokens)).mapError Failure.escape s with
    ⟨s', shown, e | a⟩
  · exact congrArg Outcome.state (bind_of_error h _)
  · exact congrArg Outcome.state (bind_of_ok h _)

/-- The session after a text that did not escape is reachable too. -/
theorem Session.Reachable.execute_of_ok {may : Request → Prop} {s : Session} {text : String}
    {env : Env} {shown : List Event} {error : Option Error} (hs : Session.Reachable may s)
    (hr : may (.execute text))
    (h : evaluateTokens (tokenize text) s.env = ⟨env, shown, .ok error⟩) :
    Session.Reachable may { s with env, lastError := error } := by
  have hx : (Session.execute text).mapError Failure.escape s
      = ⟨{ s with env, lastError := error }, shown ++ if s.echo then [env.stackEvent "=> "] else [],
        .ok ()⟩ := mapError_of_ok (Session.execute_of_ok h) _
  have hp : ((Request.execute text).perform s).state = { s with env, lastError := error } :=
    congrArg Outcome.state (bind_of_ok hx _)
  exact hp ▸ hs.request hr

/-- So is the session after tokens, whose commands say what becomes of the environment. -/
theorem Session.Reachable.evaluate_of_sequence {may : Request → Prop} {s : Session}
    {tokens : List Token} {commands : List Command} {env : Env} (hs : Session.Reachable may s)
    (hr : may (.evaluate tokens)) (hc : Command.sequence tokens = commands)
    (he : ∀ inner, (reporting (.forEach (Evaluator.execute inner) commands) s.env).state = env) :
    Session.Reachable may { s with env } := by
  have hp := Request.state_perform_evaluate tokens s
  rw [evaluateTokens, nestingLimit, evaluate_succ, hc, he] at hp
  rw [← hp]
  exact hs.request hr

/-- An invariant that fresh environments have, that the tokens to be evaluated are fit for, and that
    the other requests keep holds in every session. -/
theorem Session.Reachable.invariant_of_kind {may : Request → Prop} {s : Session}
    (hs : Session.Reachable may s) (hI : Invariant kind I)
    (htext : ∀ text, Body.MadeOf kind (tokenize text)) (hfresh : I {})
    (htokens : ∀ tokens, may (.evaluate tokens) → Body.MadeOf kind tokens)
    (henv : ∀ r, may (.env r) → Keeps I r.perform) : I s.env := by
  induction hs with
  | fresh echo => exact hfresh
  | @request s r _ hr ih =>
    by_cases hp : r.isProgram = true
    · exact Request.perform_keeps hI htext hp (fun tokens he => htokens tokens (he ▸ hr)) s ih
    · cases r with
      -- Nothing is known about these requests but what is assumed.
      | env request => exact Session.onEnv_keeps (henv request hr) s ih
      | _ => exact absurd rfl hp

/-- Where all commands are considered, there is nothing to ask of tokens. -/
theorem Session.Reachable.invariant {may : Request → Prop} {s : Session}
    (hs : Session.Reachable may s) (hI : Invariant (fun _ => True) I) (hfresh : I {})
    (henv : ∀ r, may (.env r) → Keeps I r.perform) : I s.env :=
  hs.invariant_of_kind hI (fun _ _ _ => trivial) hfresh (fun _ _ _ _ => trivial) henv

end Wordstack
