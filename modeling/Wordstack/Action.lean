import Wordstack.Event

/-!
# Actions

An *action* on a state changes it, shows events, and ends with a value or an error. What it did
to the state and what it showed stand whether it ends well or not: an error undoes nothing. The
events of an action are its own only; when actions follow each other, so do their events
(`bind_of_ok`), and after an error no further action is taken (`bind_of_error`).

Two ways to combine actions go beyond that. `ensuring` mends the state at the end, however the
action ends. `forEach` takes an action for each element of a list in turn, up to the first error
(`forEach_cons`); it keeps what was shown in reverse, so that a long list costs no depth.
-/

namespace Wordstack

/-- What has become of an action. -/
structure Outcome (σ ε α : Type) where
  /-- The state at the end. -/
  state : σ
  /-- What was shown, in order. -/
  output : List Event
  /-- How the action ended. -/
  result : Except ε α

/-- A change of the state that may show something and may fail. -/
def Action (σ ε α : Type) : Type :=
  σ → Outcome σ ε α

/-- The outcome with more shown before. -/
def Outcome.after {σ ε α : Type} (shown : List Event) (o : Outcome σ ε α) : Outcome σ ε α :=
  { o with output := shown ++ o.output }

namespace Action

variable {σ τ ε ε' α β : Type}

/-! ## Simple actions -/

/-- Takes the second action with the value of the first, if that has one. -/
@[inline] protected def bind (m : Action σ ε α) (f : α → Action σ ε β) : Action σ ε β := fun s =>
  match m s with
  | ⟨s', shown, .ok a⟩ => (f a s').after shown
  | ⟨s', shown, .error e⟩ => ⟨s', shown, .error e⟩

instance : Monad (Action σ ε) where
  pure a := fun s => ⟨s, [], .ok a⟩
  bind := Action.bind

/-- The state. -/
@[inline] def state : Action σ ε σ := fun s => ⟨s, [], .ok s⟩

/-- Changes the state. -/
@[inline] def modify (f : σ → σ) : Action σ ε Unit := fun s => ⟨f s, [], .ok ()⟩

/-- What can be told of the state. -/
@[inline] def query (f : σ → Except ε α) : Action σ ε α := fun s => ⟨s, [], f s⟩

/-- Changes the state, unless the change is impossible. -/
@[inline] def update (f : σ → Except ε σ) : Action σ ε Unit := fun s =>
  match f s with
  | .ok s' => ⟨s', [], .ok ()⟩
  | .error e => ⟨s, [], .error e⟩

/-- Shows an event. -/
@[inline] def emit (event : Event) : Action σ ε Unit := fun s => ⟨s, [event], .ok ()⟩

/-- Fails. -/
@[inline] def fail (e : ε) : Action σ ε α := fun s => ⟨s, [], .error e⟩

/-- Ends as the value or the error says. -/
@[inline] def ofExcept (r : Except ε α) : Action σ ε α := fun s => ⟨s, [], r⟩

/-! ## Actions made of actions -/

/-- Makes something else of an error. -/
@[inline] def mapError (f : ε → ε') (m : Action σ ε α) : Action σ ε' α := fun s =>
  match m s with
  | ⟨s', shown, r⟩ => ⟨s', shown, r.mapError f⟩

/-- Mends the state at the end, be it good or bad. -/
@[inline] def ensuring (m : Action σ ε α) (mend : σ → σ) : Action σ ε α := fun s =>
  match m s with
  | ⟨s', shown, r⟩ => ⟨mend s', shown, r⟩

/-- Acts on a part of the state. -/
@[inline] def onPart (get : σ → τ) (set : τ → σ → σ) (m : Action τ ε α) : Action σ ε α := fun s =>
  match m (get s) with
  | ⟨t, shown, r⟩ => ⟨set t s, shown, r⟩

instance : MonadLift (Action σ Error) (Action σ Halt) := ⟨mapError .fault⟩

instance : MonadLift (Action σ Escape) (Action σ Halt) := ⟨mapError .escape⟩

/-- Takes the actions of the elements after others that have shown something, latest first. -/
def forEachAfter (f : α → Action σ ε Unit) : List Event → List α → Action σ ε Unit
  | shown, [], s => ⟨s, shown.reverse, .ok ()⟩
  | shown, a :: l, s =>
    match f a s with
    | ⟨s', new, .ok ()⟩ => forEachAfter f (new.reverse ++ shown) l s'
    | ⟨s', new, .error e⟩ => ⟨s', (new.reverse ++ shown).reverse, .error e⟩

/-- Takes the action of each element in turn. -/
def forEach (f : α → Action σ ε Unit) (l : List α) : Action σ ε Unit :=
  forEachAfter f [] l

/-! ## One after the other -/

theorem pure_apply (a : α) (s : σ) : (pure a : Action σ ε α) s = ⟨s, [], .ok a⟩ := rfl

theorem bind_apply (m : Action σ ε α) (f : α → Action σ ε β) (s : σ) :
    (m >>= f) s =
      match m s with
      | ⟨s', shown, .ok a⟩ => (f a s').after shown
      | ⟨s', shown, .error e⟩ => ⟨s', shown, .error e⟩ := rfl

theorem bind_of_ok {m : Action σ ε α} {s s' : σ} {shown : List Event} {a : α}
    (h : m s = ⟨s', shown, .ok a⟩) (f : α → Action σ ε β) :
    (m >>= f) s = (f a s').after shown := by
  rw [bind_apply, h]

theorem bind_of_error {m : Action σ ε α} {s s' : σ} {shown : List Event} {e : ε}
    (h : m s = ⟨s', shown, .error e⟩) (f : α → Action σ ε β) :
    (m >>= f) s = ⟨s', shown, .error e⟩ := by
  rw [bind_apply, h]

@[simp] theorem after_nil (o : Outcome σ ε α) : o.after [] = o := rfl

@[simp] theorem after_after (o : Outcome σ ε α) (shown shown' : List Event) :
    (o.after shown').after shown = o.after (shown ++ shown') := by
  simp [Outcome.after]

theorem bind_pure_eq (m : Action σ ε α) : (m >>= fun a => pure a) = m := by
  funext s
  rw [bind_apply]
  rcases m s with ⟨s', shown, _ | a⟩
  · rfl
  · simp [pure_apply, Outcome.after]

theorem bind_bind_eq {γ : Type} (m : Action σ ε α) (f : α → Action σ ε β)
    (g : β → Action σ ε γ) : (m >>= f >>= g) = (m >>= fun a => f a >>= g) := by
  funext s
  rw [bind_apply, bind_apply, bind_apply]
  rcases m s with ⟨s', shown, _ | a⟩
  · rfl
  · simp only [bind_apply]
    rcases f a s' with ⟨s'', shown', _ | b⟩
    · rfl
    · simp [Outcome.after]

/-- It does not matter how a sequence of actions is put in parentheses. -/
instance : LawfulMonad (Action σ ε) :=
  .mk' _ bind_pure_eq (fun _ _ => rfl) bind_bind_eq

/-! ## Through a list -/

/-- The accumulated events come before those of the actions still to be taken. -/
theorem forEachAfter_eq (f : α → Action σ ε Unit) (shown : List Event) (l : List α) (s : σ) :
    forEachAfter f shown l s = (forEach f l s).after shown.reverse := by
  induction l generalizing shown s with
  | nil => simp [forEach, forEachAfter, Outcome.after]
  | cons a l ih =>
    rw [forEach, forEachAfter, forEachAfter]
    rcases f a s with ⟨s', new, _ | _⟩
    · simp [Outcome.after]
    · simp only
      rw [ih, ih (new.reverse ++ [])]
      simp

@[simp] theorem forEach_nil (f : α → Action σ ε Unit) : forEach f [] = pure () := rfl

/-- For a list with a first element, its action comes first and the others follow. -/
@[simp] theorem forEach_cons (f : α → Action σ ε Unit) (a : α) (l : List α) :
    forEach f (a :: l) = (do f a; forEach f l) := by
  funext s
  rw [bind_apply, forEach, forEachAfter]
  rcases f a s with ⟨s', new, _ | _⟩
  · simp
  · simp [forEachAfter_eq]

/-- The actions of a list that goes on are taken when those of its beginning have been. -/
theorem forEach_append (f : α → Action σ ε Unit) (l l' : List α) :
    forEach f (l ++ l') = (do forEach f l; forEach f l') := by
  induction l with
  | nil => simp
  | cons a l ih => simp [ih]

end Action

end Wordstack
