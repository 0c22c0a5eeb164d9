import Wordstack.Proofs.Invariants
import Wordstack.Proofs.Showing

/-!
# The moments of an evaluation

When actions are taken one after the other, each is *reached* in the state that those before it
leave, if they all go well (`Action.Reaches`). This is how a command in a sequence is reached, and
a number in a loop. A command that is reached may *enter* a body, i.e., evaluate it: the side of a
conditional, the body of a loop for each number that is reached, the body of a word
(`Evaluator.Enters`). So it goes on, and all that happens in an evaluation, at any level, is that
commands are reached in environments. These are its *moments* (`Occurs`).

What is true of moments in general:

* An invariant that holds before the evaluation holds at each of its moments (`Occurs.invariant`).
* What an evaluation shows is what the commands of its moments show, and the errors that it reports
  are those of its moments (`mem_evaluate_iff`, `report_mem_evaluate_iff`). So nothing goes wrong
  at a level where it would not be seen.
-/

namespace Wordstack

namespace Action

variable {σ ε ε' α β : Type}

/-- The actions of the list are taken in turn, up to the one of the element, and go well. -/
inductive Reaches (f : α → Action σ ε Unit) : List α → σ → α → σ → Prop
  | head (a : α) (l : List α) (s : σ) : Reaches f (a :: l) s a s
  | tail {a b : α} {l : List α} {s s₁ s' : σ} {shown : List Event} :
      f b s = ⟨s₁, shown, .ok ()⟩ → Reaches f l s₁ a s' → Reaches f (b :: l) s a s'

variable {f : α → Action σ ε Unit} {a b : α} {l : List α} {s s' : σ}

/-- The first element is reached at once, and the others if its action goes well. -/
theorem exists_reaches_cons_of_ok {P : α → σ → Prop} {s₁ : σ} {shown : List Event}
    (h : f b s = ⟨s₁, shown, .ok ()⟩) :
    (∃ a s', Reaches f (b :: l) s a s' ∧ P a s')
      ↔ P b s ∨ ∃ a s', Reaches f l s₁ a s' ∧ P a s' := by
  constructor
  · rintro ⟨a, s', hr, hp⟩
    cases hr with
    | head => exact .inl hp
    | tail h' hr =>
      cases h.symm.trans h'
      exact .inr ⟨a, s', hr, hp⟩
  · rintro (hp | ⟨a, s', hr, hp⟩)
    · exact ⟨b, s, .head b l s, hp⟩
    · exact ⟨a, s', .tail h hr, hp⟩

theorem exists_reaches_cons_of_error {P : α → σ → Prop} {s₁ : σ} {shown : List Event} {e : ε}
    (h : f b s = ⟨s₁, shown, .error e⟩) :
    (∃ a s', Reaches f (b :: l) s a s' ∧ P a s') ↔ P b s := by
  constructor
  · rintro ⟨a, s', hr, hp⟩
    cases hr with
    | head => exact hp
    | tail h' _ => cases h.symm.trans h'
  · exact fun hp => ⟨b, s, .head b l s, hp⟩

theorem Reaches.mem (h : Reaches f l s a s') : a ∈ l := by
  induction h with
  | head => exact List.mem_cons_self
  | tail _ _ ih => exact List.mem_cons_of_mem _ ih

/-- What all the actions keep holds where an element is reached. -/
theorem Reaches.keeps {I : σ → Prop} (h : Reaches f l s a s') (hf : ∀ b ∈ l, Keeps I (f b))
    (hs : I s) : I s' := by
  induction h with
  | head => exact hs
  | @tail a b l s s₁ s' shown hb _ ih =>
    refine ih (fun c hc => hf c (List.mem_cons_of_mem b hc)) ?_
    have hk := hf b List.mem_cons_self s hs
    rwa [hb] at hk

/-- What is shown is what the elements that are reached show. -/
theorem mem_output_forEach {event : Event} :
    event ∈ (forEach f l s).output ↔ ∃ a s', Reaches f l s a s' ∧ event ∈ (f a s').output := by
  induction l generalizing s with
  | nil => exact ⟨nofun, nofun⟩
  | cons b l ih =>
    rcases hb : f b s with ⟨s₁, shown, e | ⟨⟩⟩
    -- After an error, no other element is reached.
    · rw [forEach_cons, bind_of_error hb, exists_reaches_cons_of_error hb, hb]
    · rw [forEach_cons, bind_of_ok hb, exists_reaches_cons_of_ok hb, hb, Outcome.after,
        List.mem_append, ih]

/-- The error that ends the actions is that of an element that is reached. -/
theorem result_forEach_eq_error {e : ε} :
    (forEach f l s).result = .error e
      ↔ ∃ a s', Reaches f l s a s' ∧ (f a s').result = .error e := by
  induction l generalizing s with
  | nil => exact ⟨nofun, nofun⟩
  | cons b l ih =>
    rcases hb : f b s with ⟨s₁, shown, e' | ⟨⟩⟩
    · rw [forEach_cons, bind_of_error hb, exists_reaches_cons_of_error hb, hb]
    · have hok : ((.ok () : Except ε Unit) = .error e) ↔ False := ⟨nofun, False.elim⟩
      rw [forEach_cons, bind_of_ok hb, exists_reaches_cons_of_ok hb, hb, Outcome.after, ih, hok,
        false_or]

/-- What is shown does not depend on what is made of the result. -/
theorem mapError_drop_output (m : Action σ ε α) (g : ε → ε') (s : σ) :
    ((do let _ ← m.mapError g : Action σ ε' Unit) s).output = (m s).output := by
  rcases h : m s with ⟨s', shown, e | a⟩
  · rw [mapError_drop_of_error h]
  · rw [mapError_drop_of_ok h]

/-- Only an error of the action itself makes an error of the other kind. -/
theorem mapError_drop_result_eq_error {m : Action σ ε α} {g : ε → ε'} {e' : ε'} :
    ((do let _ ← m.mapError g : Action σ ε' Unit) s).result = .error e'
      ↔ ∃ e, (m s).result = .error e ∧ g e = e' := by
  rcases h : m s with ⟨s', shown, e | a⟩
  · rw [mapError_drop_of_error h]
    simp
  · rw [mapError_drop_of_ok h]
    constructor
    · rintro ⟨⟩
    · rintro ⟨e, ⟨⟩, -⟩

end Action

open Wordstack.Action Env

/-- The command shows the event itself, and not through a body that it enters. -/
inductive Env.Shows (env : Env) : Command → Event → Prop
  | say (s : String) : Shows env (.say (.ok s)) (.text s)
  | builtin {t : Token} {b : Builtin} {event : Event} :
      env.meaning t = .ok (.builtin b) → event ∈ (b.run env).output → Shows env (.word t) event

theorem Env.Shows.displays {env : Env} {c : Command} {event : Event} (h : env.Shows c event) :
    env.Displays event := by
  cases h with
  | say s => exact .text s
  | builtin _ he => exact Builtin.run_displays _ env event he

namespace Evaluator

/-- The command, carried out in the environment, evaluates the body in the other environment. -/
inductive Enters (inner : Evaluator) (env : Env) : Command → Body → Env → Prop
  | whenTrue {branches : Branches} {condition : Int} {stack : List Int} :
      env.stack = condition :: stack → condition ≠ 0 → branches.whenTrue ≠ [] →
      branches.whenFalse ≠ some [] →
      Enters inner env (.conditional (.ok branches)) branches.whenTrue { env with stack }
  | whenFalse {whenTrue body : Body} {stack : List Int} :
      env.stack = 0 :: stack → whenTrue ≠ [] → body ≠ [] →
      Enters inner env (.conditional (.ok ⟨whenTrue, some body⟩)) body { env with stack }
  /-- A loop enters its body for each number that it reaches. -/
  | round {body : Body} {last first v : Int} {stack : List Int} {env' : Env} :
      body ≠ [] → env.stack = last :: first :: stack →
      Reaches (iterate inner body) (consecutive first (last - first).toNat) { env with stack }
        v env' →
      Enters inner env (.loop (.ok body)) body
        { env' with registers := env'.registers.insert counter v }
  | call {t word : Token} {body : Body} :
      env.meaning t = .ok (.call word body) → Enters inner env (.word t) body env

variable {inner : Evaluator} {env : Env} {e : Error} {event : Event}

theorem enter_output (body : Body) (env : Env) :
    (enter inner body env).output = (inner body env).output :=
  mapError_drop_output (inner body) Halt.escape env

theorem call_output (word : Token) (body : Body) (env : Env) :
    (call inner word body env).output = (inner body env).output :=
  mapError_drop_output (inner body) (Halt.ofCall word) env

theorem iterate_output (body : Body) (v : Int) (env : Env) :
    (iterate inner body v env).output
      = (inner body { env with registers := env.registers.insert counter v }).output :=
  enter_output body { env with registers := env.registers.insert counter v }

/-- A conditional that enters a side is that evaluation. -/
theorem Enters.choose_eq {branches : Except Halt Branches} {body : Body} {env' : Env}
    (he : Enters inner env (.conditional branches) body env') :
    choose inner branches env = enter inner body env' := by
  cases he with
  | whenTrue hs hc ht hf =>
    rw [choose_ok_of_cons hs, follow, if_neg ht, if_neg hf, if_pos hc]
  | whenFalse hs ht hf =>
    have hf' : some body ≠ some [] := fun h => hf (Option.some.inj h)
    rw [choose_ok_of_cons hs, follow, if_neg ht, if_neg hf', if_neg (by decide)]

/-- A conditional that enters no side shows nothing, and neither does it escape, unless it was read
    badly. -/
theorem choose_cases (branches : Except Halt Branches) :
    (∃ env' r, choose inner branches env = ⟨env', [], r⟩ ∧
        ∀ x, r = .error (.escape x) → branches = .error (.escape x)) ∨
      ∃ body env', Enters inner env (.conditional branches) body env' := by
  rcases hs : env.stack with _ | ⟨condition, stack⟩
  · exact .inl ⟨_, _, choose_of_nil hs _, nofun⟩
  · rcases branches with h | ⟨whenTrue, whenFalse⟩
    · refine .inl ⟨_, _, choose_error_of_cons hs h, ?_⟩
      rintro x ⟨⟩
      rfl
    · by_cases ht : whenTrue = []
      · refine .inl ⟨{ env with stack }, .error (.fault (.malformed .emptyBranch)), ?_, nofun⟩
        rw [choose_ok_of_cons hs, follow, if_pos ht]
        rfl
      · by_cases hf : whenFalse = some []
        · refine .inl
            ⟨{ env with stack }, .error (.fault (.malformed .emptyAlternative)), ?_, nofun⟩
          rw [choose_ok_of_cons hs, follow, if_neg ht, if_pos hf]
          rfl
        · by_cases hc : condition = 0
          · subst hc
            cases whenFalse with
            | none =>
              refine .inl ⟨{ env with stack }, .ok (), ?_, nofun⟩
              rw [choose_ok_of_cons hs, follow, if_neg ht, if_neg hf, if_neg (by decide)]
              rfl
            | some body =>
              exact .inr ⟨_, _, .whenFalse hs ht fun hb => hf (congrArg some hb)⟩
          · exact .inr ⟨_, _, .whenTrue hs hc ht hf⟩

/-- A conditional shows what is shown in the side that it enters. -/
theorem mem_choose_iff (branches : Except Halt Branches) :
    event ∈ (choose inner branches env).output
      ↔ ∃ body env', Enters inner env (.conditional branches) body env' ∧
          event ∈ (inner body env').output := by
  constructor
  · intro hm
    rcases choose_cases branches with ⟨env', r, hr, -⟩ | ⟨body, env', he⟩
    · rw [hr] at hm
      cases hm
    · rw [he.choose_eq, enter_output] at hm
      exact ⟨body, env', he, hm⟩
  · rintro ⟨body, env', he, hm⟩
    rw [he.choose_eq, enter_output]
    exact hm

/-- Without a body or two bounds, a loop shows nothing, and neither does it escape, unless it was
    read badly. -/
theorem repeatBody_cases (body : Except Halt Body) :
    (∃ env' r, repeatBody inner body env = ⟨env', [], r⟩ ∧
        ∀ x, r = .error (.escape x) → body = .error (.escape x)) ∨
      ∃ b last first stack, body = .ok b ∧ b ≠ [] ∧ env.stack = last :: first :: stack := by
  rcases body with h | b
  · refine .inl ⟨_, _, repeatBody_error h env, ?_⟩
    rintro x ⟨⟩
    rfl
  · by_cases hb : b = []
    · subst hb
      exact .inl ⟨_, _, repeatBody_empty env, nofun⟩
    · rcases hs : env.stack with _ | ⟨last, _ | ⟨first, stack⟩⟩
      · exact .inl ⟨_, _, repeatBody_of_nil hb hs, nofun⟩
      · exact .inl ⟨_, _, repeatBody_of_singleton hb hs, nofun⟩
      · exact .inr ⟨b, last, first, stack, rfl, hb, rfl⟩

/-- A loop shows what is shown in its rounds. -/
theorem mem_repeatBody_iff (body : Except Halt Body) :
    event ∈ (repeatBody inner body env).output
      ↔ ∃ body' env', Enters inner env (.loop body) body' env' ∧
          event ∈ (inner body' env').output := by
  constructor
  · intro hm
    rcases repeatBody_cases body with ⟨env', r, hr, -⟩ | ⟨b, last, first, stack, rfl, hb, hs⟩
    · rw [hr] at hm
      cases hm
    · rw [repeatBody_of_cons hb hs, forCount_eq_forEach] at hm
      obtain ⟨v, env', hv, he⟩ := mem_output_forEach.1 hm
      rw [iterate_output] at he
      exact ⟨b, _, .round hb hs hv, he⟩
  · rintro ⟨body', env', he, hm⟩
    cases he with
    | round hb hs hv =>
      rw [repeatBody_of_cons hb hs, forCount_eq_forEach]
      refine mem_output_forEach.2 ⟨_, _, hv, ?_⟩
      rw [iterate_output]
      exact hm

/-- A word shows what its builtin shows or what is shown in its body. -/
theorem mem_perform_iff (t : Token) :
    event ∈ (perform inner t env).output
      ↔ env.Shows (.word t) event ∨
        ∃ body env', Enters inner env (.word t) body env' ∧ event ∈ (inner body env').output := by
  constructor
  · rcases hm : env.meaning t with h | v | b | ⟨word, body⟩ | r
    · rw [perform_of_error hm]
      exact nofun
    · rw [perform_of_value hm]
      exact nofun
    · rw [perform_of_builtin hm]
      exact fun he => .inl (.builtin hm he)
    · rw [perform_of_call hm, call_output]
      exact fun he => .inr ⟨body, env, .call hm, he⟩
    · rw [perform_of_reference hm]
      exact nofun
  · rintro (hs | ⟨body, env', he, hr⟩)
    · cases hs with
      | builtin hm he =>
        rw [perform_of_builtin hm]
        exact he
    · cases he with
      | call hm =>
        rw [perform_of_call hm, call_output]
        exact hr

/-- The plus sign never means a word with a body: the builtin of the name hides it. -/
theorem meaning_plus (env : Env) :
    (∃ v, env.meaning "+" = .ok (.value v)) ∨ env.meaning "+" = .ok (.builtin .add) := by
  cases hv : env.registers.get? "+" with
  | some v => exact .inl ⟨v, meaning_of_register hv⟩
  | none => exact .inr (meaning_of_builtin hv rfl)

/-- Besides, the registers decide which of the two it is. -/
theorem meaning_plus_of_registers {env env' : Env} (h : env'.registers = env.registers) :
    env'.meaning "+" = env.meaning "+" := by
  cases hv : env.registers.get? "+" with
  | some v => rw [meaning_of_register hv, meaning_of_register (h ▸ hv)]
  | none => rw [meaning_of_builtin hv rfl, meaning_of_builtin (h ▸ hv) rfl]

theorem meaning_plus_ne_call (env : Env) (word : Token) (body : Body) :
    env.meaning "+" ≠ .ok (.call word body) := by
  intro hm
  rcases meaning_plus env with ⟨v, hv⟩ | hb
  · cases hv.symm.trans hm
  · cases hb.symm.trans hm

/-- The plus sign shows nothing, as it chooses a cell or adds. -/
theorem plus_showsOnly {Q : Event → Prop} : ShowsOnly Q (plus inner) := by
  intro env event he
  by_cases hr : ∃ name, env.Chooses name
  · obtain ⟨name, hr⟩ := hr
    rw [plus_of_chooses hr] at he
    exact (chooseCell_showsOnly name).lift env event he
  · rw [plus_of_not_chooses hr, mem_perform_iff] at he
    rcases he with hs | ⟨body, env', he, -⟩
    · cases hs with
      | builtin hm he =>
        rcases meaning_plus env with ⟨v, hv⟩ | hb
        · cases hv.symm.trans hm
        · cases hb.symm.trans hm
          exact Builtin.binary_showsOnly _ _ env event he
    · cases he with
      | call hm => exact absurd hm (meaning_plus_ne_call env _ _)

/-- A command shows what it shows itself and what is shown in the bodies that it enters. -/
theorem mem_execute_iff (c : Command) :
    event ∈ (execute inner c env).output
      ↔ env.Shows c event ∨
        ∃ body env', Enters inner env c body env' ∧ event ∈ (inner body env').output := by
  -- Most commands show nothing and enter nothing.
  have quiet {c : Command} (hc : ShowsOnly (fun _ => False) (execute inner c))
      (hs : ¬env.Shows c event) (hn : ∀ body env', ¬Enters inner env c body env') :
      event ∈ (execute inner c env).output
        ↔ env.Shows c event ∨
          ∃ body env', Enters inner env c body env' ∧ event ∈ (inner body env').output :=
    ⟨fun h => (hc env event h).elim, fun h => h.elim (absurd · hs) fun ⟨_, _, h, _⟩ =>
      absurd h (hn _ _)⟩
  cases c with
  | conditional branches =>
    exact (mem_choose_iff branches).trans ⟨.inr, fun h => h.elim nofun id⟩
  | loop body => exact (mem_repeatBody_iff body).trans ⟨.inr, fun h => h.elim nofun id⟩
  | word t => exact mem_perform_iff t
  | say text =>
    cases text with
    | error h => exact quiet (showsOnly_fail h) nofun nofun
    | ok s =>
      refine ⟨fun h => .inl ?_, fun h => ?_⟩
      · obtain rfl := List.mem_singleton.1 h
        exact .say s
      · rcases h with hs | ⟨_, _, he, _⟩
        · cases hs
          exact List.mem_singleton.2 rfl
        · cases he
  | define definition =>
    exact quiet ((showsOnly_ofExcept _).bind fun _ => showsOnly_modify _) nofun nofun
  | declare name =>
    exact quiet ((showsOnly_ofExcept _).bind fun name => (declare_showsOnly name).lift) nofun nofun
  | nameConstant name =>
    exact quiet ((showsOnly_ofExcept _).bind fun name => (nameConstant_showsOnly name).lift) nofun
      nofun
  | fetch => exact quiet fetch_showsOnly.lift nofun nofun
  | store => exact quiet store_showsOnly.lift nofun nofun
  | cells =>
    exact quiet ((showsOnly_query _).mapError _ |>.bind fun _ => showsOnly_pure _) nofun nofun
  | allot => exact quiet allot_showsOnly.lift nofun nofun
  | plus => exact quiet plus_showsOnly nofun nofun

/-- A command reports what is reported in the bodies that it enters. -/
theorem report_mem_execute_iff (c : Command) :
    .report e ∈ (execute inner c env).output
      ↔ ∃ body env', Enters inner env c body env' ∧ .report e ∈ (inner body env').output :=
  (mem_execute_iff c).trans ⟨fun h => h.resolve_left fun hs => (nomatch hs.displays), .inr⟩

variable {kind : Command → Prop} {I : Env → Prop} {c : Command} {body : Body} {env' : Env}

theorem Enters.madeOf (he : Enters inner env c body env') (hk : Hereditary kind I) (hc : kind c)
    (h : I env) : body.MadeOf kind := by
  cases he with
  | whenTrue => exact (hk.sides hc).1
  | whenFalse => exact (hk.sides hc).2 body rfl
  | round => exact hk.rounds hc
  | call hm => exact hk.words h (get?_of_meaning hm)

/-- A property that bears the changes of commands and the numbers of loops holds where a body is
    entered. -/
theorem Enters.keeps (he : Enters inner env c body env') (hI : Invariant kind I)
    (hinner : Keeps I (inner body)) (h : I env) : I env' := by
  -- The operands that a body is entered with are what is left of those before.
  have drop (stack' : List Int) {stack : List Int} (hs : env.stack = stack' ++ stack) :
      I { env with stack } := by
    refine hI.change (.stack fun v hv => .inl ?_) h
    rw [hs]
    exact List.mem_append_right stack' hv
  cases he with
  | @whenTrue _ condition _ hs => exact drop [condition] hs
  | whenFalse hs => exact drop [0] hs
  | @round _ last first v stack env₁ _ hs hv =>
    -- The rounds before this one had numbers between the bounds, and so has this one.
    have h₁ : I env₁ := hv.keeps (fun w hw => iterate_keeps hI hinner h hs hw)
      (drop [last, first] hs)
    have hmem := mem_consecutive.1 hv.mem
    exact hI.count h hs hmem.1 (by omega) h₁
  | call => exact h

end Evaluator

open Evaluator

/-! ## Moments -/

/-- A command that is about to be carried out, with so many levels for what it enters. -/
structure Moment where
  depth : Nat
  command : Command
  env : Env

/-- What becomes of the command. -/
def Moment.outcome (m : Moment) : Outcome Env Halt Unit :=
  execute (evaluate m.depth) m.command m.env

/-- The moment occurs when the tokens are evaluated, with so many levels, in the environment. -/
inductive Occurs : Nat → List Token → Env → Moment → Prop
  /-- A command of the tokens themselves. -/
  | here {depth : Nat} {tokens : List Token} {env env' : Env} {c : Command} :
      Reaches (execute (evaluate depth)) (Command.sequence tokens) env c env' →
      Occurs (depth + 1) tokens env ⟨depth, c, env'⟩
  /-- A moment of a body that is entered. -/
  | within {depth : Nat} {tokens : List Token} {env env₁ env₂ : Env} {c : Command} {body : Body}
      {m : Moment} :
      Reaches (execute (evaluate depth)) (Command.sequence tokens) env c env₁ →
      Enters (evaluate depth) env₁ c body env₂ → Occurs depth body env₂ m →
      Occurs (depth + 1) tokens env m

variable {kind : Command → Prop} {I : Env → Prop} {depth : Nat} {tokens : List Token} {env : Env}
  {m : Moment}

/-- An invariant holds throughout the evaluation of tokens of the kind, at every level, and only
    commands of the kind are carried out. -/
theorem Occurs.kind_and_invariant (hm : Occurs depth tokens env m) (hI : Invariant kind I)
    (ht : Body.MadeOf kind tokens) (h : I env) : kind m.command ∧ I m.env := by
  induction hm with
  | @here depth _ _ _ c hr =>
    exact ⟨ht c hr.mem, hr.keeps (fun c hc => hI.keeps depth (ht c hc)) h⟩
  | @within depth _ _ _ _ c _ _ hr he _ ih =>
    have h₁ := hr.keeps (fun c hc => hI.keeps depth (ht c hc)) h
    have hb := he.madeOf hI.toHereditary (ht c hr.mem) h₁
    exact ih hb (he.keeps hI (evaluate_keeps hI depth hb) h₁)

/-- An invariant of all commands holds throughout an evaluation, at every level. -/
theorem Occurs.invariant (hm : Occurs depth tokens env m) (hI : Invariant (fun _ => True) I)
    (h : I env) : I m.env :=
  (hm.kind_and_invariant hI (fun _ _ => trivial) h).2

/-- The command of a moment is one of those of some tokens. -/
theorem Occurs.mem_sequence (hm : Occurs depth tokens env m) :
    ∃ tokens, m.command ∈ Command.sequence tokens := by
  induction hm with
  | here hr => exact ⟨_, hr.mem⟩
  | within _ _ _ ih => exact ih

/-- An evaluation shows what its commands show, and the error that ends it. -/
theorem mem_reporting_iff {action : Action Env Halt Unit} {event : Event} :
    event ∈ (reporting action env).output
      ↔ event ∈ (action env).output ∨
        ∃ e, event = .report e ∧ (action env).result = .error (.fault e) := by
  rcases hs : action env with ⟨env', shown, (e' | x) | ⟨⟩⟩
  · rw [reporting_of_fault hs]
    simp
  · rw [reporting_of_escape hs]
    simp
  · rw [reporting_of_ok hs]
    simp

/-- What is shown in an evaluation is what the commands of its moments show, and what goes wrong
    with them. -/
theorem mem_evaluate_iff {event : Event} :
    event ∈ (evaluate depth tokens env).output
      ↔ ∃ m, Occurs depth tokens env m ∧
          (m.env.Shows m.command event ∨
            ∃ e, event = .report e ∧ m.outcome.result = .error (.fault e)) := by
  induction depth generalizing tokens env with
  | zero => exact ⟨nofun, nofun⟩
  | succ depth ih =>
    simp only [evaluate_succ, mem_reporting_iff, mem_output_forEach, result_forEach_eq_error]
    -- Either a command of this level shows it, or a body one level down, or it ends this level.
    constructor
    · rintro (⟨c, env₁, hr, he⟩ | ⟨e, rfl, c, env₁, hr, he⟩)
      · rcases (mem_execute_iff c).1 he with hs | ⟨body, env₂, hb, he⟩
        · exact ⟨⟨depth, c, env₁⟩, .here hr, .inl hs⟩
        · obtain ⟨m, hm, he⟩ := ih.1 he
          exact ⟨m, .within hr hb hm, he⟩
      · exact ⟨⟨depth, c, env₁⟩, .here hr, .inr ⟨e, rfl, he⟩⟩
    · rintro ⟨m, hm, he⟩
      cases hm with
      | here hr =>
        rcases he with hs | ⟨e, rfl, he⟩
        · exact .inl ⟨_, _, hr, (mem_execute_iff _).2 (.inl hs)⟩
        · exact .inr ⟨e, rfl, _, _, hr, he⟩
      | within hr hb hm =>
        exact .inl ⟨_, _, hr, (mem_execute_iff _).2 (.inr ⟨_, _, hb, ih.2 ⟨m, hm, he⟩⟩)⟩

/-- What is reported in an evaluation is what goes wrong at its moments. -/
theorem report_mem_evaluate_iff {e : Error} :
    .report e ∈ (evaluate depth tokens env).output
      ↔ ∃ m, Occurs depth tokens env m ∧ m.outcome.result = .error (.fault e) := by
  rw [mem_evaluate_iff]
  refine exists_congr fun m => and_congr_right fun _ => ⟨?_, fun he => .inr ⟨e, rfl, he⟩⟩
  rintro (hs | ⟨e', he', he⟩)
  · exact nomatch hs.displays
  · cases he'
    exact he

end Wordstack
