import Mathlib
import Wordstack.Proofs.Expressions
import Wordstack.Proofs.Ranges

/-!
# Arrays as functions

A program writes a cell of an array through a reference, which speaks of the first cell until a plus
sign chooses another, and which need not be within the array before it is used. What comes of this
is what one expects of an array: it is a function from positions to values, a write within the array
changes the function at one position, and a write outside of it changes nothing and is an error
(`evaluate_write`). So after any number of programs that write, every array is the function that
the writes make of it, in their order (`evaluate_writes`); all else is as before.

The references that waited before stay where they are: each program leaves as many as it found. An
operand stays on the stack if no cell took it.
-/

namespace Wordstack

open Wordstack.Action Env Evaluator

/-! ## Functional arrays -/

/-- A value that is to be written at a position of an array. -/
structure Write where
  name : Token
  position : Int
  value : Int

namespace Write

/-- The position is one of an array of so many cells. -/
def Within (w : Write) (n : Nat) : Prop :=
  0 ≤ w.position ∧ w.position < n

instance (w : Write) (n : Nat) : Decidable (w.Within n) :=
  inferInstanceAs (Decidable (_ ∧ _))

/-- The function with the value at the position, if there is such a position. -/
def apply (w : Write) {n : Nat} (f : Fin n → Int) : Fin n → Int :=
  if h : w.Within n then
    Function.update f ⟨w.position.toNat, by have := h.1; have := h.2; omega⟩ w.value
  else f

/-- The error of a write to a position that an array of so many cells does not have. -/
def refusal (w : Write) (n : Nat) : Error :=
  .storage (.notStored w.name (.outOfRange w.position n))

end Write

/-- What the writes, in their order, make of the array of the name. -/
def writeAll (writes : List Write) (name : Token) {n : Nat} (f : Fin n → Int) : Fin n → Int :=
  (writes.filter (·.name = name)).foldl (fun f w => w.apply f) f

/-- The value of the last write to the cell, if there is one. -/
def lastWritten? (writes : List Write) (name : Token) (position : Int) : Option Int :=
  (writes.filter fun w => w.name = name ∧ w.position = position).getLast?.map Write.value

variable {w : Write} {writes : List Write} {name : Token} {n : Nat} {f : Fin n → Int}

theorem Write.apply_of_not_within (h : ¬w.Within n) : w.apply f = f :=
  dif_neg h

theorem Write.apply_apply (w : Write) (f : Fin n → Int) (i : Fin n) :
    w.apply f i = if w.position = i then w.value else f i := by
  rw [apply]
  split
  · next h =>
    rw [Function.update_apply]
    refine if_congr ?_ rfl rfl
    rw [Fin.ext_iff]
    have := h.1
    simp only
    omega
  · next h =>
    have hi : w.position ≠ i := fun hi => h ⟨by omega, by omega⟩
    rw [if_neg hi]

theorem writeAll_append (writes writes' : List Write) (name : Token) (f : Fin n → Int) :
    writeAll (writes ++ writes') name f = writeAll writes' name (writeAll writes name f) := by
  rw [writeAll, List.filter_append, List.foldl_append]
  rfl

theorem writeAll_singleton (w : Write) (name : Token) (f : Fin n → Int) :
    writeAll [w] name f = if w.name = name then w.apply f else f := by
  by_cases h : w.name = name <;> simp [writeAll, h]

/-- In each cell the last write to it wins. -/
theorem writeAll_apply (writes : List Write) (name : Token) (f : Fin n → Int) (i : Fin n) :
    writeAll writes name f i = (lastWritten? writes name i).getD (f i) := by
  induction writes using List.reverseRecOn with
  | nil => rfl
  | append_singleton writes w ih =>
    rw [writeAll_append, writeAll_singleton, lastWritten?, List.filter_append,
      List.filter_singleton]
    by_cases hname : w.name = name
    · rw [if_pos hname, w.apply_apply, ih]
      by_cases hi : w.position = i
      · simp [hname, hi]
      · simp [hi, lastWritten?]
    · simp [hname, ih, lastWritten?]

/-- As a list of cells, a write sets the cell. -/
theorem set_ofFn (f : Fin n → Int) (i : Fin n) (v : Int) :
    (List.ofFn f).set i v = List.ofFn (Function.update f i v) := by
  refine List.ext_getElem (by simp) fun j hj hj' => ?_
  simp [List.getElem_set, Function.update_apply, Fin.ext_iff, eq_comm]

theorem slot_of_within (h : w.Within n) {env : Env}
    (hs : env.storage.get? w.name = some (.array (List.ofFn f))) :
    ∃ s, env.slot w.name w.position = .ok s ∧ s.set w.value = List.ofFn (w.apply f) := by
  refine ⟨_, slot_of_inside hs ⟨h.1, by rw [List.length_ofFn]; exact h.2⟩, ?_⟩
  rw [Write.apply, dif_pos h, ← set_ofFn]
  rfl

theorem slot_of_not_within (h : ¬w.Within n) {env : Env}
    (hs : env.storage.get? w.name = some (.array (List.ofFn f))) :
    env.slot w.name w.position = .error (.outOfRange w.position n) := by
  have hout : ¬(0 ≤ w.position ∧ w.position < (List.ofFn f).length) := by
    rw [List.length_ofFn]
    exact h
  have hslot := slot_of_outside hs hout
  rwa [List.length_ofFn] at hslot

theorem stored?_of_ofFn {env : Env} (hs : env.storage.get? name = some (.array (List.ofFn f)))
    (i : Fin n) : env.stored? (.toCell name i) = some (f i) := by
  simp [stored?, Reference.toCell, hs]

/-! ## Programs that write -/

/-- The name means a reference to an array, wherever it stands. -/
structure Env.NamesArray (env : Env) (name : Token) : Prop where
  visible : Text.isBlankText name = false
  not_form : name ∉ Command.formNames
  meaning_eq : env.meaning name = .ok (.reference (.toCell name 0))

/-- Tokens that speak of a cell of an array: a numeral for the position and the name of the array,
    in either order, and a plus sign. -/
inductive Address (name : Token) (position : Int) : List Token → Prop
  | positionFirst {t : Token} :
      parseNumber t = .ok (some position) → Address name position [t, name, "+"]
  | nameFirst {t : Token} :
      parseNumber t = .ok (some position) → Address name position [name, t, "+"]

/-- A program for a write: a numeral for the value, tokens that speak of the cell, and a store. -/
inductive Write.Program (w : Write) : List Token → Prop
  | intro {t : Token} {address : List Token} :
      parseNumber t = .ok (some w.value) → Address w.name w.position address →
      Program w (t :: (address ++ ["!"]))

namespace Env

variable {env env' : Env}

/-- Where a name means an array, there is one. -/
theorem NamesArray.exists_cells (h : env.NamesArray name) :
    ∃ (n : Nat) (f : Fin n → Int), env.storage.get? name = some (.array (List.ofFn f)) := by
  obtain ⟨x, hx, hr⟩ := Option.map_eq_some_iff.1 (reference?_of_meaning h.meaning_eq)
  cases x with
  | scalar v => cases hr
  | array cells => exact ⟨cells.length, cells.get, by rw [List.ofFn_get, hx]⟩

/-- The name means a reference, whatever the operands and the references are. -/
theorem NamesArray.run_name (h : env.NamesArray name) (inner : Evaluator) (rest : List Token) :
    run inner (name :: rest) env
      = run inner rest { env with references := .toCell name 0 :: env.references } := by
  rw [run_cons h.visible, Command.read_of_not_mem h.not_form]
  exact bind_of_ok (perform_of_reference h.meaning_eq) _

theorem run_plus {position : Int} {stack : List Int} (h : env.Chooses name)
    (hs : env.stack = position :: stack) (inner : Evaluator) (rest : List Token) :
    run inner ("+" :: rest) env
      = run inner rest
          { env with stack, references := .toCell name position :: env.references.tail } := by
  rw [run_cons (by decide)]
  exact bind_of_ok ((plus_of_chooses h).trans (lift_of_ok (chooseCell_of_cons hs name))) _

/-- Tokens that speak of a cell leave a reference to it, and nothing else. -/
theorem Plain.run_address (h : env.Plain) (hn : env.NamesArray name) {position : Int}
    {address : List Token} (ha : Address name position address) (depth : Nat)
    (rest : List Token) :
    run (evaluate depth) (address ++ rest) env
      = run (evaluate depth) rest
          { env with references := .toCell name position :: env.references } := by
  -- What is on the stacks does not matter for the meaning of the name.
  have hn' (stack : List Int) : NamesArray { env with stack } name :=
    ⟨hn.visible, hn.not_form, hn.meaning_eq⟩
  have hplain : Plain { env with references := .toCell name 0 :: env.references } :=
    ⟨h.words, h.registers⟩
  cases ha with
  | positionFirst hp =>
    simp only [List.cons_append, List.nil_append]
    rw [h.run_numeral hp, (hn' _).run_name, run_plus ⟨0, _, rfl⟩ rfl]
    rfl
  | nameFirst hp =>
    simp only [List.cons_append, List.nil_append]
    rw [hn.run_name, hplain.run_numeral hp, run_plus ⟨0, _, rfl⟩ rfl]
    rfl

end Env

/-! ## One write -/

variable {env env' : Env} {tokens : List Token}

/-- The environment in which the value is on top, and the cell is spoken of. -/
def Write.ready (w : Write) (env : Env) : Env :=
  { env with
    stack := w.value :: env.stack
    references := .toCell w.name w.position :: env.references }

/-- A program for a write comes to a store. -/
theorem Env.Plain.run_program (h : env.Plain) (hn : env.NamesArray w.name)
    (hp : w.Program tokens) (depth : Nat) :
    run (evaluate depth) tokens env = (liftM store : Action Env Halt Unit) (w.ready env) := by
  cases hp with
  | intro hv ha =>
    have hn' : NamesArray { env with stack := w.value :: env.stack } w.name :=
      ⟨hn.visible, hn.not_form, hn.meaning_eq⟩
    rw [h.run_numeral hv, (h.withStack _).run_address hn' ha,
      run_of_read (c := .store) (by decide) rfl]
    rfl

/-- A write within the array sets the cell and leaves the operands and references as they were. A
    write outside of it is an error and leaves the value on the operand stack, and nothing else. -/
theorem evaluate_write (h : env.Plain) (hn : env.NamesArray w.name) (hp : w.Program tokens)
    (hs : env.storage.get? w.name = some (.array (List.ofFn f))) (depth : Nat) :
    (w.Within n → evaluate (depth + 1) tokens env
      = ⟨env.setVariable w.name (.array (List.ofFn (w.apply f))), [], .ok none⟩) ∧
    (¬w.Within n → evaluate (depth + 1) tokens env
      = ⟨{ env with stack := w.value :: env.stack }, [.report (w.refusal n)],
          .ok (some (w.refusal n))⟩) := by
  have hrun := h.run_program hn hp depth
  constructor
  · intro hw
    obtain ⟨s, hslot, hset⟩ := slot_of_within hw hs
    have hslot : (w.ready env).slot w.name w.position = .ok s := hslot
    refine reporting_of_ok (hrun.trans (lift_of_ok ((store_cell_ok rfl hslot rfl).trans ?_)))
    rw [hset]
    rfl
  · intro hw
    have hslot : (w.ready env).slot w.name w.position = .error (.outOfRange w.position n) :=
      slot_of_not_within hw hs
    exact reporting_of_fault (hrun.trans (lift_of_error (store_cell_error rfl hslot)))

/-- A fetch puts what the cell holds on the operand stack. -/
theorem evaluate_cell (h : env.Plain) (hn : env.NamesArray name) {i : Fin n}
    {address : List Token} (ha : Address name i address)
    (hs : env.storage.get? name = some (.array (List.ofFn f))) (hv : Cell.InRange (f i))
    (depth : Nat) :
    evaluate (depth + 1) (address ++ ["@"]) env
      = ⟨{ env with stack := f i :: env.stack }, [], .ok none⟩ := by
  have hstored : stored? { env with references := .toCell name i :: env.references }
      (.toCell name i) = some (f i) := stored?_of_ofFn hs i
  have hfetch : fetch { env with references := .toCell name i :: env.references }
      = ⟨{ env with stack := f i :: env.stack }, [], .ok ()⟩ := by
    rw [fetch_of_stored? rfl hstored, Cell.wrap_eq_self hv]
  refine reporting_of_ok ((h.run_address hn ha depth ["@"]).trans ?_)
  rw [run_of_read (c := .fetch) (by decide) rfl]
  exact lift_of_ok hfetch

/-! ## Many writes -/

/-- Evaluates programs one after the other, each on its own. -/
def evaluateAll (depth : Nat) (programs : List (List Token)) (env : Env) : Env :=
  programs.foldl (fun env tokens => (evaluate depth tokens env).state) env

/-- The second environment is the first one after the writes: the arrays are what the writes make
    of them, and all else but the operands is as it was. -/
structure Env.Rewritten (writes : List Write) (env env' : Env) : Prop where
  keys : env'.storage.keys = env.storage.keys
  scalar {name : Token} {v : Int} :
    env.storage.get? name = some (.scalar v) → env'.storage.get? name = some (.scalar v)
  array {name : Token} {n : Nat} {f : Fin n → Int} :
    env.storage.get? name = some (.array (List.ofFn f)) →
    env'.storage.get? name = some (.array (List.ofFn (writeAll writes name f)))
  references : env'.references = env.references
  words : env'.words = env.words
  constants : env'.constants = env.constants
  registers : env'.registers = env.registers

namespace Env.Rewritten

variable {env'' : Env} {writes' : List Write}

theorem refl (env : Env) : env.Rewritten [] env where
  keys := rfl
  scalar h := h
  array h := h
  references := rfl
  words := rfl
  constants := rfl
  registers := rfl

theorem trans (h : env.Rewritten writes env') (h' : env'.Rewritten writes' env'') :
    env.Rewritten (writes ++ writes') env'' where
  keys := h'.keys.trans h.keys
  scalar hs := h'.scalar (h.scalar hs)
  array hs := by
    rw [writeAll_append]
    exact h'.array (h.array hs)
  references := h'.references.trans h.references
  words := h'.words.trans h.words
  constants := h'.constants.trans h.constants
  registers := h'.registers.trans h.registers

/-- What means an array still does. -/
theorem namesArray (h : env.Rewritten writes env') (hn : env.NamesArray name) :
    env'.NamesArray name := by
  obtain ⟨n, f, hs⟩ := hn.exists_cells
  refine ⟨hn.visible, hn.not_form, ?_⟩
  rw [← hn.meaning_eq]
  simp only [meaning, plainMeaning, reference?, h.registers, h.words, h.constants, hs, h.array hs]
  rfl

/-- A program for a write makes of the arrays what the write makes of them. -/
theorem of_program (h : env.Plain) (hn : env.NamesArray w.name) (hp : w.Program tokens)
    (depth : Nat) : env.Rewritten [w] (evaluate (depth + 1) tokens env).state := by
  obtain ⟨n, f, hs⟩ := hn.exists_cells
  obtain ⟨hin, hout⟩ := evaluate_write h hn hp hs depth
  -- An array is but one function.
  have same {n' : Nat} {f' : Fin n' → Int}
      (ha : env.storage.get? w.name = some (.array (List.ofFn f'))) :
      (⟨n', f'⟩ : Σ n, Fin n → Int) = ⟨n, f⟩ :=
    List.ofFn_inj'.1 (Variable.array.inj (Option.some.inj (ha.symm.trans hs)))
  by_cases hw : w.Within n
  · have hget (name : Token) :
        (env.storage.insert w.name (.array (List.ofFn (w.apply f)))).get? name
          = if w.name = name then some (.array (List.ofFn (w.apply f)))
            else env.storage.get? name := Table.get?_insert _ _ _ _
    rw [hin hw]
    refine ⟨?_, fun {name v} hv => ?_, fun {name n' f'} ha => ?_, rfl, rfl, rfl, rfl⟩
    · have hk : w.name ∈ env.storage.keys := by
        rw [← Table.get?_isSome_iff, hs]
        rfl
      exact (Table.keys_insert _ _ _).trans (if_pos hk)
    · have hne : w.name ≠ name := by
        rintro rfl
        cases hs.symm.trans hv
      rw [setVariable, hget, if_neg hne, hv]
    · rw [setVariable, hget, writeAll_singleton]
      by_cases hname : w.name = name
      · subst hname
        cases same ha
        rw [if_pos rfl, if_pos rfl]
      · rw [if_neg hname, if_neg hname, ha]
  · rw [hout hw]
    refine ⟨rfl, fun hv => hv, fun {name n' f'} ha => ?_, rfl, rfl, rfl, rfl⟩
    rw [writeAll_singleton]
    split
    · next hname =>
      subst hname
      cases same ha
      rw [Write.apply_of_not_within hw, ha]
    · exact ha

end Env.Rewritten

variable {programs : List (List Token)}

/-- Evaluations one after the other keep what every evaluation keeps. -/
theorem evaluateAll_keeps {I : Env → Prop} {depth : Nat}
    (hk : ∀ tokens, Keeps I (evaluate depth tokens)) (programs : List (List Token)) (h : I env) :
    I (evaluateAll depth programs env) := by
  induction programs generalizing env with
  | nil => exact h
  | cons tokens programs ih => exact ih (hk tokens env h)

/-- Programs for writes make of the arrays what the writes make of them. -/
theorem Env.Rewritten.of_programs (h : env.Plain) (hn : ∀ w ∈ writes, env.NamesArray w.name)
    (hp : List.Forall₂ Write.Program writes programs) (depth : Nat) :
    env.Rewritten writes (evaluateAll (depth + 1) programs env) := by
  induction hp generalizing env with
  | nil => exact .refl env
  | @cons w tokens writes programs hw _ ih =>
    have hfirst := Rewritten.of_program h (hn w List.mem_cons_self) hw depth
    have hplain := evaluate_keeps_plain (depth + 1) tokens env h
    exact hfirst.trans (ih hplain fun w' hw' =>
      hfirst.namesArray (hn w' (List.mem_cons_of_mem w hw')))

/-- In a session, after any number of evaluations of programs that write cells, the arrays are what
    the writes make of them. One more such program does what is asked of it if the position is one
    of the array, and is an error otherwise, which leaves its value on the operand stack; and a
    fetch puts there what the last write to the cell left, or what was there before all of them.
    The references are as before after each. -/
theorem evaluate_writes {s : Session} (hs : Session.Reachable (fun r => r.isProgram = true) s)
    (hn : ∀ w ∈ writes, s.env.NamesArray w.name)
    (hp : List.Forall₂ Write.Program writes programs) (depth : Nat) :
    let env := evaluateAll (depth + 1) programs s.env
    s.env.Rewritten writes env ∧
    ∀ {name : Token} {n : Nat} {f : Fin n → Int}, s.env.NamesArray name →
      s.env.storage.get? name = some (.array (List.ofFn f)) →
      (∀ (w : Write) (tokens : List Token), w.name = name → w.Program tokens →
        (w.Within n → evaluate (depth + 1) tokens env
          = ⟨env.setVariable name (.array (List.ofFn (w.apply (writeAll writes name f)))), [],
              .ok none⟩) ∧
        (¬w.Within n → evaluate (depth + 1) tokens env
          = ⟨{ env with stack := w.value :: env.stack }, [.report (w.refusal n)],
              .ok (some (w.refusal n))⟩)) ∧
      ∀ (i : Fin n) (address : List Token), Address name i address →
        writeAll writes name f i = (lastWritten? writes name i).getD (f i) ∧
        evaluate (depth + 1) (address ++ ["@"]) env
          = ⟨{ env with stack := writeAll writes name f i :: env.stack }, [], .ok none⟩ := by
  intro env
  have hrewritten : s.env.Rewritten writes env := .of_programs hs.plain hn hp depth
  have hplain : env.Plain := evaluateAll_keeps (evaluate_keeps_plain (depth + 1)) programs hs.plain
  have hI : Invariant (fun _ => True) (Env.Holds Cell.InRange) := spans_inRange.invariant_holds
  have hholds : env.Holds Cell.InRange :=
    evaluateAll_keeps (fun _ => evaluate_keeps hI (depth + 1) fun _ _ => trivial) programs
      (hs.invariant hI (holds_empty _) nofun)
  refine ⟨hrewritten, fun {name n f} hname harray => ?_⟩
  have hname := hrewritten.namesArray hname
  have harray := hrewritten.array harray
  refine ⟨?_, fun i address ha => ⟨writeAll_apply writes name f i, ?_⟩⟩
  · rintro w tokens rfl hw
    exact evaluate_write hplain hname hw harray depth
  · have hv := hholds.storage harray _ (List.mem_ofFn.2 ⟨i, rfl⟩)
    exact evaluate_cell hplain hname ha harray hv depth

/-- Two writes to a cell of one array and, between them, one that is outside of another. A reference
    that waits from before is still there at the end. -/
theorem evaluate_writes_last :
    let env : Env :=
      { storage := .ofList [("a", .array [0, 0]), ("b", .array [0])], references := [.toScalar "a"] }
    let programs : List (List Token) :=
      [["7", "1", "a", "+", "!"], ["8", "b", "1", "+", "!"], ["9", "a", "1", "+", "!"]]
    let env' : Env :=
      { env with stack := [8], storage := .ofList [("a", .array [0, 9]), ("b", .array [0])] }
    Session.Reachable (fun r => r.isProgram = true) { env } ∧
      evaluateAll 1 programs env = env' ∧
      evaluate 1 ["1", "a", "+", "@"] env' = ⟨{ env' with stack := [9, 8] }, [], .ok none⟩ := by
  intro env programs env'
  have hsequence : Command.sequence ["variable", "a", "a", "2", "allot", "variable", "b", "1",
      "allot"] = [.declare (.ok "a"), .word "a", .word "2", .allot, .declare (.ok "b"), .word "1",
        .allot] := by
    have hv (name : Token) (hn : isValidName name = .ok true) (ts : List Token) :
        Command.read "variable" (name :: ts) = (.declare (.ok name), ts) := by
      rw [Command.read, Scan.name, hn]
    have ha (ts : List Token) : Command.read "allot" ts = (.allot, ts) := rfl
    rw [Command.sequence_cons_of_read (by decide) (hv "a" rfl _),
      Command.sequence_cons_of_read (by decide) (Command.read_of_not_mem (by decide) _),
      Command.sequence_cons_of_read (by decide) (Command.read_of_not_mem (by decide) _),
      Command.sequence_cons_of_read (by decide) (ha _),
      Command.sequence_cons_of_read (by decide) (hv "b" rfl _),
      Command.sequence_cons_of_read (by decide) (Command.read_of_not_mem (by decide) _),
      Command.sequence_cons_of_read (by decide) (ha _), Command.sequence_nil]
  have hs : Session.Reachable (fun r => r.isProgram = true) { env } :=
    .evaluate_of_sequence (.fresh true) rfl hsequence fun _ => by cbv
  have hone : parseNumber "1" = .ok (some 1) := by cbv
  have hwrites : List.Forall₂ Write.Program [⟨"a", 1, 7⟩, ⟨"b", 1, 8⟩, ⟨"a", 1, 9⟩] programs :=
    .cons (.intro (by cbv) (.positionFirst hone)) (.cons (.intro (by cbv) (.nameFirst hone))
      (.cons (.intro (by cbv) (.nameFirst hone)) .nil))
  have ha : env.NamesArray "a" := ⟨by decide, by decide, by cbv⟩
  have hb : env.NamesArray "b" := ⟨by decide, by decide, by cbv⟩
  have hnames : ∀ w ∈ [(⟨"a", 1, 7⟩ : Write), ⟨"b", 1, 8⟩, ⟨"a", 1, 9⟩], env.NamesArray w.name := by
    simp [ha, hb]
  have hafter : evaluateAll 1 programs env = env' := by cbv
  have hfirst : env.storage.get? "a" = some (.array (List.ofFn ![0, 0])) := by cbv
  have hread := ((evaluate_writes hs hnames hwrites 0).2 ha hfirst).2 1 ["1", "a", "+"]
    (.positionFirst hone)
  have hlast : writeAll [⟨"a", 1, 7⟩, ⟨"b", 1, 8⟩, ⟨"a", 1, 9⟩] "a" ![0, 0] 1 = 9 :=
    hread.1.trans (by decide)
  refine ⟨hs, hafter, ?_⟩
  rw [← hafter]
  refine hread.2.trans ?_
  rw [hlast, Nat.zero_add, hafter]

end Wordstack
