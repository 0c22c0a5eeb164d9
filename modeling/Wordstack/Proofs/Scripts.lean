import Mathlib
import Wordstack.CommandLine
import Wordstack.Proofs.Sequencing
import Wordstack.Proofs.Tokens

/-!
# Scripts and their lines

A program of several lines can be run as a script, line by line in a session, or as a single text
with its lines joined by spaces. The first two come to the same, down to the number of lines that
failed (`Script.Accounts`): the end of a line makes no difference to its tokens, nor does a line
that is blank. The third comes to the same if no line fails, as then no form is left open at the
end of a line (`script_of_lines`).
-/

namespace Wordstack

open Wordstack.Action

/-- The number of errors that the session remembers: at most one. -/
def Session.failure (s : Session) : Nat :=
  if s.lastError = none then 0 else 1

/-- Executes texts in order and counts those that end in an error. -/
def Session.executeAll : List String → Action Session Escape Nat
  | [] => pure 0
  | text :: texts => do
    execute text
    let failure := (← Action.state).failure
    let failures ← executeAll texts
    return failure + failures

/-- The text of a file with these lines: each ends with a newline, the last one perhaps not. -/
def Script.textOf (ended : Bool) : List String → List Char
  | [] => []
  | [line] => line.toList ++ if ended then ['\n'] else []
  | line :: line' :: lines => line.toList ++ '\n' :: textOf ended (line' :: lines)

variable {lines texts : List String} {line text : String} {s s' : Session} {shown : List Event}

/-! ## Lines of a file -/

namespace Script

theorem mem_textOf {ended : Bool} {c : Char} (h : c ∈ textOf ended lines) :
    c = '\n' ∨ ∃ line ∈ lines, c ∈ line.toList := by
  induction lines using textOf.induct with
  | case1 => cases h
  | case2 line =>
    rw [textOf, List.mem_append] at h
    rcases h with h | h
    · exact .inr ⟨line, List.mem_singleton.2 rfl, h⟩
    · split at h <;> simp_all
  | case3 line line' lines ih =>
    rw [textOf, List.mem_append, List.mem_cons] at h
    rcases h with h | h | h
    · exact .inr ⟨line, List.mem_cons_self, h⟩
    · exact .inl h
    · exact (ih h).imp_right fun ⟨l, hl, hc⟩ => ⟨l, List.mem_cons_of_mem _ hl, hc⟩

theorem executeLine_of_blank (h : Text.isBlankText line = true) : executeLine line = pure () := by
  rw [executeLine, if_pos h]

/-- The end of a line makes no difference. -/
theorem executeLine_newline (line : String) : executeLine (line ++ "\n") = executeLine line := by
  have hb : Text.isBlankText (line ++ "\n") = Text.isBlankText line := by
    have hn : Text.isBlank '\n' = true := by decide
    simp [Text.isBlankText, hn]
  rw [executeLine, executeLine, hb, Session.execute, Session.execute,
    tokenize_append_blanks (by decide)]

/-- To execute the lines of a file is to execute the lines that it was made of. -/
theorem forEach_lines_textOf (ended : Bool) (h : ∀ line ∈ lines, '\n' ∉ line.toList) :
    forEach executeLine ((Text.Lines.ofNewlines (textOf ended lines)).withEnds.map .ofList)
      = forEach executeLine lines := by
  induction lines using textOf.induct with
  | case1 => rfl
  | case2 line =>
    have hl := h line (List.mem_singleton.2 rfl)
    cases ended with
    | false =>
      have ht : textOf false [line] = line.toList := List.append_nil _
      rw [ht, Text.Lines.ofNewlines_of_not_mem hl, Text.Lines.withEnds]
      -- An empty line without an end is no line of the file, but it would be blank anyway.
      by_cases hn : line.toList = []
      · obtain rfl : line = "" := String.toList_inj.1 hn
        rw [forEach_cons, executeLine_of_blank (by decide)]
        rfl
      · rw [if_neg hn]
        simp
    | true =>
      have ht : textOf true [line] = line.toList ++ '\n' :: [] := rfl
      rw [ht, Text.Lines.ofNewlines_append hl]
      simp [Text.Lines.withEnds, executeLine_newline]
  | case3 line line' lines ih =>
    have hl := h line List.mem_cons_self
    have ih := ih fun l hl => h l (List.mem_cons_of_mem line hl)
    have hline : String.ofList (line.toList ++ ['\n']) = line ++ "\n" := by simp
    rw [textOf, Text.Lines.ofNewlines_append hl, Text.Lines.withEnds, List.map_cons,
      List.cons_append, List.map_cons, hline, forEach_cons, forEach_cons, executeLine_newline, ← ih]
    rfl

/-- The script in a file of lines. -/
theorem execute_ofBytes {ended : Bool} {bytes : List UInt8}
    (h : ∀ line ∈ lines, '\n' ∉ line.toList ∧ '\r' ∉ line.toList)
    (hb : Text.decodeUtf8 bytes = .complete (textOf ended lines)) :
    (ofBytes bytes).execute = forEach executeLine lines ∧ (ofBytes bytes).broken = false := by
  have hr : '\r' ∉ textOf ended lines := fun hm => by
    rcases mem_textOf hm with hc | ⟨line, hl, hc⟩
    · exact absurd hc (by decide)
    · exact (h line hl).2 hc
  rw [ofBytes, hb]
  refine ⟨?_, rfl⟩
  simp only [execute, Text.Lines.ofText, Text.unifyLineEnds_of_not_mem hr]
  exact forEach_lines_textOf ended fun line hl => (h line hl).1

end Script

/-! ## Texts one after the other -/

namespace Session

/-- After a text that escapes, no other is executed. -/
theorem executeAll_cons_of_escape {x : Escape} (h : execute text s = ⟨s', shown, .error x⟩)
    (texts : List String) : executeAll (text :: texts) s = ⟨s', shown, .error x⟩ := by
  rw [executeAll, bind_of_error h]

theorem executeAll_cons_of_ok (h : execute text s = ⟨s', shown, .ok ()⟩) (texts : List String) :
    executeAll (text :: texts) s
      = ⟨(executeAll texts s').state, shown ++ (executeAll texts s').output,
          (executeAll texts s').result.map (s'.failure + ·)⟩ := by
  rw [executeAll, bind_of_ok h, state_bind]
  rcases ho : executeAll texts s' with ⟨s'', shown', x | failures⟩
  · rw [bind_of_error ho]
    rfl
  · rw [bind_of_ok ho]
    simp [pure_apply, Outcome.after, Except.map]

end Session

/-- The script has done what the texts did, and its count has grown by the number of those that
    failed. -/
structure Script.Accounts (failures : Nat) (o : Outcome Session Escape Nat)
    (o' : Outcome Progress Escape Unit) : Prop where
  session : o'.state.session = o.state
  output : o'.output = o.output
  result : o'.result = o.result.map fun _ => ()
  failures : ∀ n, o.result = .ok n → o'.state.failures = failures + n

namespace Script

theorem executeLine_of_escape {p : Progress} {x : Escape} (hb : Text.isBlankText line = false)
    (h : Session.execute line p.session = ⟨s', shown, .error x⟩) :
    executeLine line p = ⟨{ p with session := s' }, shown, .error x⟩ := by
  have ho : (Session.execute line).onPart Progress.session (fun session p => { p with session }) p
      = ⟨{ p with session := s' }, shown, .error x⟩ := by
    rw [onPart, h]
  rw [executeLine, if_neg (by simp [hb]), bind_of_error ho]

theorem executeLine_of_ok {p : Progress} (hb : Text.isBlankText line = false)
    (h : Session.execute line p.session = ⟨s', shown, .ok ()⟩) :
    executeLine line p = ⟨⟨s', p.failures + s'.failure⟩, shown, .ok ()⟩ := by
  have ho : (Session.execute line).onPart Progress.session (fun session p => { p with session }) p
      = ⟨{ p with session := s' }, shown, .ok ()⟩ := by
    rw [onPart, h]
  rw [executeLine, if_neg (by simp [hb]), bind_of_ok ho]
  by_cases hn : s'.lastError = none <;> simp [Action.modify, Outcome.after, Session.failure, hn]

/-- The lines of a script do what those that are not blank do as texts. -/
theorem accounts_forEach (lines : List String) (p : Progress) :
    Accounts p.failures
      (Session.executeAll (lines.filter fun line => !Text.isBlankText line) p.session)
      (forEach executeLine lines p) := by
  induction lines generalizing p with
  | nil => exact ⟨rfl, rfl, rfl, by rintro _ ⟨⟩; rfl⟩
  | cons line lines ih =>
    rw [forEach_cons]
    cases hb : Text.isBlankText line with
    | true =>
      rw [List.filter_cons_of_neg (by simp [hb]), executeLine_of_blank hb, pure_bind]
      exact ih p
    | false =>
      rw [List.filter_cons_of_pos (by simp [hb])]
      rcases hx : Session.execute line p.session with ⟨s', shown, x | ⟨⟩⟩
      · rw [bind_of_error (executeLine_of_escape hb hx), Session.executeAll_cons_of_escape hx]
        exact ⟨rfl, rfl, rfl, nofun⟩
      -- Both go on from the session that the line leaves, and the line has been counted.
      · obtain ⟨hsession, houtput, hresult, hfailures⟩ := ih ⟨s', p.failures + s'.failure⟩
        rw [bind_of_ok (executeLine_of_ok hb hx), Session.executeAll_cons_of_ok hx]
        refine ⟨hsession, congrArg (shown ++ ·) houtput, hresult.trans ?_, fun n hn => ?_⟩
        · cases (Session.executeAll _ s').result <;> rfl
        · cases ho : (Session.executeAll (lines.filter fun line => !Text.isBlankText line)
            s').result with
          | error x =>
            rw [ho] at hn
            cases hn
          | ok m =>
            rw [ho] at hn
            cases hn
            exact (hfailures m ho).trans (Nat.add_assoc _ _ _)

end Script

/-! ## Texts joined -/

/-- Blank texts have no tokens. -/
theorem flatMap_tokenize_filter (texts : List String) :
    (texts.filter fun text => !Text.isBlankText text).flatMap tokenize
      = texts.flatMap tokenize := by
  induction texts with
  | nil => rfl
  | cons text texts ih =>
    cases hb : Text.isBlankText text with
    | true =>
      rw [List.filter_cons_of_neg (by simp [hb]), ih, List.flatMap_cons,
        tokenize_of_isBlankText hb, List.nil_append]
    | false =>
      rw [List.filter_cons_of_pos (by simp [hb]), List.flatMap_cons, List.flatMap_cons, ih]

/-- If no text fails, their tokens can be evaluated together. -/
theorem evaluate_of_executeAll (he : s.echo = false)
    (h : Session.executeAll texts s = ⟨s', shown, .ok 0⟩) :
    evaluateTokens (texts.flatMap tokenize) s.env = ⟨s'.env, shown, .ok none⟩ := by
  induction texts generalizing s shown with
  | nil =>
    cases h
    rw [List.flatMap_nil, evaluateTokens, nestingLimit, evaluate_succ, Command.sequence_nil,
      forEach_nil]
    rfl
  | cons text texts ih =>
    rcases ht : evaluateTokens (tokenize text) s.env with ⟨env, shown₁, x | error⟩
    · rw [Session.executeAll_cons_of_escape (Session.execute_of_escape ht)] at h
      cases h
    · rw [Session.executeAll_cons_of_ok (Session.execute_of_ok ht)] at h
      -- Neither this text nor one of the others has failed.
      rcases hr : Session.executeAll texts { s with env, lastError := error } with
        ⟨s₂, shown₂, x | n⟩
      · rw [hr] at h
        cases h
      · rw [hr] at h
        simp only [Outcome.mk.injEq, Except.map, Except.ok.injEq] at h
        obtain ⟨rfl, rfl, hn⟩ := h
        obtain ⟨hnone, rfl⟩ := Nat.add_eq_zero_iff.1 hn
        obtain rfl : error = none := by simpa [Session.failure] using hnone
        rw [List.flatMap_cons, evaluateTokens, evaluate_append_of_ok ht, ← evaluateTokens,
          ih (s := { s with env, lastError := none }) he hr]
        simp [Outcome.after, he]

/-! ## Three ways to run lines -/

/-- What comes of a script is decided by what its lines do as texts. -/
theorem Finish.ofScript_of_accounts {script : Script} {o : Outcome Session Escape Nat}
    (hb : script.broken = false)
    (h : Script.Accounts 0 o (script.execute { session := { echo := false } })) :
    (∀ n, o.result = .ok n → Finish.ofScript script
      = { ending := .ok (if 0 < n then 1 else 0), output := o.output ++ [.text "\n"] }) ∧
    ∀ x, o.result = .error x →
      Finish.ofScript script = { ending := .error (.escape x), output := o.output } := by
  rcases hs : script.execute { session := { echo := false } } with ⟨p, shown, r⟩
  rw [hs] at h
  obtain ⟨-, rfl, hresult, hfailures⟩ := h
  refine ⟨fun n hn => ?_, fun x hx => ?_⟩
  · obtain rfl : r = .ok () := hresult.trans (by rw [hn]; rfl)
    have hexit : (if p.failures = 0 then 0 else 1) = if 0 < n then 1 else 0 := by
      rw [show p.failures = n from (hfailures n hn).trans (Nat.zero_add n)]
      split <;> split <;> omega
    simp only [ofScript, ofAction, hs, hb, hexit]
    rfl
  · obtain rfl : r = .error x := hresult.trans (by rw [hx]; rfl)
    simp only [ofScript, ofAction, hs]

/-- A script does what its lines do as texts that are executed one by one, those that are blank
    left out, and counts as many failures; the exit code says whether there were any. If there were
    none, the lines do the same as a single text. -/
theorem script_of_lines {lines : List String} {ended : Bool} {bytes : List UInt8}
    (hlines : ∀ line ∈ lines, '\n' ∉ line.toList ∧ '\r' ∉ line.toList)
    (hbytes : Text.decodeUtf8 bytes = .complete (Script.textOf ended lines)) :
    let texts := lines.filter fun line => !Text.isBlankText line
    (∀ s, Script.Accounts 0 (Session.executeAll texts s)
      ((Script.ofBytes bytes).execute { session := s })) ∧
    (∀ args path directory typed, Plan.ofStrings args = .script path → '\x00' ∉ path.toList →
      directory.readFile path = .ok bytes →
      let o := Session.executeAll texts { echo := false }
      let f := (Plan.ofStrings args).run directory typed
      (∀ n, o.result = .ok n →
        f = { ending := .ok (if 0 < n then 1 else 0), output := o.output ++ [.text "\n"] }) ∧
      ∀ x, o.result = .error x →
        f = { ending := .error (.escape x), output := o.output }) ∧
    ∀ s s' shown, s.echo = false → Session.executeAll texts s = ⟨s', shown, .ok 0⟩ →
      Session.execute (String.intercalate " " lines) s
        = ⟨{ s with env := s'.env, lastError := none }, shown, .ok ()⟩ := by
  intro texts
  obtain ⟨hexecute, hwhole⟩ := Script.execute_ofBytes hlines hbytes
  have haccounts (s : Session) : Script.Accounts 0 (Session.executeAll texts s)
      ((Script.ofBytes bytes).execute { session := s }) := by
    rw [hexecute]
    exact Script.accounts_forEach lines { session := s }
  refine ⟨haccounts, fun args path directory typed hargs hpath hfile => ?_,
    fun s s' shown he h => ?_⟩
  · have hrun : (Plan.ofStrings args).run directory typed
        = Finish.ofScript (.ofBytes bytes) := by
      simp only [hargs, Plan.run, Finish.ofPath, hfile]
      rw [if_neg (by simpa using hpath)]
    rw [hrun]
    exact Finish.ofScript_of_accounts hwhole (haccounts _)
  · have ht : tokenize (String.intercalate " " lines) = texts.flatMap tokenize := by
      rw [tokenize_intercalate, flatMap_tokenize_filter]
    have hj := evaluate_of_executeAll he h
    rw [← ht] at hj
    simpa [he] using Session.execute_of_ok hj

/-- A script of which one line fails and another one is blank, and lines that are one sum. -/
theorem script_of_lines_square :
    let bytes (lines : List String) : List UInt8 :=
      (Script.textOf false lines).map fun c => c.toNat.toUInt8
    let square := [": sq dup * ;", "", "7 sq .", "nope"]
    let sum := ["1 2", "\t", "+ ."]
    (Plan.ofStrings ["sq.fth"]).run (.ofPaths [("sq.fth", .file (bytes square))]) ""
        = { ending := .ok 1,
            output := [.text "49 ", .report (.unbound "nope"), .text "\n"] } ∧
      Session.execute "1 2 \t + ." { echo := false }
        = ⟨{ echo := false }, [.text "3 "], .ok ()⟩ ∧
      ((Script.ofBytes (bytes sum)).execute { session := { echo := false } }).output
        = [.text "3 "] := by
  intro bytes square sum
  have hascii (ls : List String) (h : (Script.textOf false ls).all (·.toNat < 0x80) = true) :
      Text.decodeUtf8 (bytes ls) = .complete (Script.textOf false ls) :=
    Text.decodeUtf8_of_ascii fun c hc => by simpa using List.all_eq_true.1 h c hc
  have hlines (ls : List String)
      (h : ls.all (fun l => l.toList.all fun c => c ≠ '\n' ∧ c ≠ '\r') = true) :
      ∀ line ∈ ls, '\n' ∉ line.toList ∧ '\r' ∉ line.toList := fun line hl => by
    have hc := List.all_eq_true.1 h line hl
    simp only [List.all_eq_true, decide_eq_true_eq] at hc
    exact ⟨fun hm => (hc _ hm).1 rfl, fun hm => (hc _ hm).2 rfl⟩
  have hplan : Plan.ofStrings ["sq.fth"] = .script "sq.fth" := by cbv
  have hread (bytes : List UInt8) :
      (Directory.ofPaths [("sq.fth", .file bytes)]).readFile "sq.fth" = .ok bytes := by
    have hsteps : Directory.steps "sq.fth" = ["sq.fth"] := by cbv
    rw [Directory.readFile, Directory.ofPaths, hsteps]
    cbv
  have htexts : Session.executeAll (square.filter fun line => !Text.isBlankText line)
      { echo := false }
      = ⟨⟨{ words := .ofList [("sq", ["dup", "*"])] }, false, some (.unbound "nope")⟩,
        [.text "49 ", .report (.unbound "nope")], .ok 1⟩ := by cbv
  have hadds : Session.executeAll (sum.filter fun line => !Text.isBlankText line)
      { echo := false } = ⟨{ echo := false }, [.text "3 "], .ok 0⟩ := by cbv
  have hs := script_of_lines (hlines square (by cbv)) (hascii square (by cbv))
  have ha := script_of_lines (hlines sum (by cbv)) (hascii sum (by cbv))
  refine ⟨?_, ha.2.2 _ _ _ rfl hadds, ?_⟩
  · have hf := (hs.2.1 ["sq.fth"] _ _ "" hplan (by simp) (hread _)).1 1 (by rw [htexts])
    rw [htexts] at hf
    exact hf
  · have ho := (ha.1 { echo := false }).output
    rw [hadds] at ho
    exact ho

end Wordstack
