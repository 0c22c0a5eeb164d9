import Mathlib
import Wordstack.Proofs.Balance

/-!
# Where blocks end

A scan for a block goes through the tokens once and keeps count of the levels. What it finds can be
said without that: the body is the balanced stretch that stands before a closer, and there is only
one such stretch. There is one exactly when somewhere more is closed than opened
(`Scan.block_eq_some_iff`, `Scan.block_eq_none_iff`).

The sides of a conditional can be told from its body alone as well. The first one ends at the first
separator of the level of the body; the other one is what follows, without the separators of that
level and with all those that are further down (`Branches.Sides`). Both scans are accounted for in
`scan_blocks`.
-/

namespace Wordstack

variable {opener separator closer t : Token} {ts : List Token} {depth : Nat}

/-! ## The end of a block -/

/-- A token that does not close the own level goes before what does not do so from there on. -/
theorem StaysBelow.cons (hne : opener ≠ closer) (hd : ¬(t = closer ∧ depth = 0))
    (h : StaysBelow opener closer (level opener closer depth t) ts) :
    StaysBelow opener closer depth (t :: ts) := by
  intro p hp
  rcases List.prefix_cons_iff.1 hp with rfl | ⟨q, rfl, hq⟩
  · exact Nat.zero_le _
  · have hl := level_add_count hne hd q
    have := h q hq
    omega

namespace Scan

variable {tokens rest : List Token} {body : Body}

/-- The body of a block leads up from where the scan began, and not before it ends. -/
theorem staysBelow_of_block (hne : opener ≠ closer)
    (h : block opener closer depth tokens = some (body, rest)) :
    StaysBelow opener closer depth body ∧ body.count closer = depth + body.count opener := by
  induction tokens generalizing depth body with
  | nil => cases h
  | cons t tokens ih =>
    rw [block] at h
    split at h
    · next hc =>
      cases h
      rw [hc.2]
      refine ⟨fun p hp => ?_, rfl⟩
      rw [List.prefix_nil.1 hp]
      exact Nat.zero_le _
    · next hd =>
      obtain ⟨⟨b, rest'⟩, hb, h⟩ := Option.map_eq_some_iff.1 h
      cases h
      obtain ⟨hs, he⟩ := ih hb
      have hl := level_add_count hne hd b
      exact ⟨hs.cons hne hd, by omega⟩

/-- A block is the balanced stretch before a closer. -/
theorem block_eq_some_iff (hne : opener ≠ closer) :
    block opener closer 0 tokens = some (body, rest)
      ↔ tokens = body ++ closer :: rest ∧ Balanced opener closer body := by
  constructor
  · intro h
    obtain ⟨hs, he⟩ := staysBelow_of_block hne h
    refine ⟨eq_of_block h, fun p hp => ?_, ?_⟩
    · have := hs p hp
      omega
    · omega
  · rintro ⟨rfl, hb⟩
    exact block_of_balanced hne hb rest

/-- Without its end, a block is one that the tokens nowhere close. -/
theorem block_eq_none_iff (hne : opener ≠ closer) :
    block opener closer depth tokens = none ↔ StaysBelow opener closer depth tokens := by
  constructor
  · intro h
    induction tokens generalizing depth with
    | nil =>
      intro p hp
      rw [List.prefix_nil.1 hp]
      exact Nat.zero_le _
    | cons t tokens ih =>
      rw [block] at h
      split at h
      · cases h
      · next hd => exact (ih (Option.map_eq_none_iff.1 h)).cons hne hd
  · intro h
    have hb := block_append hne h []
    rwa [List.append_nil, block, Option.map_none] at hb

/-- No other balanced stretch stands before a closer. -/
theorem eq_of_balanced (hne : opener ≠ closer) {body' : Body} {rest' : List Token}
    (h : body ++ closer :: rest = body' ++ closer :: rest') (hb : Balanced opener closer body)
    (hb' : Balanced opener closer body') : body = body' := by
  have he := (block_of_balanced hne hb rest).symm.trans
    ((congrArg _ h).trans (block_of_balanced hne hb' rest'))
  cases he
  rfl

end Scan

/-! ## The sides of a conditional -/

/-- What is left of tokens, so many levels down, without the separators of the own level: those
    before which as much was closed as opened. -/
def withoutSeparators (opener separator closer : Token) (depth : Nat) (ts : List Token) :
    List Token :=
  ((ts.inits.zip ts).filter fun p =>
    ¬(p.2 = separator ∧ p.1.count closer = depth + p.1.count opener)).map Prod.snd

/-- How deep a token is can be counted from before the first token or from after it. -/
theorem withoutSeparators_cons (hne : opener ≠ closer) (hd : ¬(t = closer ∧ depth = 0))
    (ts : List Token) :
    withoutSeparators opener separator closer depth (t :: ts)
      = (if t = separator ∧ depth = 0 then [] else [t])
        ++ withoutSeparators opener separator closer (level opener closer depth t) ts := by
  have hlater (p : List Token × Token) :
      (t :: p.1).count closer = depth + (t :: p.1).count opener
        ↔ p.1.count closer = level opener closer depth t + p.1.count opener := by
    have := level_add_count hne hd p.1
    omega
  have hfirst : 0 = depth ↔ depth = 0 := eq_comm
  simp only [withoutSeparators, List.inits_cons, List.zip_cons_cons, List.zip_map_left,
    List.filter_cons, List.filter_map, Function.comp_def, Prod.map_fst, Prod.map_snd, id_eq,
    hlater, List.count_nil, Nat.add_zero, hfirst]
  by_cases ht : t = separator ∧ depth = 0
  · simp [ht]
  · simp [ht]

/-- The parts between the separators make up what is left without them. -/
theorem flatten_alternatives (hne : opener ≠ closer) (hs : separator ≠ opener)
    (h : StaysBelow opener closer depth ts) :
    (alternatives opener separator closer depth ts).flatten
      = withoutSeparators opener separator closer depth ts := by
  induction ts generalizing depth with
  | nil => rfl
  | cons t ts ih =>
    have hd := h.head_ne hne
    rw [withoutSeparators_cons hne hd, ← ih (h.tail hne)]
    by_cases ht : t = separator ∧ depth = 0
    · have hlevel : level opener closer depth t = 0 := by
        rw [level, if_neg (ht.1 ▸ hs), if_neg fun hc => hd ⟨hc, ht.2⟩, ht.2]
      rw [if_pos ht, alternatives, if_pos ht, hlevel, List.flatten_cons]
    · rw [if_neg ht, alternatives_cons ht]
      cases ha : alternatives opener separator closer (level opener closer depth t) ts with
      | nil => exact absurd ha (alternatives_ne_nil _ _ _ _ _)
      | cons b bs => rfl

/-- A stretch that is divided is divided at a first separator of its own level. -/
theorem exists_first_separator (h : ¬Undivided opener separator closer ts) :
    ∃ before after, ts = before ++ separator :: after ∧
      before.count opener ≤ before.count closer ∧ Undivided opener separator closer before := by
  induction ts using List.reverseRecOn with
  | nil =>
    refine absurd (fun before after he => ?_) h
    simp at he
  | append_singleton ts t ih =>
    by_cases hu : Undivided opener separator closer ts
    -- The separator is the last token, as there is none before.
    · simp only [Undivided, not_forall, Nat.not_lt] at h
      obtain ⟨before, after, he, hc⟩ := h
      rcases List.eq_nil_or_concat after with rfl | ⟨after, u, rfl⟩
      · obtain ⟨rfl, -⟩ := List.append_inj' he rfl
        exact ⟨ts, [], he, hc, hu⟩
      · have he' : ts = before ++ separator :: after := by
          rw [List.concat_eq_append, ← List.cons_append, ← List.append_assoc] at he
          exact (List.append_inj' he rfl).1
        exact absurd (hu before after he') (Nat.not_lt.2 hc)
    · obtain ⟨before, after, rfl, hc, hb⟩ := ih hu
      exact ⟨before, after ++ [t], by simp, hc, hb⟩

/-- The sides of a conditional with the body. -/
inductive Branches.Sides (body : Body) : Branches → Prop
  /-- There is no alternative in the body. -/
  | whole : Undivided "if" "else" "then" body → Sides body ⟨body, none⟩
  /-- The alternative begins after the first separator of the own level. -/
  | divided {first after : Body} :
      body = first ++ "else" :: after → first.count "if" = first.count "then" →
      Undivided "if" "else" "then" first →
      Sides body ⟨first, some (withoutSeparators "if" "else" "then" 0 after)⟩

/-- What stands before a separator of the own level is balanced, and from there on the own level is
    not closed. -/
theorem Balanced.of_append_separator {before after : List Token} (hs : separator ≠ opener)
    (hc : separator ≠ closer) (h : Balanced opener closer (before ++ separator :: after))
    (he : before.count opener ≤ before.count closer) :
    Balanced opener closer before ∧ StaysBelow opener closer 0 after := by
  have hle := h.count_le before (List.prefix_append _ _)
  refine ⟨⟨fun p hp => h.count_le p (hp.trans (List.prefix_append _ _)), by omega⟩, fun p hp => ?_⟩
  have hp' : before ++ separator :: p <+: before ++ separator :: after :=
    (List.prefix_append_right_inj before).2 ((List.prefix_cons_inj separator).2 hp)
  have := h.count_le _ hp'
  rw [List.count_append, List.count_append, List.count_cons_of_ne hs, List.count_cons_of_ne hc]
    at this
  omega

/-- A balanced body has the sides that are read off it. -/
theorem Branches.sides_iff {body : Body} (h : Balanced "if" "then" body) {branches : Branches} :
    Sides body branches ↔ branches = ofBody body := by
  have hne : "if" ≠ "then" := by decide
  have heq {branches : Branches} (hs : Sides body branches) : branches = ofBody body := by
    cases hs with
    | whole hu => rw [ofBody, h.alternatives_eq hne hu]
    | @divided first after he hc hu =>
      subst he
      obtain ⟨hb, ha⟩ := h.of_append_separator (by decide) (by decide) hc.le
      rw [ofBody, hb.alternatives_separator hne hu,
        ← flatten_alternatives hne (by decide) ha]
      cases hn : alternatives "if" "else" "then" 0 after with
      | nil => exact absurd hn (alternatives_ne_nil _ _ _ _ _)
      | cons b bs => rfl
  refine ⟨heq, ?_⟩
  -- There are sides, and so they are these.
  have hex : ∃ branches, Sides body branches := by
    by_cases hu : Undivided "if" "else" "then" body
    · exact ⟨_, .whole hu⟩
    · obtain ⟨before, after, rfl, hc, hb⟩ := exists_first_separator hu
      have hb' := (h.of_append_separator (by decide) (by decide) hc).1
      exact ⟨_, .divided rfl hb'.count_eq hb⟩
  rintro rfl
  obtain ⟨branches, hs⟩ := hex
  exact heq hs ▸ hs

/-! ## Scans for blocks -/

/-- The scan of the tokens finds the content of a block with this opener and closer. -/
structure Scan.FindsBlock {α : Type} (opener closer : Token) (fault : FormFault)
    (content : Body → α → Prop) (tokens : List Token) (scan : Scan α) : Prop where
  /-- There is a block where more is closed than opened. -/
  ok_iff : (∃ a rest, scan = ⟨.ok a, rest⟩)
    ↔ ∃ p, p <+: tokens ∧ p.count opener < p.count closer
  /-- Its body is a balanced stretch before a closer, and all that comes after is left. -/
  eq_ok_iff (a : α) (rest : List Token) : scan = ⟨.ok a, rest⟩
    ↔ ∃ body, tokens = body ++ closer :: rest ∧ Balanced opener closer body ∧ content body a
  /-- There is no other such stretch. -/
  unique {body body' : Body} {rest rest' : List Token} :
    tokens = body ++ closer :: rest → Balanced opener closer body →
    tokens = body' ++ closer :: rest' → Balanced opener closer body' → body' = body
  /-- Without a block, the form is badly made and nothing is left. -/
  otherwise : (¬∃ a rest, scan = ⟨.ok a, rest⟩) →
    scan = ⟨.error (.fault (.malformed fault)), []⟩

/-- A scan that takes a block and tells its content finds it. -/
theorem Scan.findsBlock {α : Type} {fault : FormFault} {content : Body → α → Prop}
    {f : Body → α} (hne : opener ≠ closer)
    (hf : ∀ body a, Balanced opener closer body → (content body a ↔ a = f body))
    {tokens : List Token} {scan : Scan α}
    (hnone : block opener closer 0 tokens = none → scan = unfinished fault)
    (hsome : ∀ body rest, block opener closer 0 tokens = some (body, rest) →
      scan = ⟨.ok (f body), rest⟩) :
    FindsBlock opener closer fault content tokens scan := by
  have hclosed : block opener closer 0 tokens ≠ none
      ↔ ∃ p, p <+: tokens ∧ p.count opener < p.count closer := by
    simp [block_eq_none_iff hne, StaysBelow]
  have unique {body body' : Body} {rest rest' : List Token}
      (h : tokens = body ++ closer :: rest) (hb : Balanced opener closer body)
      (h' : tokens = body' ++ closer :: rest') (hb' : Balanced opener closer body') :
      body' = body :=
    eq_of_balanced hne (h'.symm.trans h) hb' hb
  rcases hblock : block opener closer 0 tokens with _ | ⟨body, rest⟩
  · have hs := hnone hblock
    have hfails (a : α) (rest : List Token) : scan ≠ ⟨.ok a, rest⟩ := by
      rw [hs]
      exact fun h => by cases h
    refine ⟨?_, fun a rest => iff_of_false (hfails a rest) ?_, unique, fun _ => hs⟩
    · rw [← hclosed]
      exact iff_of_false (fun ⟨a, rest, h⟩ => hfails a rest h) (fun h => h hblock)
    · rintro ⟨body, he, hb, -⟩
      cases hblock.symm.trans ((block_eq_some_iff hne).2 ⟨he, hb⟩)
  · have hs := hsome body rest hblock
    obtain ⟨he, hb⟩ := (block_eq_some_iff hne).1 hblock
    refine ⟨?_, fun a rest' => ⟨fun h => ?_, ?_⟩, unique, fun h => absurd ⟨_, _, hs⟩ h⟩
    · rw [← hclosed, hblock]
      exact iff_of_true ⟨_, _, hs⟩ (Option.some_ne_none _)
    · cases hs.symm.trans h
      exact ⟨body, he, hb, (hf body _ hb).2 rfl⟩
    · rintro ⟨body', he', hb', ha⟩
      obtain rfl := unique he hb he' hb'
      obtain ⟨-, hrest⟩ := List.append_inj (he.symm.trans he') rfl
      rw [hs, (hf body' a hb').1 ha, (List.cons.inj hrest).2]

/-- The scan for a loop finds the balanced body, and the one for a conditional the sides of the
    balanced body, wherever there is one; and there is one unless the tokens nowhere close more than
    they opened. -/
theorem scan_blocks (tokens : List Token) :
    Scan.FindsBlock "do" "loop" .openLoop (fun body a => a = body) tokens (Scan.loop tokens) ∧
    Scan.FindsBlock "if" "then" .openConditional Branches.Sides tokens
      (Scan.conditional tokens) := by
  constructor
  · refine Scan.findsBlock (f := id) (by decide) (fun _ _ _ => Iff.rfl) (fun h => ?_)
      fun body rest h => ?_
    · rw [Scan.loop, h]
    · rw [Scan.loop, h]
      rfl
  · refine Scan.findsBlock (by decide) (fun body a hb => Branches.sides_iff hb) (fun h => ?_)
      fun body rest h => ?_
    · rw [Scan.conditional, h]
    · rw [Scan.conditional, h]

/-- A separator one level down stays, and of those of the own level the first one divides. -/
example :
    Scan.conditional ["1", "else", "if", "2", "else", "3", "then", "else", "4", "then", "5"]
      = ⟨.ok ⟨["1"], some ["if", "2", "else", "3", "then", "4"]⟩, ["5"]⟩ := by
  rfl

end Wordstack
