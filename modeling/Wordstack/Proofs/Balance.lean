import Wordstack.Scan

/-!
# Balanced stretches

A stretch of tokens is *balanced* for an opener and a closer if these come in pairs, every closer
after its opener (`Balanced`). Then a scan for the closer of its own level passes over the whole
stretch and is as deep after it as before (`Scan.block_append`); in particular it takes
just the stretch, if that is what stands before the closer (`Scan.block_of_balanced`).

A separator is of the own level of a stretch if no more was opened than closed before it. A
balanced stretch without such a separator (`Undivided`) is one alternative, and the last one or
the one up to the separator that follows it (`Balanced.alternatives_eq`,
`Balanced.alternatives_separator`).

Balance is built up from below: tokens of other kinds are balanced, and so are balanced stretches
one after the other and a balanced stretch between an opener and its closer. The latter is
undivided, whatever it holds.
-/

namespace Wordstack

variable {opener separator closer : Token} {xs ys ts : List Token}

/-- Openers and closers come in pairs, every closer after its opener. -/
structure Balanced (opener closer : Token) (ts : List Token) : Prop where
  /-- Nowhere was more closed than opened. -/
  count_le : ∀ p, p <+: ts → p.count closer ≤ p.count opener
  /-- In the end, all that was opened is closed. -/
  count_eq : ts.count opener = ts.count closer

/-- At every separator, more was opened than closed before. -/
def Undivided (opener separator closer : Token) (ts : List Token) : Prop :=
  ∀ before after, ts = before ++ separator :: after → before.count closer < before.count opener

/-! ## What is balanced -/

theorem balanced_of_not_mem (ho : opener ∉ ts) (hc : closer ∉ ts) : Balanced opener closer ts where
  count_le p hp := by
    rw [List.count_eq_zero_of_not_mem fun h => hc (hp.subset h)]
    exact Nat.zero_le _
  count_eq := by
    rw [List.count_eq_zero_of_not_mem ho, List.count_eq_zero_of_not_mem hc]

/-- A beginning of two stretches ends within the first, or it has all of it and ends within the
    second. -/
theorem of_prefix_append {p : List Token} (h : p <+: xs ++ ys) :
    p <+: xs ∨ ∃ q, p = xs ++ q ∧ q <+: ys := by
  obtain ⟨r, hr⟩ := h
  rcases List.append_eq_append_iff.1 hr with ⟨q, rfl, -⟩ | ⟨q, rfl, hy⟩
  · exact .inl (List.prefix_append p q)
  · exact .inr ⟨q, rfl, r, hy.symm⟩

theorem Balanced.append (hx : Balanced opener closer xs) (hy : Balanced opener closer ys) :
    Balanced opener closer (xs ++ ys) where
  count_le p hp := by
    rcases of_prefix_append hp with hp | ⟨q, rfl, hq⟩
    · exact hx.count_le p hp
    -- The first stretch as a whole makes no difference.
    · rw [List.count_append, List.count_append, hx.count_eq]
      exact Nat.add_le_add_left (hy.count_le q hq) _
  count_eq := by
    rw [List.count_append, List.count_append, hx.count_eq, hy.count_eq]

/-- What stands between an opener and its closer is closed off. -/
theorem Balanced.enclose (hne : opener ≠ closer) (h : Balanced opener closer ts) :
    Balanced opener closer (opener :: (ts ++ [closer])) where
  count_le p hp := by
    rcases List.prefix_cons_iff.1 hp with rfl | ⟨q, rfl, hq⟩
    · exact Nat.le_refl _
    · rw [List.count_cons_of_ne hne, List.count_cons_self]
      rcases of_prefix_append hq with hq | ⟨r, rfl, hr⟩
      · exact Nat.le_succ_of_le (h.count_le q hq)
      -- What goes beyond the stretch has at most the one closer, and that belongs to the opener.
      · have hr₁ : r.count closer ≤ 1 := by simpa using hr.sublist.count_le closer
        have he := h.count_eq
        rw [List.count_append, List.count_append]
        omega
  count_eq := by
    have he := h.count_eq
    simp [List.count_append, hne, hne.symm, he]

/-! ## What is undivided -/

theorem undivided_of_not_mem (h : separator ∉ ts) : Undivided opener separator closer ts := by
  rintro before after rfl
  exact absurd (List.mem_append_right _ List.mem_cons_self) h

theorem Undivided.append (hb : Balanced opener closer xs)
    (hx : Undivided opener separator closer xs) (hy : Undivided opener separator closer ys) :
    Undivided opener separator closer (xs ++ ys) := by
  intro before after h
  rcases List.append_eq_append_iff.1 h with ⟨b, rfl, hb'⟩ | ⟨b, rfl, hb'⟩
  · rw [List.count_append, List.count_append, hb.count_eq]
    exact Nat.add_lt_add_left (hy b after hb') _
  · cases b with
    -- A separator right after the first stretch is of the level of the second.
    | nil => exact absurd (hy [] after hb'.symm) (Nat.lt_irrefl 0)
    | cons t b =>
      obtain ⟨rfl, -⟩ := List.cons.inj hb'
      exact hx before b rfl

/-- Between an opener and its closer, every separator is one level down. -/
theorem Balanced.undivided_enclose (ho : separator ≠ opener) (hc : separator ≠ closer)
    (hne : opener ≠ closer) (h : Balanced opener closer ts) :
    Undivided opener separator closer (opener :: (ts ++ [closer])) := by
  intro before after hs
  cases before with
  | nil => exact absurd (List.cons.inj hs).1.symm ho
  | cons t before =>
    obtain ⟨rfl, ht⟩ := List.cons.inj hs
    rw [List.count_cons_of_ne hne, List.count_cons_self]
    refine Nat.lt_succ_of_le (h.count_le before ?_)
    rcases List.append_eq_append_iff.1 ht with ⟨b, rfl, hb⟩ | ⟨b, rfl, -⟩
    -- The separator would be the closer.
    · have hm : separator ∈ [closer] := hb ▸ List.mem_append_right _ List.mem_cons_self
      exact absurd (List.mem_singleton.1 hm) hc
    · exact List.prefix_append before b

/-! ## Scans over balanced stretches -/

/-- From so deep, the stretch does not close the own level. -/
def StaysBelow (opener closer : Token) (depth : Nat) (ts : List Token) : Prop :=
  ∀ p, p <+: ts → p.count closer ≤ depth + p.count opener

variable {depth : Nat} {t : Token}

theorem StaysBelow.head_ne (hne : opener ≠ closer) (h : StaysBelow opener closer depth (t :: ts)) :
    ¬(t = closer ∧ depth = 0) := by
  rintro ⟨rfl, rfl⟩
  have := h [t] (List.prefix_append [t] ts)
  simp [hne.symm] at this

/-- A token that does not close the own level leads as far down as it counts. -/
theorem level_add_count (hne : opener ≠ closer) (hd : ¬(t = closer ∧ depth = 0))
    (ts : List Token) :
    level opener closer depth t + ts.count opener + (t :: ts).count closer
      = depth + (t :: ts).count opener + ts.count closer := by
  by_cases ho : t = opener
  · subst ho
    rw [level, if_pos rfl, List.count_cons_self, List.count_cons_of_ne hne]
    omega
  · by_cases hc : t = closer
    · subst hc
      have h₁ : 0 < depth := Nat.pos_of_ne_zero fun h => hd ⟨rfl, h⟩
      rw [level, if_neg ho, if_pos rfl, List.count_cons_self, List.count_cons_of_ne ho]
      omega
    · rw [level, if_neg ho, if_neg hc, List.count_cons_of_ne ho, List.count_cons_of_ne hc]

/-- After a token, the stretch goes on from where the token leads. -/
theorem StaysBelow.tail (hne : opener ≠ closer) (h : StaysBelow opener closer depth (t :: ts)) :
    StaysBelow opener closer (level opener closer depth t) ts := by
  intro p hp
  have hl := level_add_count hne (h.head_ne hne) p
  have := h (t :: p) ((List.prefix_cons_inj t).2 hp)
  omega

/-- A scan takes a stretch that does not close its level, and goes on from where that leads. -/
theorem Scan.block_append (hne : opener ≠ closer) (h : StaysBelow opener closer depth ts)
    (rest : List Token) :
    block opener closer depth (ts ++ rest)
      = (block opener closer (depth + ts.count opener - ts.count closer) rest).map
          fun (b, rest) => (ts ++ b, rest) := by
  induction ts generalizing depth with
  | nil => simp
  | cons t ts ih =>
    -- The depth after the stretch can be counted from before its first token or from after it.
    have hl := level_add_count hne (h.head_ne hne) ts
    have hd : level opener closer depth t + ts.count opener - ts.count closer
        = depth + (t :: ts).count opener - (t :: ts).count closer := by omega
    rw [List.cons_append, block, if_neg (h.head_ne hne), ih (h.tail hne), hd, Option.map_map]
    rfl

theorem Balanced.staysBelow (h : Balanced opener closer ts) (depth : Nat) :
    StaysBelow opener closer depth ts :=
  fun p hp => Nat.le_trans (h.count_le p hp) (Nat.le_add_left _ _)

/-- Between an opener and its closer stands what was put there. -/
theorem Scan.block_of_balanced (hne : opener ≠ closer) (h : Balanced opener closer ts)
    (rest : List Token) : block opener closer 0 (ts ++ closer :: rest) = some (ts, rest) := by
  rw [block_append hne (h.staysBelow 0), h.count_eq, Nat.add_sub_cancel, block, if_pos ⟨rfl, rfl⟩]
  simp

theorem Scan.loop_of_balanced (h : Balanced "do" "loop" ts) (rest : List Token) :
    loop (ts ++ "loop" :: rest) = ⟨.ok ts, rest⟩ := by
  rw [loop, block_of_balanced (by decide) h]

/-! ## Alternatives in balanced stretches -/

/-- Changes the first body. -/
def onFirst (f : Body → Body) : List Body → List Body
  | [] => []
  | b :: bs => f b :: bs

/-- There is always a first alternative. -/
theorem alternatives_ne_nil (opener separator closer : Token) (depth : Nat) (ts : List Token) :
    alternatives opener separator closer depth ts ≠ [] := by
  cases ts with
  | nil => exact List.cons_ne_nil _ _
  | cons t ts =>
    rw [alternatives]
    split
    · exact List.cons_ne_nil _ _
    · split <;> exact List.cons_ne_nil _ _

theorem alternatives_cons (h : ¬(t = separator ∧ depth = 0)) (ts : List Token) :
    alternatives opener separator closer depth (t :: ts)
      = onFirst (t :: ·)
          (alternatives opener separator closer (level opener closer depth t) ts) := by
  have hn := alternatives_ne_nil opener separator closer (level opener closer depth t) ts
  rw [alternatives, if_neg h]
  cases ha : alternatives opener separator closer (level opener closer depth t) ts with
  | nil => exact absurd ha hn
  | cons b bs => rfl

/-- A stretch without a separator of the own level goes to one alternative as a whole. -/
theorem alternatives_append (hne : opener ≠ closer) (h : StaysBelow opener closer depth ts)
    (hs : ∀ before after, ts = before ++ separator :: after →
      before.count closer < depth + before.count opener) (rest : List Token) :
    alternatives opener separator closer depth (ts ++ rest)
      = onFirst (ts ++ ·) (alternatives opener separator closer
          (depth + ts.count opener - ts.count closer) rest) := by
  induction ts generalizing depth with
  | nil =>
    simp only [List.nil_append, List.count_nil, Nat.add_zero, Nat.sub_zero]
    cases alternatives opener separator closer depth rest <;> rfl
  | cons t ts ih =>
    have hl := level_add_count hne (h.head_ne hne)
    have hd : level opener closer depth t + ts.count opener - ts.count closer
        = depth + (t :: ts).count opener - (t :: ts).count closer := by have := hl ts; omega
    have ht : ¬(t = separator ∧ depth = 0) := by
      rintro ⟨rfl, rfl⟩
      exact absurd (hs [] ts rfl) (by simp)
    -- So the token goes in front of the first of the parts that the others come to.
    rw [List.cons_append, alternatives_cons ht, ih (h.tail hne) ?_, hd]
    · cases alternatives opener separator closer
        (depth + (t :: ts).count opener - (t :: ts).count closer) rest <;> rfl
    · rintro before after rfl
      have := hs (t :: before) after rfl
      have := hl before
      omega

/-- A stretch without a separator is the last alternative. -/
theorem Balanced.alternatives_eq (hne : opener ≠ closer) (h : Balanced opener closer ts)
    (hs : Undivided opener separator closer ts) :
    alternatives opener separator closer 0 ts = [ts] := by
  have := alternatives_append hne (h.staysBelow 0) (by simpa [Undivided] using hs) []
  simpa [h.count_eq, alternatives, onFirst] using this

/-- A stretch up to a separator is the alternative before those that follow. -/
theorem Balanced.alternatives_separator (hne : opener ≠ closer) (h : Balanced opener closer ts)
    (hs : Undivided opener separator closer ts) (rest : List Token) :
    alternatives opener separator closer 0 (ts ++ separator :: rest)
      = ts :: alternatives opener separator closer 0 rest := by
  rw [alternatives_append hne (h.staysBelow 0) (by simpa [Undivided] using hs), h.count_eq,
    Nat.add_sub_cancel, alternatives, if_pos ⟨rfl, rfl⟩, onFirst, List.append_nil]

end Wordstack
