/-!
# Tables

A *table* gives values to names and remembers the order in which the names came: a new name goes
to the end, a name that is there already keeps its place when it gets another value, and a name
that was erased and comes back goes to the end again. No name stands in a table twice, which is
part of the type.

Main statements: what an insertion and an erasure do to the order of the names (`keys_insert`,
`keys_erase`) and to what is found under a name (`get?_insert`, `get?_erase`); a name has a value
exactly when it is one of the keys (`get?_isSome_iff`). A value put in for a while and then put
back, or taken out where there was none, leaves the table as it was, order included
(`insert_of_get?`, `erase_insert_of_get?`).
-/

namespace Wordstack

/-- Values under names, in the order in which the names came. -/
structure Table (α : Type) where
  /-- The names with their values, oldest name first. -/
  entries : List (String × α)
  /-- No name comes twice. -/
  nodup : (entries.map Prod.fst).Nodup
  deriving DecidableEq

namespace Table

variable {α : Type}

/-- The entries determine the table. -/
@[ext] theorem ext {t t' : Table α} (h : t.entries = t'.entries) : t = t' := by
  cases t; cases t'; cases h; rfl

/-- The table without names. -/
def empty : Table α :=
  ⟨[], .nil⟩

instance : Inhabited (Table α) := ⟨empty⟩

instance : EmptyCollection (Table α) := ⟨empty⟩

/-- The names, oldest first. -/
def keys (t : Table α) : List String :=
  t.entries.map Prod.fst

/-- The value of the entry with the name. -/
def lookup? (k : String) : List (String × α) → Option α
  | [] => none
  | (k', v) :: es => if k' = k then some v else lookup? k es

/-- The value under a name. -/
def get? (t : Table α) (k : String) : Option α :=
  lookup? k t.entries

/-- The entries with another value in the place of the name, or with the name at the end. -/
def insertEntry (k : String) (v : α) : List (String × α) → List (String × α)
  | [] => [(k, v)]
  | (k', v') :: es => if k' = k then (k, v) :: es else (k', v') :: insertEntry k v es

/-- An insertion among entries keeps their names, or puts its own at their end. -/
theorem map_fst_insertEntry (k : String) (v : α) (es : List (String × α)) :
    (insertEntry k v es).map Prod.fst
      = if k ∈ es.map Prod.fst then es.map Prod.fst else es.map Prod.fst ++ [k] := by
  induction es with
  | nil => simp [insertEntry]
  | cons e es ih =>
    obtain ⟨k', v'⟩ := e
    by_cases h : k' = k
    · simp [insertEntry, h]
    · have h' : k ≠ k' := fun hk => h hk.symm
      simp only [insertEntry, h, if_false, List.map_cons, ih, List.mem_cons, h', false_or]
      split <;> rfl

/-- Gives the name a value. -/
def insert (t : Table α) (k : String) (v : α) : Table α where
  entries := insertEntry k v t.entries
  nodup := by
    rw [map_fst_insertEntry]
    split
    · exact t.nodup
    -- The name at the end is new, so it is none of those before it.
    · next h =>
      refine List.nodup_append.2 ⟨t.nodup, by simp, fun a ha b hb hab => h ?_⟩
      rw [List.mem_singleton] at hb
      exact hb ▸ hab ▸ ha

/-- Takes the name out. -/
def erase (t : Table α) (k : String) : Table α where
  entries := t.entries.filter fun e => e.1 ≠ k
  nodup := t.nodup.sublist (List.filter_sublist.map Prod.fst)

/-! ## Order of the names -/

@[simp] theorem entries_empty : (∅ : Table α).entries = [] := rfl

@[simp] theorem keys_empty : (∅ : Table α).keys = [] := rfl

/-- An insertion keeps the keys, or puts its own at their end. -/
theorem keys_insert (t : Table α) (k : String) (v : α) :
    (t.insert k v).keys = if k ∈ t.keys then t.keys else t.keys ++ [k] :=
  map_fst_insertEntry k v t.entries

theorem keys_erase (t : Table α) (k : String) : (t.erase k).keys = t.keys.filter (· ≠ k) := by
  simp [keys, erase, List.filter_map, Function.comp_def]

/-! ## What is found under a name -/

@[simp] theorem get?_empty (k : String) : (∅ : Table α).get? k = none := rfl

theorem get?_insert (t : Table α) (k : String) (v : α) (k' : String) :
    (t.insert k v).get? k' = if k = k' then some v else t.get? k' := by
  simp only [get?, insert]
  induction t.entries with
  | nil => rfl
  | cons e es ih =>
    obtain ⟨l, w⟩ := e
    by_cases hl : l = k
    · subst hl
      by_cases h : l = k' <;> simp [insertEntry, lookup?, h]
    · by_cases h : l = k'
      · subst h
        simp [insertEntry, lookup?, hl, Ne.symm hl]
      · simpa [insertEntry, lookup?, hl, h] using ih

@[simp] theorem get?_insert_self (t : Table α) (k : String) (v : α) :
    (t.insert k v).get? k = some v := by
  simp [get?_insert]

/-- What every value has, every value still has after the insertion of one that has it. -/
theorem of_get?_insert {P : α → Prop} {t : Table α} {k k' : String} {v w : α} (hv : P v)
    (ht : ∀ {k w}, t.get? k = some w → P w) (h : (t.insert k v).get? k' = some w) : P w := by
  rw [get?_insert] at h
  split at h
  · cases h
    exact hv
  · exact ht h

theorem get?_erase (t : Table α) (k k' : String) :
    (t.erase k).get? k' = if k = k' then none else t.get? k' := by
  simp only [get?, erase]
  induction t.entries with
  | nil => simp [lookup?]
  | cons e es ih =>
    obtain ⟨l, w⟩ := e
    by_cases hl : l = k
    · subst hl
      by_cases h : l = k' <;> simpa [lookup?, h] using ih
    · by_cases h : l = k'
      · subst h
        simp [lookup?, hl, Ne.symm hl]
      · simpa [lookup?, hl, h] using ih

/-- There is a value for the names of the entries. -/
theorem lookup?_isSome_iff (k : String) (es : List (String × α)) :
    (lookup? k es).isSome ↔ k ∈ es.map Prod.fst := by
  induction es with
  | nil => simp [lookup?]
  | cons e es ih =>
    obtain ⟨l, w⟩ := e
    by_cases h : l = k
    · simp [lookup?, h]
    · simpa [lookup?, h, Ne.symm h] using ih

/-- The names with a value are the keys. -/
theorem get?_isSome_iff (t : Table α) (k : String) : (t.get? k).isSome ↔ k ∈ t.keys :=
  lookup?_isSome_iff k t.entries

/-- The value of an entry is found under its name, as no other entry has the name. -/
theorem get?_of_mem {t : Table α} {k : String} {v : α} (h : (k, v) ∈ t.entries) :
    t.get? k = some v := by
  have hn := t.nodup
  rw [get?]
  generalize t.entries = es at h hn
  induction es with
  | nil => cases h
  | cons e es ih =>
    obtain ⟨l, w⟩ := e
    rw [List.map_cons, List.nodup_cons] at hn
    rcases List.mem_cons.1 h with he | h
    · cases he
      exact if_pos rfl
    · have hk : k ∈ es.map Prod.fst := List.mem_map_of_mem h
      have hl : l ≠ k := by
        rintro rfl
        exact hn.1 hk
      rw [lookup?, if_neg hl]
      exact ih h hn.2

/-- A value is found under the name of its entry. -/
theorem mem_of_get? {t : Table α} {k : String} {v : α} (h : t.get? k = some v) :
    (k, v) ∈ t.entries := by
  rw [get?] at h
  generalize t.entries = es at h
  induction es with
  | nil => cases h
  | cons e es ih =>
    obtain ⟨l, w⟩ := e
    rw [lookup?] at h
    split at h
    · next hl =>
      cases h
      exact hl ▸ List.mem_cons_self
    · exact List.mem_cons_of_mem _ (ih h)

/-! ## There and back -/

/-- To give a name the value that it has changes nothing. -/
theorem insert_of_get? {t : Table α} {k : String} {v : α} (h : t.get? k = some v) :
    t.insert k v = t := by
  refine Table.ext ?_
  simp only [get?] at h
  simp only [insert]
  generalize t.entries = es at h ⊢
  induction es with
  | nil => simp [lookup?] at h
  | cons e es ih =>
    obtain ⟨l, w⟩ := e
    by_cases hl : l = k
    · simp_all [insertEntry, lookup?]
    · simp_all [insertEntry, lookup?]

/-- Of two values given to a name, the later one counts. -/
theorem insert_insert (t : Table α) (k : String) (v w : α) :
    (t.insert k v).insert k w = t.insert k w := by
  refine Table.ext ?_
  simp only [insert]
  induction t.entries with
  | nil => simp [insertEntry]
  | cons e es ih =>
    obtain ⟨l, u⟩ := e
    by_cases hl : l = k <;> simp [insertEntry, hl, ih]

/-- It does not matter for an erasure what value the name was given. -/
theorem erase_insert (t : Table α) (k : String) (v : α) : (t.insert k v).erase k = t.erase k := by
  refine Table.ext ?_
  simp only [insert, erase]
  induction t.entries with
  | nil => simp [insertEntry]
  | cons e es ih =>
    obtain ⟨l, w⟩ := e
    by_cases hl : l = k
    · simp [insertEntry, hl]
    · simp only [insertEntry, hl, if_false, List.filter_cons, ih]

/-- To take out a name that is not there changes nothing. -/
theorem erase_of_get? {t : Table α} {k : String} (h : t.get? k = none) : t.erase k = t := by
  refine Table.ext (List.filter_eq_self.2 fun e he => ?_)
  have hk : k ∉ t.keys := by
    rw [← get?_isSome_iff, h]
    exact Bool.false_ne_true
  have hne : e.1 ≠ k := fun hek => hk (hek ▸ List.mem_map_of_mem he)
  simpa using hne

/-- A new name that is taken out at once leaves no trace. -/
theorem erase_insert_of_get? {t : Table α} {k : String} (h : t.get? k = none) (v : α) :
    (t.insert k v).erase k = t := by
  rw [erase_insert, erase_of_get? h]

/-- The table of a list of entries, later values winning. -/
def ofList (es : List (String × α)) : Table α :=
  es.foldl (fun t e => t.insert e.1 e.2) ∅

end Table

end Wordstack
