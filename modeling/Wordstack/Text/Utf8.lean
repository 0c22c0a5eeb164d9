/-!
# Decoding UTF-8

A byte sequence is read from left to right by a machine that either is *between* characters or
holds a *pending* one: how many continuation bytes are still to come, the bits collected so far,
and the interval in which the next byte has to lie. The interval is narrower than that of all
continuation bytes after four of the leading bytes, which is what keeps out longer spellings of a
character, the surrogates, and code points beyond the last plane.

A byte that cannot stand where it stands makes the whole sequence *invalid*. A sequence that ends
within a character that could still have been completed is *truncated*: what came before is
known.
-/

namespace Wordstack.Text

/-- What a byte sequence spells. -/
inductive Decoding where
  /-- Every byte belongs to a character. -/
  | complete (text : List Char)
  /-- The last character lacks some of its bytes; `text` comes before it. -/
  | truncated (text : List Char)
  /-- Some byte fits no character. -/
  | invalid
  deriving DecidableEq, Repr

/-- A character of which at least one byte has been read and at least one has not. -/
structure Pending where
  /-- The number of bytes to come after the next one. -/
  more : Nat
  /-- The bits of the bytes read. -/
  bits : Nat
  /-- The least next byte. -/
  low : Nat := 0x80
  /-- The greatest next byte. -/
  high : Nat := 0xBF
  deriving DecidableEq, Repr

/-- The pending character after a leading byte. -/
def Pending.ofLead? (b : Nat) : Option Pending :=
  if b < 0xC2 then none
  else if b < 0xE0 then some ⟨0, b - 0xC0, 0x80, 0xBF⟩
  else if b = 0xE0 then some ⟨1, 0, 0xA0, 0xBF⟩
  else if b = 0xED then some ⟨1, 0xD, 0x80, 0x9F⟩
  else if b < 0xF0 then some ⟨1, b - 0xE0, 0x80, 0xBF⟩
  else if b = 0xF0 then some ⟨2, 0, 0x90, 0xBF⟩
  else if b < 0xF4 then some ⟨2, b - 0xF0, 0x80, 0xBF⟩
  else if b = 0xF4 then some ⟨2, 4, 0x80, 0x8F⟩
  else none

/-- Reads on, with the characters read so far in reverse. -/
def decodeFrom : List Char → Option Pending → List UInt8 → Decoding
  | done, none, [] => .complete done.reverse
  | done, some _, [] => .truncated done.reverse
  | done, none, b :: bytes =>
    if b.toNat < 0x80 then decodeFrom (Char.ofNat b.toNat :: done) none bytes
    else match Pending.ofLead? b.toNat with
      | none => .invalid
      | some p => decodeFrom done (some p) bytes
  | done, some p, b :: bytes =>
    if p.low ≤ b.toNat ∧ b.toNat ≤ p.high then
      let bits := p.bits * 0x40 + (b.toNat - 0x80)
      match p.more with
      | 0 => decodeFrom (Char.ofNat bits :: done) none bytes
      | more + 1 => decodeFrom done (some { more, bits }) bytes
    else .invalid

/-- The characters that the bytes spell. -/
def decodeUtf8 (bytes : List UInt8) : Decoding :=
  decodeFrom [] none bytes

/-- Bytes of ASCII spell themselves. -/
theorem decodeFrom_of_ascii {bytes : List UInt8} (h : ∀ b ∈ bytes, b.toNat < 0x80)
    (done : List Char) :
    decodeFrom done none bytes
      = .complete (done.reverse ++ bytes.map fun b => Char.ofNat b.toNat) := by
  induction bytes generalizing done with
  | nil => simp [decodeFrom]
  | cons b bytes ih =>
    simp [decodeFrom, h b (by simp), ih fun c hc => h c (by simp [hc])]

/-- A text of ASCII characters is spelled by their codes. -/
theorem decodeUtf8_of_ascii {text : List Char} (h : ∀ c ∈ text, c.toNat < 0x80) :
    decodeUtf8 (text.map fun c => c.toNat.toUInt8) = .complete text := by
  have hb : ∀ c ∈ text, c.toNat.toUInt8.toNat = c.toNat := fun c hc => by
    have := h c hc
    simp [Nat.toUInt8]
    omega
  rw [decodeUtf8, decodeFrom_of_ascii]
  · simp only [List.reverse_nil, List.nil_append, List.map_map, Decoding.complete.injEq]
    refine (List.map_congr_left fun c hc => ?_).trans (List.map_id text)
    simp [hb c hc, Char.ofNat_toNat]
  · simp only [List.mem_map]
    rintro _ ⟨c, hc, rfl⟩
    rw [hb c hc]
    exact h c hc

end Wordstack.Text
