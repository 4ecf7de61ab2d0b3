import Wic.Model.Types
import Mathlib.Tactic.SplitIfs
import Mathlib.Tactic.Common

/-!
# Streams

The `stream_*` functions: a cursor over a block of memory, with an error flag that stays set once
a read or a write did not fit. `stream_init` and `stream_init_ro` take the size as a `uint32_t`.

## Main definitions

* `streamInit`, `streamInitRo`: a stream over a block of memory
* `Stream.read`, `Stream.write` and the functions on top of them
* `Stream.rest`, `Stream.text`: the bytes still to read, and those already written
* `Stream.Keeps`: a stream that text has been written to

## Main results

* `Stream.getU8_cons`, `Stream.getU8_nil`: a read takes the head of the rest
* `Stream.text_write`, `Stream.Keeps.write`: a write that fits appends to the text
-/

namespace Wic

/-- `stream_init` -/
def streamInit (base : Nat) (mem : List UInt8) (size : Nat) : Stream :=
  { base, mem, writable := true, size := size % 2 ^ 32 }

/-- `stream_init_ro` -/
def streamInitRo (mem : List UInt8) (size : Nat) : Stream := { mem, size := size % 2 ^ 32 }

namespace Stream

/-- `stream_rewind` -/
def rewind (s : Stream) : Stream := { s with pos := 0, error := false }

/-- `stream_read` -/
def read (s : Stream) (count : Nat) : Option (List UInt8) × Stream :=
  if s.error then (none, s)
  else if count ≤ s.size - s.pos then
    (some ((s.mem.drop s.pos).take count), { s with pos := s.pos + count })
  else (none, { s with error := true })

/-- `stream_write` -/
def write (s : Stream) (buf : List UInt8) : Stream :=
  if !s.writable || s.error then s
  else if buf.length ≤ s.size - s.pos then
    { s with
      mem := s.mem.take s.pos ++ buf ++ s.mem.drop (s.pos + buf.length)
      pos := s.pos + buf.length }
  else { s with error := true }

/-- `stream_max` -/
def max (s : Stream) : Nat := s.size

/-- `stream_seek` -/
def seek (s : Stream) (offset : Nat) : Stream :=
  if offset ≤ s.size then { s with pos := offset } else s

/-- `stream_eof` -/
def eof (s : Stream) : Bool := s.pos == s.size

/-- `stream_put_u8` -/
def putU8 (s : Stream) (value : UInt8) : Stream := s.write [value]

/-- `stream_put_u16` -/
def putU16 (s : Stream) (value : Nat) : Stream :=
  s.write [UInt8.ofNat (value / 256), UInt8.ofNat value]

/-- `stream_get_u8` -/
def getU8 (s : Stream) : Option UInt8 × Stream :=
  match s.read 1 with
  | (some (b :: _), s) => (some b, s)
  | (_, s) => (none, s)

/-- `stream_put_str` -/
def putStr (s : Stream) (str : List UInt8) : Stream := s.write str

/-- `stream_put_u8_masked`: the stream and the unmasked byte. -/
def putU8Masked (s : Stream) (value : UInt8) (mask : Mask) : Stream × UInt8 :=
  let unmasked := value ^^^ mask[s.pos % 4]
  (s.putU8 unmasked, unmasked)

/-- The bytes a reader of the stream has not taken yet. -/
def rest (s : Stream) : List UInt8 := (s.mem.take s.size).drop s.pos

/-- The bytes before the cursor. -/
def text (s : Stream) : List UInt8 := s.mem.take s.pos

/-- The cursor is inside the stream and the stream inside its memory. -/
structure Ok (s : Stream) : Prop where
  pos_le : s.pos ≤ s.size
  size_le : s.size ≤ s.mem.length

variable {s : Stream}

@[simp] theorem rewind_size : s.rewind.size = s.size := rfl
@[simp] theorem rewind_pos : s.rewind.pos = 0 := rfl
@[simp] theorem rewind_error : s.rewind.error = false := rfl
@[simp] theorem rewind_mem : s.rewind.mem = s.mem := rfl
@[simp] theorem rewind_writable : s.rewind.writable = s.writable := rfl
@[simp] theorem rewind_text : s.rewind.text = [] := by simp [text]

theorem Ok.rewind (h : s.Ok) : s.rewind.Ok := ⟨Nat.zero_le _, h.size_le⟩

theorem Ok.length_text (h : s.Ok) : s.text.length = s.pos :=
  List.length_take_of_le (Nat.le_trans h.pos_le h.size_le)

theorem getU8_nil (hs : s.Ok) (he : s.error = false) (h : s.rest = []) :
    s.getU8 = (none, { s with error := true }) := by
  have hp := hs.pos_le
  have hl := hs.size_le
  simp only [rest, List.drop_eq_nil_iff, List.length_take] at h
  have hc : ¬ 1 ≤ s.size - s.pos := by omega
  simp [getU8, read, he, hc]

theorem getU8_cons (he : s.error = false) {b : UInt8} {bs : List UInt8} (h : s.rest = b :: bs) :
    s.getU8 = (some b, { s with pos := s.pos + 1 }) := by
  have hlen := congrArg List.length h
  simp only [rest, List.length_drop, List.length_take, List.length_cons] at hlen
  have hc : 1 ≤ s.size - s.pos := by omega
  have hd : (s.mem.drop s.pos).take 1 = [b] := by
    have ht : ((s.mem.take s.size).drop s.pos).take 1 = [b] := by
      rw [← rest, h]
      rfl
    rw [List.drop_take, List.take_take, Nat.min_eq_left hc] at ht
    exact ht
  simp [getU8, read, he, hc, hd]

theorem rest_advance {b : UInt8} {bs : List UInt8} (h : s.rest = b :: bs) :
    ({ s with pos := s.pos + 1 } : Stream).rest = bs := by
  show (s.mem.take s.size).drop (s.pos + 1) = bs
  rw [← List.drop_drop, ← rest, h]
  rfl

theorem Ok.advance (hs : s.Ok) {b : UInt8} {bs : List UInt8} (h : s.rest = b :: bs) :
    ({ s with pos := s.pos + 1 } : Stream).Ok := by
  have hlen := congrArg List.length h
  have hl := hs.size_le
  simp only [rest, List.length_drop, List.length_take, List.length_cons] at hlen
  exact ⟨by show s.pos + 1 ≤ s.size; omega, hl⟩

@[simp] theorem write_size (buf : List UInt8) : (s.write buf).size = s.size := by
  unfold write
  split_ifs <;> rfl

@[simp] theorem write_writable (buf : List UInt8) : (s.write buf).writable = s.writable := by
  unfold write
  split_ifs <;> rfl

/-- What `stream_write` does when the bytes fit. -/
theorem write_eq (hw : s.writable = true) (he : s.error = false) {buf : List UInt8}
    (h : buf.length ≤ s.size - s.pos) :
    s.write buf = { s with
      mem := s.mem.take s.pos ++ buf ++ s.mem.drop (s.pos + buf.length)
      pos := s.pos + buf.length } := by
  simp [write, hw, he, h]

theorem Ok.write (hs : s.Ok) (buf : List UInt8) : (s.write buf).Ok := by
  have hp := hs.pos_le
  have hl := hs.size_le
  unfold Stream.write
  split_ifs with h₁ h₂
  · exact hs
  · exact ⟨by show s.pos + buf.length ≤ s.size; omega, by simp; omega⟩
  · exact ⟨hp, hl⟩

/-- **A write that fits appends to the text.** -/
theorem text_write (hs : s.Ok) (hw : s.writable = true) (he : s.error = false)
    {buf : List UInt8} (h : buf.length ≤ s.size - s.pos) :
    (s.write buf).text = s.text ++ buf := by
  have hl := hs.length_text
  rw [write_eq hw he h]
  simp only [text] at hl ⊢
  rw [List.take_append_of_le_length (by simp [hl]), List.take_of_length_le (by simp [hl])]

/-- A stream that `text` has been written to: it holds the text, or has run out of room. -/
structure Keeps (s : Stream) (text : List UInt8) : Prop where
  ok : s.Ok
  writable : s.writable = true
  fits : text.length ≤ s.size → s.error = false ∧ s.text = text
  full : s.size < text.length → s.error = true

namespace Keeps

variable {text : List UInt8}

theorem nil (hok : s.Ok) (hw : s.writable = true) (he : s.error = false) (hp : s.pos = 0) :
    s.Keeps [] :=
  ⟨hok, hw, fun _ => ⟨he, by rw [Stream.text, hp, List.take_zero]⟩, fun h => absurd h (by simp)⟩

theorem write (h : s.Keeps text) (bytes : List UInt8) : (s.write bytes).Keeps (text ++ bytes) := by
  have hlen : (text ++ bytes).length = text.length + bytes.length := List.length_append
  refine ⟨h.ok.write bytes, (write_writable bytes).trans h.writable, ?_, ?_⟩
  · intro hfit
    rw [write_size, hlen] at hfit
    obtain ⟨he, htext⟩ := h.fits (by omega)
    have hpos : s.pos = text.length := by rw [← h.ok.length_text, htext]
    have hroom : bytes.length ≤ s.size - s.pos := by omega
    rw [text_write h.ok h.writable he hroom, htext, write_eq h.writable he hroom]
    exact ⟨he, rfl⟩
  · intro hfull
    rw [write_size, hlen] at hfull
    by_cases hfit : text.length ≤ s.size
    · obtain ⟨he, htext⟩ := h.fits hfit
      have hpos : s.pos = text.length := by rw [← h.ok.length_text, htext]
      rw [Stream.write, h.writable, he, if_neg (by simp), if_neg (by omega)]
    · have he := h.full (by omega)
      rw [Stream.write, he, if_pos (by simp)]
      exact he

end Keeps

end Stream

end Wic
