import Wic.Commons.Frame
import Wic.Model.Send

/-!
# The frame encoder

What `stream_put_frame` writes for a client, as one list of bytes, and that list as a websocket
frame. The length field is written from a `uint16_t`, so that the two agree as long as the payload
of the frame, with the code of a close in front, is below 65536 bytes.

## Main definitions

* `TxFrame.content`: the payload of the frame on the wire
* `TxFrame.wire`: the bytes of a masked frame
* `TxFrame.frame`: the websocket frame

## Main results

* `TxFrame.put_eq`: the encoder writes `wire`
* `putAndSend_eq`: what a send does, with its three outcomes
* `TxFrame.wire_eq_encode`: `wire` is the encoding of `frame`
-/

namespace Wic

open Websocket (xorKey bigEndian)

variable {σ : Type} (cb : Callbacks σ)

/-! ## Writes -/

namespace Stream

variable {s : Stream}

@[simp] theorem write_error (hw : s.writable = true) (he : s.error = false) {buf : List UInt8}
    (h : buf.length ≤ s.size - s.pos) : (s.write buf).error = false := by
  rw [write_eq hw he h]
  exact he

theorem write_pos (hw : s.writable = true) (he : s.error = false) {buf : List UInt8}
    (h : buf.length ≤ s.size - s.pos) : (s.write buf).pos = s.pos + buf.length := by
  rw [write_eq hw he h]

theorem write_nil (hw : s.writable = true) (he : s.error = false) : s.write [] = s := by
  rw [write_eq hw he (Nat.zero_le _)]
  simp

/-- Two writes that fit are one. -/
theorem write_write (hs : s.Ok) (hw : s.writable = true) (he : s.error = false)
    {a b : List UInt8} (h : a.length + b.length ≤ s.size - s.pos) :
    (s.write a).write b = s.write (a ++ b) := by
  have hp := hs.pos_le
  have hl := hs.size_le
  have ha : a.length ≤ s.size - s.pos := by omega
  have hb : b.length ≤ (s.write a).size - (s.write a).pos := by
    rw [write_size, write_pos hw he ha]
    omega
  have hab : (a ++ b).length ≤ s.size - s.pos := by simpa using h
  rw [write_eq (by simpa using hw) (write_error hw he ha) hb, write_eq hw he hab, write_eq hw he ha]
  have hlen : (s.mem.take s.pos ++ a).length = s.pos + a.length := by simp; omega
  simp only [mk.injEq, true_and, and_true]
  refine ⟨?_, by simp [Nat.add_assoc]⟩
  rw [List.take_left' hlen, ← List.drop_drop, List.drop_left' hlen, List.drop_drop]
  simp [Nat.add_assoc]

/-- The masking loop is one write. -/
theorem putMasked_eq (hs : s.Ok) (hw : s.writable = true) (he : s.error = false) (mask : Mask)
    {i : Nat} {bs : List UInt8} (h : bs.length ≤ s.size - s.pos) :
    s.putMasked mask i bs = s.write (xorKey mask i bs) := by
  induction bs generalizing s i with
  | nil => rw [putMasked, Websocket.xorKey_nil, write_nil hw he]
  | cons b bs ih =>
    have h₁ : [b ^^^ mask[i % 4]].length ≤ s.size - s.pos := by
      simp only [List.length_cons, List.length_nil] at h ⊢
      omega
    rw [putMasked, putU8, Websocket.xorKey_cons, ih (hs.write _) (by simpa using hw)
      (write_error hw he h₁), write_write hs hw he]
    · rfl
    · simpa [Nat.add_comm] using h
    · rw [write_size, write_pos hw he h₁]
      simp only [List.length_cons, List.length_nil] at h ⊢
      omega

end Stream

/-! ## The bytes of a frame -/

namespace TxFrame

variable (f : TxFrame)

/-- The payload of the frame on the wire. -/
def content : List UInt8 :=
  (if f.opcode = .close then [(f.code >>> 8).toUInt8, f.code.toUInt8] else []) ++ f.payload.bytes

/-- The length field of a masked frame. -/
def lengthBytes : List UInt8 :=
  if f.content.length ≤ 125 then [0x80 ||| UInt8.ofNat f.content.length]
  else [0x80 ||| 126, UInt8.ofNat (f.content.length / 256), UInt8.ofNat f.content.length]

/-- FIN, RSV and the opcode. -/
def firstByte : UInt8 :=
  (if f.fin then 0x80 else 0) ||| (if f.rsv1 then 0x40 else 0) ||| (if f.rsv2 then 0x20 else 0) |||
    (if f.rsv3 then 0x10 else 0) ||| opcodeToByte f.opcode

/-- The bytes of a masked frame. -/
def wire : List UInt8 :=
  [f.firstByte] ++ f.lengthBytes ++ f.mask.toList ++ xorKey f.mask 0 f.content

theorem length_content :
    f.content.length = f.payload.bytes.length + if f.opcode = .close then 2 else 0 := by
  unfold content
  split_ifs
  · simp
  · simp

theorem length_lengthBytes :
    f.lengthBytes.length = if f.content.length ≤ 125 then 1 else 3 := by
  unfold lengthBytes
  split_ifs <;> rfl

theorem length_wire_eq : f.wire.length = 1 + f.lengthBytes.length + 4 + f.content.length := by
  simp [wire]
  omega

theorem length_wire (h : f.masked = true) :
    f.wire.length = minFrameSize f.opcode f.masked f.payload.bytes.length := by
  rw [length_wire_eq, length_lengthBytes]
  simp only [minFrameSize, h, if_true, ← f.length_content]
  split_ifs <;> omega

/-- **The encoder writes the bytes of the frame.** -/
theorem put_eq {tx : Stream} (hs : tx.Ok) (hw : tx.writable = true) (he : tx.error = false)
    (hm : f.masked = true) (h : f.wire.length ≤ tx.size - tx.pos) :
    f.put tx = tx.write f.wire := by
  have hlen := f.length_wire_eq
  -- every write but the last is a prefix of the frame, and so fits
  have chain {a b : List UInt8} (hab : a.length + b.length ≤ f.wire.length) :
      (tx.write a).write b = tx.write (a ++ b) :=
    Stream.write_write hs hw he (Nat.le_trans hab h)
  have hsize : f.payload.bytes.length + (if f.opcode = .close then 2 else 0) =
      f.content.length := f.length_content.symm
  have hhead : (if f.content.length ≤ 125 then
        (tx.write [f.firstByte]).write [0x80 ||| UInt8.ofNat f.content.length]
      else ((tx.write [f.firstByte]).write [0x80 ||| 126]).write
        [UInt8.ofNat (f.content.length / 256), UInt8.ofNat f.content.length]) =
      tx.write ([f.firstByte] ++ f.lengthBytes) := by
    rw [length_lengthBytes] at hlen
    unfold lengthBytes
    split_ifs at hlen ⊢ with hn
    · exact chain (by simp; omega)
    · rw [chain (by simp; omega), chain (by simp; omega)]
      simp
  have hmask : (tx.write ([f.firstByte] ++ f.lengthBytes)).write f.mask.toList =
      tx.write ([f.firstByte] ++ f.lengthBytes ++ f.mask.toList) :=
    chain (by simp; omega)
  have hput : ∀ a : List UInt8, a.length + f.payload.bytes.length ≤ f.wire.length → ∀ i,
      (tx.write a).putMasked f.mask i f.payload.bytes =
        tx.write (a ++ xorKey f.mask i f.payload.bytes) := by
    intro a ha i
    have hfit : a.length ≤ tx.size - tx.pos := by omega
    rw [Stream.putMasked_eq (hs.write _) (by simpa using hw) (Stream.write_error hw he hfit)]
    · exact chain (by simpa using ha)
    · rw [Stream.write_size, Stream.write_pos hw he hfit]
      omega
  simp only [put, Stream.putU8, Stream.putU16, hm, if_true, hsize]
  have hfirst : ((if f.fin = true then (0x80 : UInt8) else 0) ||| (if f.rsv1 = true then 0x40 else 0) |||
      (if f.rsv2 = true then 0x20 else 0) ||| (if f.rsv3 = true then 0x10 else 0) |||
      opcodeToByte f.opcode) = f.firstByte := rfl
  rw [hfirst, hhead, hmask]
  by_cases hc : f.opcode = .close
  · simp only [hc, if_true] at hsize ⊢
    rw [chain (by simp; omega), chain (by simp; omega), hput _ (by simp; omega)]
    simp [wire, content, hc]
  · simp only [hc, if_false] at hsize ⊢
    rw [hput _ (by simp; omega)]
    simp [wire, content, hc]

theorem opcodeToByte_lt (op : Opcode) : (opcodeToByte op).toNat < 16 := by
  cases op <;> decide

/-- The opcode as it stands in the first byte. -/
def nibble (op : Opcode) : Fin 16 := ⟨(opcodeToByte op).toNat, opcodeToByte_lt op⟩

/-- The websocket frame the fields describe. -/
def frame : Websocket.Frame where
  fin := f.fin
  rsv := Websocket.reserved f.rsv1 f.rsv2 f.rsv3
  opcode := nibble f.opcode
  key := some f.mask
  payload := f.content
  length_lt := by
    have := f.payload.length_lt
    rw [length_content]
    split_ifs <;> omega

theorem firstByte_eq : f.firstByte = f.frame.firstByte := by
  have h : ∀ fin r₁ r₂ r₃ o, ((if fin = true then (0x80 : UInt8) else 0) |||
      (if r₁ = true then 0x40 else 0) ||| (if r₂ = true then 0x20 else 0) |||
      (if r₃ = true then 0x10 else 0) ||| opcodeToByte o) =
      UInt8.ofNat ((if fin = true then 128 else 0) + Websocket.reserved r₁ r₂ r₃ * 16 + nibble o) := by
    intro fin r₁ r₂ r₃ o
    cases fin <;> cases r₁ <;> cases r₂ <;> cases r₃ <;> cases o <;> rfl
  exact h f.fin f.rsv1 f.rsv2 f.rsv3 f.opcode

private theorem or_ofNat {n : Nat} (h : n < 127) :
    (0x80 : UInt8) ||| UInt8.ofNat n = UInt8.ofNat (128 + n) :=
  (by decide : ∀ n : Fin 127, (0x80 : UInt8) ||| UInt8.ofNat n = UInt8.ofNat (128 + n)) ⟨n, h⟩

/-- **What is on the wire is a websocket frame, its length field in minimal form.** -/
theorem wire_eq_encode (h : f.content.length < 65536) : f.wire = f.frame.encode := by
  have hlength : f.lengthBytes =
      f.frame.secondByte :: Websocket.extendedLength f.content.length := by
    unfold lengthBytes Websocket.Frame.secondByte Websocket.extendedLength Websocket.length7
    by_cases hn : f.content.length ≤ 125
    · simp [frame, hn, or_ofNat (Nat.lt_of_le_of_lt hn (by decide))]
    · simp [frame, hn, h, bigEndian]
      rfl
  simp [wire, firstByte_eq, hlength, Websocket.Frame.encode, Websocket.Frame.header,
    Websocket.Frame.keyBytes, Websocket.Frame.body, frame]

end TxFrame

/-! ## Sending -/

/-- The mask `init_mask` draws. -/
def drawMask (w : World σ) : UInt32 × World σ := if w.inst.rand then cb.rand w else (0xaaaaaaaa, w)

theorem size_maskBytes (m : UInt32) :
    #[m.toUInt8, (m >>> 8).toUInt8, (m >>> 16).toUInt8, (m >>> 24).toUInt8].size = 4 := rfl

/-- The frame with a client's mask. -/
def TxFrame.withMask (f : TxFrame) (m : UInt32) : TxFrame :=
  { f with
    masked := true
    mask := ⟨#[m.toUInt8, (m >>> 8).toUInt8, (m >>> 16).toUInt8, (m >>> 24).toUInt8],
      size_maskBytes m⟩ }

theorem initMask_eq (f : TxFrame) (w : World σ) (h : (drawMask cb w).2.inst.role = .client) :
    initMask cb f w = (f.withMask (drawMask cb w).1, (drawMask cb w).2) := by
  unfold initMask drawMask at *
  simp [TxFrame.withMask, h]

theorem TxFrame.length_wire_lt (f : TxFrame) : f.wire.length < 2 ^ 32 := by
  have hp := f.payload.length_lt
  have hc := f.length_content
  have hl := f.length_lengthBytes
  have hw := f.length_wire_eq
  split_ifs at hc hl <;> omega

/-- A frame put into a buffer of its size fills it. -/
theorem TxFrame.put_streamInit (f : TxFrame) (h : f.masked = true) (buf : Nat) :
    f.put (streamInit buf (List.replicate f.wire.length 0) f.wire.length) =
      { base := buf, mem := f.wire, writable := true, size := f.wire.length,
        pos := f.wire.length } := by
  have hinit : streamInit buf (List.replicate f.wire.length 0) f.wire.length =
      { base := buf, mem := List.replicate f.wire.length 0, writable := true,
        size := f.wire.length } := by
    unfold streamInit
    rw [Nat.mod_eq_of_lt f.length_wire_lt]
  rw [hinit, f.put_eq ⟨Nat.zero_le _, by simp⟩ rfl rfl h (by simp),
    Stream.write_eq rfl rfl (by simp)]
  simp

/-- The outcome of a lease for a frame: the status, and the world once a frame that got its buffer
has been handed over. -/
def deliver (f : TxFrame) (done : Inst → Inst) (buf : Option Nat) (max : Nat) (w : World σ) :
    Status × World σ :=
  if f.wire.length ≤ max then
    match buf with
    | some buf =>
      (.success, cb.onSend buf f.wire f.type ((w.update done).emit (.send buf f.wire f.type)))
    | none => (.wouldBlock, w)
  else (.tooLarge, w)

/-- **A send draws a mask, asks for a buffer of the frame's size, and fills it with the frame.** -/
theorem putAndSend_eq (f : TxFrame) (done : Inst → Inst) (w : World σ)
    (h : (drawMask cb w).2.inst.role = .client) :
    putAndSend cb f done w =
      let f := f.withMask (drawMask cb w).1
      let leased := lease cb f.wire.length f.type (drawMask cb w).2
      deliver cb f done leased.1.1 leased.1.2 leased.2 := by
  have hm : (f.withMask (drawMask cb w).1).masked = true := rfl
  have ht : (f.withMask (drawMask cb w).1).type = f.type := rfl
  simp only [putAndSend, initMask_eq cb f w h, streamPutFrame]
  generalize f.withMask (drawMask cb w).1 = g at hm ht ⊢
  rw [← g.length_wire hm]
  obtain ⟨⟨buf, max⟩, w'⟩ := lease cb g.wire.length g.type (drawMask cb w).2
  simp only [deliver]
  by_cases hfit : g.wire.length ≤ max
  · simp only [hfit, if_true]
    cases buf with
    | none => rfl
    | some buf => simp [g.put_streamInit hm, handOver]
  · simp [hfit]

end Wic
