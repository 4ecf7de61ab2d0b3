import Wic.Sender.Wire

/-!
# The size of a frame

`min_frame_size` computes the size of a frame before `stream_put_frame` writes it, and the encoder
gets a buffer of exactly that size. The two agree except on a close frame without a mask, whose
payload is taken to be as long as the payload with its code, and a close frame whose payload with
its code is longer than its 16-bit length field can say.

## Main definitions

* `TxFrame.putHead`, `TxFrame.payloadReads`: the writes before the payload, and the bytes of the
  payload that are read
* `TxFrame.Sized`: the encoder and the prediction agree

## Main results

* `TxFrame.put_described`: the encoder writes the websocket frame the fields describe
* `streamPutFrame_sized_iff`: when they agree
-/

namespace Wic

open Websocket (xorKey bigEndian splitHeader)

variable {σ : Type}

/-! ## What is read of the payload -/

namespace TxFrame

variable (f : TxFrame)

/-- The writes of `stream_put_frame` before those of the payload. -/
def putHead (tx : Stream) : Stream :=
  let payloadSize := f.payload.bytes.length + if f.opcode = .close then 2 else 0
  let tx := tx.putU8 ((if f.fin then 0x80 else 0) ||| (if f.rsv1 then 0x40 else 0) |||
    (if f.rsv2 then 0x20 else 0) ||| (if f.rsv3 then 0x10 else 0) ||| opcodeToByte f.opcode)
  let maskBit : UInt8 := if f.masked then 0x80 else 0
  let tx := if payloadSize ≤ 125 then tx.putU8 (maskBit ||| UInt8.ofNat payloadSize)
    else (tx.putU8 (maskBit ||| 126)).putU16 payloadSize
  let tx := if f.masked then tx.write f.mask.toList else tx
  let mask (i : Nat) : UInt8 :=
    if f.masked then getElem f.mask (i % 4) (Websocket.mod_four_lt i) else 0
  if f.opcode = .close then
    (tx.putU8 ((f.code >>> 8).toUInt8 ^^^ mask 0)).putU8 (f.code.toUInt8 ^^^ mask 1)
  else tx

/-- The writes of `stream_put_frame` are those and the payload's. -/
theorem put_eq_putHead (tx : Stream) : f.put tx =
    if f.masked then
      (f.putHead tx).putMasked f.mask (if f.opcode = .close then 2 else 0) f.payload.bytes
    else (f.putHead tx).write (f.payload.bytes ++
      List.replicate (if f.opcode = .close then 2 else 0) 0) := by
  simp only [put, putHead]
  split_ifs <;> simp

/-- The indices at which `stream_put_frame` reads the payload: one after the other with a mask, and
without one all at once, where they fit. -/
def payloadReads (tx : Stream) : List Nat :=
  if f.masked then List.range f.payload.bytes.length
  else
    let payloadSize := f.payload.bytes.length + if f.opcode = .close then 2 else 0
    let tx := f.putHead tx
    if tx.writable && !tx.error && payloadSize ≤ tx.size - tx.pos then List.range payloadSize
    else []

/-- The buffer `stream_put_frame` asks for is the size of what it writes: it succeeds without an
error of the stream, it reads the payload only, and the header declares the length of what is
behind it. -/
structure Sized (buf : Nat) (r : Status × Stream × World σ) : Prop where
  success : r.1 = .success
  error : r.2.1.error = false
  size : r.2.1.pos = minFrameSize f.opcode f.masked f.payload.bytes.length
  reads : ∀ i ∈ f.payloadReads (streamInit buf
      (List.replicate (minFrameSize f.opcode f.masked f.payload.bytes.length) 0)
      (minFrameSize f.opcode f.masked f.payload.bytes.length)),
    i < f.payload.bytes.length
  declared : ∃ payload, splitHeader r.2.1.text = some (payload.length, payload)

/-! ## Where they agree -/

/-- The websocket frame the fields describe, masked or not. -/
def described : Websocket.Frame :=
  { f.frame with key := if f.masked then some f.mask else none }

theorem described_of_masked (h : f.masked = true) : f.described = f.frame := by
  simp [described, frame, h]

theorem length_described (h : f.content.length < 65536) :
    f.described.encode.length = minFrameSize f.opcode f.masked f.payload.bytes.length := by
  have hpayload : f.described.payload = f.content := rfl
  have hkey : f.described.key.isSome = f.masked := by
    cases hm : f.masked <;> simp [described, hm]
  rw [Websocket.Frame.length_encode, Websocket.Frame.length_keyBytes_eq, hkey, hpayload]
  simp only [Websocket.extendedLength, minFrameSize, ← f.length_content]
  split_ifs <;> simp_all <;> omega

/-- The bytes of a frame without a mask. -/
theorem encode_of_not_masked (h : f.masked = false) (hlen : f.content.length < 65536) :
    f.described.encode = [f.firstByte] ++
      (if f.content.length ≤ 125 then [UInt8.ofNat f.content.length]
        else [126, UInt8.ofNat (f.content.length / 256), UInt8.ofNat f.content.length]) ++
      f.content := by
  have hfirst : f.described.firstByte = f.firstByte := (f.firstByte_eq).symm
  simp only [Websocket.Frame.encode, Websocket.Frame.header, hfirst]
  have hkey : f.described.key = none := by simp [described, h]
  simp only [Websocket.Frame.secondByte, Websocket.Frame.keyBytes, Websocket.Frame.body, hkey]
  have hpayload : f.described.payload = f.content := rfl
  rw [hpayload]
  by_cases hn : f.content.length ≤ 125
  · simp [Websocket.length7, Websocket.extendedLength, hn]
  · simp [Websocket.length7, Websocket.extendedLength, hn, hlen, bigEndian]

/-- **The encoder writes the frame the fields describe**, unless it is a close without a mask. -/
theorem put_described {tx : Stream} (hs : tx.Ok) (hw : tx.writable = true)
    (he : tx.error = false) (hlen : f.content.length < 65536)
    (hclose : f.opcode = .close → f.masked = true)
    (h : f.described.encode.length ≤ tx.size - tx.pos) :
    f.put tx = tx.write f.described.encode := by
  cases hm : f.masked with
  | true =>
    rw [f.described_of_masked hm, ← f.wire_eq_encode hlen] at h ⊢
    exact f.put_eq hs hw he hm h
  | false =>
    have hop : f.opcode ≠ .close := fun hop => by simp [hclose hop] at hm
    have hcontent : f.content = f.payload.bytes := by simp [content, hop]
    rw [f.encode_of_not_masked hm hlen] at h ⊢
    have hfirst : ((if f.fin = true then (0x80 : UInt8) else 0) |||
        (if f.rsv1 = true then 0x40 else 0) ||| (if f.rsv2 = true then 0x20 else 0) |||
        (if f.rsv3 = true then 0x10 else 0) ||| opcodeToByte f.opcode) = f.firstByte := rfl
    have chain {a b : List UInt8} (hab : a.length + b.length ≤ tx.size - tx.pos) :
        (tx.write a).write b = tx.write (a ++ b) := Stream.write_write hs hw he hab
    simp only [put, Stream.putU8, Stream.putU16, hm, hop, hfirst, if_false, Bool.false_eq_true,
      Nat.add_zero, Nat.sub_self, List.replicate_zero, List.append_nil, UInt8.zero_or]
    rw [hcontent] at h ⊢
    split_ifs at h ⊢ with hn <;> simp only [List.length_append, List.length_cons,
      List.length_nil] at h
    · rw [chain (by simp; omega), chain (by simp; omega)]
    · rw [chain (by simp; omega), chain (by simp; omega), chain (by simp; omega)]
      simp

/-! ## Where they do not -/

/-- A close without a mask has no room for its payload: two bytes more are to be copied than it
has. -/
theorem put_close_error (buf : Nat) (hm : f.masked = false) (hop : f.opcode = .close) {n : Nat}
    (hn : n = minFrameSize f.opcode f.masked f.payload.bytes.length) :
    (f.put (streamInit buf (List.replicate n 0) n)).error = true := by
  have hlt := f.payload.length_lt
  simp only [minFrameSize, hm, hop, if_true, Bool.false_eq_true, if_false] at hn
  have hsize : n % 2 ^ 32 = n := Nat.mod_eq_of_lt (by split_ifs at hn <;> omega)
  have hinit : streamInit buf (List.replicate n 0) n =
      { base := buf, mem := List.replicate n 0, writable := true, size := n } := by
    rw [streamInit, hsize]
  have hok : ({ base := buf, mem := List.replicate n 0, writable := true, size := n } :
      Stream).Ok := ⟨Nat.zero_le _, by simp⟩
  rw [hinit, put_eq_putHead, hm, hop, if_neg Bool.false_ne_true, if_pos rfl]
  generalize htx : ({ base := buf, mem := List.replicate n 0, writable := true, size := n } :
      Stream) = tx at hok ⊢
  have hw : tx.writable = true := by rw [← htx]
  have he : tx.error = false := by rw [← htx]
  have hroom : tx.size - tx.pos = n := by rw [← htx]; rfl
  have chain {a b : List UInt8} (hab : a.length + b.length ≤ tx.size - tx.pos) :
      (tx.write a).write b = tx.write (a ++ b) := Stream.write_write hok hw he hab
  -- What is left behind the header and the code is as long as the payload.
  obtain ⟨head, hhead, hlen⟩ : ∃ head, f.putHead tx = tx.write head ∧
      head.length + f.payload.bytes.length = n := by
    have hfirst : ((if f.fin = true then (0x80 : UInt8) else 0) |||
        (if f.rsv1 = true then 0x40 else 0) ||| (if f.rsv2 = true then 0x20 else 0) |||
        (if f.rsv3 = true then 0x10 else 0) ||| opcodeToByte f.opcode) = f.firstByte := rfl
    simp only [putHead, Stream.putU8, Stream.putU16, hm, hfirst, if_pos hop, Bool.false_eq_true,
      if_false]
    split_ifs with h <;> split_ifs at hn <;> first | omega | skip
    · refine ⟨_, by rw [chain (by simp; omega), chain (by simp; omega), chain (by simp; omega)], ?_⟩
      simp only [List.length_append, List.length_cons, List.length_nil]
      omega
    · refine ⟨_, by rw [chain (by simp; omega), chain (by simp; omega), chain (by simp; omega),
        chain (by simp; omega)], ?_⟩
      simp only [List.length_append, List.length_cons, List.length_nil]
      omega
  have hfit : head.length ≤ tx.size - tx.pos := by omega
  have hpos := Stream.write_pos hw he hfit
  have hsize : (tx.write head).size = tx.size := Stream.write_size head
  have herr := Stream.write_error hw he hfit
  rw [hhead, Stream.write, if_neg (by simp [hw, herr]), if_neg]
  simp only [List.length_append, List.length_replicate, hpos, hsize]
  omega

/-- The length field of a long frame with a mask holds the length modulo `2 ^ 16`. -/
theorem splitHeader_wire (h : 125 < f.content.length) :
    splitHeader f.wire = some (f.content.length % 65536, xorKey f.mask 0 f.content) := by
  have hwire : f.wire = f.firstByte :: 0xfe :: (bigEndian 2 f.content.length ++
      (f.mask.toList ++ xorKey f.mask 0 f.content)) := by
    simp [wire, lengthBytes, Nat.not_le.mpr h, bigEndian]
    rfl
  have hdrop : (bigEndian 2 f.content.length ++
      (f.mask.toList ++ xorKey f.mask 0 f.content)).drop 6 = xorKey f.mask 0 f.content := by
    rw [← List.append_assoc]
    exact List.drop_left' (by simp)
  rw [hwire, splitHeader]
  simp only [show (0xfe : UInt8).toNat = 254 from rfl, Nat.reduceMod, Nat.reduceLT, Nat.reduceLeDiff,
    if_true, if_false, Nat.reduceAdd, hdrop, List.take_left' (Websocket.length_bigEndian 2 _),
    Websocket.foldl_bigEndian, Nat.zero_mul, Nat.zero_add, Nat.reducePow]

/-- A close whose length field overflows declares another length than it has. -/
theorem not_declared_of_overflow (h : 65536 ≤ f.content.length) :
    ¬∃ payload, splitHeader f.wire = some (payload.length, payload) := by
  rintro ⟨payload, hp⟩
  rw [f.splitHeader_wire (by omega), Option.some.injEq, Prod.mk.injEq] at hp
  obtain ⟨hlen, rfl⟩ := hp
  rw [Websocket.length_xorKey] at hlen
  have := Nat.mod_lt f.content.length (by decide : 65536 > 0)
  omega

end TxFrame

variable {cb : Callbacks σ} {w w' : World σ} {buf max : Nat}

theorem streamPutFrame_of_lease {f : TxFrame}
    (hb : lease cb (minFrameSize f.opcode f.masked f.payload.bytes.length) f.type w =
      ((some buf, max), w'))
    (hmax : minFrameSize f.opcode f.masked f.payload.bytes.length ≤ max) {tx : Stream}
    (htx : f.put (streamInit buf
      (List.replicate (minFrameSize f.opcode f.masked f.payload.bytes.length) 0)
      (minFrameSize f.opcode f.masked f.payload.bytes.length)) = tx) :
    streamPutFrame cb f w = (if tx.error then .wouldBlock else .success, tx, w') := by
  simp only [streamPutFrame, hb, if_pos hmax, htx]

/-- **The prediction and the encoder agree on every frame but a close without a mask and a close
whose payload and code are longer than 65535 bytes.** -/
theorem streamPutFrame_sized_iff {f : TxFrame}
    (hb : lease cb (minFrameSize f.opcode f.masked f.payload.bytes.length) f.type w =
      ((some buf, max), w'))
    (hmax : minFrameSize f.opcode f.masked f.payload.bytes.length ≤ max) :
    f.Sized buf (streamPutFrame cb f w) ↔
      (f.opcode = .close → f.masked = true ∧ f.payload.bytes.length ≤ 65533) := by
  have hlt := f.payload.length_lt
  have hcontent := f.length_content
  have hput := streamPutFrame_of_lease hb hmax rfl
  constructor
  -- A close without a mask is an error of the encoder.
  · intro h hop
    have hm : f.masked = true := by
      by_contra hm
      have herr := f.put_close_error buf (Bool.not_eq_true _ ▸ hm) hop rfl
      have hok := h.error
      rw [hput] at hok
      exact Bool.false_ne_true (hok.symm.trans herr)
    refine ⟨hm, Nat.le_of_not_lt fun hlong => ?_⟩
    -- And a longer one declares less than it has.
    rw [if_pos hop] at hcontent
    refine f.not_declared_of_overflow (by omega) ?_
    obtain ⟨payload, hp⟩ := h.declared
    rw [hput, ← f.length_wire hm] at hp
    simp only [f.put_streamInit hm] at hp
    rw [Stream.text, List.take_length] at hp
    exact ⟨payload, hp⟩
  · intro h
    -- Else the payload and the code fit a length of 16 bits.
    have hlen : f.content.length < 65536 := by
      split_ifs at hcontent with hop
      · have := (h hop).2
        omega
      · omega
    have hsize := f.length_described hlen
    have hsmall : f.described.encode.length < 2 ^ 32 := by
      have := f.described.length_encode_le
      have hpayload : f.described.payload = f.content := rfl
      rw [hpayload] at this
      omega
    -- And the frame that is written is as long as it was predicted.
    have hwritten : f.put (streamInit buf
        (List.replicate (minFrameSize f.opcode f.masked f.payload.bytes.length) 0)
        (minFrameSize f.opcode f.masked f.payload.bytes.length)) =
        { base := buf, mem := f.described.encode, writable := true,
          size := f.described.encode.length, pos := f.described.encode.length } := by
      rw [← hsize, streamInit, Nat.mod_eq_of_lt hsmall, f.put_described ⟨Nat.zero_le _, by simp⟩
        rfl rfl hlen (fun hop => (h hop).1) (by simp), Stream.write_eq rfl rfl (by simp)]
      simp
    rw [hwritten] at hput
    refine ⟨?_, ?_, ?_, fun i hi => ?_, ⟨f.described.body, ?_⟩⟩
    · rw [hput]
      rfl
    · rw [hput]
    · rw [hput]
      exact hsize
    · unfold TxFrame.payloadReads at hi
      split at hi
      case isTrue => exact List.mem_range.mp hi
      case isFalse hm =>
        have hop : f.opcode ≠ .close := fun hop => hm (h hop).1
        simp only [if_neg hop, Nat.add_zero] at hi
        split at hi
        · exact List.mem_range.mp hi
        · cases hi
    · rw [hput, Stream.text, List.take_length, f.described.splitHeader_encode,
        f.described.length_body]

namespace Sample

/-- An application that does nothing but hand out buffers of 16 bytes. -/
def lender : Callbacks Unit where
  onMessage _ _ _ w := (true, w)
  onOpen := id
  onClose _ _ := id
  onCloseTransport := id
  onHandshakeFailure _ := id
  onPing := id
  onPong := id
  rand w := (0, w)
  onSend _ _ _ := id
  onBuffer _ _ w := ((some 0, 16), w)
  unset _ _ := false

/-- A cleared instance of that application. -/
def cleared : World Unit := { inst := {}, heap := fun _ => {}, log := [], app := () }

/-- A masked ping of three bytes. -/
def ping : TxFrame :=
  { fin := true, opcode := .ping, type := .ping, masked := true,
    payload := ⟨[1, 2, 3], by decide⟩ }

theorem ping_sized : ping.Sized 0 (streamPutFrame lender ping cleared) := by
  have hb : lease lender (minFrameSize ping.opcode ping.masked ping.payload.bytes.length)
      ping.type cleared = ((some 0, 16), cleared.emit (.buffer 9 .ping (some 0) 16)) := rfl
  exact (streamPutFrame_sized_iff hb (by decide)).mpr nofun

/-- A close without a mask and without a reason. -/
def plainClose : TxFrame := { fin := true, opcode := .close, type := .close, payload := .null }

/-- The encoder finds no room for it in a buffer of 16 bytes, of the four it asks for. -/
theorem plain_close_refused :
    minFrameSize plainClose.opcode plainClose.masked plainClose.payload.bytes.length = 4 ∧
      (streamPutFrame lender plainClose cleared).1 = .wouldBlock ∧
      (streamPutFrame lender plainClose cleared).2.1.error = true ∧
      ¬plainClose.Sized 0 (streamPutFrame lender plainClose cleared) := by
  have hstatus : (streamPutFrame lender plainClose cleared).1 = .wouldBlock := by decide
  exact ⟨by decide, hstatus, by decide, fun h => by cases hstatus.symm.trans h.success⟩

end Sample

end Wic
