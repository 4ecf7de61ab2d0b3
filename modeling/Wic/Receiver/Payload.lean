import Wic.Receiver.Header
import Wic.Text.Automaton

/-!
# The payload of a data frame

The bytes of a payload go into the rx buffer one by one, and a buffer that is full is passed on
before the next byte. So a payload comes to pieces of the size of the buffer and a rest. What is
put into the buffer is the payload unmasked, where the masking key starts again with every buffer.

## Main definitions

* `decode`: what the receiver makes of a payload
* `flushed`, `held`: the buffers that are passed on, and the one that is kept
* `offered`: the entries of the trace for a part of a message
* `Absorbed`: the world behind a part of a payload

## Main results

* `received_payload`: a payload is absorbed, or its text closes the instance
-/

namespace Wic

open Websocket (Frame Kind xorKey)

variable {σ : Type}

/-! ## Masks -/

/-- The key the payload is masked with. -/
def RxFrame.key (rx : RxFrame) : Option Mask := if rx.masked then some rx.mask else none

/-- What the receiver makes of a payload, the first byte of which goes to offset `pos` of a buffer
for `room` bytes. -/
def decode (key : Option Mask) (room : Nat) : Nat → List UInt8 → List UInt8
  | _, [] => []
  | pos, b :: bs =>
    let pos := if pos = room then 0 else pos
    (match key with
      | none => b
      | some key => b ^^^ key[pos % 4]) :: decode key room (pos + 1) bs

@[simp] theorem length_decode (key : Option Mask) (room pos : Nat) (bs : List UInt8) :
    (decode key room pos bs).length = bs.length := by
  induction bs generalizing pos with
  | nil => rfl
  | cons b bs ih => simp [decode, ih]

@[simp] theorem decode_none (room pos : Nat) (bs : List UInt8) : decode none room pos bs = bs := by
  induction bs generalizing pos with
  | nil => rfl
  | cons b bs ih => simp [decode, ih]

/-- A payload that fits the buffer is unmasked with its key. -/
theorem decode_of_fits {key : Mask} {room pos : Nat} {bs : List UInt8}
    (h : pos + bs.length ≤ room) : decode (some key) room pos bs = xorKey key pos bs := by
  induction bs generalizing pos with
  | nil => simp [decode]
  | cons b bs ih =>
    rw [List.length_cons] at h
    have hpos : pos ≠ room := by omega
    simp only [decode, if_neg hpos, Websocket.xorKey_cons]
    rw [ih (by omega)]

/-- So is every payload when the size of the buffer is a multiple of the size of a key. -/
theorem decode_of_dvd {key : Mask} {room pos : Nat} (hroom : room % 4 = 0) (bs : List UInt8) :
    ∀ i, i % 4 = pos % 4 → decode (some key) room pos bs = xorKey key i bs := by
  induction bs generalizing pos with
  | nil => simp [decode]
  | cons b bs ih =>
    intro i hi
    have hphase : (if pos = room then 0 else pos) % 4 = i % 4 := by
      split_ifs with hp
      · omega
      · exact hi.symm
    simp only [decode, Websocket.xorKey_cons, hphase]
    rw [ih (i + 1) (by omega)]

/-! ## The buffers of a payload -/

/-- The buffers that are passed on while bytes go into a buffer for `room` bytes. -/
def flushed (room : Nat) : List UInt8 → List UInt8 → List (List UInt8)
  | _, [] => []
  | buf, d :: ds =>
    if buf.length = room then buf :: flushed room [d] ds else flushed room (buf ++ [d]) ds

/-- The buffer behind these bytes. -/
def held (room : Nat) : List UInt8 → List UInt8 → List UInt8
  | buf, [] => buf
  | buf, d :: ds => if buf.length = room then held room [d] ds else held room (buf ++ [d]) ds

section Buffers

variable {room : Nat} {buf ds : List UInt8}

/-- Nothing is passed on of what fits. -/
theorem flushed_of_fits (h : buf.length + ds.length ≤ room) :
    flushed room buf ds = [] ∧ held room buf ds = buf ++ ds := by
  induction ds generalizing buf with
  | nil => simp [flushed, held]
  | cons d ds ih =>
    rw [List.length_cons] at h
    have hnot : buf.length ≠ room := by omega
    have hlen : (buf ++ [d]).length + ds.length ≤ room := by
      rw [List.length_append, List.length_singleton]
      omega
    obtain ⟨hflushed, hheld⟩ := ih hlen
    unfold flushed held
    rw [if_neg hnot, if_neg hnot, hflushed, hheld]
    simp

end Buffers

/-! ## The buffer -/

namespace Stream

variable {s : Stream}

/-- The arguments of a call are the text, up to the size of a `uint16_t`. -/
theorem payload_bytes (h : s.Ok) : s.payload.bytes = s.text.take (s.text.length % 65536) := by
  have hlen := h.length_text
  rw [hlen, text, List.take_take, Nat.min_eq_left (Nat.mod_le _ _)]
  rfl

theorem eof_iff : s.eof = true ↔ s.pos = s.size := by simp [eof]

/-- The buffer once it has been passed on if it was full. -/
def vacate (s : Stream) : Stream := if s.eof then s.rewind else s

theorem vacate_pos : s.vacate.pos = if s.pos = s.size then 0 else s.pos := by
  unfold vacate eof
  by_cases h : s.pos = s.size <;> simp [h]

theorem vacate_size : s.vacate.size = s.size := by
  unfold vacate
  split_ifs <;> rfl

theorem vacate_writable : s.vacate.writable = s.writable := by
  unfold vacate
  split_ifs <;> rfl

theorem Ok.vacate (h : s.Ok) : s.vacate.Ok := by
  unfold Stream.vacate
  split_ifs
  · exact h.rewind
  · exact h

theorem vacate_error (he : s.error = false) : s.vacate.error = false := by
  unfold vacate
  split_ifs
  · rfl
  · exact he

/-- What was in the buffer is still there when it was not full. -/
theorem text_vacate : s.vacate.text = if s.eof then [] else s.text := by
  unfold vacate
  split_ifs <;> simp

theorem vacate_room (hs : s.Ok) (hroom : 0 < s.size) : 1 ≤ s.vacate.size - s.vacate.pos := by
  have hp := hs.pos_le
  rw [vacate_size, vacate_pos]
  split_ifs <;> omega

end Stream

/-- The entries of the trace for a part of a message that is accepted, when the application has a
handler. -/
def offered (handler : Bool) (encoding : Encoding) (fin : Bool) (text : List UInt8) : List Event :=
  if handler then [.message encoding fin (text.take (text.length % 65536)), .answer true] else []

theorem accepted_eq {i : Inst} (h : i.rx.s.Ok) (encoding : Encoding) (fin : Bool) :
    accepted i encoding fin = offered i.onMessage encoding fin i.rx.s.text := by
  rw [accepted, offered, Stream.payload_bytes h]

/-- The frame once a full buffer has been passed on. -/
def RxFrame.vacate (rx : RxFrame) : RxFrame := { rx with s := rx.s.vacate }

section Payload

variable {cb : Callbacks σ} {w : World σ} {encoding : Encoding}

/-- Inside the payload of a data frame the work between two bytes passes a full buffer on. -/
theorem settle_vacates (hcb : cb.Obliging) (h : Live w) (hd : w.inst.rx.state = .data)
    (hz : w.inst.rx.size ≠ 0) (he : w.inst.rx.dataOpcode = encoding.opcode) :
    (settle cb w).2.inst = { w.inst with rx := w.inst.rx.vacate } ∧
      (settle cb w).2.log = w.log ++
        if w.inst.rx.s.eof then offered w.inst.onMessage encoding false w.inst.rx.s.text else [] := by
  unfold RxFrame.vacate Stream.vacate
  rw [settle_of_data cb hd, if_neg hz]
  by_cases heof : w.inst.rx.s.eof = true
  · obtain ⟨hyes, hemits⟩ : _ ∧ Emits _ w (offer cb encoding false w).2 :=
      offer_emits hcb encoding false
    rw [if_pos heof, if_pos heof, if_pos heof, flush_eq, passOn_message he]
    dsimp only
    rw [hyes, if_pos rfl, ← accepted_eq h.lawful.ok]
    exact ⟨by rw [World.updateRx_inst, hemits.inst], hemits.log⟩
  · rw [if_neg heof, if_neg heof, if_neg heof]
    exact ⟨rfl, by simp⟩

/-- A part `ds` of the payload of a data frame, unmasked, has gone through the buffer. -/
structure Absorbed (encoding : Encoding) (ds : List UInt8) (w w' : World σ) : Prop where
  inst : w'.inst = { w.inst with
    rx.size := w.inst.rx.size - ds.length
    rx.s := w'.inst.rx.s
    rx.utf8 := if encoding = .utf8 then utf8ParseString w.inst.rx.utf8 ds else w.inst.rx.utf8 }
  log : w'.log = w.log ++ (flushed w.inst.rx.s.size w.inst.rx.s.text ds).flatMap
    (offered w.inst.onMessage encoding false)
  text : w'.inst.rx.s.text = held w.inst.rx.s.size w.inst.rx.s.text ds
  size : w'.inst.rx.s.size = w.inst.rx.s.size
  valid : encoding = .utf8 → w.inst.rx.utf8 ≠ 1 ∨ ds ≠ [] → utf8ParseString w.inst.rx.utf8 ds ≠ 1
  live : Live w'

/-- A text that is not UTF-8 has closed the instance; a part of it has been passed on. -/
structure Rejected (encoding : Encoding) (w w' : World σ) : Prop where
  utf8 : encoding = .utf8
  state : w'.inst.state = .closed
  log : ∃ (pieces : List (List UInt8)) (es : List Event),
    w'.log = w.log ++ pieces.flatMap (offered w.inst.onMessage encoding false) ++
      .closing closeInvalidData :: es ∧ ∀ e ∈ es, e.Farewell

/-- The byte of a data frame. -/
theorem takeData_message {rx : RxFrame} (he : rx.dataOpcode = encoding.opcode) (b : UInt8) :
    rx.takeData b = { rx with
      size := rx.size - 1
      s := rx.s.putU8 (rx.unmask b)
      utf8 := if encoding = .utf8 then utf8Parse rx.utf8 (rx.unmask b) else rx.utf8 } := by
  have hop : (rx.stored b).dataOpcode = encoding.opcode := he
  unfold RxFrame.takeData RxFrame.inText
  dsimp only
  rw [hop]
  cases encoding <;> simp [Encoding.opcode, RxFrame.stored]

/-- The verdict on a byte of a data frame: its text is not UTF-8. -/
theorem verdict_message {rx : RxFrame} (hd : rx.state = .data)
    (he : rx.dataOpcode = encoding.opcode) {u : Nat} {b : UInt8} {code : UInt16} {type : BufferType}
    (hv : rx.verdict u b = some (code, type)) :
    encoding = .utf8 ∧ code = closeInvalidData ∧ utf8Parse rx.utf8 (rx.unmask b) = 1 := by
  have hop : (rx.stored b).dataOpcode = encoding.opcode := he
  simp only [RxFrame.verdict, hd, RxFrame.take, takeData_message he] at hv
  obtain ⟨h, hcode⟩ := Option.ite_none_right_eq_some.mp hv
  obtain ⟨htext, hinvalid⟩ := Bool.and_eq_true_iff.mp h
  cases encoding with
  | utf8 =>
    exact ⟨rfl, (Prod.mk.inj (Option.some.inj hcode)).1.symm, by simpa [utf8IsInvalid] using hinvalid⟩
  | binary => simp [RxFrame.inText, hop, Encoding.opcode] at htext

/-- A byte that makes a text invalid is given a verdict. -/
theorem verdict_of_invalid {rx : RxFrame} (hd : rx.state = .data)
    (he : rx.dataOpcode = encoding.opcode) (htext : encoding = .utf8) {b : UInt8}
    (h : utf8Parse rx.utf8 (rx.unmask b) = 1) (u : Nat) : rx.verdict u b ≠ none := by
  subst htext
  have hop : (rx.stored b).dataOpcode = .text := he
  have hin : (rx.stored b).inText = true := by simp [RxFrame.inText, hop]
  have hutf8 : (rx.take u b).utf8 = 1 := by
    rw [RxFrame.take, hd]
    simp only [takeData_message he, if_pos, h]
  simp [RxFrame.verdict, hd, hin, hutf8, utf8IsInvalid]

/-- What the receiver makes of one byte. -/
def RxFrame.decoded (b : UInt8) (rx : RxFrame) : UInt8 := rx.vacate.unmask b

/-- Unmasking byte by byte is `decode`. -/
theorem decode_cons (rx : RxFrame) (b : UInt8) (bs : List UInt8) :
    decode rx.key rx.s.size rx.s.pos (b :: bs) =
      rx.decoded b :: decode rx.key rx.s.size (rx.vacate.s.pos + 1) bs := by
  have hpos : rx.vacate.s.pos = if rx.s.pos = rx.s.size then 0 else rx.s.pos := Stream.vacate_pos
  have hunmask : rx.decoded b = if rx.masked then b ^^^ rx.mask[rx.vacate.s.pos % 4] else b := rfl
  rw [hunmask]
  simp only [decode, ← hpos, RxFrame.key]
  cases rx.masked <;> rfl

theorem absorbed_nil (h : Live w) : Absorbed encoding [] w w where
  inst := by simp
  log := by simp [flushed]
  text := rfl
  size := rfl
  valid _ hu := hu.resolve_right (not_not.mpr rfl)
  live := h

/-- The buffer behind one more byte. -/
theorem putU8_vacate {rx : RxFrame} (h : rx.Lawful) (hd : rx.state = .data) (d : UInt8) :
    (rx.s.vacate.putU8 d).text = (if rx.s.eof then [] else rx.s.text) ++ [d] ∧
      (rx.s.vacate.putU8 d).pos = rx.s.vacate.pos + 1 ∧
      (rx.s.vacate.putU8 d).size = rx.s.size := by
  have herr := Stream.vacate_error (h.error (by simp [hd]))
  have hw : rx.s.vacate.writable = true := Stream.vacate_writable.trans h.writable
  have hfit : [d].length ≤ rx.s.vacate.size - rx.s.vacate.pos := Stream.vacate_room h.ok h.room
  refine ⟨?_, Stream.write_pos hw herr hfit, (Stream.write_size _).trans Stream.vacate_size⟩
  rw [Stream.putU8, Stream.text_write h.ok.vacate hw herr hfit, Stream.text_vacate]

/-- One byte of a payload goes into the buffer, behind the full one that is passed on. -/
structure Stores (encoding : Encoding) (b : UInt8) (w w' : World σ) : Prop where
  inst : w'.inst = { w.inst with
    rx.size := w.inst.rx.size - 1
    rx.s := w.inst.rx.s.vacate.putU8 (w.inst.rx.decoded b)
    rx.utf8 := if encoding = .utf8 then utf8Parse w.inst.rx.utf8 (w.inst.rx.decoded b)
      else w.inst.rx.utf8 }
  log : w'.log = w.log ++
    if w.inst.rx.s.eof then offered w.inst.onMessage encoding false w.inst.rx.s.text else []
  valid : encoding = .utf8 → utf8Parse w.inst.rx.utf8 (w.inst.rx.decoded b) ≠ 1
  live : Live w'

theorem consume_stores (hcb : cb.Obliging) (h : Live w) (hd : w.inst.rx.state = .data)
    (hz : w.inst.rx.size ≠ 0) (he : w.inst.rx.dataOpcode = encoding.opcode) {b : UInt8}
    (ho : (settle cb w).2.inst.state = .open)
    (ho' : (consume cb b (settle cb w).2).inst.state = .open) :
    Stores encoding b w (consume cb b (settle cb w).2) := by
  have hb := settle_obliging hcb h
  have hrest := settle_rests hcb.quiet h.receiving hb
  have hlive := settle_live hcb.quiet h ho
  have hlive' := consume_live hcb.quiet hlive hrest ho'
  have hv := verdict_of_open hcb.quiet hlive.role ho'
  obtain ⟨hinst, hlog⟩ := settle_vacates hcb h hd hz he
  refine ⟨?_, ?_, ?_, hlive'⟩
  · rw [consume_of_none hv, World.updateRx_inst, hinst]
    have hop : w.inst.rx.vacate.dataOpcode = encoding.opcode := he
    have htake : w.inst.rx.vacate.take w.inst.utf8Rx b = w.inst.rx.vacate.takeData b := by
      rw [RxFrame.take, show w.inst.rx.vacate.state = .data from hd]
    show ({ w.inst with rx := w.inst.rx.vacate.take w.inst.utf8Rx b } : Inst) = _
    rw [htake, takeData_message hop]
    rfl
  · rw [consume_of_none hv]
    exact hlog
  · intro htext hinvalid
    rw [hinst] at hv
    have hsome := verdict_of_invalid (show w.inst.rx.vacate.state = .data from hd)
      (show w.inst.rx.vacate.dataOpcode = encoding.opcode from he) htext hinvalid w.inst.utf8Rx
    exact absurd hv hsome

theorem Stores.absorbed {w₁ w' : World σ} {b : UInt8} {ds : List UInt8}
    (h : Live w) (hd : w.inst.rx.state = .data)
    (hs : Stores encoding b w w₁) (h' : Absorbed encoding ds w₁ w') :
    Absorbed encoding (w.inst.rx.decoded b :: ds) w w' := by
  obtain ⟨htext, -, hsize⟩ := putU8_vacate h.lawful hd (w.inst.rx.decoded b)
  have hrx : w₁.inst.rx.s = w.inst.rx.s.vacate.putU8 (w.inst.rx.decoded b) := by rw [hs.inst]
  have hhandler : w₁.inst.onMessage = w.inst.onMessage := by rw [hs.inst]
  -- a full buffer is vacated before the byte is stored
  have hfull : w.inst.rx.s.text.length = w.inst.rx.s.size ↔ w.inst.rx.s.eof = true := by
    rw [h.lawful.ok.length_text, Stream.eof_iff]
  refine ⟨?_, ?_, ?_, ?_, ?_, h'.live⟩
  · rw [h'.inst, hs.inst]
    have hlen : w.inst.rx.size - 1 - ds.length =
        w.inst.rx.size - (w.inst.rx.decoded b :: ds).length := by
      rw [List.length_cons]
      omega
    dsimp only
    rw [hlen]
    cases encoding <;> rfl
  -- what has been passed on, what is held, and what is valid, one by one
  · rw [h'.log, hs.log, hhandler, hrx, hsize, htext, List.append_assoc]
    congr 1
    conv_rhs => unfold flushed
    simp only [hfull]
    split_ifs <;> simp
  · rw [h'.text, hrx, hsize, htext]
    conv_rhs => unfold held
    simp only [hfull]
    split_ifs <;> simp
  · rw [h'.size, hrx, hsize]
  · intro hutf8 _
    have hnext := h'.valid hutf8
    rw [hs.inst, if_pos hutf8] at hnext
    exact hnext (.inl (hs.valid hutf8))

/-- A text that closes the instance behind a byte closes it behind the bytes before, too. -/
theorem Stores.rejected {w₁ w' : World σ} {b : UInt8} (hs : Stores encoding b w w₁)
    (h' : Rejected encoding w₁ w') : Rejected encoding w w' := by
  have hhandler : w₁.inst.onMessage = w.inst.onMessage := by rw [hs.inst]
  obtain ⟨pieces, es, hlog, hes⟩ := h'.log
  refine ⟨h'.utf8, h'.state, (if w.inst.rx.s.eof then [w.inst.rx.s.text] else []) ++ pieces, es,
    ?_, hes⟩
  rw [hlog, hs.log, hhandler]
  split_ifs <;> simp

/-- A byte that closes the instance. -/
theorem consume_rejected (hcb : cb.Obliging) (h : Live w) (hd : w.inst.rx.state = .data)
    (hz : w.inst.rx.size ≠ 0) (he : w.inst.rx.dataOpcode = encoding.opcode) {b : UInt8}
    (ho : (settle cb w).2.inst.state = .open)
    (ho' : (consume cb b (settle cb w).2).inst.state ≠ .open) :
    Rejected encoding w (consume cb b (settle cb w).2) ∧
      utf8Parse w.inst.rx.utf8 (w.inst.rx.decoded b) = 1 := by
  have hlive := settle_live hcb.quiet h ho
  obtain ⟨hinst, hlog⟩ := settle_vacates hcb h hd hz he
  have hrx : (settle cb w).2.inst.rx = w.inst.rx.vacate := by rw [hinst]
  cases hv : (settle cb w).2.inst.rx.verdict (settle cb w).2.inst.utf8Rx b with
  | none =>
    rw [consume_of_none hv] at ho'
    exact absurd ho ho'
  | some r =>
    obtain ⟨code, type⟩ := r
    have hc := consume_closes hcb.toPassive hlive.role ho hv
    rw [hrx] at hv
    obtain ⟨htext, rfl, hinvalid⟩ :=
      verdict_message (show w.inst.rx.vacate.state = .data from hd)
        (show w.inst.rx.vacate.dataOpcode = encoding.opcode from he) hv
    obtain ⟨es, hes, hall⟩ := hc.log
    refine ⟨⟨htext, hc.state, if w.inst.rx.s.eof then [w.inst.rx.s.text] else [], es, ?_, hall⟩,
      hinvalid⟩
    rw [hes, hlog]
    split_ifs <;> simp

/-- **A payload is absorbed, or its text closes the instance.** -/
theorem received_payload (hcb : cb.Obliging) {bs : List UInt8} {w : World σ} (h : Live w)
    (hd : w.inst.rx.state = .data) (he : w.inst.rx.dataOpcode = encoding.opcode)
    (hlen : bs.length ≤ w.inst.rx.size) :
    (∃ w', Absorbed encoding (decode w.inst.rx.key w.inst.rx.s.size w.inst.rx.s.pos bs) w w' ∧
        ∀ cs, received cb (bs ++ cs) w = received cb cs w') ∨
      utf8ParseString w.inst.rx.utf8
          (decode w.inst.rx.key w.inst.rx.s.size w.inst.rx.s.pos bs) = 1 ∧ bs ≠ [] ∧
        ∃ w', Rejected encoding w w' ∧ ∀ cs, received cb (bs ++ cs) w = w' := by
  induction bs generalizing w with
  | nil => exact .inl ⟨w, absorbed_nil h, fun _ => rfl⟩
  | cons b bs ih =>
    have hz : w.inst.rx.size ≠ 0 := by
      rw [List.length_cons] at hlen
      omega
    -- the buffer is vacated in front of the byte, which leaves the instance open
    have ho : (settle cb w).2.inst.state = .open := by
      rw [(settle_vacates hcb h hd hz he).1]
      exact h.state
    have hrest := settle_rests hcb.quiet h.receiving (settle_obliging hcb h)
    have hrun (cs : List UInt8) : received cb (b :: bs ++ cs) w =
        received cb (bs ++ cs) (consume cb b (settle cb w).2) := by
      rw [List.cons_append, received_settle hcb h, received_cons ho hrest]
    rw [decode_cons, utf8ParseString_cons]
    -- the byte is stored and the rest of the payload follows, or the text closes the instance
    by_cases ho' : (consume cb b (settle cb w).2).inst.state = .open
    · have hs := consume_stores hcb h hd hz he ho ho'
      generalize consume cb b (settle cb w).2 = w₁ at hs hrun
      obtain ⟨-, hpos, hsize⟩ := putU8_vacate h.lawful hd (w.inst.rx.decoded b)
      have hd₁ : w₁.inst.rx.state = .data := by rw [hs.inst]; exact hd
      have he₁ : w₁.inst.rx.dataOpcode = encoding.opcode := by rw [hs.inst]; exact he
      have hlen₁ : bs.length ≤ w₁.inst.rx.size := by
        rw [hs.inst]
        simp only [List.length_cons] at hlen ⊢
        omega
      have hkey : w₁.inst.rx.key = w.inst.rx.key := by rw [hs.inst]; rfl
      have hbuf : w₁.inst.rx.s = w.inst.rx.s.vacate.putU8 (w.inst.rx.decoded b) := by rw [hs.inst]
      have hutf8 : w₁.inst.rx.utf8 = if encoding = .utf8 then
          utf8Parse w.inst.rx.utf8 (w.inst.rx.decoded b) else w.inst.rx.utf8 := by rw [hs.inst]
      have hnext := ih hs.live hd₁ he₁ hlen₁
      rw [hkey, hbuf, hpos, hsize, hutf8] at hnext
      rcases hnext with ⟨w', habs, hend⟩ | ⟨hparse, -, w', hrej, hend⟩
      · exact .inl ⟨w', hs.absorbed h hd habs, fun cs => (hrun cs).trans (hend cs)⟩
      · rw [if_pos hrej.utf8] at hparse
        exact .inr ⟨hparse, List.cons_ne_nil _ _, w', hs.rejected hrej, fun cs => (hrun cs).trans (hend cs)⟩
    · obtain ⟨hrej, hinvalid⟩ := consume_rejected hcb h hd hz he ho ho'
      refine .inr ⟨by rw [hinvalid, utf8ParseString_invalid], List.cons_ne_nil _ _, _, hrej, fun cs => ?_⟩
      rw [hrun, received_of_not_open ho']

end Payload

end Wic
