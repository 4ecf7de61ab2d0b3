import Wic.Receiver.Payload

/-!
# One frame

What a whole frame does to an open instance between two frames whose application accepts everything.
A data frame is delivered, in pieces when the buffer is too small for it, or its text closes the
instance; a ping is answered by a pong; a pong is noted; a close closes.

## Main definitions

* `encodingOf`: the encoding of a kind of message
* `passed`: the entries of the trace for a data frame
* `Delivers`: a data frame has been delivered
* `BadText`: a data frame ends a text that is not UTF-8

## Main results

* `received_data`, `received_ping_pong`, `received_close`
-/

namespace Wic

open Websocket (Frame Kind xorKey)

variable {σ : Type}

/-- The encoding of a kind of message. -/
def encodingOf : Kind → Encoding
  | .text => .utf8
  | .binary => .binary

/-- The state of the text when a frame begins. -/
def textStart (f : Frame) (utf8Rx : Nat) : Nat := if f.opcode.val = 0 then utf8Rx else 0

/-- The frame is a part of a text that is not UTF-8, or ends it in the middle of a character. -/
def BadText (f : Frame) (utf8 : Nat) : Prop := if f.fin then utf8 ≠ 0 else utf8 = 1

/-- The entries of the trace for a data frame with the payload `ds`, passed on in buffers for `room`
bytes. -/
def passed (handler : Bool) (encoding : Encoding) (fin : Bool) (room : Nat) (ds : List UInt8) :
    List Event :=
  (flushed room [] ds).flatMap (offered handler encoding false) ++
    offered handler encoding fin (held room [] ds)

/-- A data frame has been delivered; `ds` is what the receiver made of its payload. -/
structure Delivers (f : Frame) (kind : Kind) (ds : List UInt8) (w w' : World σ) : Prop where
  boundary : Boundary w'
  inst : w'.inst = { w.inst with rx := w'.inst.rx, utf8Rx := w'.inst.utf8Rx }
  log : w'.log = w.log ++
    passed w.inst.onMessage (encodingOf kind) f.fin w.inst.rx.s.size ds
  size : w'.inst.rx.s.size = w.inst.rx.s.size
  inside : w'.inst.rx.inside = f.progress w.inst.rx.inside
  valid : kind = .text → textStart f w.inst.utf8Rx ≠ 1 ∨ ds ≠ [] ∨ f.fin = true →
    ¬BadText f (utf8ParseString (textStart f w.inst.utf8Rx) ds)
  utf8 : kind = .text → f.fin = false →
    w'.inst.utf8Rx = utf8ParseString (textStart f w.inst.utf8Rx) ds

/-- The entries of the trace for a ping or a pong. -/
def Replies (f : Frame) (i : Inst) (es : List Event) : Prop :=
  if f.opcode.val = 9 then
    ∃ (data : Payload) (m : UInt32) (buf max : Nat), data.bytes = f.payload ∧
      es = [.buffer ((pongFrame data).withMask m).wire.length .pong (some buf) max,
        .send buf ((pongFrame data).withMask m).wire .pong] ++ if i.onPing then [.onPing] else []
  else es = if i.onPong then [.onPong] else []

/-- A ping or a pong has been dealt with, and the message in progress is where it was. -/
structure Answers (f : Frame) (w w' : World σ) : Prop where
  boundary : Boundary w'
  inst : w'.inst = { w.inst with rx := w'.inst.rx }
  log : ∃ es, w'.log = w.log ++ es ∧ Replies f w.inst es
  size : w'.inst.rx.s.size = w.inst.rx.s.size
  inside : w'.inst.rx.inside = w.inst.rx.inside

/-! ## Payloads -/

/-- A payload that fits the buffer is what was masked. -/
theorem decode_body (f : Frame) {room : Nat} (h : f.payload.length ≤ room) :
    decode f.key room 0 f.body = f.payload := by
  unfold Frame.body
  cases f.key with
  | none => exact decode_none room 0 f.payload
  | some key =>
    dsimp only
    rw [decode_of_fits (by simpa using h), Websocket.xorKey_xorKey]

/-- So is every payload that is not masked. -/
theorem decode_body_of_none {f : Frame} (h : f.key = none) (room : Nat) :
    decode f.key room 0 f.body = f.payload := by
  unfold Frame.body
  rw [h]
  exact decode_none room 0 f.payload

section Reception

variable {cb : Callbacks σ} {w : World σ} {f : Frame} {kind : Kind}

/-! ## The frame behind its header -/

/-- The opcodes of the frames of a message. -/
theorem ofFin_kind {inside : Option Kind} (hk : f.kind inside = some kind) :
    (f.opcode.val = 0 ∧ inside = some kind) ∨
      (f.opcode.val ≠ 0 ∧ Opcode.ofFin f.opcode = (encodingOf kind).opcode) := by
  unfold Frame.kind at hk
  split at hk
  · next h => exact .inl ⟨h, hk⟩
  · next h =>
    obtain rfl : Kind.text = kind := Option.some.inj hk
    have ho : f.opcode = 1 := Fin.ext h
    exact .inr ⟨by simp [h], by rw [ho]; rfl⟩
  · next h =>
    obtain rfl : Kind.binary = kind := Option.some.inj hk
    have ho : f.opcode = 2 := Fin.ext h
    exact .inr ⟨by simp [h], by rw [ho]; rfl⟩
  · cases hk

theorem frag_of_inside {rx : RxFrame} (h : rx.inside = some kind) :
    rx.frag = (encodingOf kind).opcode := by
  unfold RxFrame.inside at h
  split at h
  · next hf => rw [hf, ← Option.some.inj h]; rfl
  · next hf => rw [hf, ← Option.some.inj h]; rfl
  · cases h

/-- The frame behind the header of a data frame carries the message. -/
theorem entered_message {rx : RxFrame} {u : Nat} (hk : f.kind rx.inside = some kind) :
    (rx.entered u f).dataOpcode = (encodingOf kind).opcode ∧
      (rx.entered u f).utf8 = textStart f u := by
  have hne : (encodingOf kind).opcode ≠ .continue := by cases kind <;> simp [encodingOf, Encoding.opcode]
  unfold RxFrame.dataOpcode RxFrame.entered textStart
  dsimp only
  rcases ofFin_kind hk with ⟨ho, hin⟩ | ⟨ho, hop⟩
  · have hcont : Opcode.ofFin f.opcode = .continue := by
      rw [show f.opcode = 0 from Fin.ext ho]
      rfl
    have hfrag := frag_of_inside hin
    rw [if_pos hcont, if_pos ⟨hcont, by rw [hfrag]; exact hne⟩, if_pos ho]
    exact ⟨hfrag, rfl⟩
  · rw [hop, if_neg hne, if_neg (fun h => hne h.1), if_neg ho]
    exact ⟨rfl, rfl⟩

theorem RxFrame.entered_key (u : Nat) (rx : RxFrame) : (rx.entered u f).key = f.key := by
  cases hk : f.key <;> simp [RxFrame.key, RxFrame.entered, hk]

/-- No work is due behind a header that a payload follows. -/
theorem entered_rests (h : Boundary w) (hne : f.payload ≠ []) :
    (w.inst.rx.entered w.inst.utf8Rx f).Rests := by
  have hroom : 0 < w.inst.rx.s.size := h.lawful.room
  refine fun _ => ⟨fun hz => hne (List.length_eq_zero_iff.mp hz), ?_⟩
  simp only [Stream.eof, beq_eq_false_iff_ne]
  exact Nat.ne_of_lt hroom

/-- The instance is well behind a header that is let through. -/
theorem entered_live (h : Boundary w)
    (hv : headerVerdict w.inst.rx.inside w.inst.rx.s.size f = none) :
    Live (w.updateRx fun rx => rx.entered w.inst.utf8Rx f) := by
  have hrsv : f.rsv = 0 := by
    unfold headerVerdict at hv
    split_ifs at hv with hstart
    exact rsv_of_startAllowed hstart
  refine ⟨h.state, h.role, ?_⟩
  show (w.inst.rx.entered w.inst.utf8Rx f).Lawful
  rw [← RxFrame.takeAll_header h.boundary hrsv]
  exact (RxFrame.flows_header h.boundary h.lawful.frag hv).lawful h.lawful

/-! ## The end of a data frame -/

/-- A text that ends in the middle of a character. -/
theorem received_incomplete (hcb : cb.Obliging) (h : Live w) (hd : w.inst.rx.state = .data)
    (hz : w.inst.rx.size = 0) (he : w.inst.rx.dataOpcode = .text) (hf : w.inst.rx.fin = true)
    (hu : w.inst.rx.utf8 ≠ 0) :
    ∃ w', Closes closeInvalidData w w' ∧ ∀ cs, received cb cs w = w' := by
  have hc : utf8IsComplete w.inst.rx.utf8 = false := by simpa [utf8IsComplete] using hu
  obtain ⟨hinst, hlog⟩ :=
    closeWithReason_emits hcb.toPassive h.role h.state closeInvalidData .null (.inl rfl)
  have hset : (settle cb w).2 =
      (closeWithCode cb closeInvalidData .close w).updateRx fun rx => { rx with state := .opcode } := by
    rw [settle_of_data cb hd, if_pos hz, finish_incomplete he hf hc]
    rfl
  have hclosed : (settle cb w).2.inst.state = .closed := by
    rw [hset, World.updateRx_inst, closeWithCode, hinst]
  refine ⟨(settle cb w).2, ⟨hclosed, ?_⟩, fun cs => ?_⟩
  · rw [hset]
    exact hlog
  · rw [received_settle hcb h, received_of_not_open (by simp [hclosed])]

/-- The instance behind the end of a data frame. -/
def endFrame (encoding : Encoding) (fin : Bool) (i : Inst) : Inst :=
  { endMessage encoding fin i with rx.state := .opcode }

/-- The rest of a payload is passed on at the end of its frame. -/
theorem received_end (hcb : cb.Obliging) (h : Live w) (hd : w.inst.rx.state = .data)
    (hz : w.inst.rx.size = 0) {encoding : Encoding}
    (he : w.inst.rx.dataOpcode = encoding.opcode)
    (hc : encoding = .utf8 → w.inst.rx.fin = true → w.inst.rx.utf8 = 0) :
    ∃ w', w'.inst = endFrame encoding w.inst.rx.fin w.inst ∧
      w'.log = w.log ++ offered w.inst.onMessage encoding w.inst.rx.fin w.inst.rx.s.text ∧
      Boundary w' ∧ ∀ cs, received cb cs w = received cb cs w' := by
  have hcomplete (h₁ : encoding = .utf8) (h₂ : w.inst.rx.fin = true) :
      utf8IsComplete w.inst.rx.utf8 = true := by simp [utf8IsComplete, hc h₁ h₂]
  obtain ⟨hyes, hemits⟩ : _ ∧ Emits _ w (offer cb encoding w.inst.rx.fin w).2 :=
    offer_emits hcb encoding w.inst.rx.fin
  have hset : (settle cb w).2 = ((offer cb encoding w.inst.rx.fin w).2.update
      (endMessage encoding w.inst.rx.fin)).updateRx fun rx => { rx with state := .opcode } := by
    rw [settle_of_data cb hd, if_pos hz, finish_message hcb.quiet h.role he hcomplete]
    simp only [offerAll, hyes, Bool.not_true, Bool.false_eq_true, if_true, if_false]
  have hinst : (settle cb w).2.inst = endFrame encoding w.inst.rx.fin w.inst := by
    rw [hset, World.updateRx_inst, World.update_inst, hemits.inst]
    rfl
  have hopen : (settle cb w).2.inst.state = .open := by
    rw [hinst, endFrame, endMessage_eq]
    exact h.state
  refine ⟨_, hinst, ?_, ⟨settle_live hcb.quiet h hopen, by rw [hinst]; rfl⟩,
    received_settle hcb h⟩
  rw [hset, ← accepted_eq h.lawful.ok]
  exact hemits.log

/-- What is recorded of the end of a data frame. -/
theorem endFrame_fields {i : Inst} {inside : Option Kind} (hk : f.kind inside = some kind) :
    (endFrame (encodingOf kind) f.fin i).rx.inside = f.progress inside ∧
      (endFrame (encodingOf kind) f.fin i).rx.s = i.rx.s ∧
      (kind = .text → f.fin = false → (endFrame (encodingOf kind) f.fin i).utf8Rx = i.rx.utf8) := by
  unfold Frame.progress
  rw [Frame.isControl_of_kind hk]
  cases kind <;> cases hf : f.fin <;>
    simp [endFrame, endMessage, encodingOf, RxFrame.inside, hk]

/-- Bytes of the payload of a data frame have been absorbed; `ds` is what the receiver made of
them. -/
structure Loaded (f : Frame) (kind : Kind) (ds : List UInt8) (w w' : World σ) : Prop where
  inst : w'.inst = { w.inst with rx := { w.inst.rx.entered w.inst.utf8Rx f with
    size := f.payload.length - ds.length
    s := w'.inst.rx.s
    utf8 := if kind = .text then utf8ParseString (textStart f w.inst.utf8Rx) ds
      else textStart f w.inst.utf8Rx } }
  log : w'.log = w.log ++ (flushed w.inst.rx.s.size [] ds).flatMap
    (offered w.inst.onMessage (encodingOf kind) false)
  text : w'.inst.rx.s.text = held w.inst.rx.s.size [] ds
  size : w'.inst.rx.s.size = w.inst.rx.s.size
  valid : kind = .text → textStart f w.inst.utf8Rx ≠ 1 ∨ ds ≠ [] →
    utf8ParseString (textStart f w.inst.utf8Rx) ds ≠ 1
  live : Live w'

theorem encodingOf_eq_utf8 : encodingOf kind = .utf8 ↔ kind = .text := by
  cases kind <;> simp [encodingOf]

/-- **The header of a data frame and bytes of its payload.** -/
theorem received_body (hcb : cb.Obliging) (h : Boundary w)
    (hv : headerVerdict w.inst.rx.inside w.inst.rx.s.size f = none)
    (hk : f.kind w.inst.rx.inside = some kind) {bs : List UInt8}
    (hbs : bs.length ≤ f.payload.length) :
    let ds := decode f.key w.inst.rx.s.size 0 bs
    (∃ w', Loaded f kind ds w w' ∧
        ∀ cs, received cb (f.header ++ (bs ++ cs)) w = received cb cs w') ∨
      kind = .text ∧ utf8ParseString (textStart f w.inst.utf8Rx) ds = 1 ∧ ds ≠ [] ∧
        ∃ w', Rejected (encodingOf kind) w w' ∧
          ∀ cs, received cb (f.header ++ (bs ++ cs)) w = w' := by
  obtain ⟨hop, hutf8⟩ := entered_message (u := w.inst.utf8Rx) hk
  have hlive := entered_live h hv
  have hrun (cs : List UInt8) : received cb (f.header ++ (bs ++ cs)) w = _ :=
    received_header h hv (bs ++ cs)
  -- behind the header, in the fields of the new frame
  generalize hw₀ : (w.updateRx fun rx => rx.entered w.inst.utf8Rx f) = w₀ at hlive hrun
  have hinst₀ : w₀.inst = { w.inst with rx := w.inst.rx.entered w.inst.utf8Rx f } := by
    rw [← hw₀]
    rfl
  have hlog₀ : w₀.log = w.log := by rw [← hw₀]; rfl
  have hrx : w₀.inst.rx = w.inst.rx.entered w.inst.utf8Rx f := by rw [hinst₀]
  have hhandler : w₀.inst.onMessage = w.inst.onMessage := by rw [hinst₀]
  have hkey : w₀.inst.rx.key = f.key := by rw [hrx, RxFrame.entered_key]
  have hroom : w₀.inst.rx.s.size = w.inst.rx.s.size := by rw [hrx]; rfl
  have hpos : w₀.inst.rx.s.pos = 0 := by rw [hrx]; rfl
  have hempty : w₀.inst.rx.s.text = [] := by rw [hrx]; exact Stream.rewind_text
  have hstart : w₀.inst.rx.utf8 = textStart f w.inst.utf8Rx := by rw [hrx]; exact hutf8
  have hd₀ : w₀.inst.rx.state = .data := by rw [hrx]; rfl
  have he₀ : w₀.inst.rx.dataOpcode = (encodingOf kind).opcode := by rw [hrx]; exact hop
  have hsize : bs.length ≤ w₀.inst.rx.size := by rw [hrx]; exact hbs
  -- the bytes of the payload, which are absorbed or close the instance
  have hpay := received_payload hcb hlive hd₀ he₀ hsize
  rw [hkey, hroom, hpos, hstart] at hpay
  dsimp only
  generalize hds : decode f.key w.inst.rx.s.size 0 bs = ds at hpay ⊢
  have hdslen : ds.length = bs.length := by rw [← hds, length_decode]
  obtain ⟨w₁, habs, hend⟩ | ⟨hinvalid, hne, w', hrej, hend⟩ := hpay
  · refine .inl ⟨w₁, ⟨?_, ?_, ?_, habs.size.trans hroom, ?_, habs.live⟩,
      fun cs => (hrun cs).trans (hend cs)⟩
    · rw [habs.inst, hinst₀]
      dsimp only
      rw [hutf8]
      simp only [encodingOf_eq_utf8, RxFrame.entered]
    · rw [habs.log, hlog₀, hroom, hempty, hhandler]
    · rw [habs.text, hroom, hempty]
    · intro ht hne
      have hvalid := habs.valid (encodingOf_eq_utf8.mpr ht)
      rw [hstart] at hvalid
      exact hvalid hne
  · obtain ⟨pieces, es, hlog, hes⟩ := hrej.log
    rw [hlog₀, hhandler] at hlog
    have hds : ds ≠ [] := fun hnil => hne (List.length_eq_zero_iff.mp (by rw [← hdslen, hnil]; rfl))
    exact .inr ⟨encodingOf_eq_utf8.mp hrej.utf8, hinvalid, hds, w',
      ⟨hrej.utf8, hrej.state, pieces, es, hlog, hes⟩, fun cs => (hrun cs).trans (hend cs)⟩

namespace Loaded

variable {ds : List UInt8} {w₁ : World σ}

theorem state (h : Loaded f kind ds w w₁) : w₁.inst.rx.state = .data := by
  rw [h.inst]
  rfl

theorem fin (h : Loaded f kind ds w w₁) : w₁.inst.rx.fin = f.fin := by
  rw [h.inst]
  rfl

theorem dataOpcode (h : Loaded f kind ds w w₁) (hk : f.kind w.inst.rx.inside = some kind) :
    w₁.inst.rx.dataOpcode = (encodingOf kind).opcode := by
  rw [h.inst]
  exact (entered_message (u := w.inst.utf8Rx) hk).1

theorem utf8 (h : Loaded f kind ds w w₁) (ht : kind = .text) :
    w₁.inst.rx.utf8 = utf8ParseString (textStart f w.inst.utf8Rx) ds := by
  rw [h.inst]
  exact if_pos ht

theorem remaining (h : Loaded f kind ds w w₁) (hds : ds.length = f.payload.length) :
    w₁.inst.rx.size = 0 := by
  rw [h.inst]
  exact Nat.sub_eq_zero_of_le (Nat.le_of_eq hds.symm)

/-- A text that stops in the middle of a character. -/
theorem rejected (h : Loaded f .text ds w w₁) (hcb : cb.Obliging)
    (hk : f.kind w.inst.rx.inside = some .text) (hds : ds.length = f.payload.length)
    (hf : f.fin = true) (hu : utf8ParseString (textStart f w.inst.utf8Rx) ds ≠ 0) :
    ∃ w', Rejected (encodingOf .text) w w' ∧ ∀ cs, received cb cs w₁ = w' := by
  obtain ⟨w', hcloses, hend⟩ := received_incomplete hcb h.live h.state (h.remaining hds)
    (h.dataOpcode hk) (h.fin.trans hf) (by rw [h.utf8 rfl]; exact hu)
  obtain ⟨es, hes, hall⟩ := hcloses.log
  refine ⟨w', ⟨rfl, hcloses.state, flushed w.inst.rx.s.size [] ds, es, ?_, hall⟩, hend⟩
  rw [hes, h.log]

/-- The whole payload of a frame that does not end a text in the middle of a character. -/
theorem delivers (h : Loaded f kind ds w w₁) (hcb : cb.Obliging)
    (hk : f.kind w.inst.rx.inside = some kind) (hds : ds.length = f.payload.length)
    (hu : kind = .text → f.fin = true → utf8ParseString (textStart f w.inst.utf8Rx) ds = 0) :
    ∃ w', Delivers f kind ds w w' ∧ ∀ cs, received cb cs w₁ = received cb cs w' := by
  obtain ⟨w', hinst, hlog, hbound, hend⟩ :=
    received_end hcb h.live h.state (h.remaining hds) (h.dataOpcode hk) (by
      intro ht hfin
      rw [h.utf8 (encodingOf_eq_utf8.mp ht)]
      exact hu (encodingOf_eq_utf8.mp ht) (h.fin ▸ hfin))
  rw [h.fin] at hinst hlog
  have hhandler : w₁.inst.onMessage = w.inst.onMessage := by rw [h.inst]
  obtain ⟨hinside, hs, hrec⟩ := endFrame_fields (i := w₁.inst) hk
  refine ⟨w', ⟨hbound, ?_, ?_, ?_, ?_, ?_, ?_⟩, hend⟩
  · rw [hinst, endFrame, endMessage_eq, h.inst]
  · rw [hlog, h.log, hhandler, h.text, List.append_assoc]
    rfl
  · rw [hinst, hs, h.size]
  · rw [hinst, hinside]
  · intro ht hne hb
    unfold BadText at hb
    split_ifs at hb with hfin
    · exact hb (hu ht hfin)
    · exact h.valid ht (hne.imp_right fun hne => hne.resolve_right hfin) hb
  · intro ht hfin
    rw [hinst, hrec ht hfin, h.utf8 ht]

end Loaded

/-- **A data frame is delivered, or its text closes the instance.** -/
theorem received_data (hcb : cb.Obliging) (h : Boundary w)
    (hv : headerVerdict w.inst.rx.inside w.inst.rx.s.size f = none)
    (hk : f.kind w.inst.rx.inside = some kind) :
    let ds := decode f.key w.inst.rx.s.size 0 f.body
    (∃ w', Delivers f kind ds w w' ∧ ∀ cs, received cb (f.encode ++ cs) w = received cb cs w') ∨
      kind = .text ∧ BadText f (utf8ParseString (textStart f w.inst.utf8Rx) ds) ∧
        (ds ≠ [] ∨ f.fin = true) ∧
        ∃ w', Rejected (encodingOf kind) w w' ∧ ∀ cs, received cb (f.encode ++ cs) w = w' := by
  have hbody := received_body hcb h hv hk (Nat.le_of_eq f.length_body)
  have hdslen := (length_decode f.key w.inst.rx.s.size 0 f.body).trans f.length_body
  have hencode (cs : List UInt8) : f.encode ++ cs = f.header ++ (f.body ++ cs) := by
    rw [Frame.encode, List.append_assoc]
  simp only [hencode]
  dsimp only at hbody
  generalize decode f.key w.inst.rx.s.size 0 f.body = ds at hbody hdslen
  obtain ⟨w₁, hload, hend⟩ | ⟨rfl, hinvalid, hne, hrej⟩ := hbody
  -- the payload is held; only the end of a text may still be refused
  · by_cases hbad : kind = .text ∧ f.fin = true ∧
        utf8ParseString (textStart f w.inst.utf8Rx) ds ≠ 0
    · obtain ⟨rfl, hfin, hu⟩ := hbad
      obtain ⟨w', hrej, hend'⟩ := hload.rejected hcb hk hdslen hfin hu
      refine .inr ⟨rfl, ?_, .inr hfin, w', hrej, fun cs => (hend cs).trans (hend' cs)⟩
      unfold BadText
      rwa [if_pos hfin]
    · obtain ⟨w', hd, hend'⟩ := hload.delivers hcb hk hdslen fun ht hfin =>
        by_contra fun hu => hbad ⟨ht, hfin, hu⟩
      exact .inl ⟨w', hd, fun cs => (hend cs).trans (hend' cs)⟩
  · -- a byte of the text has closed the instance
    refine .inr ⟨rfl, ?_, .inl hne, hrej⟩
    unfold BadText
    rw [hinvalid]
    split_ifs <;> simp

/-! ## Control frames -/

/-- A control frame does not go on with the message in progress. -/
theorem dataOpcode_of_control {rx : RxFrame} (hc : rx.opcode.isControl = true) :
    rx.dataOpcode = rx.opcode := by
  unfold RxFrame.dataOpcode
  rw [if_neg]
  intro ho
  simp [ho, Opcode.isControl] at hc

/-- No work is due inside the payload of a control frame. -/
theorem RxFrame.Lawful.rests_of_control {rx : RxFrame} (h : rx.Lawful) (hd : rx.state = .data)
    (hc : rx.opcode.isControl = true) (hz : rx.size ≠ 0) : rx.Rests := by
  obtain ⟨-, -, hfit, -⟩ := h.short hc (by simp [hd]) (by simp [hd])
  refine fun _ => ⟨hz, ?_⟩
  simp only [Stream.eof, beq_eq_false_iff_ne]
  omega

/-- A part `ds` of the payload of a control frame, unmasked, is in the buffer; in a close frame what
lies behind the code is text. -/
structure RxFrame.Gathered (ds : List UInt8) (rx rx' : RxFrame) : Prop where
  fields : rx' = { rx with size := rx.size - ds.length, s := rx'.s, utf8 := rx'.utf8 }
  text : rx'.s.text = rx.s.text ++ ds
  room : rx'.s.size = rx.s.size
  utf8 : rx.opcode = .close → rx'.utf8 = utf8ParseString rx.utf8 (ds.drop (2 - rx.s.pos))
  valid : rx.opcode = .close → rx.utf8 ≠ 1 → rx'.utf8 ≠ 1
  lawful : rx'.Lawful

theorem RxFrame.Gathered.cons {rx rx₁ rx' : RxFrame} {d : UInt8} {ds : List UInt8}
    (hpos : rx₁.s.pos = rx.s.pos + 1) (h : rx.Gathered [d] rx₁) (h' : rx₁.Gathered ds rx') :
    rx.Gathered (d :: ds) rx' where
  fields := by
    have hlen : rx.size - [d].length - ds.length = rx.size - (d :: ds).length := by
      simp only [List.length_cons, List.length_nil]
      omega
    rw [h'.fields, h.fields]
    dsimp only
    rw [hlen]
  text := by rw [h'.text, h.text, List.append_assoc]; rfl
  room := h'.room.trans h.room
  utf8 ho := by
    have ho₁ : rx₁.opcode = .close := by rw [h.fields]; exact ho
    rw [h'.utf8 ho₁, h.utf8 ho, hpos]
    -- the text begins at offset 2
    obtain hp | hp | hp : rx.s.pos = 0 ∨ rx.s.pos = 1 ∨ 2 ≤ rx.s.pos := by omega
    · simp [hp]
    · simp [hp]
    · rw [Nat.sub_eq_zero_of_le hp, Nat.sub_eq_zero_of_le (Nat.le_succ_of_le hp)]
      rfl
  valid ho hu := h'.valid (by rw [h.fields]; exact ho) (h.valid ho hu)
  lawful := h'.lawful

/-- One byte of the payload of a control frame. -/
theorem RxFrame.Lawful.take_control {rx : RxFrame} (h : rx.Lawful) (hd : rx.state = .data)
    (hc : rx.opcode.isControl = true) (hz : rx.size ≠ 0) (u : Nat) (b : UInt8) :
    (rx.verdict u b = none ∧ rx.Gathered [rx.decoded b] (rx.take u b) ∧
        (rx.take u b).s.pos = rx.s.pos + 1) ∨
      rx.verdict u b = some (closeInvalidData, .closeResponse) ∧ rx.opcode = .close ∧
        2 ≤ rx.s.pos ∧ utf8Parse rx.utf8 (rx.decoded b) = 1 := by
  have hrest := h.rests_of_control hd hc hz
  have he : rx.s.eof = false := (hrest hd).2
  have hdecoded : rx.decoded b = rx.unmask b := by simp [decoded, vacate, Stream.vacate, he]
  have herr := h.error (by simp [hd])
  have hfit : [rx.unmask b].length ≤ rx.s.size - rx.s.pos := by
    have hlt := h.lt_size he
    rw [List.length_singleton]
    omega
  have hpos : (rx.stored b).s.pos = rx.s.pos + 1 := Stream.write_pos h.writable herr hfit
  have hop : (rx.stored b).dataOpcode = rx.opcode := dataOpcode_of_control hc
  -- behind the status the bytes of a close are those of a text
  have hin : (rx.stored b).inText = decide (rx.opcode = .close ∧ 2 ≤ rx.s.pos) := by
    have hne : rx.opcode ≠ .text := fun ho => by simp [ho, Opcode.isControl] at hc
    have hlt : 2 < rx.s.pos + 1 ↔ 2 ≤ rx.s.pos := by omega
    simp [inText, hop, hne, hpos, hlt]
  have htake : rx.take u b = rx.takeData b := by rw [RxFrame.take, hd]
  have hverdict : rx.verdict u b =
      if (rx.stored b).inText && utf8IsInvalid (rx.takeData b).utf8 then
        some (closeInvalidData, rx.textClose) else none := by
    simp only [verdict, hd, htake]
  have htype (ho : rx.opcode = .close) : rx.textClose = .closeResponse := by
    have hdata : rx.dataOpcode = .close := (dataOpcode_of_control hc).trans ho
    simp [textClose, hdata]
  rw [hdecoded, hverdict]
  -- the byte breaks the text of a close, or it is gathered
  by_cases hbad : (rx.stored b).inText && utf8IsInvalid (rx.takeData b).utf8
  · obtain ⟨hin', hu⟩ := Bool.and_eq_true_iff.mp hbad
    have hutf8 : (rx.takeData b).utf8 = utf8Parse rx.utf8 (rx.unmask b) := by
      simp [takeData, hin']
    rw [hin, decide_eq_true_eq] at hin'
    rw [if_pos hbad, htype hin'.1]
    rw [hutf8, utf8IsInvalid, beq_iff_eq] at hu
    exact .inr ⟨rfl, hin'.1, hin'.2, hu⟩
  · rw [if_neg hbad]
    have hlawful : (rx.take u b).Lawful := h.take hrest (by rw [hverdict, if_neg hbad])
    rw [htake] at hlawful ⊢
    have hs := takeData_s b rx
    have hutf8 (ho : rx.opcode = .close) : (rx.takeData b).utf8 =
        utf8ParseString rx.utf8 ([rx.unmask b].drop (2 - rx.s.pos)) := by
      by_cases hp : 2 ≤ rx.s.pos
      · simp [takeData, hin, ho, hp, Nat.sub_eq_zero_of_le hp]
      · have hdrop : [rx.unmask b].drop (2 - rx.s.pos) = [] :=
          List.drop_eq_nil_iff.mpr (by rw [List.length_singleton]; omega)
        simp [takeData, hin, hp, hdrop]
    refine .inl ⟨rfl, ⟨?_, ?_, ?_, hutf8, fun ho hu hone => hbad ?_, hlawful⟩, ?_⟩
    · unfold takeData stored
      dsimp only
      split_ifs <;> rfl
    · rw [hs, Stream.putU8, Stream.text_write h.ok h.writable herr hfit]
    · rw [hs, Stream.putU8, Stream.write_size]
    · -- the text is invalid only behind a byte of it
      have hp : 2 ≤ rx.s.pos := by
        by_contra hp
        have hdrop : [rx.unmask b].drop (2 - rx.s.pos) = [] :=
          List.drop_eq_nil_iff.mpr (by rw [List.length_singleton]; omega)
        rw [hutf8 ho, hdrop] at hone
        exact hu hone
      simp [hin, ho, hp, hone, utf8IsInvalid]
    · rw [hs]
      exact hpos

/-- **The payload of a control frame is gathered, or the reason of a close closes the instance.** -/
theorem RxFrame.Lawful.flows_control {rx : RxFrame} {u : Nat} {bs : List UInt8} (h : rx.Lawful)
    (hd : rx.state = .data) (hc : rx.opcode.isControl = true) (hlen : bs.length ≤ rx.size) :
    let ds := decode rx.key rx.s.size rx.s.pos bs
    rx.Flows u bs ∧ rx.Gathered ds (rx.takeAll u bs) ∨
      rx.opcode = .close ∧ rx.Breaks u (closeInvalidData, .closeResponse) bs ∧
        utf8ParseString rx.utf8 (ds.drop (2 - rx.s.pos)) = 1 := by
  induction bs generalizing rx with
  | nil =>
    refine .inl ⟨trivial, rfl, by simp [takeAll, decode], rfl, fun _ => ?_, fun _ hu => hu, h⟩
    simp [takeAll, decode]
  -- a control frame fits the buffer, so that it is never passed on before its end
  | cons b bs ih =>
    have hz : rx.size ≠ 0 := by
      rw [List.length_cons] at hlen
      omega
    have hrest := h.rests_of_control hd hc hz
    have hvacate : rx.vacate = rx := by simp [vacate, Stream.vacate, (hrest hd).2]
    rw [decode_cons, hvacate]
    dsimp only
    rcases h.take_control hd hc hz u b with ⟨hv, hg, hpos⟩ | ⟨hv, ho, hp, hbad⟩
    · have hd₁ : (rx.take u b).state = .data := by rw [hg.fields]; exact hd
      have ho₁ : (rx.take u b).opcode = rx.opcode := by rw [hg.fields]
      have hkey : (rx.take u b).key = rx.key := by rw [hg.fields]; rfl
      have hlen₁ : bs.length ≤ (rx.take u b).size := by
        rw [hg.fields]
        simp only [List.length_cons, List.length_nil] at hlen ⊢
        omega
      have hnext := ih hg.lawful hd₁ (by rw [ho₁]; exact hc) hlen₁
      rw [hkey, hg.room, hpos, ho₁] at hnext
      rcases hnext with ⟨hf, hg'⟩ | ⟨ho, hb, hbad⟩
      · exact .inl ⟨⟨hrest, hv, hf⟩, hg.cons hpos hg'⟩
      · refine .inr ⟨ho, ⟨hrest, .inr ⟨hv, hb⟩⟩, ?_⟩
        -- only the bytes behind the status count for the decoder
        rw [hg.utf8 ho] at hbad
        obtain hp | hp | hp : rx.s.pos = 0 ∨ rx.s.pos = 1 ∨ 2 ≤ rx.s.pos := by omega
        · simpa [hp] using hbad
        · simpa [hp] using hbad
        · rw [Nat.sub_eq_zero_of_le hp]
          rw [Nat.sub_eq_zero_of_le hp, Nat.sub_eq_zero_of_le (Nat.le_succ_of_le hp)] at hbad
          exact hbad
    · refine .inr ⟨ho, ⟨hrest, .inl hv⟩, ?_⟩
      rw [Nat.sub_eq_zero_of_le hp, List.drop_zero, utf8ParseString_cons, hbad,
        utf8ParseString_invalid]

/-- The end of a ping is a pong. -/
theorem settle_ping (hcb : cb.Obliging) (h : Live w) (hd : w.inst.rx.state = .data)
    (hz : w.inst.rx.size = 0) (he : w.inst.rx.dataOpcode = .ping) :
    (settle cb w).2.inst = { w.inst with rx.state := .opcode } ∧ ∃ m buf max,
      (settle cb w).2.log = w.log ++
        ([.buffer ((pongFrame w.inst.rx.s.payload).withMask m).wire.length .pong (some buf) max,
          .send buf ((pongFrame w.inst.rx.s.payload).withMask m).wire .pong] ++
          if w.inst.onPing then [.onPing] else []) := by
  obtain ⟨hok, m, buf, max, hpong⟩ := sendPong_emits hcb.supplying h.role h.state w.inst.rx.s.payload
  have hset : (settle cb w).2 =
      (callOnPing cb (sendPongWithPayload cb w.inst.rx.s.payload w).2).updateRx
        fun rx => { rx with state := .opcode } := by
    rw [settle_of_data cb hd, if_pos hz, finish_ping he]
    simp [hok]
  have hcall := hpong.trans (callOnPing_emits (w := (sendPongWithPayload cb w.inst.rx.s.payload w).2)
    hcb.toPassive)
  rw [hpong.inst] at hcall
  rw [hset]
  exact ⟨by rw [World.updateRx_inst, hcall.inst], m, buf, max, hcall.log⟩

/-- The end of a pong. -/
theorem settle_pong (hcb : cb.Obliging) (hd : w.inst.rx.state = .data)
    (hz : w.inst.rx.size = 0) (he : w.inst.rx.dataOpcode = .pong) :
    (settle cb w).2.inst = { w.inst with rx.state := .opcode } ∧
      (settle cb w).2.log = w.log ++ if w.inst.onPong then [.onPong] else [] := by
  have hcall := callOnPong_emits (w := w) hcb.toPassive
  have hset : (settle cb w).2 = (callOnPong cb w).updateRx fun rx => { rx with state := .opcode } := by
    rw [settle_of_data cb hd, if_pos hz, finish_pong he]
    rfl
  rw [hset]
  exact ⟨by rw [World.updateRx_inst, hcall.inst], hcall.log⟩

/-- The end of a close closes. -/
theorem settle_close (hcb : cb.Obliging) (h : Live w) (hd : w.inst.rx.state = .data)
    (hz : w.inst.rx.size = 0) (he : w.inst.rx.dataOpcode = .close) :
    ∃ code, Closes code w (settle cb w).2 := by
  obtain ⟨code, reason, hclose, -⟩ := finishClose_eq cb w
  obtain ⟨hinst, hlog⟩ :=
    closeWithReason_emits hcb.toPassive h.role h.state code reason (.inr rfl)
  have hset : (settle cb w).2 = (closeWithReason cb code reason .closeResponse w).updateRx
      fun rx => { rx with state := .opcode } := by
    rw [settle_of_data cb hd, if_pos hz, finish_close he, hclose]
    rfl
  rw [hset]
  exact ⟨code, by rw [World.updateRx_inst, hinst], hlog⟩

/-- The opcode of a control frame. -/
theorem ofFin_control (hc : f.opcode.val = 8 ∨ f.opcode.val = 9 ∨ f.opcode.val = 10) :
    Opcode.ofFin f.opcode =
      if f.opcode.val = 8 then .close else if f.opcode.val = 9 then .ping else .pong := by
  rcases hc with h | h | h
  · rw [show f.opcode = 8 from Fin.ext h]
    rfl
  · rw [show f.opcode = 9 from Fin.ext h]
    rfl
  · rw [show f.opcode = 10 from Fin.ext h]
    rfl

/-- The length of a control frame that is let through. -/
theorem length_of_headerVerdict {inside : Option Kind} {room : Nat}
    (hv : headerVerdict inside room f = none)
    (hc : f.opcode.val = 8 ∨ f.opcode.val = 9 ∨ f.opcode.val = 10) :
    f.payload.length ≤ 125 ∧ f.payload.length ≤ room := by
  unfold headerVerdict at hv
  split_ifs at hv
  rcases hc with h | h | h
  · simp only [sizeVerdict, h] at hv
    split_ifs at hv
    omega
  · simp only [sizeVerdict, h] at hv
    split_ifs at hv
    omega
  · simp only [sizeVerdict, h] at hv
    split_ifs at hv
    omega

/-- **A control frame is gathered, or its reason closes the instance**, whatever the callbacks do. -/
theorem RxFrame.Lawful.flows_encode {rx : RxFrame} (h : rx.Lawful) (hs : rx.state = .opcode)
    (hv : headerVerdict rx.inside rx.s.size f = none)
    (hc : f.opcode.val = 8 ∨ f.opcode.val = 9 ∨ f.opcode.val = 10) (u : Nat) :
    rx.Flows u f.encode ∧ (rx.entered u f).Gathered f.payload (rx.takeAll u f.encode) ∨
      f.opcode.val = 8 ∧ rx.Breaks u (closeInvalidData, .closeResponse) f.encode ∧
        utf8ParseString 0 (f.payload.drop 2) = 1 := by
  -- what the verdict on the header says of a control frame
  have hrsv : f.rsv = 0 := by
    unfold headerVerdict at hv
    split_ifs at hv with hstart
    exact rsv_of_startAllowed hstart
  obtain ⟨-, hfit⟩ := length_of_headerVerdict hv hc
  have hop := ofFin_control hc
  -- behind the header the receiver has entered the frame
  have hhead := flows_header (u := u) hs h.frag hv
  have hentered := takeAll_header (u := u) hs hrsv
  have hlawful : (rx.entered u f).Lawful := by
    rw [← hentered]
    exact hhead.lawful h
  have hcontrol : (rx.entered u f).opcode.isControl = true := by
    show (Opcode.ofFin f.opcode).isControl = true
    rw [hop]
    split_ifs <;> rfl
  have hutf8 : (rx.entered u f).utf8 = 0 := by
    show (if Opcode.ofFin f.opcode = .continue ∧ rx.frag ≠ .continue then u else 0) = 0
    rw [if_neg]
    rintro ⟨ho, -⟩
    rw [hop] at ho
    split_ifs at ho
  have hfits : f.body.length ≤ (rx.entered u f).size := Nat.le_of_eq f.length_body
  -- and its payload is gathered as a whole
  have hpay := hlawful.flows_control (u := u) rfl hcontrol hfits
  rw [entered_key, hutf8] at hpay
  rw [show (rx.entered u f).s.size = rx.s.size from rfl, show (rx.entered u f).s.pos = 0 from rfl,
    decode_body f hfit] at hpay
  rw [Frame.encode, flows_append, takeAll_append, hentered]
  rcases hpay with ⟨hf, hg⟩ | ⟨ho, hb, hbad⟩
  · exact .inl ⟨⟨hhead, hf⟩, hg⟩
  · refine .inr ⟨?_, hhead.breaks (by rw [hentered]; exact hb), hbad⟩
    rw [show (rx.entered u f).opcode = .ofFin f.opcode from rfl, hop] at ho
    split_ifs at ho with h₈
    exact h₈

/-- A control frame whose payload has been gathered, or which has closed the instance on the way. -/
theorem received_control (hcb : cb.Obliging) (h : Boundary w)
    (hv : headerVerdict w.inst.rx.inside w.inst.rx.s.size f = none)
    (hc : f.opcode.val = 8 ∨ f.opcode.val = 9 ∨ f.opcode.val = 10) :
    (∃ w', w'.inst = { w.inst with rx := { w.inst.rx.entered w.inst.utf8Rx f with
          size := 0, s := w'.inst.rx.s, utf8 := w'.inst.rx.utf8 } } ∧
        w'.log = w.log ∧ w'.inst.rx.s.text = f.payload ∧
        w'.inst.rx.s.size = w.inst.rx.s.size ∧ Live w' ∧
        ∀ cs, received cb (f.encode ++ cs) w = received cb cs w') ∨
      f.opcode.val = 8 ∧ ∃ w', Closes closeInvalidData w w' ∧
        ∀ cs, received cb (f.encode ++ cs) w = w' := by
  rcases h.lawful.flows_encode h.boundary hv hc w.inst.utf8Rx with ⟨hf, hg⟩ | ⟨h₈, hb, -⟩
  · have hsize : (w.inst.rx.entered w.inst.utf8Rx f).size - f.payload.length = 0 := Nat.sub_self _
    have hfields := hg.fields
    rw [hsize] at hfields
    refine .inl ⟨w.updateRx fun rx => rx.takeAll w.inst.utf8Rx f.encode, ?_, rfl, ?_, hg.room,
      ⟨h.state, h.role, hg.lawful⟩, received_flows h.state hf⟩
    · exact congrArg (fun rx => { w.inst with rx := rx }) hfields
    · have hempty : (w.inst.rx.entered w.inst.utf8Rx f).s.text = [] := Stream.rewind_text
      have htext := hg.text
      rw [hempty] at htext
      exact htext
  · exact .inr ⟨h₈, received_breaks hcb.toPassive h.toLive hb⟩

/-- **A ping is answered, a pong is noted.** -/
theorem received_ping_pong (hcb : cb.Obliging) (h : Boundary w)
    (hv : headerVerdict w.inst.rx.inside w.inst.rx.s.size f = none)
    (hc : f.opcode.val = 9 ∨ f.opcode.val = 10) :
    ∃ w', Answers f w w' ∧ ∀ cs, received cb (f.encode ++ cs) w = received cb cs w' := by
  -- the whole frame is read, and what is due at its end is left
  rcases received_control hcb h hv (.inr hc) with
    ⟨w₁, hinst, hlog, htext, hsize, hlive, hend⟩ | ⟨h₈, -⟩
  swap
  · omega
  obtain ⟨hlen, -⟩ := length_of_headerVerdict hv (.inr hc)
  have hop := ofFin_control (f := f) (.inr hc)
  have hd : w₁.inst.rx.state = .data := by rw [hinst]; rfl
  have hz : w₁.inst.rx.size = 0 := by rw [hinst]
  have hopcode : w₁.inst.rx.opcode = .ofFin f.opcode := by rw [hinst]; rfl
  have hdata : w₁.inst.rx.dataOpcode = .ofFin f.opcode := by
    rw [dataOpcode_of_control (by rw [hopcode, hop]; split_ifs <;> rfl), hopcode]
  have hinside : w₁.inst.rx.inside = w.inst.rx.inside := by rw [hinst]; rfl
  have hpayload : w₁.inst.rx.s.payload.bytes = f.payload := by
    rw [Stream.payload_bytes hlive.lawful.ok, htext,
      Nat.mod_eq_of_lt (show f.payload.length < 65536 by omega), List.take_length]
  -- a ping leaves a pong and, where there is a handler, a call of it; a pong the call alone
  have hset : (settle cb w₁).2.inst = { w₁.inst with rx.state := .opcode } ∧
      ∃ es, (settle cb w₁).2.log = w.log ++ es ∧ Replies f w.inst es := by
    rw [← hlog]
    rcases hc with h₉ | h₁₀
    · obtain ⟨hinst', m, buf, max, hlog'⟩ := settle_ping hcb hlive hd hz
        (by rw [hdata, hop, if_neg (by omega), if_pos h₉])
      have hhandler : w₁.inst.onPing = w.inst.onPing := by rw [hinst]
      rw [hhandler] at hlog'
      refine ⟨hinst', _, hlog', ?_⟩
      rw [Replies, if_pos h₉]
      exact ⟨_, m, buf, max, hpayload, rfl⟩
    · obtain ⟨hinst', hlog'⟩ := settle_pong hcb hd hz
        (by rw [hdata, hop, if_neg (by omega), if_neg (by omega)])
      have hhandler : w₁.inst.onPong = w.inst.onPong := by rw [hinst]
      rw [hhandler] at hlog'
      refine ⟨hinst', _, hlog', ?_⟩
      rw [Replies, if_neg (by omega)]
  obtain ⟨hinst', hes⟩ := hset
  have hopen : (settle cb w₁).2.inst.state = .open := by
    rw [hinst']
    exact hlive.state
  refine ⟨(settle cb w₁).2, ⟨⟨settle_live hcb.quiet hlive hopen, by rw [hinst']⟩, ?_, hes, ?_, ?_⟩,
    fun cs => by rw [hend, received_settle hcb hlive]⟩
  · rw [hinst', hinst]
  · rw [hinst']
    exact hsize
  · rw [hinst']
    exact hinside

/-- **A close closes.** -/
theorem received_close (hcb : cb.Obliging) (h : Boundary w)
    (hv : headerVerdict w.inst.rx.inside w.inst.rx.s.size f = none) (hc : f.opcode.val = 8) :
    ∃ code w', Closes code w w' ∧ ∀ cs, received cb (f.encode ++ cs) w = w' := by
  rcases received_control hcb h hv (.inl hc) with
    ⟨w₁, hinst, hlog, -, -, hlive, hend⟩ | ⟨-, w', hcl, hend⟩
  swap
  · exact ⟨_, w', hcl, hend⟩
  have hop := ofFin_control (f := f) (.inl hc)
  have hopcode : w₁.inst.rx.opcode = .close := by
    rw [hinst]
    exact hop.trans (if_pos hc)
  obtain ⟨code, hcl⟩ := settle_close hcb hlive (by rw [hinst]; rfl) (by rw [hinst])
    (by rw [dataOpcode_of_control (by rw [hopcode]; rfl), hopcode])
  refine ⟨code, (settle cb w₁).2, ⟨hcl.state, by rw [← hlog]; exact hcl.log⟩, fun cs => ?_⟩
  rw [hend, received_settle hcb hlive, received_of_not_open (by simp [hcl.state])]

end Reception

end Wic
