import Wic.Receiver.Reception

/-!
# What the receiver makes known

The messages an application accepts, the pongs and close frames that are sent for it and the notices
it gets are a function of the frame under reception and of the bytes that are still to come. A
refusal leaves this function where it is, so that what was made known before it and what will be
made known behind it always make up the same list, whoever refuses how often and however the bytes
are cut.

Callbacks may make calls of their own, whose close frames and notices are not the receiver's. So
there are two readings of a trace: all of it when the callbacks are passive, and only what calls
cannot bring about when they are not.

## Main definitions

* `Part`, `shown`: what is made known, and how it is read off a trace
* `World.since`: what has been made known since an earlier world
* `RxFrame.performs`: what the work that is due makes known, and the receiver behind it
* `RxFrame.output`: what is made known of a list of bytes
* `Callbacks.Heard`: callbacks that add nothing to a reading of the trace

## Main results

* `settle_performs`: the work that is due is refused, or makes known what `performs` says
* `drain_outputs`: what was made known and what is still to be made known make up the output
-/

namespace Wic

open Websocket (xorKey)

variable {σ : Type}

/-! ## Traces -/

/-- The first byte and the payload of a masked frame with a short length. -/
def openFrame : List UInt8 → UInt8 × List UInt8
  | first :: _ :: a :: b :: c :: d :: body => (first, xorKey #v[a, b, c, d] 0 body)
  | _ => (0, [])

/-- What is made known: a message that is accepted, a pong or a close frame, the beginning of
closing, and the notices of a ping, of a pong and of the close. -/
inductive Part
  | message (encoding : Encoding) (fin : Bool) (data : List UInt8)
  | frame (type : BufferType) (contents : UInt8 × List UInt8)
  | closing (code : UInt16)
  | pinged
  | ponged
  | closed (code : UInt16) (reason : List UInt8)
  deriving DecidableEq

/-- The parts that no call of a callback brings about. -/
def Part.handed : Part → Bool
  | .message .. | .pinged | .ponged => true
  | .frame type _ => type = .pong
  | .closing _ | .closed .. => false

/-- What an entry of the trace makes known by itself. -/
def Event.parts : Event → List Part
  | .send _ data type =>
    if type = .pong ∨ type = .close ∨ type = .closeResponse then [.frame type (openFrame data)]
    else []
  | .closing code => [.closing code]
  | .onPing => [.pinged]
  | .onPong => [.ponged]
  | .onClose code reason => [.closed code reason]
  | _ => []

/-- What a trace makes known, when `waiting` is the message that waits for its answer. -/
def shown : Option Part → List Event → List Part
  | _, [] => []
  | _, .message encoding fin data :: es => shown (some (.message encoding fin data)) es
  | waiting, .answer accepted :: es => (if accepted then waiting.toList else []) ++ shown none es
  | waiting, e :: es => e.parts ++ shown waiting es

/-- What has been made known between `w` and `w'`. -/
def World.since (w w' : World σ) : List Part := shown none (w'.log.drop w.log.length)

/-- What is added to the trace makes nothing known that `keep` keeps, even while a message waits. -/
def Hides (keep : Part → Bool) (w w' : World σ) : Prop :=
  ∃ es, w'.log = w.log ++ es ∧ ∀ waiting fs,
    (shown waiting (es ++ fs)).filter keep = (shown waiting fs).filter keep

/-- What is added to the trace makes `ps` known, as far as `keep` keeps it. -/
def Shows (keep : Part → Bool) (ps : List Part) (w w' : World σ) : Prop :=
  ∃ es, w'.log = w.log ++ es ∧ ∀ fs,
    (shown none (es ++ fs)).filter keep = ps.filter keep ++ (shown none fs).filter keep

/-- An entry makes nothing known that `keep` keeps. -/
def Event.Silent (keep : Part → Bool) : Event → Prop
  | .message .. | .answer _ => False
  | e => e.parts.filter keep = []

theorem hides_of_silent {keep : Part → Bool} {es : List Event} (h : ∀ e ∈ es, e.Silent keep)
    {w w' : World σ} (hlog : w'.log = w.log ++ es) : Hides keep w w' := by
  refine ⟨es, hlog, fun waiting fs => ?_⟩
  clear hlog
  induction es with
  | nil => rfl
  | cons e es ih =>
    have he := h e (by simp)
    have hstep : shown waiting (e :: (es ++ fs)) = e.parts ++ shown waiting (es ++ fs) ∧
        e.parts.filter keep = [] := by
      cases e with
      | message | answer => exact he.elim
      | _ => exact ⟨rfl, he⟩
    rw [List.cons_append, hstep.1, List.filter_append, hstep.2, ih fun e he => h e (by simp [he])]
    rfl

/-- A frame that is not a pong is not handed on. -/
theorem Event.silent_send (buf : Nat) (data : List UInt8) {type : BufferType} (h : type ≠ .pong) :
    (Event.send buf data type).Silent Part.handed := by
  show (if type = .pong ∨ type = .close ∨ type = .closeResponse then [Part.frame type (openFrame data)]
    else []).filter Part.handed = []
  split_ifs
  · simp [Part.handed, h]
  · rfl

/-- The entries of calls make known only what is not handed on. -/
theorem Event.OfCall.silent {G : Prop} {e : Event} (h : e.OfCall G) : e.Silent Part.handed := by
  cases e with
  | message | answer | onPing | onPong => exact h.elim
  | send buf data type => exact Event.silent_send buf data h.1
  | _ => rfl

/-- So do the entries of closing. -/
theorem Event.Farewell.silent {e : Event} (h : e.Farewell) : e.Silent Part.handed := by
  cases e with
  | send buf data type =>
    have hne : type ≠ .pong := by
      rcases h with rfl | rfl
      · exact BufferType.noConfusion
      · exact BufferType.noConfusion
    exact Event.silent_send buf data hne
  | message | answer | onPing | onPong => exact h.elim
  | _ => rfl

theorem Quiet.hides {G : Prop} {w w' : World σ} (h : Quiet G w w') : Hides Part.handed w w' := by
  obtain ⟨es, hes, hall⟩ := h.log
  exact hides_of_silent (fun e he => (hall e he).silent) hes

theorem Closes.hides {code : UInt16} {w w' : World σ} (h : Closes code w w') :
    Hides Part.handed w w' := by
  obtain ⟨es, hes, hall⟩ := h.log
  refine hides_of_silent (fun e he => ?_) hes
  rcases List.mem_cons.mp he with rfl | he
  · rfl
  · exact (hall e he).silent

theorem Hides.edits {keep : Part → Bool} {w w' : World σ} (h : Edits w w') : Hides keep w w' :=
  ⟨[], by simp [h.log], fun _ _ => rfl⟩

namespace Shows

variable {keep : Part → Bool} {w w' w'' : World σ} {ps qs : List Part}

theorem hides (h : Hides keep w w') : Shows keep [] w w' := by
  obtain ⟨es, hes, hall⟩ := h
  exact ⟨es, hes, hall none⟩

theorem edits (h : Edits w w') : Shows keep [] w w' := hides (.edits h)

theorem refl (w : World σ) : Shows keep [] w w := edits (.refl w)

theorem trans (h : Shows keep ps w w') (h' : Shows keep qs w' w'') :
    Shows keep (ps ++ qs) w w'' := by
  obtain ⟨es, hes, hps⟩ := h
  obtain ⟨fs, hfs, hqs⟩ := h'
  refine ⟨es ++ fs, by rw [hfs, hes, List.append_assoc], fun gs => ?_⟩
  rw [List.append_assoc, hps, hqs, List.filter_append, List.append_assoc]

theorem congr (h : Shows keep ps w w') (hl : w''.log = w'.log) : Shows keep ps w w'' := by
  obtain ⟨es, hes, hps⟩ := h
  exact ⟨es, hl.trans hes, hps⟩

/-- What is kept of everything is kept of a part. -/
theorem mono (h : Shows (fun _ => true) ps w w') (keep : Part → Bool) : Shows keep ps w w' := by
  obtain ⟨es, hes, hps⟩ := h
  refine ⟨es, hes, fun fs => ?_⟩
  have hall := hps fs
  simp only [List.filter_true] at hall
  rw [hall, List.filter_append]

theorem cast (h : Shows keep ps w w') (hp : ps = qs) : Shows keep qs w w' := hp ▸ h

/-- What an entry makes known by itself. -/
theorem emit {e : Event} (he : ∀ fs, shown none (e :: fs) = ps ++ shown none fs) :
    Shows keep ps w (w.emit e) :=
  ⟨[e], rfl, fun fs => by rw [List.cons_append, List.nil_append, he, List.filter_append]⟩

/-- What is made known is a matter of the trace. -/
theorem eq_shown (h : Shows keep ps w w') :
    (w.since w').filter keep = ps.filter keep := by
  obtain ⟨es, hes, hps⟩ := h
  have hnil := hps []
  rw [List.append_nil] at hnil
  rw [World.since, hes, List.drop_left, hnil]
  exact List.append_nil _

end Shows

/-! ## The work that is due -/

/-- The handlers whose calls are made known. -/
structure Handlers where
  onMessage : Bool
  onClose : Bool
  onPing : Bool
  onPong : Bool

/-- The handlers of an instance. -/
def Inst.handlers (i : Inst) : Handlers := ⟨i.onMessage, i.onClose, i.onPing, i.onPong⟩

/-- What becomes of the work that is due when nobody refuses it: it makes something known, and closes
the instance or leaves the receiver in some state. -/
inductive Performed
  | closes (ps : List Part)
  | goes (ps : List Part) (utf8Rx : Nat) (rx : RxFrame)

/-- What closing makes known. -/
def farewell (hs : Handlers) (code : UInt16) (reason : Payload) (type : BufferType) : List Part :=
  .closing code ::
    ((if unwritten code then [] else
        [.frame type (0x88, [(code >>> 8).toUInt8, code.toUInt8] ++ (closePayload reason).bytes)]) ++
      if hs.onClose then [.closed code reason.bytes] else [])

namespace RxFrame

/-- The code and the reason a complete close frame is answered with. -/
def closeAnswer (rx : RxFrame) : UInt16 × Payload :=
  let code := closeCode rx.s
  if code ∈ echoed then
    if utf8IsComplete rx.utf8 then (code, closeReason rx.s) else (closeProtocolError, .null)
  else if 3000 ≤ code ∧ code ≤ 3999 then (closeNormal, .null)
  else if 4000 ≤ code ∧ code ≤ 4999 then (closeNormal, .null)
  else (closeProtocolError, .null)

/-- The message offered. -/
def offers (hs : Handlers) (encoding : Encoding) (fin : Bool) (rx : RxFrame) : List Part :=
  if hs.onMessage then [.message encoding fin rx.s.payload.bytes] else []

/-- The end of a frame. -/
def ends (hs : Handlers) (u : Nat) (rx : RxFrame) : Performed :=
  match rx.dataOpcode with
  | .text =>
    if !rx.fin then
      .goes (rx.offers hs .utf8 false) rx.utf8 { rx with frag := .text, state := .opcode }
    else if utf8IsComplete rx.utf8 then
      .goes (rx.offers hs .utf8 true) u { rx with frag := .continue, state := .opcode }
    else .closes (farewell hs closeInvalidData .null .close)
  | .binary =>
    .goes (rx.offers hs .binary rx.fin) u
      { rx with frag := if rx.fin then .continue else .binary, state := .opcode }
  | .close => .closes (farewell hs rx.closeAnswer.1 rx.closeAnswer.2 .closeResponse)
  | .ping =>
    .goes (.frame .pong (0x8a, rx.s.payload.bytes) :: if hs.onPing then [.pinged] else []) u
      { rx with state := .opcode }
  | .pong => .goes (if hs.onPong then [.ponged] else []) u { rx with state := .opcode }
  | _ => .goes [] u { rx with state := .opcode }

/-- A full buffer. -/
def flushes (hs : Handlers) (rx : RxFrame) : List Part :=
  match rx.dataOpcode with
  | .text => rx.offers hs .utf8 false
  | .binary => rx.offers hs .binary false
  | _ => []

/-- The work that is due. -/
def performs (hs : Handlers) (u : Nat) (rx : RxFrame) : Performed :=
  match rx.state with
  | .data =>
    if rx.size = 0 then rx.ends hs u
    else if rx.s.eof then .goes (rx.flushes hs) u { rx with s := rx.s.rewind }
    else .goes [] u rx
  | _ => .goes [] u rx

theorem performs_of_data {rx : RxFrame} (h : rx.state = .data) (hs : Handlers) (u : Nat) :
    rx.performs hs u =
      if rx.size = 0 then rx.ends hs u
      else if rx.s.eof then .goes (rx.flushes hs) u { rx with s := rx.s.rewind }
      else .goes [] u rx := by
  rw [performs, h]

theorem performs_of_rests {rx : RxFrame} (h : rx.Rests) (hs : Handlers) (u : Nat) :
    rx.performs hs u = .goes [] u rx := by
  unfold performs
  cases hst : rx.state with
  | data =>
    obtain ⟨hz, he⟩ := h hst
    simp [hz, he]
  | _ => rfl

/-- What is made known of a list of bytes. -/
def output (hs : Handlers) : List UInt8 → Nat → RxFrame → List Part
  | [], u, rx =>
    match rx.performs hs u with
    | .closes ps | .goes ps _ _ => ps
  | b :: bs, u, rx =>
    match rx.performs hs u with
    | .closes ps => ps
    | .goes ps u rx =>
      ps ++ match rx.verdict u b with
        | none => output hs bs u (rx.take u b)
        | some (code, type) => farewell hs code .null type

variable {rx : RxFrame} {hs : Handlers} {u : Nat}

theorem output_nil_of_rests (h : rx.Rests) : rx.output hs [] u = [] := by
  rw [output, performs_of_rests h]

theorem output_cons_of_rests (h : rx.Rests) (b : UInt8) (bs : List UInt8) :
    rx.output hs (b :: bs) u =
      match rx.verdict u b with
      | none => (rx.take u b).output hs bs u
      | some (code, type) => farewell hs code .null type := by
  rw [output, performs_of_rests h]
  rfl

theorem output_of_closes {ps : List Part} (h : rx.performs hs u = .closes ps) (bs : List UInt8) :
    rx.output hs bs u = ps := by
  cases bs with
  | nil => rw [output, h]
  | cons b bs => rw [output, h]

/-- Once the work that is due is done, the rest of the output is that of the receiver behind it. -/
theorem output_of_goes {ps : List Part} {u' : Nat} {rx' : RxFrame}
    (h : rx.performs hs u = .goes ps u' rx') (hrest : rx'.Rests) (bs : List UInt8) :
    rx.output hs bs u = ps ++ rx'.output hs bs u' := by
  cases bs with
  | nil => rw [output, h, output_nil_of_rests hrest, List.append_nil]
  | cons b bs => rw [output, h, output_cons_of_rests hrest]

/-! ### Masks -/

/-- None of the bytes but the last is one of the first three of a mask: behind no byte that is followed
by another can a call be broken off. -/
def Keyless (hs : Handlers) : List UInt8 → Nat → RxFrame → Prop
  | [], _, _ => True
  | b :: bs, u, rx =>
    match rx.performs hs u with
    | .closes _ => True
    | .goes _ u rx =>
      match rx.verdict u b with
      | none => (bs = [] ∨ ¬(rx.take u b).InMask) ∧ Keyless hs bs u (rx.take u b)
      | some _ => True

theorem keyless_cons_of_rests (h : rx.Rests) (b : UInt8) (bs : List UInt8) :
    rx.Keyless hs (b :: bs) u ↔
      (rx.verdict u b = none →
        (bs = [] ∨ ¬(rx.take u b).InMask) ∧ (rx.take u b).Keyless hs bs u) := by
  rw [Keyless, performs_of_rests h]
  dsimp only
  cases rx.verdict u b with
  | none => simp
  | some r => simp

theorem keyless_of_closes {ps : List Part} (h : rx.performs hs u = .closes ps) (bs : List UInt8) :
    rx.Keyless hs bs u := by
  cases bs with
  | nil => trivial
  | cons b bs =>
    rw [Keyless, h]
    trivial

/-- The work that is due has nothing to do with it. -/
theorem keyless_of_goes {ps : List Part} {u' : Nat} {rx' : RxFrame}
    (h : rx.performs hs u = .goes ps u' rx') (hrest : rx'.Rests) (bs : List UInt8) :
    rx.Keyless hs bs u ↔ rx'.Keyless hs bs u' := by
  cases bs with
  | nil => exact Iff.rfl
  | cons b bs => rw [Keyless, Keyless, h, performs_of_rests hrest]

/-- The beginning of such bytes. -/
theorem Keyless.left {as bs : List UInt8} (h : rx.Keyless hs (as ++ bs) u) :
    rx.Keyless hs as u := by
  induction as generalizing u rx with
  | nil => trivial
  | cons a as ih =>
    rw [List.cons_append, Keyless] at h
    rw [Keyless]
    cases hp : rx.performs hs u with
    | closes ps => trivial
    | goes ps u' rx' =>
      rw [hp] at h
      dsimp only at h ⊢
      cases hv : rx'.verdict u' a with
      | some r => trivial
      | none =>
        rw [hv] at h
        dsimp only at h ⊢
        refine ⟨h.1.imp_left fun hnil => ?_, ih h.2⟩
        exact (List.append_eq_nil_iff.mp hnil).1

end RxFrame

/-! ## Callbacks -/

/-- The application has room for every pong, if not always now. -/
def Callbacks.Roomy (cb : Callbacks σ) : Prop :=
  ∀ minSize w, minSize ≤ (cb.onBuffer minSize .pong w).1.2

/-- The handler of messages does not close an open instance. -/
def Callbacks.Steady (cb : Callbacks σ) : Prop :=
  ∀ encoding fin data w, w.inst.role = .client → w.inst.state = .open →
    (cb.onMessage encoding fin data w).2.inst.state = .open

theorem Callbacks.Passive.steady {cb : Callbacks σ} (h : cb.Passive) : cb.Steady :=
  fun encoding fin data w _ ho => by rw [(h.onMessage encoding fin data w).inst, ho]

/-- Callbacks under which what is made known is the receiver's, as far as `keep` keeps it. -/
structure Callbacks.Heard (keep : Part → Bool) (cb : Callbacks σ) : Prop where
  quiet : cb.Respect (QuietAt False)
  roomy : cb.Roomy
  hides {encoding : Encoding} {fin : Bool} {data : List UInt8} {w : World σ} :
    w.inst.role = .client → w.inst.state = .open → Hides keep w (cb.onMessage encoding fin data w).2
  closes {code : UInt16} {reason : Payload} {type : BufferType} {w : World σ} :
    w.inst.role = .client → w.inst.state = .open → type = .close ∨ type = .closeResponse →
      reason.bytes.length ≤ 123 →
      Shows keep (farewell w.inst.handlers code reason type) w
        (closeWithReason cb code reason type w)

/-- Closing makes known nothing that is handed on. -/
theorem farewell_handed (hs : Handlers) (code : UInt16) (reason : Payload) {type : BufferType}
    (ht : type = .close ∨ type = .closeResponse) :
    (farewell hs code reason type).filter Part.handed = [] := by
  have hne : type ≠ .pong := by rcases ht with rfl | rfl <;> simp
  unfold farewell
  split_ifs <;> simp [Part.handed, hne]

/-- Of callbacks that make calls, what they bring about themselves is left out. -/
theorem Callbacks.Respect.heard {cb : Callbacks σ} (hcb : cb.Respect (QuietAt False))
    (hroom : cb.Roomy) : cb.Heard Part.handed where
  quiet := hcb
  roomy := hroom
  hides hr _ := (hcb.onMessage _ _ _ _ hr).hides
  closes {code reason type w} hr _ ht _ := by
    have hq : Quiet False w (closeWithReason cb code reason type w) :=
      closeWithReason_quiet hcb hr ht False.elim
    obtain ⟨es, hes, hall⟩ := hq.hides
    refine ⟨es, hes, fun fs => ?_⟩
    rw [hall none, farewell_handed _ _ _ ht]
    rfl

/-- The first byte of a frame that is not split. -/
theorem TxFrame.firstByte_of_fin {f : TxFrame} (hf : f.fin = true) (h₁ : f.rsv1 = false)
    (h₂ : f.rsv2 = false) (h₃ : f.rsv3 = false) : f.firstByte = 0x80 ||| opcodeToByte f.opcode := by
  simp [firstByte, hf, h₁, h₂, h₃]

/-- The payload of a frame on the wire. -/
theorem openFrame_wire (f : TxFrame) (h : f.content.length ≤ 125) :
    openFrame f.wire = (f.firstByte, f.content) := by
  have hmask : #v[f.mask[0], f.mask[1], f.mask[2], f.mask[3]] = f.mask := by
    refine Vector.ext fun i hi => ?_
    rcases i with _ | _ | _ | _ | i <;> simp
    omega
  have hbytes : f.mask.toList = [f.mask[0], f.mask[1], f.mask[2], f.mask[3]] :=
    RxFrame.toList_key f.mask
  unfold TxFrame.wire TxFrame.lengthBytes
  rw [if_pos h, hbytes]
  simp only [List.cons_append, List.nil_append, openFrame, hmask, Websocket.xorKey_xorKey]

/-- A pong on the wire. -/
theorem openFrame_pong (data : Payload) (m : UInt32) (h : data.bytes.length ≤ 125) :
    openFrame ((pongFrame data).withMask m).wire = (0x8a, data.bytes) := by
  have hfirst : ((pongFrame data).withMask m).firstByte = 0x8a :=
    (TxFrame.firstByte_of_fin rfl rfl rfl rfl).trans (by decide : (0x80 : UInt8) ||| 10 = 0x8a)
  rw [openFrame_wire ((pongFrame data).withMask m) h]
  exact Prod.ext hfirst rfl

/-- A step that leaves the instance alone makes known what its entries do. -/
theorem Emits.shows {keep : Part → Bool} {es : List Event} {w w' : World σ} {ps : List Part}
    (h : Emits es w w') (hes : ∀ fs, shown none (es ++ fs) = ps ++ shown none fs) :
    Shows keep ps w w' :=
  ⟨es, h.log, fun fs => by rw [hes, List.filter_append]⟩

section Supplying

variable {cb : Callbacks σ} {w : World σ} {keep : Part → Bool}

/-- A pong or a close frame that is supplied with a buffer is made known. -/
theorem putAndSend_shows (hcb : cb.Supplying) (hr : w.inst.role = .client) {f : TxFrame}
    (ht : f.type = .pong ∨ f.type = .close ∨ f.type = .closeResponse)
    (hlen : f.content.length ≤ 125) :
    Shows keep [.frame f.type (f.firstByte, f.content)] w (putAndSend cb f id w).2 := by
  obtain ⟨-, m, buf, max, hemits⟩ := putAndSend_emits hcb hr f
  have hopen : openFrame (f.withMask m).wire = (f.firstByte, f.content) :=
    openFrame_wire (f.withMask m) hlen
  refine hemits.shows fun fs => ?_
  have hparts : (Event.send buf (f.withMask m).wire f.type).parts =
      [.frame f.type (f.firstByte, f.content)] := by
    dsimp only [Event.parts]
    rw [if_pos ht, hopen]
  rw [← hparts]
  rfl

/-- **Closing an open instance makes its farewell known.** -/
theorem closeWithReason_shows (hcb : cb.Supplying) (hr : w.inst.role = .client)
    (ho : w.inst.state = .open) (code : UInt16) {reason : Payload} {type : BufferType}
    (ht : type = .close ∨ type = .closeResponse) (hlen : reason.bytes.length ≤ 123) :
    Shows keep (farewell w.inst.handlers code reason type) w
      (closeWithReason cb code reason type w) := by
  -- what begins to close: the code is noted, and the instance is closed
  have hstart : Shows keep [.closing code] w ((w.emit (.closing code)).setState .closed) :=
    ⟨[.closing code, .state .closed], by simp, fun fs => List.filter_append [Part.closing code] _⟩
  unfold closeWithReason
  rw [ho]
  dsimp only
  have hr₁ : ((w.emit (.closing code)).setState .closed).inst.role = .client := hr
  have hflag₁ : ((w.emit (.closing code)).setState .closed).inst.onClose = w.inst.onClose := rfl
  generalize (w.emit (.closing code)).setState .closed = w₁ at hstart hr₁ hflag₁
  -- then the close frame, unless the code is not written on the wire
  have hframe : (sendClose cb code reason type w₁).inst = w₁.inst ∧
      Shows keep (if unwritten code then [] else
        [.frame type (0x88, [(code >>> 8).toUInt8, code.toUInt8] ++ (closePayload reason).bytes)])
        w₁ (sendClose cb code reason type w₁) := by
    unfold sendClose
    split_ifs
    · exact ⟨rfl, .refl w₁⟩
    · have hshort : (closePayload reason).bytes.length ≤ 123 := by
        unfold closePayload
        split_ifs
        · exact hlen
        · exact Nat.zero_le _
      let f : TxFrame := { fin := true, opcode := .close, type, code, payload := closePayload reason }
      have hsmall : f.content.length ≤ 125 := by
        rw [f.length_content, if_pos rfl]
        exact Nat.add_le_add_right hshort 2
      obtain ⟨-, m, buf, max, hemits⟩ := putAndSend_emits hcb hr₁ f
      have hframe : Shows keep [.frame f.type (f.firstByte, f.content)] w₁
          (putAndSend cb f id w₁).2 := putAndSend_shows hcb hr₁ (.inr ht) hsmall
      have hfirst : f.firstByte = 0x88 :=
        (TxFrame.firstByte_of_fin rfl rfl rfl rfl).trans (by decide : (0x80 : UInt8) ||| 8 = 0x88)
      rw [hfirst] at hframe
      exact ⟨hemits.inst, hframe⟩
  obtain ⟨hinst₂, hframe⟩ := hframe
  generalize sendClose cb code reason type w₁ = w₂ at hframe hinst₂
  -- then the two callbacks, of which the second one is told the code
  have htransport : (callOnCloseTransport cb w₂).inst = w₂.inst ∧
      Shows keep [] w₂ (callOnCloseTransport cb w₂) := by
    have hemit : Shows keep [] w₂ (w₂.emit .onCloseTransport) := .emit fun _ => rfl
    have hcall := hcb.onCloseTransport (w₂.emit .onCloseTransport)
    unfold callOnCloseTransport
    split_ifs
    · exact ⟨hcall.inst, hemit.trans (.edits hcall)⟩
    · exact ⟨rfl, .refl w₂⟩
  obtain ⟨hinst₃, htransport⟩ := htransport
  generalize callOnCloseTransport cb w₂ = w₃ at htransport hinst₃
  have hnotice : Shows keep (if w.inst.handlers.onClose then [.closed code reason.bytes] else []) w₃
      (callOnClose cb code reason.bytes w₃) := by
    have hflag : w₃.inst.onClose = w.inst.handlers.onClose := by
      rw [hinst₃, hinst₂]
      exact hflag₁
    have hemit : Shows keep [.closed code reason.bytes] w₃
        (w₃.emit (.onClose code reason.bytes)) := .emit fun _ => rfl
    have hcall := hcb.onClose code reason.bytes (w₃.emit (.onClose code reason.bytes))
    unfold callOnClose
    rw [hflag]
    split_ifs
    · exact hemit.trans (.edits hcall)
    · exact .refl w₃
  exact (hstart.trans ((hframe.trans htransport).trans hnotice)).cast (by
    rw [List.append_nil]
    rfl)

/-- Of callbacks that make no calls and supply every buffer nothing is left out. -/
theorem Callbacks.Supplying.heard (hcb : cb.Supplying) : cb.Heard keep where
  quiet := hcb.quiet
  roomy minSize w := by
    obtain ⟨buf, max, hbuf, hfit⟩ := hcb.supplies minSize .pong w
    rw [hbuf]
    exact hfit
  hides _ _ := .edits (hcb.onMessage _ _ _ _)
  closes hr ho ht hlen := closeWithReason_shows hcb hr ho _ ht hlen

end Supplying

/-! ## The end of a frame -/

section Heard

variable {keep : Part → Bool} {cb : Callbacks σ} {w : World σ}

/-- A message that is accepted is made known. -/
theorem offer_shows (hcb : cb.Heard keep) (h : Live w) (encoding : Encoding) (fin : Bool) :
    Shows keep (if (offer cb encoding fin w).1 then w.inst.rx.offers w.inst.handlers encoding fin
      else []) w (offer cb encoding fin w).2 := by
  by_cases hm : w.inst.onMessage = true
  · rw [offer_of_handler hm]
    have hcall : Hides keep (w.emit (.message encoding fin w.inst.rx.s.payload.bytes))
        (cb.onMessage encoding fin w.inst.rx.s.payload.bytes
          (w.emit (.message encoding fin w.inst.rx.s.payload.bytes))).2 := hcb.hides h.role h.state
    obtain ⟨es, hes, hall⟩ := hcall
    generalize cb.onMessage encoding fin w.inst.rx.s.payload.bytes
      (w.emit (.message encoding fin w.inst.rx.s.payload.bytes)) = r at hes
    obtain ⟨accepted, w'⟩ := r
    refine ⟨.message encoding fin w.inst.rx.s.payload.bytes :: (es ++ [.answer accepted]), ?_,
      fun fs => ?_⟩
    · rw [World.emit_log, hes, World.emit_log]
      simp
    · have hoffers : w.inst.rx.offers w.inst.handlers encoding fin =
          [.message encoding fin w.inst.rx.s.payload.bytes] := if_pos hm
      rw [hoffers, List.cons_append, List.append_assoc]
      simp only [shown]
      rw [hall]
      simp only [List.cons_append, List.nil_append, shown, List.filter_append]
      rfl
  · have hoffers : w.inst.rx.offers w.inst.handlers encoding fin = [] := if_neg hm
    simp only [offer, hm, Bool.false_eq_true, if_false, if_true, hoffers]
    exact .refl w

theorem offer_steady (hcb : cb.Steady) (h : Live w) (encoding : Encoding) (fin : Bool) :
    (offer cb encoding fin w).2.inst.state = w.inst.state := by
  by_cases hm : w.inst.onMessage = true
  · rw [offer_of_handler hm, h.state]
    exact hcb encoding fin _ (w.emit (.message encoding fin w.inst.rx.s.payload.bytes)) h.role h.state
  · simp [offer, hm]

/-- A pong is sent, or there is no buffer for it. -/
theorem sendPong_shows (hcb : cb.Heard keep) (hr : w.inst.role = .client)
    (ho : w.inst.state = .open) {data : Payload} (hlen : data.bytes.length ≤ 125) :
    (sendPongWithPayload cb data w).2.inst = w.inst ∧
      ((sendPongWithPayload cb data w).1 = .wouldBlock ∧
          Shows keep [] w (sendPongWithPayload cb data w).2 ∨
        (sendPongWithPayload cb data w).1 = .success ∧
          Shows keep [.frame .pong (0x8a, data.bytes)] w (sendPongWithPayload cb data w).2) := by
  -- the frame is masked with the key that is drawn, as on every way out
  have hallowed : allowedToSend w = (true, w) := by simp [allowedToSend, ho]
  have hdraw := drawMask_edits hcb.quiet w
  unfold sendPongWithPayload
  rw [hallowed]
  dsimp only
  rw [if_pos rfl, putAndSend_eq cb _ id w (by rw [hdraw.inst]; exact hr)]
  generalize drawMask cb w = d at hdraw
  obtain ⟨m, w₁⟩ := d
  have hopen := openFrame_pong data m hlen
  have htype : ((pongFrame data).withMask m).type = .pong := rfl
  rw [show ({ fin := true, opcode := .pong, type := .pong, payload := data } : TxFrame) =
    pongFrame data from rfl]
  dsimp only at hdraw ⊢
  generalize (pongFrame data).withMask m = g at hopen htype
  rw [htype]
  unfold lease
  have hfit := hcb.roomy g.wire.length w₁
  have hlease := hcb.quiet.onBuffer g.wire.length .pong w₁
  generalize cb.onBuffer g.wire.length .pong w₁ = l at hfit hlease
  obtain ⟨⟨buf, max⟩, w₂⟩ := l
  -- asking for the buffer makes nothing known
  have hasked : Shows keep [] w (w₂.emit (.buffer g.wire.length .pong buf max)) :=
    ((Shows.edits hdraw).trans (.edits hlease)).trans (.emit fun _ => rfl)
  have hinst : (w₂.emit (.buffer g.wire.length .pong buf max)).inst = w.inst :=
    hlease.inst.trans hdraw.inst
  dsimp only at hfit hasked hinst ⊢
  unfold deliver
  rw [if_pos hfit, htype]
  generalize w₂.emit (.buffer g.wire.length .pong buf max) = w₃ at hasked hinst
  cases buf with
  | none => exact ⟨hinst, .inl ⟨rfl, hasked⟩⟩
  | some buf =>
    have hput : Shows keep [.frame .pong (0x8a, data.bytes)] w₃
        ((w₃.update id).emit (.send buf g.wire .pong)) :=
      ⟨[.send buf g.wire .pong], rfl, fun fs => by
        rw [← hopen]
        exact List.filter_append [Part.frame .pong (openFrame g.wire)] _⟩
    have hsend := hcb.quiet.onSend buf g.wire .pong ((w₃.update id).emit (.send buf g.wire .pong))
    exact ⟨hsend.inst.trans hinst, .inr ⟨rfl, hasked.trans (hput.trans (.edits hsend))⟩⟩

variable (keep) in
/-- The work that is due has been refused, or has been done as `p` says. -/
def Performs (cb : Callbacks σ) (p : Performed) (w : World σ) (r : Bool × World σ) : Prop :=
  r.1 = true ∧ Shows keep [] w r.2 ∧ (cb.Steady → r.2.inst.state = w.inst.state) ∨
  r.1 = false ∧ match p with
    | .closes ps => Shows keep ps w r.2 ∧ r.2.inst.state = .closed
    | .goes ps u rx => Shows keep ps w r.2 ∧ r.2.inst.rx = rx ∧ r.2.inst.utf8Rx = u ∧
        (cb.Steady → r.2.inst.state = w.inst.state)

variable (cb w) in
/-- `finish`, with the state of the receiver set back unless it was refused. -/
def conclude : Bool × World σ :=
  ((finish cb w).1, if (finish cb w).1 then (finish cb w).2
    else (finish cb w).2.updateRx fun rx => { rx with state := .opcode })

/-- The end of a data frame. -/
theorem conclude_message (hcb : cb.Heard keep) (hlive : Live w)
    {encoding : Encoding} (h : w.inst.rx.dataOpcode = encoding.opcode)
    (hc : encoding = .utf8 → w.inst.rx.fin = true → utf8IsComplete w.inst.rx.utf8 = true) :
    Performs keep cb (.goes (w.inst.rx.offers w.inst.handlers encoding w.inst.rx.fin)
      (endMessage encoding w.inst.rx.fin w.inst).utf8Rx
      { (endMessage encoding w.inst.rx.fin w.inst).rx with state := .opcode }) w
      (conclude cb w) := by
  have hshows := offer_shows hcb hlive encoding w.inst.rx.fin
  have hk := offer_keeps (w := w) hcb.quiet hlive.role encoding w.inst.rx.fin
  have hstate (hp : cb.Steady) := offer_steady hp hlive encoding w.inst.rx.fin
  unfold conclude
  rw [finish_message hcb.quiet hlive.role h hc]
  unfold offerAll
  generalize offer cb encoding w.inst.rx.fin w = r at hshows hk hstate
  obtain ⟨accepted, w₁⟩ := r
  have hrx : w₁.inst.rx = w.inst.rx := hk.rx
  have hutf8 : w₁.inst.utf8Rx = w.inst.utf8Rx := hk.utf8Rx
  cases accepted with
  | false => exact .inl ⟨rfl, hshows, hstate⟩
  | true =>
    have hend (i j : Inst) (hi : i.rx = j.rx) (hu : i.utf8Rx = j.utf8Rx) (fin : Bool) :
        (endMessage encoding fin i).rx = (endMessage encoding fin j).rx ∧
          (endMessage encoding fin i).utf8Rx = (endMessage encoding fin j).utf8Rx ∧
          (endMessage encoding fin i).state = i.state := by
      cases encoding <;> cases fin <;>
        simp only [endMessage, hi, hu, Bool.false_eq_true, if_false, if_true, and_self]
    obtain ⟨hrx', hutf8', hstate'⟩ := hend _ _ hrx hutf8 w.inst.rx.fin
    refine .inr ⟨rfl, hshows.congr rfl, ?_, hutf8', fun hp => hstate'.trans (hstate hp)⟩
    exact congrArg (fun rx : RxFrame => { rx with state := .opcode }) hrx'

/-- What closes leaves the instance closed and makes its farewell known. -/
theorem conclude_closes (hcb : cb.Heard keep) (hr : w.inst.role = .client)
    (ho : w.inst.state = .open) {code : UInt16} {reason : Payload} {type : BufferType}
    (ht : type = .close ∨ type = .closeResponse) (hlen : reason.bytes.length ≤ 123)
    (h : finish cb w = (false, closeWithReason cb code reason type w)) :
    Performs keep cb (.closes (farewell w.inst.handlers code reason type)) w (conclude cb w) := by
  unfold conclude
  rw [h]
  exact .inr ⟨rfl, (hcb.closes hr ho ht hlen).congr rfl,
    closeWithReason_closed hcb.quiet hr code reason ht⟩

/-- A complete close frame is answered. -/
theorem finishClose_answer (cb : Callbacks σ) (w : World σ) :
    finishClose cb w = closeWithReason cb w.inst.rx.closeAnswer.1 w.inst.rx.closeAnswer.2
      .closeResponse w := by
  unfold finishClose RxFrame.closeAnswer
  dsimp only
  split_ifs <;> rfl

theorem RxFrame.Lawful.length_closeAnswer {rx : RxFrame} (h : rx.Lawful) (hd : rx.state = .data)
    (hz : rx.size = 0) (hc : rx.dataOpcode = .close) : rx.closeAnswer.2.bytes.length ≤ 123 := by
  have hreason := h.length_closeReason hd hz hc
  unfold RxFrame.closeAnswer
  dsimp only
  split_ifs
  · exact hreason
  all_goals exact Nat.zero_le _

/-- **The end of a frame.** -/
theorem conclude_performs (hcb : cb.Heard keep) (h : Live w) (hd : w.inst.rx.state = .data)
    (hz : w.inst.rx.size = 0) :
    Performs keep cb (w.inst.rx.ends w.inst.handlers w.inst.utf8Rx) w (conclude cb w) := by
  unfold RxFrame.ends
  cases hop : w.inst.rx.dataOpcode with
  | text =>
    have hop' : w.inst.rx.dataOpcode = Encoding.utf8.opcode := hop
    dsimp only
    -- a text may end in the middle of a character only where its message goes on
    by_cases hc : w.inst.rx.fin = true → utf8IsComplete w.inst.rx.utf8 = true
    · have hmsg := conclude_message hcb h hop' fun _ => hc
      by_cases hf : w.inst.rx.fin = true
      · rw [if_neg (by simp [hf]), if_pos (hc hf)]
        rw [hf] at hmsg
        exact hmsg
      · rw [if_pos (by simpa using hf)]
        rw [show w.inst.rx.fin = false by simpa using hf] at hmsg
        exact hmsg
    · obtain ⟨hf, hu⟩ := Classical.not_imp.mp hc
      simp only [hf, hu, Bool.not_true, Bool.false_eq_true, if_false]
      exact conclude_closes hcb h.role h.state (.inl rfl) (Nat.zero_le _)
        (finish_incomplete hop hf (by simpa using hu))
  | binary =>
    have hop' : w.inst.rx.dataOpcode = Encoding.binary.opcode := hop
    exact conclude_message hcb h hop' fun he => by cases he
  | close =>
    exact conclude_closes hcb h.role h.state (.inr rfl) (h.lawful.length_closeAnswer hd hz hop)
      (by rw [finish_close hop, finishClose_answer])
  -- the pong is sent, and then `on_ping` is called
  | ping =>
    have hlen := h.lawful.length_payload hd (by simp [hop, Opcode.isControl])
    obtain ⟨hinst, hpong⟩ := sendPong_shows hcb h.role h.state hlen
    unfold conclude
    rw [finish_ping hop]
    generalize sendPongWithPayload cb w.inst.rx.s.payload w = r at hpong hinst
    obtain ⟨status, w₁⟩ := r
    have hinst₁ : w₁.inst = w.inst := hinst
    -- without a buffer for the pong the ping waits
    rcases hpong with ⟨hs, hshows⟩ | ⟨hs, hshows⟩
    · obtain rfl : status = .wouldBlock := hs
      exact .inl ⟨rfl, hshows, fun _ => congrArg Inst.state hinst₁⟩
    · obtain rfl : status = .success := hs
      have hflag : w₁.inst.onPing = w.inst.handlers.onPing := by rw [hinst₁]; rfl
      have hnote : (callOnPing cb w₁).inst = w.inst ∧
          Shows keep (if w.inst.handlers.onPing then [.pinged] else []) w₁ (callOnPing cb w₁) := by
        have hemit : Shows keep [.pinged] w₁ (w₁.emit .onPing) := .emit fun _ => rfl
        have hcall := hcb.quiet.onPing (w₁.emit .onPing)
        unfold callOnPing
        rw [hflag]
        split_ifs
        · exact ⟨hcall.inst.trans hinst₁, (hemit.trans (.edits hcall)).cast rfl⟩
        · exact ⟨hinst₁, .refl w₁⟩
      obtain ⟨hinst₂, hnote⟩ := hnote
      have hutf8 : (callOnPing cb w₁).inst.utf8Rx = w.inst.utf8Rx := congrArg Inst.utf8Rx hinst₂
      have hstate : (callOnPing cb w₁).inst.state = w.inst.state := congrArg Inst.state hinst₂
      refine .inr ⟨rfl, (hshows.trans hnote).congr rfl, ?_, hutf8, fun _ => hstate⟩
      exact congrArg (fun i : Inst => ({ i.rx with state := .opcode } : RxFrame)) hinst₂
  -- a pong is only told to the application
  | pong =>
    have hflag : w.inst.onPong = w.inst.handlers.onPong := rfl
    have hnote : (callOnPong cb w).inst = w.inst ∧
        Shows keep (if w.inst.handlers.onPong then [.ponged] else []) w (callOnPong cb w) := by
      have hemit : Shows keep [.ponged] w (w.emit .onPong) := .emit fun _ => rfl
      have hcall := hcb.quiet.onPong (w.emit .onPong)
      unfold callOnPong
      rw [hflag]
      split_ifs
      · exact ⟨hcall.inst, (hemit.trans (.edits hcall)).cast rfl⟩
      · exact ⟨rfl, .refl w⟩
    obtain ⟨hinst, hnote⟩ := hnote
    unfold conclude
    rw [finish_pong hop]
    have hutf8 : (callOnPong cb w).inst.utf8Rx = w.inst.utf8Rx := congrArg Inst.utf8Rx hinst
    have hstate : (callOnPong cb w).inst.state = w.inst.state := congrArg Inst.state hinst
    refine .inr ⟨rfl, hnote.congr rfl, ?_, hutf8, fun _ => hstate⟩
    exact congrArg (fun i : Inst => ({ i.rx with state := .opcode } : RxFrame)) hinst
  -- no frame with another opcode gets here
  | _ =>
    have hnone : finish cb w = (false, w) := by simp [finish, hop]
    unfold conclude
    rw [hnone]
    exact .inr ⟨rfl, .refl w, rfl, rfl, fun _ => rfl⟩

/-- **The work that is due is refused, or it makes known what `performs` says.** -/
theorem settle_performs (hcb : cb.Heard keep) (h : Live w) :
    Performs keep cb (w.inst.rx.performs w.inst.handlers w.inst.utf8Rx) w (settle cb w) := by
  -- nothing is due in front of a header, nor while there is room
  by_cases hrest : w.inst.rx.Rests
  · rw [settle_of_rests hrest, RxFrame.performs_of_rests hrest]
    exact .inr ⟨rfl, .refl w, rfl, rfl, fun _ => rfl⟩
  have hd : w.inst.rx.state = .data := by
    by_contra hne
    exact hrest fun h => absurd h hne
  rw [settle_of_data cb hd, RxFrame.performs_of_data hd]
  by_cases hz : w.inst.rx.size = 0
  · rw [if_pos hz, if_pos hz]
    exact conclude_performs hcb h hd hz
  -- a payload that goes on is passed on when the buffer is full
  have he : w.inst.rx.s.eof = true := by
    by_contra hne
    exact hrest fun _ => ⟨hz, by simpa using hne⟩
  rw [if_neg hz, if_neg hz, if_pos he, if_pos he, flush_eq]
  have hk := passOn_keeps (w := w) hcb.quiet h.role
  have hshows : Shows keep (if (passOn cb w).1 then w.inst.rx.flushes w.inst.handlers else []) w
      (passOn cb w).2 ∧ (cb.Steady → (passOn cb w).2.inst.state = w.inst.state) := by
    unfold passOn RxFrame.flushes
    cases w.inst.rx.dataOpcode with
    | text => exact ⟨offer_shows hcb h .utf8 false, fun hp => offer_steady hp h .utf8 false⟩
    | binary => exact ⟨offer_shows hcb h .binary false, fun hp => offer_steady hp h .binary false⟩
    | _ => exact ⟨.refl w, fun _ => rfl⟩
  obtain ⟨hshows, hstate⟩ := hshows
  generalize passOn cb w = r at hk hshows hstate
  obtain ⟨accepted, w₁⟩ := r
  cases accepted with
  | false => exact .inl ⟨rfl, hshows, hstate⟩
  | true =>
    have hrx : w₁.inst.rx = w.inst.rx := hk.rx
    refine .inr ⟨rfl, hshows.congr rfl, ?_, hk.utf8Rx, hstate⟩
    show ({ w₁.inst.rx with s := w₁.inst.rx.s.rewind } : RxFrame) = _
    rw [hrx]

/-! ## Bytes -/

/-- What is made known of bytes that are still to come. -/
def World.output (w : World σ) (bs : List UInt8) : List Part :=
  w.inst.rx.output w.inst.handlers bs w.inst.utf8Rx

/-- No call on bytes that are still to come can be broken off in front of the last of them. -/
def World.Keyless (w : World σ) (bs : List UInt8) : Prop :=
  w.inst.rx.Keyless w.inst.handlers bs w.inst.utf8Rx

theorem KeepsSetup.handlers {w' : World σ} (h : KeepsSetup w w') :
    w'.inst.handlers = w.inst.handlers := by
  rw [h.inst]
  rfl

/-- What has been made known on the way to `w'`, where `rest` is left of the bytes, and what is still
to be made known make up the output. -/
structure Outputs (keep : Part → Bool) (cb : Callbacks σ) (bs rest : List UInt8)
    (w w' : World σ) (ps : List Part) : Prop where
  shows : Shows keep ps w w'
  handlers : w'.inst.handlers = w.inst.handlers
  goes : w'.inst.state = .open → ∀ cs, w.output (bs ++ cs) = ps ++ w'.output (rest ++ cs)
  starts : ∀ cs, ps <+: w.output (bs ++ cs)
  ends : cb.Steady → w'.inst.state ≠ .open → ∀ cs, w.output (bs ++ cs) = ps
  keyless : w'.inst.state = .open → ∀ cs, w.Keyless (bs ++ cs) → w'.Keyless (rest ++ cs)

/-- A byte is read. -/
theorem consume_outputs (hcb : cb.Heard keep) (h : Live w) (hrest : w.inst.rx.Rests) (b : UInt8)
    (bs : List UInt8) : ∃ ps, Outputs keep cb (b :: bs) bs w (consume cb b w) ps := by
  have hsetup := consume_setup hcb.quiet h.role b
  have hrx := consume_rx (b := b) hcb.quiet h.role
  have hout (cs : List UInt8) : w.output (b :: bs ++ cs) = _ :=
    RxFrame.output_cons_of_rests hrest b (bs ++ cs)
  have hobeys := consume_obeys cb w b
  have hlive (ho : (consume cb b w).inst.state = .open) := verdict_of_open hcb.quiet h.role ho
  generalize consume cb b w = w' at hobeys hsetup hrx hlive ⊢
  -- the byte leaves the instance open, or closes it
  cases hobeys with
  | stays f hv hf =>
    have ho : (w.updateRx f).inst.state = .open := h.state
    rw [hv] at hout
    refine ⟨[], (Shows.refl w).congr rfl, rfl, fun _ cs => ?_, fun _ => List.nil_prefix,
      fun _ hno => absurd ho hno, fun _ cs hk => ?_⟩
    · rw [hout, World.output, hrx]
      rfl
    · rw [World.Keyless, hrx]
      exact ((RxFrame.keyless_cons_of_rests hrest b (bs ++ cs)).mp hk hv).2
  | closes f g code type hv hf hs =>
    rw [hv] at hout
    have hr : (w.updateRx f).inst.role = .client := h.role
    have ho : (w.updateRx f).inst.state = .open := h.state
    have hclose : Shows keep (farewell w.inst.handlers code .null type) w
        (closeWithCode cb code type (w.updateRx f)) := by
      have hcall : Shows keep (farewell (w.updateRx f).inst.handlers code .null type)
          (w.updateRx f) (closeWithReason cb code .null type (w.updateRx f)) :=
        hcb.closes hr ho (RxFrame.verdict_type hv) (Nat.zero_le _)
      obtain ⟨es, hes, hall⟩ := hcall
      exact ⟨es, hes, hall⟩
    exact ⟨_, hclose.congr rfl, hsetup.handlers, fun ho' => by simp [hlive ho'] at hv,
      fun cs => ⟨[], by rw [List.append_nil, hout]⟩, fun _ _ cs => hout cs,
      fun ho' => by simp [hlive ho'] at hv⟩

/-- The work that is due. -/
theorem settle_outputs (hcb : cb.Heard keep) (h : Live w) (bs : List UInt8) :
    ∃ ps, Outputs keep cb bs bs w (settle cb w).2 ps := by
  have hperf := settle_performs hcb h
  have hsetup := (settle_receiving hcb.quiet h.receiving).2
  rcases hperf with ⟨hb, hshows, hstate⟩ | ⟨hb, hperf⟩
  -- refused work leaves everything as it was
  · have hk : Keeps w (settle cb w).2 := by
      rcases settle_cases hcb.quiet h.role with ⟨-, hk⟩ | ⟨hb', -⟩
      · exact hk
      · simp [hb] at hb'
    have hsame (cs : List UInt8) : (settle cb w).2.output cs = w.output cs := by
      rw [World.output, hk.rx, hk.utf8Rx, hsetup.handlers, World.output]
    refine ⟨[], hshows, hsetup.handlers, fun _ cs => (hsame _).symm, fun _ => List.nil_prefix,
      fun hp hno => absurd ((hstate hp).trans h.state) hno, fun _ cs hkey => ?_⟩
    rw [World.Keyless, hk.rx, hk.utf8Rx, hsetup.handlers]
    exact hkey
  -- work that is done is what `performs` says
  · have hrest := settle_rests hcb.quiet h.receiving hb
    generalize hp : w.inst.rx.performs w.inst.handlers w.inst.utf8Rx = p at hperf
    cases p with
    | closes ps =>
      obtain ⟨hshows, hc⟩ := hperf
      have hout (cs : List UInt8) : w.output cs = ps := RxFrame.output_of_closes hp cs
      exact ⟨ps, hshows, hsetup.handlers, fun ho => by simp [hc] at ho, fun cs =>
        ⟨[], by rw [List.append_nil, hout]⟩, fun _ _ cs => hout _, fun ho => by simp [hc] at ho⟩
    | goes ps u rx =>
      obtain ⟨hshows, hrx, hutf8, hstate⟩ := hperf
      have hout (cs : List UInt8) : w.output cs = ps ++ (settle cb w).2.output cs := by
        unfold World.output
        rw [hrx, hutf8, hsetup.handlers]
        exact RxFrame.output_of_goes hp (hrx ▸ hrest) cs
      refine ⟨ps, hshows, hsetup.handlers, fun _ cs => hout _,
        fun cs => by rw [hout]; exact List.prefix_append ps _,
        fun hp hno => absurd ((hstate hp).trans h.state) hno, fun _ cs hk => ?_⟩
      rw [World.Keyless, hrx, hutf8, hsetup.handlers]
      exact (RxFrame.keyless_of_goes hp (hrx ▸ hrest) _).mp hk

/-- What is made known adds up. -/
theorem Outputs.trans {w' w'' : World σ} {as bs cs : List UInt8} {ps qs : List Part}
    (h : Outputs keep cb as bs w w' ps) (ho : w'.inst.state = .open)
    (h' : Outputs keep cb bs cs w' w'' qs) : Outputs keep cb as cs w w'' (ps ++ qs) where
  shows := h.shows.trans h'.shows
  handlers := h'.handlers.trans h.handlers
  goes ho' ds := by rw [h.goes ho, h'.goes ho', List.append_assoc]
  starts ds := by
    rw [h.goes ho]
    exact (List.prefix_append_right_inj ps).mpr (h'.starts ds)
  ends hp hno ds := by rw [h.goes ho, h'.ends hp hno]
  keyless ho' ds hk := h'.keyless ho' ds (h.keyless ho ds hk)

/-- **What bytes make known and what is still to be made known behind them make up the output.** -/
theorem drain_outputs (hcb : cb.Heard keep) {w : World σ} (h : Live w) (bs : List UInt8) :
    ∃ ps, Outputs keep cb bs (drain cb bs w).1 w (drain cb bs w).2 ps := by
  obtain ⟨ps, hset⟩ := settle_outputs hcb h bs
  rcases drain_cases hcb.quiet h.receiving h.state with ⟨-, hd⟩ | ⟨-, hd⟩ | ⟨ho, hrest, hd⟩
  · rw [hd]
    exact ⟨ps, hset⟩
  · rw [hd]
    exact ⟨ps, hset⟩
  have hlive := settle_live hcb.quiet h ho
  rw [hd]
  generalize (settle cb w).2 = w' at hset ho hrest hlive
  cases bs with
  | nil =>
    rw [drain_nil_of_rests hrest]
    exact ⟨ps, hset⟩
  | cons b bs =>
    obtain ⟨qs, hbyte⟩ := consume_outputs hcb hlive hrest b bs
    rw [drain_cons_of_rests ho hrest]
    by_cases ho' : (consume cb b w').inst.state = .open
    · obtain ⟨rs, hrec⟩ := drain_outputs hcb (consume_live hcb.quiet hlive hrest ho') bs
      exact ⟨_, hset.trans ho (hbyte.trans ho' hrec)⟩
    · rw [drain_of_not_open ho']
      exact ⟨_, hset.trans ho hbyte⟩
termination_by bs.length

end Heard

end Wic
