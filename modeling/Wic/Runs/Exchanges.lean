import Wic.Receiver.Course
import Wic.Runs.Chunks

/-!
# Sequences of frames

A frame leaves the instance open, at the next boundary, or closes it. Frames that leave it open make
known what they carry and what is owed for them, whoever receives them; and pings and pongs between
the frames of a message change nothing about that message.

## Main definitions

* `Survives`: what a frame leaves behind that does not close
* `Pongless`: no pong has been sent
* `insideAll`: the message in progress behind a sequence of frames
* `pings`, `pongs`: the pongs that are owed, and the frames that are noted
* `Exchanges`: what a sequence of frames makes known
* `SameMessage`: instances in the middle of the same message

## Main results

* `received_frame`, `received_frames`
* `output_exchanges`: what the frames make known is the output
* `received_without_control`: control frames between data frames
-/

namespace Wic

open Websocket (Frame Kind encodeAll)

variable {σ : Type}

/-! ## Frames that leave the instance open -/

/-- The frame has been received and the instance is still open. -/
inductive Survives (f : Frame) (w w' : World σ) : Prop
  | data (kind) (hk : f.kind w.inst.rx.inside = some kind)
    (h : Delivers f kind (decode f.key w.inst.rx.s.size 0 f.body) w w')
  | control (hc : f.opcode.val = 9 ∨ f.opcode.val = 10) (h : Answers f w w')

/-- The message in progress behind a sequence of frames. -/
def insideAll (inside : Option Kind) (fs : List Frame) : Option Kind :=
  fs.foldl (fun inside f => f.progress inside) inside

/-- The kinds of frames that are let through. -/
theorem kind_of_startAllowed {inside : Option Kind} {f : Frame} (h : startAllowed inside f = true) :
    (∃ kind, f.kind inside = some kind) ∨ f.opcode.val = 8 ∨
      f.opcode.val = 9 ∨ f.opcode.val = 10 := by
  unfold startAllowed at h
  unfold Frame.kind
  obtain ⟨-, h⟩ := Bool.and_eq_true_iff.mp h
  split at h
  · next ho =>
    obtain ⟨kind, hk⟩ := Option.isSome_iff_exists.mp h
    exact .inl ⟨kind, by rw [ho]; exact hk⟩
  · next ho => exact .inl ⟨.text, by rw [ho]; rfl⟩
  · next ho => exact .inl ⟨.binary, by rw [ho]; rfl⟩
  · next ho => exact .inr (.inl ho)
  · next ho => exact .inr (.inr (.inl ho))
  · next ho => exact .inr (.inr (.inr ho))
  · cases h

theorem startAllowed_of_none {inside : Option Kind} {room : Nat} {f : Frame}
    (h : headerVerdict inside room f = none) : startAllowed inside f = true := by
  unfold headerVerdict at h
  split_ifs at h with hstart
  exact hstart

/-- An entry of the trace that is no pong. -/
def Event.Pongless : Event → Prop
  | .send _ _ type => type ≠ .pong
  | _ => True

/-- No pong has been sent. -/
def Pongless (w w' : World σ) : Prop := ∃ es, w'.log = w.log ++ es ∧ ∀ e ∈ es, e.Pongless

section Pongless

variable {w w' w'' : World σ} {f : Frame}

theorem Pongless.trans (h : Pongless w w') (h' : Pongless w' w'') : Pongless w w'' := by
  obtain ⟨es, hes, hall⟩ := h
  obtain ⟨fs, hfs, hall'⟩ := h'
  exact ⟨es ++ fs, by rw [hfs, hes, List.append_assoc], fun e he =>
    (List.mem_append.mp he).elim (hall e) (hall' e)⟩

theorem Event.Farewell.pongless {e : Event} (h : e.Farewell) : e.Pongless := by
  cases e with
  | send buf data type => rcases h with rfl | rfl <;> simp [Event.Pongless]
  | _ => trivial

theorem offered_pongless (handler : Bool) (encoding : Encoding) (fin : Bool) (text : List UInt8) :
    ∀ e ∈ offered handler encoding fin text, e.Pongless := by
  intro e he
  unfold offered at he
  split_ifs at he
  · rcases List.mem_pair.mp he with rfl | rfl <;> trivial
  · cases he

theorem Closes.pongless {code : UInt16} (h : Closes code w w') : Pongless w w' := by
  obtain ⟨es, hes, hall⟩ := h.log
  refine ⟨_, hes, fun e he => ?_⟩
  rcases List.mem_cons.mp he with rfl | he
  · trivial
  · exact (hall e he).pongless

theorem Rejected.pongless {encoding : Encoding} (h : Rejected encoding w w') : Pongless w w' := by
  obtain ⟨pieces, es, hes, hall⟩ := h.log
  rw [List.append_assoc] at hes
  refine ⟨_, hes, fun e he => ?_⟩
  rcases List.mem_append.mp he with he | he
  · obtain ⟨text, -, he⟩ := List.mem_flatMap.mp he
    exact offered_pongless _ _ _ _ e he
  · rcases List.mem_cons.mp he with rfl | he
    · trivial
    · exact (hall e he).pongless

/-- What a frame that is no ping leaves behind. -/
theorem Survives.pongless (h : Survives f w w') (hno : f.opcode.val ≠ 9) : Pongless w w' := by
  cases h with
  | data kind hk hd =>
    refine ⟨_, hd.log, fun e he => ?_⟩
    rcases List.mem_append.mp he with he | he
    · obtain ⟨text, -, he⟩ := List.mem_flatMap.mp he
      exact offered_pongless _ _ _ _ e he
    · exact offered_pongless _ _ _ _ e he
  | control hc ha =>
    obtain ⟨es, hes, hreply⟩ := ha.log
    rw [Replies, if_neg hno] at hreply
    refine ⟨es, hes, fun e he => ?_⟩
    rw [hreply] at he
    split_ifs at he
    · rw [List.mem_singleton.mp he]
      trivial
    · cases he

/-- Where no pong has been sent none is made known. -/
theorem Pongless.since (h : Pongless w w') : (w.since w').filterMap Part.pong = [] := by
  obtain ⟨es, hes, hall⟩ := h
  refine List.filterMap_eq_nil_iff.mpr fun p hp => ?_
  rw [World.since, hes, List.drop_left] at hp
  obtain ⟨e, he, hp⟩ := (mem_of_shown hp).resolve_left fun h => by cases h
  have hnot := hall e he
  cases e with
  | send buf data type =>
    have hmem : p ∈ if type = .pong ∨ type = .close ∨ type = .closeResponse then
        [Part.frame type (openFrame data)] else [] := hp
    split_ifs at hmem
    · rw [List.mem_singleton.mp hmem]
      cases type with
      | pong => exact absurd rfl hnot
      | _ => rfl
    · cases hmem
  | message => rw [List.mem_singleton.mp hp]; rfl
  | closing => rw [List.mem_singleton.mp hp]; rfl
  | onPing => rw [List.mem_singleton.mp hp]; rfl
  | onPong => rw [List.mem_singleton.mp hp]; rfl
  | onClose => rw [List.mem_singleton.mp hp]; rfl
  | _ => cases hp

end Pongless

section Survives

variable {cb : Callbacks σ} {w w' : World σ} {f : Frame}

theorem Survives.boundary (h : Survives f w w') : Boundary w' := by
  cases h with
  | data _ _ h => exact h.boundary
  | control _ h => exact h.boundary

theorem Survives.inside (h : Survives f w w') :
    w'.inst.rx.inside = f.progress w.inst.rx.inside := by
  cases h with
  | data _ _ h => exact h.inside
  | control hc h =>
    have hctl : f.isControl = true := by
      simp only [Frame.isControl, decide_eq_true_eq]
      omega
    rw [h.inside, Frame.progress, if_pos hctl]

/-- **A frame is survived, or it closes the instance.** -/
theorem received_frame (hcb : cb.Obliging) (h : Boundary w) (f : Frame) :
    (headerVerdict w.inst.rx.inside w.inst.rx.s.size f = none ∧
      ∃ w', Survives f w w' ∧ ∀ cs, received cb (f.encode ++ cs) w = received cb cs w') ∨
      ∃ w', w'.inst.state = .closed ∧ Pongless w w' ∧
        ∀ cs, received cb (f.encode ++ cs) w = w' := by
  cases hv : headerVerdict w.inst.rx.inside w.inst.rx.s.size f with
  | some code =>
    have hcl := (received_header_verdict hcb.toPassive h hv []).1
    rw [List.append_nil] at hcl
    refine .inr ⟨received cb f.header w, hcl.state, hcl.pongless, fun cs => ?_⟩
    · rw [Frame.encode, List.append_assoc]
      exact (received_header_verdict hcb.toPassive h hv _).2
  | none =>
    rcases kind_of_startAllowed (startAllowed_of_none hv) with ⟨kind, hk⟩ | h₈ | h₉
    · rcases received_data hcb h hv hk with ⟨w', hd, hrun⟩ | ⟨-, -, -, w', hrej, hrun⟩
      · exact .inl ⟨rfl, w', .data kind hk hd, hrun⟩
      · exact .inr ⟨w', hrej.state, hrej.pongless, hrun⟩
    · obtain ⟨code, w', hcl, hrun⟩ := received_close hcb h hv h₈
      exact .inr ⟨w', hcl.state, hcl.pongless, hrun⟩
    · obtain ⟨w', ha, hrun⟩ := received_ping_pong hcb h hv h₉
      exact .inl ⟨rfl, w', .control h₉ ha, hrun⟩

theorem Boundary.rests (h : Boundary w) : w.inst.rx.Rests := fun hd => by simp [h.boundary] at hd

theorem received_boundary (h : Boundary w) : received cb [] w = w := received_nil_of_rests h.rests

/-- **Behind frames that leave the instance open it is at a boundary again.** -/
theorem received_frames (hcb : cb.Obliging) (fs : List Frame) (h : Boundary w)
    (ho : (received cb (encodeAll fs) w).inst.state = .open) :
    Boundary (received cb (encodeAll fs) w) ∧
      (received cb (encodeAll fs) w).inst.rx.inside = insideAll w.inst.rx.inside fs := by
  induction fs generalizing w with
  | nil =>
    rw [Websocket.encodeAll_nil, received_boundary h]
    exact ⟨h, rfl⟩
  | cons f fs ih =>
    rw [Websocket.encodeAll_cons] at ho ⊢
    rcases received_frame hcb h f with ⟨-, w', hs, hrun⟩ | ⟨w', hc, -, hrun⟩
    · rw [hrun] at ho ⊢
      obtain ⟨hbound, hin⟩ := ih hs.boundary ho
      exact ⟨hbound, by rw [hin, hs.inside]; rfl⟩
    · rw [hrun, hc] at ho
      cases ho

/-- Frames that are no pings bring about no pongs. -/
theorem received_pongless (hcb : cb.Obliging) {fs : List Frame} (hno : ∀ f ∈ fs, f.opcode.val ≠ 9)
    (h : Boundary w) : Pongless w (received cb (encodeAll fs) w) := by
  induction fs generalizing w with
  | nil =>
    rw [Websocket.encodeAll_nil, received_boundary h]
    exact ⟨[], by rw [List.append_nil], by simp⟩
  | cons f fs ih =>
    rw [Websocket.encodeAll_cons]
    rcases received_frame hcb h f with ⟨-, w', hs, hrun⟩ | ⟨w', -, hpongless, hrun⟩
    · rw [hrun]
      exact (hs.pongless (hno f (by simp))).trans (ih (fun f hf => hno f (by simp [hf])) hs.boundary)
    · rw [hrun]
      exact hpongless

/-- Nor do the beginnings of such frames. -/
theorem output_pongless {fs : List Frame} (hno : ∀ f ∈ fs, f.opcode.val ≠ 9) (h : Boundary w)
    (n : Nat) : (w.output ((encodeAll fs).take n)).filterMap Part.pong = [] := by
  have hgrant : (Callbacks.granting : Callbacks σ).Obliging := Callbacks.granting_obliging
  have hall := (received_pongless hgrant hno h).since
  rw [received_output hgrant h.toLive] at hall
  have hprefix := output_prefix h.toLive ((encodeAll fs).take n) ((encodeAll fs).drop n)
  rw [List.take_append_drop] at hprefix
  obtain ⟨ps, hps⟩ := hprefix
  rw [← hps, List.filterMap_append, List.append_eq_nil_iff] at hall
  exact hall.1

end Survives

/-! ## Control frames between the frames of a message -/

/-- The part of a message that an entry of the trace passes on. -/
def Event.part : Event → Option (Encoding × Bool × List UInt8)
  | .message encoding fin data => some (encoding, fin, data)
  | _ => none

/-- The parts of messages that have been passed on. -/
def World.parts (w : World σ) : List (Encoding × Bool × List UInt8) := w.log.filterMap Event.part

/-- The two instances are in the middle of the same message. -/
structure SameMessage (w v : World σ) : Prop where
  inside : v.inst.rx.inside = w.inst.rx.inside
  size : v.inst.rx.s.size = w.inst.rx.s.size
  handler : v.inst.onMessage = w.inst.onMessage
  text : w.inst.rx.inside = some .text → v.inst.utf8Rx = w.inst.utf8Rx
  parts : v.parts = w.parts

section Same

variable {cb : Callbacks σ} {w w' v : World σ} {f : Frame}

theorem SameMessage.refl (w : World σ) : SameMessage w w := ⟨rfl, rfl, rfl, fun _ => rfl, rfl⟩

theorem Replies.parts {i : Inst} {es : List Event} (h : Replies f i es) :
    es.filterMap Event.part = [] := by
  by_cases h₉ : f.opcode.val = 9
  · rw [Replies, if_pos h₉] at h
    obtain ⟨data, m, buf, max, -, rfl⟩ := h
    split_ifs <;> rfl
  · rw [Replies, if_neg h₉] at h
    rw [h]
    split_ifs <;> rfl

/-- A ping or a pong leaves the message alone. -/
theorem SameMessage.control (h : SameMessage w v) (ha : Answers f w w') : SameMessage w' v := by
  obtain ⟨es, hes, hreply⟩ := ha.log
  have hutf8 : w'.inst.utf8Rx = w.inst.utf8Rx := by rw [ha.inst]
  have hm : w'.inst.onMessage = w.inst.onMessage := by rw [ha.inst]
  refine ⟨by rw [h.inside, ha.inside], by rw [h.size, ha.size], by rw [h.handler, hm],
    fun hin => by rw [h.text (ha.inside ▸ hin), hutf8], ?_⟩
  rw [h.parts, World.parts, World.parts, hes, List.filterMap_append, hreply.parts, List.append_nil]

/-- A data frame does to one what it does to the other. -/
theorem SameMessage.data (hcb : cb.Obliging) (h : SameMessage w v) (hbound : Boundary v)
    {kind : Kind} (hv : headerVerdict w.inst.rx.inside w.inst.rx.s.size f = none)
    (hk : f.kind w.inst.rx.inside = some kind)
    (hd : Delivers f kind (decode f.key w.inst.rx.s.size 0 f.body) w w') :
    ∃ v', SameMessage w' v' ∧ Boundary v' ∧
      ∀ cs, received cb (f.encode ++ cs) v = received cb cs v' := by
  -- a text goes on in the same state of the decoder
  have hstart : kind = .text → textStart f v.inst.utf8Rx = textStart f w.inst.utf8Rx := by
    rintro rfl
    rcases ofFin_kind hk with ⟨ho, hin⟩ | ⟨ho, -⟩
    · rw [textStart, textStart, h.text hin]
    · rw [textStart, textStart, if_neg ho, if_neg ho]
  rw [← h.inside] at hk
  rw [← h.inside, ← h.size] at hv
  -- the frame cannot be refused for its text, as the other one was not
  rcases received_data hcb hbound hv hk with ⟨v', hd', hrun⟩ | ⟨ht, hbad, hne, -⟩
  swap
  · rw [hstart ht, h.size] at hbad
    rw [h.size] at hne
    exact absurd hbad (hd.valid ht (.inr hne))
  rw [h.size] at hd'
  have hm' : v'.inst.onMessage = v.inst.onMessage := by rw [hd'.inst]
  have hm : w'.inst.onMessage = w.inst.onMessage := by rw [hd.inst]
  refine ⟨v', ⟨by rw [hd'.inside, hd.inside, h.inside], by rw [hd'.size, hd.size, h.size],
    by rw [hm', hm, h.handler], fun hin => ?_, ?_⟩, hd'.boundary, hrun⟩
  -- a text is left under way only by a part that does not end it
  · rw [hd.inside] at hin
    have hkind : kind = .text ∧ f.fin = false := by
      rw [h.inside] at hk
      rw [Frame.progress, Frame.isControl_of_kind hk, if_neg Bool.false_ne_true, hk] at hin
      split_ifs at hin with hfin
      exact ⟨Option.some.inj hin, by simpa using hfin⟩
    rw [hd'.utf8 hkind.1 hkind.2, hd.utf8 hkind.1 hkind.2, hstart hkind.1]
  · rw [World.parts, World.parts, hd'.log, hd.log, List.filterMap_append, List.filterMap_append,
      h.handler, h.size]
    exact congrArg (· ++ _) h.parts

/-- **Control frames between the data frames change nothing about these.** -/
theorem received_without_control (hcb : cb.Obliging) (fs : List Frame) {w v : World σ}
    (hw : Boundary w) (hv : Boundary v) (h : SameMessage w v)
    (ho : (received cb (encodeAll fs) w).inst.state = .open) :
    let v' := received cb (encodeAll (fs.filter fun f => !f.isControl)) v
    SameMessage (received cb (encodeAll fs) w) v' ∧ v'.inst.state = .open := by
  induction fs generalizing w v with
  | nil =>
    dsimp only
    rw [List.filter_nil, Websocket.encodeAll_nil, received_boundary hw, received_boundary hv]
    exact ⟨h, hv.state⟩
  | cons f fs ih =>
    rw [Websocket.encodeAll_cons] at ho ⊢
    rcases received_frame hcb hw f with ⟨hverdict, w', hs, hrun⟩ | ⟨w', hc, -, hrun⟩
    swap
    · rw [hrun, hc] at ho
      cases ho
    rw [hrun] at ho ⊢
    -- a control frame is left out, a data frame is delivered to both
    cases hs with
    | control hc ha =>
      have hctl : f.isControl = true := by
        simp only [Frame.isControl, decide_eq_true_eq]
        omega
      rw [List.filter_cons_of_neg (by simp [hctl])]
      exact ih ha.boundary hv (h.control ha) ho
    | data kind hk hd =>
      obtain ⟨v', hsame, hbound, hrun'⟩ := h.data hcb hv hverdict hk hd
      rw [List.filter_cons_of_pos (by simp [Frame.isControl_of_kind hk]), Websocket.encodeAll_cons]
      dsimp only
      rw [hrun']
      exact ih hd.boundary hbound hsame ho

end Same

/-! ## What frames make known -/

/-- The message that is accepted. -/
def Part.accepted : Part → Option (Encoding × Bool × List UInt8)
  | .message encoding fin data => some (encoding, fin, data)
  | _ => none

theorem Part.accepted_messages (ps : List Part) :
    (ps.filterMap Part.accepted).map (fun m => Part.message m.1 m.2.1 m.2.2) =
      ps.filter Part.isMessage := by
  induction ps with
  | nil => rfl
  | cons p ps ih =>
    cases p with
    | message encoding fin data => exact congrArg (Part.message encoding fin data :: ·) ih
    | _ => exact ih

/-- The pongs that are owed for the pings among some frames. -/
def pings (fs : List Frame) : List (UInt8 × List UInt8) :=
  (fs.filter fun f => f.opcode.val = 9).map fun f => (0x8a, f.payload)

/-- The number of pongs among some frames. -/
def pongs (fs : List Frame) : Nat := fs.countP fun f => f.opcode.val = 10

/-- What some frames have made known. -/
structure Exchanges (fs : List Frame) (w w' : World σ) (ps : List Part) : Prop where
  shows : Shows (fun _ => true) ps w w'
  accepted : w'.parts = w.parts ++ ps.filterMap Part.accepted
  pongs : ps.filterMap Part.pong = pings fs
  pinged : w.inst.onPing = false → .pinged ∉ ps
  ponged : w.inst.onPong = false → .ponged ∉ ps
  handlers : w'.inst.handlers = w.inst.handlers

section Exchanges

variable {cb : Callbacks σ} {w w' w'' : World σ} {f : Frame} {fs : List Frame} {ps qs : List Part}

theorem Exchanges.trans (h : Exchanges [f] w w' ps) (h' : Exchanges fs w' w'' qs) :
    Exchanges (f :: fs) w w'' (ps ++ qs) where
  shows := h.shows.trans h'.shows
  accepted := by rw [h'.accepted, h.accepted, List.filterMap_append, List.append_assoc]
  pongs := by
    rw [List.filterMap_append, h.pongs, h'.pongs, ← List.singleton_append (l := fs), pings,
      pings, pings, List.filter_append, List.map_append]
  pinged hp := by
    have hp' : w'.inst.onPing = false := (congrArg Handlers.onPing h.handlers).trans hp
    simp [h.pinged hp, h'.pinged hp']
  ponged hp := by
    have hp' : w'.inst.onPong = false := (congrArg Handlers.onPong h.handlers).trans hp
    simp [h.ponged hp, h'.ponged hp']
  handlers := h'.handlers.trans h.handlers

/-- The entries of the trace for a message make it known. -/
theorem shown_offered (handler : Bool) (encoding : Encoding) (fin : Bool) (text : List UInt8) :
    ∃ ps, (∀ fs, shown none (offered handler encoding fin text ++ fs) = ps ++ shown none fs) ∧
      ps.filterMap Part.accepted = (offered handler encoding fin text).filterMap Event.part ∧
      ∀ p ∈ ps, ∃ encoding fin data, p = .message encoding fin data := by
  cases handler with
  | false => exact ⟨[], fun _ => rfl, rfl, by simp⟩
  | true =>
    refine ⟨[.message encoding fin (text.take (text.length % 65536))], fun _ => rfl, rfl, ?_⟩
    exact fun p hp => ⟨_, _, _, List.mem_singleton.mp hp⟩

/-- The entries of the trace for a data frame make its messages known. -/
theorem shown_passed (handler : Bool) (encoding : Encoding) (fin : Bool) (room : Nat)
    (ds : List UInt8) :
    ∃ ps, (∀ fs, shown none (passed handler encoding fin room ds ++ fs) = ps ++ shown none fs) ∧
      ps.filterMap Part.accepted =
        (passed handler encoding fin room ds).filterMap Event.part ∧
      ∀ p ∈ ps, ∃ encoding fin data, p = .message encoding fin data := by
  unfold passed
  induction flushed room [] ds with
  | nil => exact shown_offered handler encoding fin _
  | cons t ts ih =>
    obtain ⟨ps, hps, hacc, hall⟩ := shown_offered handler encoding false t
    obtain ⟨qs, hqs, hacc', hall'⟩ := ih
    refine ⟨ps ++ qs, fun fs => ?_, ?_, fun p hp => ?_⟩
    · rw [List.flatMap_cons, List.append_assoc, List.append_assoc, hps, ← List.append_assoc, hqs,
        List.append_assoc]
    · rw [List.filterMap_append, hacc, hacc', List.flatMap_cons, List.append_assoc,
        ← List.filterMap_append]
    · rcases List.mem_append.mp hp with hp | hp
      · exact hall p hp
      · exact hall' p hp

/-- A data frame. -/
theorem Delivers.exchanges {kind : Kind} {ds : List UInt8} (h : Delivers f kind ds w w')
    (hk : f.kind w.inst.rx.inside = some kind) : ∃ ps, Exchanges [f] w w' ps := by
  obtain ⟨ps, hps, hacc, hall⟩ := shown_passed w.inst.onMessage (encodingOf kind) f.fin
    w.inst.rx.s.size ds
  have hctl := Frame.isControl_of_kind hk
  have hping : ¬f.opcode.val = 9 := fun h₉ => by simp [Frame.isControl, h₉] at hctl
  refine ⟨ps, ⟨_, h.log, fun fs => by rw [hps, List.filter_append]⟩, ?_, ?_, fun _ hp => ?_,
    fun _ hp => ?_, by rw [h.inst]; rfl⟩
  · rw [World.parts, World.parts, h.log, List.filterMap_append, hacc]
  · rw [pings, List.filter_cons_of_neg (by simpa using hping)]
    refine List.filterMap_eq_nil_iff.mpr fun p hp => ?_
    obtain ⟨_, _, _, rfl⟩ := hall p hp
    rfl
  · obtain ⟨_, _, _, he⟩ := hall _ hp
    cases he
  · obtain ⟨_, _, _, he⟩ := hall _ hp
    cases he

/-- A ping or a pong. -/
theorem Answers.exchanges (h : Answers f w w') (hlen : f.payload.length ≤ 125) :
    ∃ ps, Exchanges [f] w w' ps := by
  obtain ⟨es, hes, hreply⟩ := h.log
  have hparts : w'.parts = w.parts := by
    rw [World.parts, World.parts, hes, List.filterMap_append, hreply.parts, List.append_nil]
  have hhandlers : w'.inst.handlers = w.inst.handlers := by rw [h.inst]; rfl
  -- a ping is answered by a pong with its payload, a pong by nothing
  by_cases h₉ : f.opcode.val = 9
  · rw [Replies, if_pos h₉] at hreply
    obtain ⟨data, m, buf, max, hdata, rfl⟩ := hreply
    have hopen : openFrame ((pongFrame data).withMask m).wire = (0x8a, f.payload) := by
      rw [openFrame_pong _ _ (by rw [hdata]; exact hlen), hdata]
    have hpings : pings [f] = [(0x8a, f.payload)] := by
      rw [pings, List.filter_cons_of_pos (by simpa using h₉)]
      rfl
    refine ⟨.frame .pong (0x8a, f.payload) :: if w.inst.onPing then [.pinged] else [],
      ⟨_, hes, fun fs => ?_⟩, ?_, ?_, fun hp => ?_, fun _ => ?_, hhandlers⟩
    · rw [← List.filter_append, ← hopen]
      cases w.inst.onPing <;> rfl
    · rw [hparts]
      cases w.inst.onPing <;> simp [Part.accepted]
    · rw [hpings]
      cases w.inst.onPing <;> rfl
    · simp [hp]
    · cases w.inst.onPing <;> simp
  · rw [Replies, if_neg h₉] at hreply
    have hpings : pings [f] = [] := by
      rw [pings, List.filter_cons_of_neg (by simpa using h₉)]
      rfl
    refine ⟨if w.inst.onPong then [.ponged] else [], ⟨_, hes, fun fs => ?_⟩, ?_, ?_, fun _ => ?_,
      fun hp => ?_, hhandlers⟩
    · rw [← List.filter_append, hreply]
      cases w.inst.onPong <;> rfl
    · rw [hparts]
      cases w.inst.onPong <;> simp [Part.accepted]
    · rw [hpings]
      cases w.inst.onPong <;> rfl
    · cases w.inst.onPong <;> simp
    · simp [hp]

/-- **Frames that leave the instance open make known what they carry and owe.** -/
theorem received_exchanges (hcb : cb.Obliging) (fs : List Frame) {w : World σ} (h : Boundary w)
    (ho : (received cb (encodeAll fs) w).inst.state = .open) :
    ∃ ps, Exchanges fs w (received cb (encodeAll fs) w) ps := by
  induction fs generalizing w with
  | nil =>
    rw [Websocket.encodeAll_nil, received_boundary h]
    exact ⟨[], .refl w, by simp, rfl, by simp, by simp, rfl⟩
  | cons f fs ih =>
    rw [Websocket.encodeAll_cons] at ho ⊢
    rcases received_frame hcb h f with ⟨hv, w', hs, hrun⟩ | ⟨w', hc, -, hrun⟩
    swap
    · rw [hrun, hc] at ho
      cases ho
    rw [hrun] at ho ⊢
    obtain ⟨qs, hrest⟩ := ih hs.boundary ho
    have hone : ∃ ps, Exchanges [f] w w' ps := by
      cases hs with
      | data kind hk hd => exact hd.exchanges hk
      | control hc ha => exact ha.exchanges (length_of_headerVerdict hv (.inr hc)).1
    obtain ⟨ps, hone⟩ := hone
    exact ⟨_, hone.trans hrest⟩

/-- A close frame closes. -/
theorem received_close_frame (hcb : cb.Obliging) (h : Boundary w) (h₈ : f.opcode.val = 8) :
    ∃ code w', Closes code w w' ∧ ∀ cs, received cb (f.encode ++ cs) w = w' := by
  cases hv : headerVerdict w.inst.rx.inside w.inst.rx.s.size f with
  | none => exact received_close hcb h hv h₈
  | some code =>
    refine ⟨code, received cb f.header w, ?_, fun cs => ?_⟩
    · have hcl := (received_header_verdict hcb.toPassive h hv []).1
      rwa [List.append_nil] at hcl
    · rw [Frame.encode, List.append_assoc]
      exact (received_header_verdict hcb.toPassive h hv _).2

/-- **What frames that leave the instance open make known is the output**, whatever close frames
follow. -/
theorem output_exchanges (hcb : cb.Obliging) (fs last : List Frame) (h : Boundary w)
    (ho : (received cb (encodeAll fs) w).inst.state = .open)
    (hlast : ∀ f ∈ last, f.opcode.val = 8) :
    ∃ ps, Exchanges fs w (received cb (encodeAll fs) w) ps ∧
      (w.output (encodeAll (fs ++ last))).filter Part.handed = ps.filter Part.handed := by
  obtain ⟨ps, hex⟩ := received_exchanges hcb fs h ho
  refine ⟨ps, hex, ?_⟩
  obtain ⟨hbound, -⟩ := received_frames hcb fs h ho
  have hsplit : encodeAll (fs ++ last) = encodeAll fs ++ encodeAll last := by
    simp [encodeAll]
  have hlasts : Shows Part.handed [] (received cb (encodeAll fs) w)
      (received cb (encodeAll last) (received cb (encodeAll fs) w)) := by
    cases last with
    | nil =>
      rw [Websocket.encodeAll_nil, received_boundary hbound]
      exact .refl _
    | cons f last =>
      obtain ⟨code, w', hcl, hrun⟩ := received_close_frame hcb hbound (hlast f (by simp))
      rw [Websocket.encodeAll_cons, hrun]
      exact .hides hcl.hides
  have hboth : Shows Part.handed (ps ++ []) w (received cb (encodeAll (fs ++ last)) w) := by
    rw [hsplit, received_append hcb h.toLive]
    exact (hex.shows.mono _).trans hlasts
  rw [← received_output hcb h.toLive]
  have hshown := hboth.eq_shown
  rw [List.append_nil] at hshown
  exact hshown

end Exchanges

end Wic
