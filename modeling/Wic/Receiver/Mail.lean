import Wic.Receiver.Refeeding

/-!
# The messages alone

An application may have no room for a pong, and then a ping goes unanswered. That changes nothing
about the messages: those handed on and those still to come make up the messages of the output,
whatever room there is for pongs.

## Main definitions

* `Part.isMessage`: the reading of a trace that keeps the messages
* `World.messages`: the messages handed on since an earlier world
* `Callbacks.withPongs`: callbacks with another answer for pongs
* `Callbacks.roomier`: callbacks with room for every pong, if not now

## Main results

* `settle_mail`, `drain_mail`: what was handed on and what is to come make up the messages
* `parseWebsocket_mail`: what one call hands on
-/

namespace Wic

variable {σ : Type}

/-- A message. -/
def Part.isMessage : Part → Bool
  | .message .. => true
  | _ => false

/-- The messages handed on between `w` and `w'`. -/
def World.messages (w w' : World σ) : List Part := (w.since w').filter Part.isMessage

/-- The same callbacks, but `room` answers for the pongs. -/
def Callbacks.withPongs (room : Nat → Option Nat × Nat) (cb : Callbacks σ) : Callbacks σ :=
  { cb with
    onBuffer := fun minSize type w =>
      if type = .pong then (room minSize, w) else cb.onBuffer minSize type w }

/-- The same callbacks, but there is room for every pong, if not now. -/
def Callbacks.roomier (cb : Callbacks σ) : Callbacks σ := cb.withPongs fun minSize => (none, minSize)

section Quiet

variable {G : Prop} {w w' : World σ}

/-- Calls hand on no message. -/
theorem Quiet.mail (h : Quiet G w w') : Hides Part.isMessage w w' := by
  obtain ⟨es, hes, hall⟩ := h.log
  refine hides_of_silent (fun e he => ?_) hes
  have hcall := hall e he
  cases e with
  | message | answer | onPing | onPong => exact hcall.elim
  | send buf data type =>
    show (if type = .pong ∨ type = .close ∨ type = .closeResponse then
      [Part.frame type (openFrame data)] else []).filter Part.isMessage = []
    split_ifs <;> rfl
  | _ => rfl

theorem farewell_mail (hs : Handlers) (code : UInt16) (reason : Payload) (type : BufferType) :
    (farewell hs code reason type).filter Part.isMessage = [] := by
  unfold farewell
  split_ifs <;> rfl

variable {cb : Callbacks σ}

theorem Callbacks.Respect.withPongs {P : Caller → World σ → World σ → Prop} (hcb : cb.Respect P)
    (room : Nat → Option Nat × Nat) : (cb.withPongs room).Respect P :=
  { hcb with
    onBuffer := fun minSize type w => by
      show Edits w (if type = .pong then (room minSize, w) else cb.onBuffer minSize type w).2
      split_ifs
      · exact .refl w
      · exact hcb.onBuffer minSize type w }

/-- Of messages, all callbacks let everything be heard once they have room. -/
theorem Callbacks.Respect.heard_roomier (hcb : cb.Respect (QuietAt False)) :
    cb.roomier.Heard Part.isMessage where
  quiet := hcb.withPongs _
  roomy minSize w := Nat.le_refl minSize
  hides hr _ := (hcb.onMessage _ _ _ _ hr).mail
  closes {code reason type w} hr _ ht _ := by
    have hq : Quiet False w (closeWithReason cb.roomier code reason type w) :=
      closeWithReason_quiet (hcb.withPongs fun minSize => (none, minSize)) hr ht False.elim
    obtain ⟨es, hes, hall⟩ := hq.mail
    refine ⟨es, hes, fun fs => ?_⟩
    rw [hall none, farewell_mail]
    rfl

end Quiet

/-! ## What a pong has to do with -/

section Pongs

variable {room : Nat → Option Nat × Nat} {cb : Callbacks σ} {w : World σ}

theorem lease_withPongs {type : BufferType} (ht : type ≠ .pong) (n : Nat) :
    lease (cb.withPongs room) n type w = lease cb n type w := by
  unfold lease Callbacks.withPongs
  dsimp only
  rw [if_neg ht]

/-- A frame that is no pong finds the same room. -/
theorem putAndSend_withPongs {f : TxFrame} (ht : f.type ≠ .pong) (done : Inst → Inst) :
    putAndSend (cb.withPongs room) f done w = putAndSend cb f done w := by
  have hput (g : TxFrame) (hg : g.type ≠ .pong) (v : World σ) :
      streamPutFrame (cb.withPongs room) g v = streamPutFrame cb g v := by
    unfold streamPutFrame
    dsimp only
    rw [lease_withPongs hg]
  have hmask : initMask (cb.withPongs room) f w = initMask cb f w := rfl
  unfold putAndSend
  rw [hmask]
  dsimp only
  rw [hput _ (by exact ht)]
  rfl

theorem closeWithReason_withPongs {type : BufferType} (ht : type ≠ .pong) (code : UInt16)
    (reason : Payload) : closeWithReason (cb.withPongs room) code reason type w =
      closeWithReason cb code reason type w := by
  have hsend (v : World σ) : sendClose (cb.withPongs room) code reason type v =
      sendClose cb code reason type v := by
    unfold sendClose
    rw [putAndSend_withPongs (by exact ht)]
  unfold closeWithReason
  simp only [hsend]
  rfl

theorem finishClose_withPongs : finishClose (cb.withPongs room) w = finishClose cb w := by
  rw [finishClose_answer, finishClose_answer, closeWithReason_withPongs (by decide)]

/-- **A byte makes the same of the instance.** -/
theorem consume_withPongs (b : UInt8) : consume (cb.withPongs room) b w = consume cb b w := by
  have hclose (code : UInt16) {type : BufferType} (ht : type ≠ .pong) (v : World σ) :
      closeWithCode (cb.withPongs room) code type v = closeWithCode cb code type v :=
    closeWithReason_withPongs ht code .null
  have hopcode (v : World σ) : filterOpcode (cb.withPongs room) v = filterOpcode cb v := by
    unfold filterOpcode
    simp only [hclose _ (show BufferType.close ≠ .pong by decide)]
  have hsize (v : World σ) : filterSize (cb.withPongs room) v = filterSize cb v := by
    unfold filterSize
    simp only [hclose _ (show BufferType.close ≠ .pong by decide)]
  have htext {type : BufferType} (ht : type ≠ .pong) (b : UInt8) (v : World σ) :
      checkUtf8 (cb.withPongs room) b type v = checkUtf8 cb b type v := by
    unfold checkUtf8
    simp only [hclose _ ht]
  unfold consume opcodeByte sizeByte dataByte
  simp only [hopcode, hsize, hclose _ (show BufferType.close ≠ .pong by decide),
    htext (show BufferType.close ≠ .pong by decide),
    htext (show BufferType.closeResponse ≠ .pong by decide)]

/-- So does the work that is due, unless a ping has to be answered. -/
theorem settle_withPongs (hop : w.inst.rx.dataOpcode = .ping → w.inst.rx.size ≠ 0) :
    settle (cb.withPongs room) w = settle cb w := by
  unfold settle
  by_cases hz : w.inst.rx.size = 0
  · have hfinish : finish (cb.withPongs room) w = finish cb w := by
      unfold finish
      dsimp only
      rw [finishClose_withPongs]
      cases h : w.inst.rx.dataOpcode with
      | ping => exact absurd hz (hop h)
      | text =>
        dsimp only
        rw [show closeWithCode (cb.withPongs room) closeInvalidData .close w = _ from
          closeWithReason_withPongs (by decide) _ _]
        rfl
      | _ => rfl
    rw [hfinish]
    rfl
  · simp only [hz, if_false]
    rfl

end Pongs

/-! ## A ping -/

/-- The instance is left alone, and no message is handed on. -/
structure Mute (w w' : World σ) : Prop where
  inst : w'.inst = w.inst
  hides : Hides Part.isMessage w w'

namespace Mute

variable {w w' w'' : World σ}

theorem edits (h : Edits w w') : Mute w w' := ⟨h.inst, .edits h⟩

theorem emit {e : Event} (he : e.Silent Part.isMessage) : Mute w (w.emit e) := by
  refine ⟨rfl, ?_⟩
  have hlog : (w.emit e).log = w.log ++ [e] := rfl
  apply hides_of_silent _ hlog
  intro e' hmem
  rw [List.mem_singleton.mp hmem]
  exact he

theorem trans (h : Mute w w') (h' : Mute w' w'') : Mute w w'' := by
  obtain ⟨es, hes, hall⟩ := h.hides
  obtain ⟨fs, hfs, hall'⟩ := h'.hides
  refine ⟨h'.inst.trans h.inst, es ++ fs, ?_, fun waiting gs => ?_⟩
  · rw [hfs, hes, List.append_assoc]
  · rw [List.append_assoc, hall, hall']

end Mute

section Ping

variable {G : Prop} {cb : Callbacks σ} {w : World σ}

theorem silent_send (buf : Nat) (data : List UInt8) (type : BufferType) :
    (Event.send buf data type).Silent Part.isMessage := by
  show (if type = .pong ∨ type = .close ∨ type = .closeResponse then
    [Part.frame type (openFrame data)] else []).filter Part.isMessage = []
  split_ifs <;> rfl

/-- Whatever becomes of a pong, it is no message. -/
theorem sendPong_mute (hcb : cb.Respect (QuietAt G)) (hr : w.inst.role = .client)
    (ho : w.inst.state = .open) (data : Payload) : Mute w (sendPongWithPayload cb data w).2 := by
  have hallowed : allowedToSend w = (true, w) := by simp [allowedToSend, ho]
  have hdraw := drawMask_edits hcb w
  have hlease (n : Nat) (type : BufferType) (w' : World σ) : Mute w' (lease cb n type w').2 :=
    (Mute.edits (hcb.onBuffer n type w')).trans (.emit rfl)
  have hdeliver (g : TxFrame) (buf : Option Nat) (max : Nat) (w' : World σ) :
      Mute w' (deliver cb g id buf max w').2 := by
    unfold deliver
    split_ifs
    · cases buf with
      | none => exact .edits (.refl w')
      | some buf =>
        have hsend := hcb.onSend buf g.wire g.type ((w'.update id).emit (.send buf g.wire g.type))
        have hemit : Mute w' (w'.emit (.send buf g.wire g.type)) :=
          .emit (silent_send buf g.wire g.type)
        exact hemit.trans (.edits hsend)
    · exact .edits (.refl w')
  unfold sendPongWithPayload
  rw [hallowed]
  dsimp only
  rw [if_pos rfl, putAndSend_eq cb _ id w (by rw [hdraw.inst]; exact hr)]
  exact (Mute.edits hdraw).trans ((hlease _ _ _).trans (hdeliver _ _ _ _))

theorem callOnPing_mute (hcb : cb.Respect (QuietAt G)) : Mute w (callOnPing cb w) := by
  unfold callOnPing
  split_ifs
  · exact (Mute.emit (e := .onPing) rfl).trans (.edits (hcb.onPing _))
  · exact .edits (.refl w)

end Ping

/-! ## The messages -/

section Mail

variable {cb : Callbacks σ} {w : World σ}

/-- Callbacks that hand messages on in the same way have the same messages to come. -/
theorem Outputs.roomier {bs rest : List UInt8} {w' : World σ} {ps : List Part}
    (h : Outputs Part.isMessage cb.roomier bs rest w w' ps) :
    Outputs Part.isMessage cb bs rest w w' ps :=
  ⟨h.shows, h.handlers, h.goes, h.starts, h.ends, h.keyless⟩

/-- A ping is answered now, later or never. -/
theorem ping_mail (hcb : cb.Respect (QuietAt False)) (h : Live w)
    (hd : w.inst.rx.state = .data) (hz : w.inst.rx.size = 0) (hop : w.inst.rx.dataOpcode = .ping)
    (bs : List UInt8) : ∃ ps, Outputs Part.isMessage cb bs bs w (settle cb w).2 ps := by
  have hpong : Mute w (sendPongWithPayload cb w.inst.rx.s.payload w).2 :=
    sendPong_mute hcb h.role h.state w.inst.rx.s.payload
  have hperf := RxFrame.performs_of_data hd w.inst.handlers w.inst.utf8Rx
  rw [if_pos hz, RxFrame.ends, hop] at hperf
  rw [settle_of_data cb hd, if_pos hz, finish_ping hop]
  dsimp only at hperf ⊢
  generalize hps : (Part.frame .pong (0x8a, w.inst.rx.s.payload.bytes) ::
    if w.inst.handlers.onPing then [Part.pinged] else []) = ps at hperf
  generalize sendPongWithPayload cb w.inst.rx.s.payload w = r at hpong ⊢
  obtain ⟨status, w₁⟩ := r
  by_cases hblocked : status = .wouldBlock
  · -- there is no room now, and the ping waits
    simp only [hblocked, if_true]
    have hsame (cs : List UInt8) : w₁.output cs = w.output cs := by
      rw [World.output, hpong.inst, World.output]
    have hstate : w₁.inst.state = .open := (congrArg Inst.state hpong.inst).trans h.state
    refine ⟨[], .hides hpong.hides, congrArg Inst.handlers hpong.inst, fun _ cs => (hsame _).symm,
      fun _ => List.nil_prefix, fun _ hno => absurd hstate hno, fun _ cs hk => ?_⟩
    rw [World.Keyless, hpong.inst]
    exact hk
  · -- it has been answered, or the application will never have the room
    simp only [hblocked, if_false, Bool.false_eq_true]
    have hmute := hpong.trans (callOnPing_mute (w := w₁) hcb)
    have hinst : (callOnPing cb w₁).inst = w.inst := hmute.inst
    have hhandlers : ((callOnPing cb w₁).updateRx fun rx => { rx with state := .opcode }).inst.handlers =
        w.inst.handlers := by
      rw [← hinst]
      rfl
    have hsilent : ps.filter Part.isMessage = [] := by
      rw [← hps]
      split_ifs <;> rfl
    have hrest : ({ w.inst.rx with state := .opcode } : RxFrame).Rests := by
      intro hs
      cases hs
    have hout (cs : List UInt8) : w.output cs =
        ps ++ ((callOnPing cb w₁).updateRx fun rx => { rx with state := .opcode }).output cs := by
      rw [World.output, RxFrame.output_of_goes hperf hrest, World.output, hhandlers]
      show _ = ps ++ RxFrame.output _ cs (callOnPing cb w₁).inst.utf8Rx
        { (callOnPing cb w₁).inst.rx with state := .opcode }
      rw [hinst]
    obtain ⟨es, hes, hall⟩ := hmute.hides
    refine ⟨ps, ⟨es, hes, fun fs => ?_⟩, hhandlers, fun _ cs => hout _,
      fun cs => ?_, fun _ hno => ?_, fun _ cs hk => ?_⟩
    · rw [hall none, hsilent]
      rfl
    · rw [hout]
      exact List.prefix_append ps _
    · exact absurd ((congrArg Inst.state hinst).trans h.state) hno
    · have hgoes := (RxFrame.keyless_of_goes hperf hrest (bs ++ cs)).mp hk
      rw [World.Keyless, hhandlers]
      show RxFrame.Keyless _ (bs ++ cs) (callOnPing cb w₁).inst.utf8Rx
        { (callOnPing cb w₁).inst.rx with state := .opcode }
      rw [hinst]
      exact hgoes

/-- **The work that is due hands on what it should, or nothing.** -/
theorem settle_mail (hcb : cb.Respect (QuietAt False)) (h : Live w) (bs : List UInt8) :
    ∃ ps, Outputs Part.isMessage cb bs bs w (settle cb w).2 ps := by
  by_cases hping : w.inst.rx.state = .data ∧ w.inst.rx.size = 0 ∧ w.inst.rx.dataOpcode = .ping
  · exact ping_mail hcb h hping.1 hping.2.1 hping.2.2 bs
  · have hsame : settle cb.roomier w = settle cb w := by
      by_cases hd : w.inst.rx.state = .data
      · exact settle_withPongs fun hop hz => hping ⟨hd, hz, hop⟩
      · have hrest : w.inst.rx.Rests := fun hs => absurd hs hd
        rw [settle_of_rests hrest, settle_of_rests hrest]
    obtain ⟨ps, hset⟩ := settle_outputs hcb.heard_roomier h bs
    rw [hsame] at hset
    exact ⟨ps, hset.roomier⟩

theorem consume_mail (hcb : cb.Respect (QuietAt False)) (h : Live w) (hrest : w.inst.rx.Rests)
    (b : UInt8) (bs : List UInt8) :
    ∃ ps, Outputs Part.isMessage cb (b :: bs) bs w (consume cb b w) ps := by
  obtain ⟨ps, hbyte⟩ := consume_outputs hcb.heard_roomier h hrest b bs
  rw [show consume cb.roomier b w = consume cb b w from consume_withPongs b] at hbyte
  exact ⟨ps, hbyte.roomier⟩

/-- **What bytes hand on and what is still to be handed on make up the messages.** -/
theorem drain_mail (hcb : cb.Respect (QuietAt False)) {w : World σ} (h : Live w)
    (bs : List UInt8) : ∃ ps, Outputs Part.isMessage cb bs (drain cb bs w).1 w (drain cb bs w).2 ps := by
  obtain ⟨ps, hset⟩ := settle_mail hcb h bs
  rcases drain_cases hcb h.receiving h.state with ⟨-, hd⟩ | ⟨-, hd⟩ | ⟨ho, hrest, hd⟩
  · rw [hd]
    exact ⟨ps, hset⟩
  · rw [hd]
    exact ⟨ps, hset⟩
  have hlive := settle_live hcb h ho
  rw [hd]
  generalize (settle cb w).2 = w' at hset ho hrest hlive
  cases bs with
  | nil =>
    rw [drain_nil_of_rests hrest]
    exact ⟨ps, hset⟩
  | cons b bs =>
    obtain ⟨qs, hbyte⟩ := consume_mail hcb hlive hrest b bs
    rw [drain_cons_of_rests ho hrest]
    by_cases ho' : (consume cb b w').inst.state = .open
    · obtain ⟨rs, hrec⟩ := drain_mail hcb (consume_live hcb hlive hrest ho') bs
      exact ⟨_, hset.trans ho (hbyte.trans ho' hrec)⟩
    · rw [drain_of_not_open ho']
      exact ⟨_, hset.trans ho hbyte⟩
termination_by bs.length

end Mail

/-! ## One call -/

section Call

variable {cb : Callbacks σ} {w : World σ} {data : List UInt8}

/-- **What one call hands on**: the websocket part of `wic_parse` reads `data` from its `k`-th byte
to its `n`-th. -/
theorem parseWebsocket_mail (hcb : cb.Respect (QuietAt False)) (h : Live w) {s : Stream} {k : Nat}
    (hok : s.Ok) (he : s.error = false) (hsize : s.size = data.length)
    (hrest : s.rest = data.drop k) : ∃ n w' s', parseWebsocket cb s w = some (w', s') ∧
      n = (if w'.inst.state = .open then s'.pos else data.length) ∧ n ≤ data.length ∧
      Fed Part.isMessage cb (data.drop k) (data.drop n) w w' := by
  have hready : Ready s w := ⟨hok, he, h.lawful.toSound, h.role⟩
  obtain ⟨w', s', hrun, as, cs, hends⟩ := parseWebsocket_drain hcb hready h.state
  obtain ⟨ps, hmail⟩ := drain_mail hcb h as
  have hout := hmail.append cs
  have hof_open := hends.of_open
  have hof_closed := hends.of_closed
  have hsuffix : (drain cb as w).1 ++ cs <:+ data := by
    obtain ⟨pre, hpre⟩ := drain_suffix cb as w
    refine List.IsSuffix.trans ⟨pre, ?_⟩ (List.drop_suffix k data)
    rw [← hrest, hends.split, ← List.append_assoc, hpre]
  have hlive := drain_live hcb h as
  have hlead := (drain_receiving hcb h.receiving as).2.state
  rw [h.state] at hlead
  rw [← hends.split, hrest] at hout
  generalize drain cb as w = r at hout hof_open hof_closed hsuffix hlive hlead
  by_cases ho : r.2.inst.state = .open
  · -- the bytes that are left are those behind the cursor
    obtain ⟨rfl, hleft, hok', hsize'⟩ := hof_open ho
    have hlength := hok'.length_rest
    have hle := hok'.pos_le
    rw [← hleft] at hout hsuffix
    have hread : data.length - s'.rest.length = s'.pos := by omega
    rw [List.suffix_iff_eq_drop.mp hsuffix, hread] at hout
    exact ⟨s'.pos, r.2, s', hrun, (if_pos ho).symm, by omega, ⟨ps, hout⟩, hlive, .inl ho⟩
  · obtain ⟨f, rfl⟩ := hof_closed ho
    have hno : (r.2.updateRx f).inst.state ≠ .open := ho
    exact ⟨data.length, _, s', hrun, (if_neg hno).symm, Nat.le_refl _, ⟨ps, hout.closed ho _ f⟩,
      fun ho' => absurd ho' hno, .inr (hlead.open_or.resolve_left ho)⟩

/-- A call on an open instance. -/
theorem wicParse_mail (hcb : cb.Respect (QuietAt False)) (h : Live w)
    (hlen : data.length < 2 ^ 32) : ∃ n w', wicParse cb data w = some (n, w') ∧ n ≤ data.length ∧
      Fed Part.isMessage cb data (data.drop n) w w' := by
  have hsize : data.length % 2 ^ 32 = data.length := Nat.mod_eq_of_lt hlen
  have hrest : (streamInitRo data data.length).rest = data.drop 0 := by
    rw [streamInitRo_rest, hsize, List.take_length, List.drop_zero]
  obtain ⟨n, w', s', hrun, hn, hle, hfed⟩ :=
    parseWebsocket_mail hcb h (streamInitRo_ok data) rfl hsize hrest
  refine ⟨n, w', ?_, hle, hfed⟩
  have hhand : parseHandshake cb data (streamInitRo data data.length) w =
      (streamInitRo data data.length, w) := by simp [parseHandshake, h.state]
  rw [wicParse, hhand]
  dsimp only
  rw [hrun, Option.map_some, ← hn]

end Call

end Wic
