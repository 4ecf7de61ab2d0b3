import Wic.Runs.Pongs
import Wic.Sender.Legal

/-!
# From one end to the other

The bytes that a client hands over, fed to another instance, make known there what the calls were
about: the data of every call that succeeded, in one piece, and a pong for every ping. It does not
matter how the bytes are cut, nor how often the receiving application holds them up.

## Main definitions

* `Send.part`: what a call makes known at the other end
* `succeeded`: the calls that succeeded
* `InStep`: the receiver is where the sender is

## Main results

* `sent_arrives`: the frames of a sequence of calls, one after the other
* `Reachable.sends_arrive`: the calls on one instance against what another makes known
-/

namespace Wic

open Websocket (Frame Kind encodeAll)

variable {σ τ : Type}

/-- What a call makes known at the other end. -/
def Send.part : Send → Part
  | .text fin data => .message .utf8 fin data.bytes
  | .binary fin data => .message .binary fin data.bytes
  | .ping data => .frame .pong (0x8a, data.bytes)

/-- The calls of a sequence that succeeded. -/
def succeeded (cb : Callbacks σ) (sends : List Send) (w : World σ) : List Send :=
  (sends.zip (observeAll cb sends w).1).filterMap fun x =>
    if x.2.status = .success then some x.1 else none

/-- The receiver is in the middle of the message that the sender is in the middle of. -/
structure InStep (p : Progress) (w : World σ) : Prop where
  boundary : Boundary w
  progress : ∃ pending, p.At w.inst.rx.inside pending
  text : w.inst.rx.inside = some .text → w.inst.utf8Rx = p.utf8Tx ∧ p.utf8Tx ≠ 1

/-! ## One frame -/

section Frame

variable {cb : Callbacks σ} {w w' : World σ} {f : Frame} {kind : Kind} {keep : Part → Bool}

/-- A data frame that fits the buffer is made known in one piece. -/
theorem Delivers.shows (h : Delivers f kind f.payload w w') (hm : w.inst.onMessage = true)
    (hroom : f.payload.length ≤ w.inst.rx.s.size) (hlen : f.payload.length < 65536) :
    Shows keep [.message (encodingOf kind) f.fin f.payload] w w' := by
  have hfits : ([] : List UInt8).length + f.payload.length ≤ w.inst.rx.s.size := by
    rw [List.length_nil, Nat.zero_add]
    exact hroom
  obtain ⟨hflushed, hheld⟩ := flushed_of_fits hfits
  have hlog : passed w.inst.onMessage (encodingOf kind) f.fin w.inst.rx.s.size f.payload =
      [.message (encodingOf kind) f.fin f.payload, .answer true] := by
    rw [passed, hflushed, hheld, hm, offered, if_pos rfl, List.nil_append,
      Nat.mod_eq_of_lt hlen, List.take_length]
    rfl
  refine ⟨_, h.log.trans (congrArg _ hlog), fun fs => ?_⟩
  rw [← List.filter_append]
  rfl

/-- A ping makes known its pong. -/
theorem Answers.shows (h : Answers f w w') (h₉ : f.opcode.val = 9) (hdeaf : w.inst.onPing = false)
    (hlen : f.payload.length ≤ 125) : Shows keep [.frame .pong (0x8a, f.payload)] w w' := by
  obtain ⟨es, hes, hreply⟩ := h.log
  rw [Replies, if_pos h₉, hdeaf] at hreply
  obtain ⟨data, m, buf, max, hdata, rfl⟩ := hreply
  have hopen : openFrame ((pongFrame data).withMask m).wire = (0x8a, f.payload) := by
    rw [openFrame_pong _ _ (by rw [hdata]; exact hlen), hdata]
  refine ⟨_, hes, fun fs => ?_⟩
  rw [← List.filter_append, ← hopen]
  rfl

/-- A data frame that fits the message in progress and the buffer is delivered. -/
theorem Send.Fits.delivered {send : Send} {pending : List UInt8}
    (h : send.Fits w.inst.rx.inside pending f) (hcb : cb.Obliging) (hb : Boundary w)
    (hk : send.kind = some kind) (hroom : f.payload.length ≤ w.inst.rx.s.size)
    (ht : kind = .text → ¬BadText f (utf8ParseString (textStart f w.inst.utf8Rx) f.payload)) :
    ∃ w', Delivers f kind f.payload w w' ∧
      ∀ cs, received cb (f.encode ++ cs) w = received cb cs w' := by
  have hkind : f.kind w.inst.rx.inside = some kind := h.kind.trans hk
  have hcontrol := Websocket.Frame.isControl_of_kind hkind
  have hv : headerVerdict w.inst.rx.inside w.inst.rx.s.size f = none := by
    have hsmall : f.opcode.val < 8 := by simpa [Frame.isControl] using hcontrol
    exact headerVerdict_of_legal (h.legal hcontrol) (by omega) (by omega)
  have hdecode := decode_body f hroom
  rcases received_data hcb hb hv hkind with ⟨w', hd, hrun⟩ | ⟨htext, hbad, -⟩
  · rw [hdecode] at hd
    exact ⟨w', hd, hrun⟩
  · rw [hdecode] at hbad
    exact absurd hbad (ht htext)

end Frame

/-! ## One call -/

section Call

variable {cb : Callbacks σ} {w : World σ} {p : Progress} {f : TxFrame}
  {done : Progress → Progress}

/-- The text that a call goes on with is not in error, and is whole at its end. -/
theorem Send.frame_text_valid {fin : Bool} {data : Payload}
    (h : (Send.text fin data).frame p = .ok (f, done)) :
    utf8ParseString p.text data.bytes ≠ 1 ∧
      (fin = true → utf8ParseString p.text data.bytes = 0) ∧
      (done p).utf8Tx = utf8ParseString p.text data.bytes := by
  obtain ⟨-, hcomplete, heq⟩ := Send.frame_text h
  obtain ⟨-, rfl⟩ := Prod.mk.inj heq
  refine ⟨fun hbad => ?_, fun hfin => ?_, rfl⟩
  · have hinvalid : (utf8IsInvalid (utf8ParseString p.text data.bytes) ||
        fin && !utf8IsComplete (utf8ParseString p.text data.bytes)) = true := by
      rw [hbad]
      rfl
    unfold frame at h
    dsimp only at h
    rw [if_pos hinvalid] at h
    split_ifs at h
  · simpa [utf8IsComplete] using hcomplete hfin

/-- The receiver goes on with the same text. -/
theorem InStep.textStart_eq (h : InStep p w) {fin : Bool} {data : Payload}
    (hf : (Send.text fin data).frame p = .ok (f, done)) (m : UInt32) :
    textStart (f.withMask m).frame w.inst.utf8Rx = p.text := by
  obtain ⟨hfrag, -, heq⟩ := Send.frame_text hf
  obtain ⟨rfl, -⟩ := Prod.mk.inj heq
  have hop : ((dataFrame p .text fin data).withMask m).frame.opcode =
      TxFrame.nibble (if p.frag = .text then .continue else .text) := rfl
  obtain ⟨pending, hat⟩ := h.progress
  rw [textStart, hop]
  cases hin : w.inst.rx.inside with
  | none =>
    rw [hin] at hat
    rw [Progress.text, hat.1]
    rfl
  | some kind =>
    rw [hin] at hat
    cases kind with
    | text =>
      rw [Progress.text, hat.1, (h.text hin).1]
      rfl
    | binary =>
      rw [show p.frag = .binary from hat] at hfrag
      simp at hfrag

/-- The frame of a call of `wic_send_text` or `wic_send_binary`. -/
theorem InStep.dataFrame (h : InStep p w) (hcb : cb.Obliging) {send : Send} {kind : Kind}
    (hf : send.frame p = .ok (f, done)) (m : UInt32) (hk : send.kind = some kind)
    (hm : w.inst.onMessage = true) (hroom : send.data.bytes.length ≤ w.inst.rx.s.size)
    (ht : kind = .text → ∀ u, u = utf8ParseString (textStart (f.withMask m).frame w.inst.utf8Rx)
      send.data.bytes → u ≠ 1 ∧ (send.fin = true → u = 0) ∧ (done p).utf8Tx = u) :
    ∃ w', (∀ cs, received cb ((f.withMask m).frame.encode ++ cs) w = received cb cs w') ∧
      Shows (fun _ => true) [.message (encodingOf kind) send.fin send.data.bytes] w w' ∧
      InStep (done p) w' ∧ w'.inst.handlers = w.inst.handlers ∧
      w'.inst.rx.s.size = w.inst.rx.s.size := by
  obtain ⟨pending, hat⟩ := h.progress
  obtain ⟨hfits, hat'⟩ := Send.frame_fits hat hf m
  generalize (f.withMask m).frame = g at hfits hat' ht ⊢
  rw [← hfits.payload] at hroom ht
  rw [← hfits.fin] at ht
  -- a text that could be sent is valid, so that it is delivered
  obtain ⟨w', hd, hrun⟩ := hfits.delivered hcb h.boundary hk hroom fun htext hbad => by
    obtain ⟨hvalid, hend, -⟩ := ht htext _ rfl
    unfold BadText at hbad
    split_ifs at hbad with hfin
    · exact hbad (hend hfin)
    · exact hvalid hbad
  have hlen : g.payload.length < 65536 := by
    rw [hfits.payload]
    exact send.data.length_lt
  have hshows : Shows (fun _ => true) _ w w' := hd.shows hm hroom hlen
  rw [hfits.payload, hfits.fin] at hshows
  refine ⟨w', hrun, hshows, ⟨hd.boundary, ⟨_, hd.inside ▸ hat'⟩, fun hin => ?_⟩, ?_, hd.size⟩
  · -- a text goes on only behind a part of it that does not end it
    rw [hd.inside, Frame.progress] at hin
    split_ifs at hin with hc hfin
    · rw [hfits.control, hk] at hc
      cases hc
    · rw [hfits.kind, hk] at hin
      obtain rfl := Option.some.inj hin
      obtain ⟨hvalid, -, hdone⟩ := ht rfl _ rfl
      rw [hd.utf8 rfl (by simpa using hfin), hdone]
      exact ⟨rfl, hvalid⟩
  · rw [hd.inst]
    rfl

/-- **The frame of a call is made known at an instance that is in step, and leaves it in step.** -/
theorem InStep.frame (h : InStep p w) (hcb : cb.Obliging) {send : Send}
    (hf : send.frame p = .ok (f, done)) (m : UInt32) (hm : w.inst.onMessage = true)
    (hdeaf : w.inst.onPing = false) (hroom : send.data.bytes.length ≤ w.inst.rx.s.size)
    (hping : send.kind = none → send.data.bytes.length ≤ 125) :
    ∃ w', (∀ cs, received cb ((f.withMask m).frame.encode ++ cs) w = received cb cs w') ∧
      Shows (fun _ => true) [send.part] w w' ∧ InStep (done p) w' ∧
      w'.inst.handlers = w.inst.handlers ∧ w'.inst.rx.s.size = w.inst.rx.s.size := by
  cases send with
  | text fin data =>
    refine h.dataFrame hcb hf m rfl hm hroom fun _ u hu => ?_
    rw [h.textStart_eq hf m] at hu
    rw [hu]
    exact Send.frame_text_valid hf
  | binary fin data => exact h.dataFrame hcb hf m rfl hm hroom nofun
  | ping data =>
    obtain ⟨pending, hat⟩ := h.progress
    obtain ⟨hfits, -⟩ := Send.frame_fits hat hf m
    have hlen : data.bytes.length ≤ 125 := hping rfl
    cases hf
    have hpayload := hfits.payload
    set g := (TxFrame.withMask
      { fin := true, opcode := .ping, type := .ping, payload := data } m).frame with hg
    have h₉ : g.opcode.val = 9 := rfl
    -- a ping of at most 125 bytes is a legal frame
    have hlegal : g.Legal w.inst.rx.inside := by
      refine ⟨rfl, ?_⟩
      rw [h₉]
      exact ⟨rfl, by rw [hpayload]; exact hlen⟩
    have hv : headerVerdict w.inst.rx.inside w.inst.rx.s.size g = none :=
      headerVerdict_of_legal hlegal (by omega) fun _ => by
        rw [hpayload]
        exact hroom
    -- it is answered, and leaves the text that is under way alone
    obtain ⟨w', ha, hrun⟩ := received_ping_pong hcb h.boundary hv (.inl h₉)
    have hshows : Shows (fun _ => true) _ w w' :=
      ha.shows h₉ hdeaf (by rw [hpayload]; exact hlen)
    rw [hpayload] at hshows
    have hutf8 : w'.inst.utf8Rx = w.inst.utf8Rx := by rw [ha.inst]
    refine ⟨w', hrun, hshows, ⟨ha.boundary, ⟨pending, ha.inside ▸ hat⟩, fun hin => ?_⟩, ?_, ha.size⟩
    · rw [hutf8]
      exact h.text (ha.inside ▸ hin)
    · rw [ha.inst]
      rfl

end Call

/-! ## Sequences of calls -/

/-- The calls behind the frames handed over are those that succeeded. -/
theorem sent_succeeded (p : Progress) (script : List (Send × Answer)) :
    (((script.map Prod.fst).zip ((outcomes p script).map Outcome.report)).filterMap fun x =>
      if x.2.status = .success then some x.1 else none) = (sent p script).map Prod.fst := by
  induction script generalizing p with
  | nil => rfl
  | cons x script ih =>
    obtain ⟨send, a⟩ := x
    rw [outcomes_cons, List.map_cons, List.map_cons, List.zip_cons_cons]
    rcases send.outcome_cases p a with ⟨hs, f, done, -, hframe, -⟩ | ⟨hs, hframe, hp⟩
    · have hs' : (send.outcome p a).report.status = .success := hs
      rw [sent_success hframe, List.map_cons, ← ih]
      simp only [List.filterMap_cons, if_pos hs']
    · have hs' : (send.outcome p a).report.status ≠ .success := hs
      rw [sent_failure hframe hp, ← ih, ← hp]
      simp only [List.filterMap_cons, if_neg hs', hp]

section Sequence

variable {cb : Callbacks σ}

/-- **The frames of a sequence of calls make known what the calls are about**, one after the other. -/
theorem sent_arrives (hcb : cb.Obliging) (script : List (Send × Answer)) {p : Progress}
    {w : World σ} (h : InStep p w) (hm : w.inst.onMessage = true) (hdeaf : w.inst.onPing = false)
    (hfits : ∀ send ∈ (sent p script).map Prod.fst, send.data.bytes.length ≤ w.inst.rx.s.size ∧
      (send.kind = none → send.data.bytes.length ≤ 125)) :
    ∃ w', (∀ cs, received cb (encodeAll ((sent p script).map Prod.snd) ++ cs) w =
        received cb cs w') ∧
      Shows (fun _ => true) (((sent p script).map Prod.fst).map Send.part) w w' ∧
      Boundary w' ∧ w'.inst.onPing = false := by
  induction script generalizing p w with
  | nil => exact ⟨w, fun _ => rfl, .refl w, h.boundary, hdeaf⟩
  | cons x script ih =>
    obtain ⟨send, a⟩ := x
    rcases send.outcome_cases p a with ⟨-, f, done, hf, hframe, hprogress⟩ | ⟨-, hframe, hprogress⟩
    · rw [sent_success hframe, hprogress] at hfits ⊢
      obtain ⟨hroom, hping⟩ := hfits send List.mem_cons_self
      obtain ⟨w₁, hrun, hshows, hstep, hhandlers, hsize⟩ :=
        h.frame hcb hf a.mask hm hdeaf hroom hping
      obtain ⟨w', hrun', hshows', hend⟩ := ih hstep
        ((congrArg Handlers.onMessage hhandlers).trans hm)
        ((congrArg Handlers.onPing hhandlers).trans hdeaf)
        fun send hmem => by
          rw [hsize]
          exact hfits send (List.mem_cons_of_mem _ hmem)
      refine ⟨w', fun cs => ?_, hshows.trans hshows', hend⟩
      rw [List.map_cons, Websocket.encodeAll_cons, List.append_assoc, hrun, hrun']
    · rw [sent_failure hframe hprogress] at hfits ⊢
      exact ih h hm hdeaf hfits

end Sequence

/-- **What the bytes of a sequence of calls make known, and that they leave the receiver open**: a
ping behind them would still be answered. -/
theorem sent_output (script : List (Send × Answer)) {p : Progress} {w : World σ} (h : InStep p w)
    (hm : w.inst.onMessage = true) (hdeaf : w.inst.onPing = false)
    (hfits : ∀ send ∈ (sent p script).map Prod.fst, send.data.bytes.length ≤ w.inst.rx.s.size ∧
      (send.kind = none → send.data.bytes.length ≤ 125)) :
    w.output (encodeAll ((sent p script).map Prod.snd)) =
        ((sent p script).map Prod.fst).map Send.part ∧
      w.output (encodeAll ((sent p script).map Prod.snd) ++ emptyPing.encode) =
        ((sent p script).map Prod.fst).map Send.part ++ [.frame .pong (0x8a, [])] := by
  have hcb : (Callbacks.granting : Callbacks σ).Obliging := Callbacks.granting_obliging
  have hsince {w w' : World σ} {ps : List Part} (hs : Shows (fun _ => true) ps w w') :
      w.since w' = ps := by
    have hshown := hs.eq_shown
    rwa [List.filter_true, List.filter_true] at hshown
  obtain ⟨w', hrun, hshows, hbound, hdeaf'⟩ := sent_arrives hcb script h hm hdeaf hfits
  obtain ⟨w'', ha, hrun'⟩ := received_ping_pong (f := emptyPing) hcb hbound rfl (.inl rfl)
  refine ⟨?_, ?_⟩
  · have hall := hrun []
    rw [List.append_nil, received_boundary hbound] at hall
    rw [← received_output hcb h.boundary.toLive, hall]
    exact hsince hshows
  · have hall := hrun' []
    rw [List.append_nil, received_boundary ha.boundary] at hall
    rw [← received_output hcb h.boundary.toLive, hrun, hall]
    exact hsince (hshows.trans (ha.shows rfl hdeaf' (Nat.zero_le _)))

/-! ## Runs -/

section Runs

variable {allowed allowed' : Caller → Call → Prop} {cb : Callbacks σ} {w : World σ}
  {cb' : Callbacks τ} {v : World τ}

/-- What the calls make known is handed on. -/
theorem Send.part_handed (sends : List Send) :
    (sends.map Send.part).filter Part.handed = sends.map Send.part := by
  refine List.filter_eq_self.mpr fun p hp => ?_
  obtain ⟨send, -, rfl⟩ := List.mem_map.mp hp
  cases send <;> rfl

/-- The bytes that a sequence of calls hands over, and the calls that succeed. -/
theorem Reachable.handed_over (hw : Reachable allowed w) (ho : w.inst.state = .open)
    (hcb : cb.Passive) (sends : List Send) : ∃ script,
    ((observeAll cb sends w).1.flatMap Report.blocks).flatten =
        encodeAll ((sent w.inst.progress script).map Prod.snd) ∧
      succeeded cb sends w = (sent w.inst.progress script).map Prod.fst := by
  obtain ⟨script, hscript, hreports, -⟩ := observeAll_outcomes hcb hw.invariant.role ho sends
  refine ⟨script, ?_, ?_⟩
  · rw [hreports, blocks_outcomes, encodeAll, List.flatMap_def, List.map_map]
    rfl
  · rw [succeeded, hreports, ← hscript]
    exact sent_succeeded _ script

/-- **What one end sends arrives at the other.** The calls `sends` are made on an open client `w` that
is in the middle of no message, and the bytes they hand over are fed to an open instance `v` between
two messages; `ks` are the sizes of calls of `wic_parse` some of which are refused, `more` those of
calls of which none is. Nothing but what the successful calls are about is handed on, in their
order; when there have been enough calls to read all, all of it is, and the instance is open. -/
theorem Reachable.sends_arrive (hw : Reachable allowed w) (ho : w.inst.state = .open)
    (hfrag : w.inst.frag = .continue) (hcb : cb.Passive) (hv : Reachable allowed' v)
    (ho' : v.inst.state = .open) (hb : v.inst.rx.state = .opcode) (hin : v.inst.rx.inside = none)
    (hm : v.inst.onMessage = true) (hcb' : Reentrant allowed' cb') (hroom : cb'.Roomy)
    (sends : List Send)
    (hfits : ∀ send ∈ succeeded cb sends w, send.data.bytes.length ≤ v.inst.rx.s.size ∧
      (send.kind = none → send.data.bytes.length ≤ 125))
    (ks more : List Nat) (hsizes : ∀ k ∈ more, k < 2 ^ 32) :
    ∃ rest u rest' u',
      feed cb' ks ((observeAll cb sends w).1.flatMap Report.blocks).flatten v = some (rest, u) ∧
      feed cb' more rest u = some (rest', u') ∧
      (v.since u').filter Part.handed <+: (succeeded cb sends w).map Send.part ∧
      (u.unblockedSince u' → Enough u more rest →
        rest' = [] ∧ (cb'.Steady → u'.inst.state = .open) ∧ (u'.inst.state = .open →
          (v.since u').filter Part.handed = (succeeded cb sends w).map Send.part)) := by
  obtain ⟨script, hbytes, hsucceeded⟩ := hw.handed_over ho hcb sends
  have hbound := hv.boundary ho' hb
  have hstep : InStep w.inst.progress v :=
    ⟨hbound, ⟨[], by rw [hin]; exact ⟨hfrag, rfl⟩⟩, fun h => by rw [hin] at h; cases h⟩
  rw [hsucceeded] at hfits
  obtain ⟨hout, hping⟩ := sent_output script hstep hm hv.deaf.1 hfits
  rw [← hbytes, ← hsucceeded] at hout hping
  generalize ((observeAll cb sends w).1.flatMap Report.blocks).flatten = bs at hout hping ⊢
  generalize succeeded cb sends w = done at hout hping ⊢
  have hheard : cb'.Heard Part.handed := hcb'.quiet.heard hroom
  obtain ⟨rest, u, hfeed, hfed, -⟩ := feed_fed hheard ks bs hbound.toLive
  obtain ⟨rest', u', hfeed', ⟨⟨ps, hout'⟩, -, -⟩, hread⟩ := hfed.feed hheard more
  obtain ⟨hpre, hall⟩ := hout'.handed
  rw [hout, Send.part_handed] at hpre hall
  refine ⟨rest, u, rest', u', hfeed, hfeed', hpre, fun hfree hmore => ?_⟩
  have hreads := hread hsizes fun hr => hr.unblocked hfree
  obtain rfl := hreads.enough hcb'.quiet hfed.live hmore
  refine ⟨rfl, fun hsteady => ?_, fun hopen => hall rfl (.inr hopen) (hreads.rests hmore.1)⟩
  -- a closed instance would not answer the ping
  by_contra hno
  have hend := hout'.ends hsteady hno
  have hlong := (hend []).trans (hend emptyPing.encode).symm
  rw [List.append_nil, hout, hping] at hlong
  have hlen := congrArg List.length hlong
  rw [List.length_append, List.length_singleton] at hlen
  omega

end Runs

namespace Sample

/-- A text that is cut inside a character, with a ping between its parts. -/
def cutSends : List Send :=
  [.text false ⟨[0xc3], by decide⟩, .ping ⟨[1, 2], by decide⟩, .text true ⟨[0xa9], by decide⟩]

/-- It arrives when its bytes are read in three calls. -/
theorem cutSends_arrive : ∃ (w : World Unit) (rest : List UInt8) (u : World Unit)
    (rest' : List UInt8) (u' : World Unit),
    feed giving [5] ((observeAll (host id) cutSends w).1.flatMap Report.blocks).flatten w =
      some (rest, u) ∧
    feed giving [2, 100] rest u = some (rest', u') ∧
    (w.since u').filter Part.handed <+: (succeeded (host id) cutSends w).map Send.part := by
  obtain ⟨w, hw, ho, hb, hf, hs, hm, hp⟩ := opens
  have hin : w.inst.rx.inside = none := by simp [RxFrame.inside, hf]
  have hfrag : w.inst.frag = .continue := congrArg Progress.frag hp
  have hsmall : ∀ send ∈ cutSends, send.data.bytes.length ≤ 300 ∧
      (send.kind = none → send.data.bytes.length ≤ 125) := by decide
  have hfits : ∀ send ∈ succeeded (host id) cutSends w,
      send.data.bytes.length ≤ w.inst.rx.s.size ∧
        (send.kind = none → send.data.bytes.length ≤ 125) := by
    intro send hmem
    obtain ⟨⟨send', report⟩, hzip, hsome⟩ := List.mem_filterMap.mp hmem
    obtain ⟨hsend, -⟩ := List.of_mem_zip hzip
    split_ifs at hsome
    obtain rfl := Option.some.inj hsome
    rw [hs]
    exact hsmall _ hsend
  obtain ⟨rest, u, rest', u', hfeed, hfeed', hpre, -⟩ :=
    (hw fun _ _ => True).sends_arrive ho hfrag host_passive (hw fun _ _ => True) ho hb hin hm
      (.passive giving_obliging.toPassive) (fun _ _ => Nat.le_refl _) cutSends hfits [5] [2, 100]
      (by decide)
  exact ⟨w, rest, u, rest', u', hfeed, hfeed', hpre⟩

end Sample

end Wic
