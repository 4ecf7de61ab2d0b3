import Wic.Runs.Responses

/-!
# What is stored

When the response is complete its headers are in the rx buffer and the instance judges them. The
block is there whole as long as it fits, and the lookups find in it what the server sent as long as
no value has a zero inside and an offset of 16 bits reaches to its end. An instance that accepts the
response looks at none of this.

## Main definitions

* `Requested`: a request has been sent
* `Answered`: a run from `wic_start` to the last block of a response
* `StoredWhole`: the header block is stored, and the lookups stay inside it

## Main results

* `Answered.completes`: the instance when the response is complete
* `Answered.storedWhole_iff`: when the block is stored whole
* `Answered.lookups_agree_iff`: when the lookups agree with the response
-/

namespace Wic

open Http (ascii Errno Callback HttpParser)

variable {σ : Type}

/-! ## The request -/

/-- `wic_start` has sent a request with `key`, and keeps the hash that answers it. -/
structure Requested (w₀ w : World σ) (key : List UInt8) : Prop where
  init : w₀.inst.state = .init
  inst : w.inst = { w₀.inst with state := .parseHandshake, hash := serverHash key }
  length : key.length = 24
  sent : ∃ buf max url u headers, w.log = w₀.log ++ [.buffer 0 .http (some buf) max,
    .state .parseHandshake, .send buf ((requestParts url u).flatten ++
      ascii "Sec-WebSocket-Key: " ++ key ++ ascii "\r\n" ++ headers ++ ascii "\r\n") .http]

theorem wicStart_requested {P : Caller → World σ → World σ → Prop} {cb : Callbacks σ}
    (hcb : cb.Respect P) {fuel : Nat} {w₀ w : World σ}
    (h : wicStart cb fuel w₀ = some (.success, w)) : ∃ key, Requested w₀ w key := by
  have hstarted := startClient_started h
  generalize hr : (Status.success, w) = r at hstarted
  cases hstarted with
  -- only a request that was written and fitted is a success
  | refused status hs => rcases hs with rfl | rfl <;> cases hr
  | blocked => cases hr
  | @ended hs buf max w₁ nonce w₂ key u tx hb hk hn ht =>
    have hlend := hcb.onBuffer 0 .http w₀
    have hlease := lease_log cb 0 .http w₀
    have hinst := lease_inst cb 0 .http w₀
    rw [hb, hlend.log] at hlease
    rw [hb, hlend.inst] at hinst
    have hdraw : Edits w₁ w₂ := by
      have hkey := drawKey_edits hcb w₁
      rwa [hk] at hkey
    split_ifs at hr with herror
    · cases hr
    · obtain ⟨-, rfl⟩ := Prod.mk.inj hr
      -- what is written is the text of the request, from the start of the buffer
      have hempty : (streamInit buf (List.replicate (max % 2 ^ 32) 0) max).Keeps [] :=
        .nil ⟨Nat.zero_le _, by rw [streamInit, List.length_replicate]⟩ rfl rfl rfl
      obtain ⟨headers, htext⟩ := putHandshake_text ht hempty (by simpa using herror)
      have hsend := hcb.onSend tx.base (tx.mem.take tx.pos) .http
        (((w₂.update fun i => { i with hash := serverHash key }).setState .parseHandshake).emit
          (.send tx.base (tx.mem.take tx.pos) .http))
      refine ⟨key, hs, ?_, ?_, buf, max, w₀.inst.url.getD [], u, headers, ?_⟩
      · rw [handOver, hsend.inst]
        show { w₂.inst with state := State.parseHandshake, hash := serverHash key } = _
        rw [hdraw.inst, hinst]
      · rw [hn]
        have hlen : (drawKey cb w₁).1.length = 16 := drawKey_length w₁
        rw [hk] at hlen
        exact b64Encode_length hlen
      · have hbase : tx.base = buf := putHandshake_base ht
        rw [handOver, hsend.log]
        rw [← htext, Stream.text, hbase]
        show ((w₂.log ++ _) ++ _) = _
        rw [hdraw.log, hlease]
        simp

namespace Requested

variable {w₀ w : World σ} {key : List UInt8}

theorem state (h : Requested w₀ w key) : w.inst.state = .parseHandshake := by rw [h.inst]

/-- A request leaves the instance untouched. -/
theorem untouched {allowed : Caller → Call → Prop} (h : Requested w₀ w key)
    (hreach : Reachable allowed w₀) : w.inst.Untouched := by
  have hu := hreach.untouched h.init
  refine hu.of_eq ?_ ?_ ?_ ?_ ?_ ?_ <;> rw [h.inst]

end Requested

/-! ## A response to it -/

/-- A run from `wic_start` to the last block of the response. -/
structure Answered (allowed : Caller → Call → Prop) (r : Response) (w₀ w w₁ : World σ) : Prop where
  reachable : Reachable allowed w₀
  started : ∃ cb fuel, Reentrant allowed cb ∧ wicStart cb fuel w₀ = some (.success, w)
  parsed : ∃ cb, Reentrant allowed cb ∧ wicParseAll cb r.blocks w = some w₁

namespace Answered

variable {allowed : Caller → Call → Prop} {r : Response} {w₀ w w₁ : World σ}

theorem invariant (h : Answered allowed r w₀ w w₁) : Invariant w₁ := by
  obtain ⟨cb, fuel, hcb, hstart⟩ := h.started
  obtain ⟨cb', hcb', hparse⟩ := h.parsed
  exact (wicParseAll_reachable hcb' (.start h.reachable hcb hstart) hparse).invariant

/-- The instance in front of the last block. -/
theorem awaits (h : Answered allowed r w₀ w w₁) : ∃ key, Requested w₀ w key ∧
    w.inst.Untouched ∧ Awaits w (reportAll r.blocks {}).1 (reportAll r.blocks {}).2 w₁ := by
  obtain ⟨cb, fuel, hcb, hstart⟩ := h.started
  obtain ⟨cb', -, hparse⟩ := h.parsed
  obtain ⟨key, hreq⟩ := wicStart_requested hcb.quiet hstart
  have hu := hreq.untouched h.reachable
  obtain ⟨w', hrun, hwaits⟩ := (Awaits.start hreq.state hu).parseAll cb' r.goesOn r.errno
  obtain rfl : w' = w₁ := Option.some.inj (hrun.symm.trans hparse)
  exact ⟨key, hreq, hu, hwaits⟩

/-- The instance behind it. -/
theorem completes (h : Answered allowed r w₀ w w₁) :
    ∃ key w', Requested w₀ w key ∧ w.inst.Untouched ∧ w₁.inst.state = .parseHandshake ∧
      w₁.log = w.log ∧ (httpParserExecute r.last w₁).2 = judged w' ∧ Completes r w w' := by
  obtain ⟨key, hreq, hu, hwaits⟩ := h.awaits
  obtain ⟨w', hw, hc⟩ := hwaits.complete hu
  obtain ⟨s, state, hframe⟩ := (hwaits.part (reportAll r.blocks {}).2).frame
  refine ⟨key, w', hreq, hu, ?_, ?_, hw, hc⟩
  · rw [hwaits.answered, hframe]
    exact hwaits.state
  · rw [hwaits.answered, hframe]
    rfl

end Answered

/-- A response that comes in one block. -/
def Response.single (data : List UInt8) (h : .messageComplete ∈ (report data {}).1) : Response where
  blocks := []
  last := data
  goesOn := nofun
  errno := rfl
  complete := h

/-- Every response may come to a request. -/
theorem exists_answered {allowed : Caller → Call → Prop} {cb : Callbacks σ} {fuel : Nat}
    {w₀ w : World σ} (h : Reachable allowed w₀) (hcb : Reentrant allowed cb)
    (hstart : wicStart cb fuel w₀ = some (.success, w)) (r : Response) :
    ∃ w₁, Answered allowed r w₀ w w₁ := by
  obtain ⟨key, hreq⟩ := wicStart_requested hcb.quiet hstart
  obtain ⟨w₁, hrun, -⟩ := (Awaits.start hreq.state (hreq.untouched h)).parseAll cb r.goesOn
    r.errno
  exact ⟨w₁, h, ⟨_, _, hcb, hstart⟩, _, hcb, hrun⟩

theorem Answered.single {allowed : Caller → Call → Prop} {data : List UInt8}
    {hc : .messageComplete ∈ (report data {}).1} {w₀ w w₁ : World σ}
    (h : Answered allowed (.single data hc) w₀ w w₁) : w₁ = w := by
  obtain ⟨cb, -, hparse⟩ := h.parsed
  exact (Option.some.inj hparse).symm

namespace Sample

/-- The world in front of `wic_start`, and what `wic_start` comes to. -/
def started (arg : InitArg) : Option (World Unit × Status × World Unit) := do
  let inst ← wicInit arg {}
  let w₀ : World Unit := { inst, heap := fun _ => {}, log := [], app := () }
  let (status, w) ← wicStart (host id) 0 w₀
  some (w₀, status, w)

/-- A response to what has been started. -/
theorem answered {arg : InitArg} {w₀ w : World Unit} (h : started arg = some (w₀, .success, w))
    (r : Response) (allowed : Caller → Call → Prop) : ∃ w₁, Answered allowed r w₀ w w₁ := by
  obtain ⟨inst, hinit, h⟩ := Option.bind_eq_some_iff.mp h
  obtain ⟨⟨status, w'⟩, hstart, h⟩ := Option.bind_eq_some_iff.mp h
  cases h
  exact exists_answered (.init hinit) (.passive host_passive) hstart r

/-- The response that accepts the upgrade is complete. -/
theorem response_complete : .messageComplete ∈ (report response {}).1 := by
  decide +kernel

/-- It is accepted. -/
theorem response_accepted : ∃ w₀ w : World Unit,
    (∀ allowed, Answered allowed (.single response response_complete) w₀ w w) ∧
      w₀.inst.rx.s.size = 300 ∧ (httpParserExecute response w).2.inst.http.httpErrno = .ok := by
  have hrun : (started arg).map (fun (w₀, status, w) => (status, w₀.inst.rx.s.size,
      (httpParserExecute response w).2.inst.http.httpErrno)) = some (.success, 300, .ok) := by
    decide +kernel
  obtain ⟨⟨w₀, status, w⟩, hw, heq⟩ := Option.map_eq_some_iff.mp hrun
  simp only [Prod.mk.injEq] at heq
  obtain ⟨rfl, hsize, herrno⟩ := heq
  refine ⟨w₀, w, fun allowed => ?_, hsize, herrno⟩
  obtain ⟨w₁, h⟩ := answered hw (.single response response_complete) allowed
  rwa [h.single] at h

/-- Its header block is short, and no value has a zero in it. -/
theorem response_fields :
    (Fields.layout 0 (Response.single response response_complete).fields).length ≤ 300 ∧
      ∀ f ∈ (Response.single response response_complete).fields, 0 ∉ f.2 := by
  have hfields : ((Fields.layout 0 (Response.single response response_complete).fields).length ≤
      300 ∧ (Response.single response response_complete).fields.all
        fun f => f.2.all (· ≠ 0)) := by
    decide +kernel
  refine ⟨hfields.1, fun f hf hzero => ?_⟩
  have hall := List.all_eq_true.mp (List.all_eq_true.mp hfields.2 f hf) 0 hzero
  simp at hall

end Sample

/-! ## The judgement -/

/-- The instance keeps the `Location` of a redirection. -/
def redirected (w : World σ) : World σ :=
  if w.inst.http.statusCode ∈ redirects then
    w.update fun i => { i with redirectUrl := wicGetHeader i (ascii "location") }
  else w

theorem redirected_inst (w : World σ) : (redirected w).inst =
    { w.inst with redirectUrl := (redirected w).inst.redirectUrl } := by
  unfold redirected
  split_ifs <;> rfl

theorem redirected_log (w : World σ) : (redirected w).log = w.log := by
  unfold redirected
  split_ifs <;> rfl

/-- The instance accepts the response. -/
def Upgrades (w : World σ) : Prop :=
  w.inst.http.statusCode = 101 ∧ acceptsUpgrade w.inst = true

theorem judged_of_upgrades {w : World σ} (h : Upgrades w) : judged w = w := by
  rw [judged, if_neg (not_not.mpr h.1), if_pos h.2]

theorem judged_of_not_upgrades {w : World σ} (h : ¬Upgrades w) :
    judged w = setErrno .cbMessageComplete (redirected w) := by
  unfold judged redirected
  by_cases hcode : w.inst.http.statusCode = 101
  · have hno : acceptsUpgrade w.inst ≠ true := fun ha => h ⟨hcode, ha⟩
    have hstays : 101 ∉ redirects := by decide
    rw [if_neg (not_not.mpr hcode), if_neg hno, hcode, if_neg hstays]
  · rw [if_pos hcode]

namespace Completes

variable {r : Response} {w w' : World σ}

/-- The fields of the instance that the response writes. -/
theorem inst (h : Completes r w w') : w'.inst = { w.inst with
    state := .ready, http := r.parser, headerState := w'.inst.headerState, rx := w'.inst.rx } := by
  obtain ⟨s, state, hw⟩ := h.frame
  rw [hw]
  rfl

theorem log (h : Completes r w w') : w'.log = w.log ++ [.state .ready] := by
  obtain ⟨s, state, hw⟩ := h.frame
  rw [hw]
  rfl

theorem http (h : Completes r w w') : w'.inst.http = r.parser := by rw [h.inst]

theorem state (h : Completes r w w') : w'.inst.state = .ready := by rw [h.inst]

/-- The parser goes on behind the response if and only if it is accepted. -/
theorem accepts_iff (h : Completes r w w') :
    Upgrades w' ↔ (judged w').inst.http.httpErrno = .ok := by
  constructor
  · intro ha
    rw [judged_of_upgrades ha, h.http]
    exact h.errno
  · intro he
    by_contra hno
    rw [judged_of_not_upgrades hno] at he
    cases he

/-- The fields are stored when they fit. -/
theorem header (h : Completes r w w') (hfit : (Fields.layout 0 r.fields).length ≤ w.inst.rx.s.size) :
    HeaderStore r.fields w'.inst.rx.s :=
  ⟨h.store.ok, (h.store.fits (h.size.symm ▸ hfit)).2⟩

theorem clean (h : Completes r w w') (hv : ∀ f ∈ r.fields, 0 ∉ f.2) : Fields.Clean 0 r.fields :=
  fun f hf => ⟨h.names f hf, hv f hf⟩

end Completes

/-- The case of a name does not matter. -/
theorem firstField_congr {fs : List (List UInt8 × List UInt8)} {name name' : List UInt8}
    (h : name.map tolower = name'.map tolower) : firstField fs name = firstField fs name' := by
  rw [firstField, firstField, h]

/-- What the checks of `on_response_complete` come to. -/
theorem acceptsUpgrade_iff {fs : List (List UInt8 × List UInt8)} {i : Inst}
    (h : HeaderStore fs i.rx.s) (hclean : Fields.Clean 0 fs) (hs : i.state = .ready) :
    acceptsUpgrade i = true ↔ i.http.upgrade = true ∧
      (firstField fs (ascii "Upgrade")).map (List.map tolower) = some (ascii "websocket") ∧
      firstField fs (ascii "Sec-WebSocket-Accept") = some (b64Encode 64 i.hash 29) := by
  have hname : firstField fs (ascii "Upgrade") = firstField fs (ascii "upgrade") :=
    firstField_congr (by decide)
  have hvalue : (ascii "websocket").map tolower = ascii "websocket" := by decide
  rw [hname, ← h.get hclean hs, ← h.get hclean hs, headerValue, headerValue]
  unfold acceptsUpgrade strEqual
  cases wicGetHeader i (ascii "upgrade") with
  | none => simp
  | some upgrade =>
    cases wicGetHeader i (ascii "Sec-WebSocket-Accept") with
    | none => simp
    | some accept => simp [hvalue]

/-! ## What is stored -/

/-- The header block is stored whole: the rx buffer holds the fields and nothing else, the lookups
read nothing behind them, and no string of a field is cut in two by a terminator inside it. -/
structure StoredWhole (fs : List (List UInt8 × List UInt8)) (w : World σ) : Prop where
  text : w.inst.rx.s.mem.take w.inst.rx.s.pos = Fields.layout 0 fs
  reads : NeverBeyond w
  clean : Fields.Clean 0 fs

namespace Answered

variable {allowed : Caller → Call → Prop} {r : Response} {w₀ w w₁ : World σ}

/-- **The header block of an accepted response is stored whole if and only if it fits the rx buffer
and no value has a zero in it.** -/
theorem storedWhole_iff (h : Answered allowed r w₀ w w₁)
    (hopen : (httpParserExecute r.last w₁).2.inst.http.httpErrno = .ok) :
    StoredWhole r.fields (httpParserExecute r.last w₁).2 ↔
      (Fields.layout 0 r.fields).length ≤ w₀.inst.rx.s.size ∧ ∀ f ∈ r.fields, 0 ∉ f.2 := by
  obtain ⟨key, w', hreq, hu, -, -, hw, hc⟩ := h.completes
  have hrx : w.inst.rx = w₀.inst.rx := by rw [hreq.inst]
  rw [hw] at hopen ⊢
  rw [judged_of_upgrades (hc.accepts_iff.mpr hopen)]
  constructor
  · intro hstored
    refine ⟨?_, fun f hf => (hstored.clean f hf).2⟩
    have hlen := hc.store.ok.length_text
    rw [Stream.text, hstored.text] at hlen
    rw [hlen, ← hrx, ← hc.size]
    exact hc.store.ok.pos_le
  · rintro ⟨hfit, hv⟩
    rw [← hrx] at hfit
    have hstore := hc.header hfit
    have hpos : w'.inst.pos = 0 := by
      rw [hc.inst]
      exact hu.pos
    exact ⟨hstore.text, hstore.neverBeyond (hc.clean hv) hpos, hc.clean hv⟩

end Answered

/-- The block of a response that fits is stored whole. -/
theorem Sample.response_storedWhole : ∃ w : World Unit,
    StoredWhole (Response.single response response_complete).fields
      (httpParserExecute response w).2 := by
  obtain ⟨w₀, w, hanswered, hsize, herrno⟩ := response_accepted
  obtain ⟨hlen, hzero⟩ := response_fields
  refine ⟨w, ((hanswered fun _ _ => True).storedWhole_iff herrno).mpr ⟨?_, hzero⟩⟩
  rw [hsize]
  exact hlen

/-- The response with a header behind the others whose value is a zero. -/
def Sample.nulled : List UInt8 :=
  ascii "HTTP/1.1 101 Switching Protocols\r\nUpgrade: websocket\r\nConnection: Upgrade\r\n" ++
  ascii "Sec-WebSocket-Accept: tuNFO/XNjXKBBczJqWfkXV1RTQA=\r\nX: " ++ [0] ++ ascii "\r\n\r\n"

theorem Sample.nulled_complete : .messageComplete ∈ (report nulled {}).1 := by
  decide +kernel

/-- **It is accepted all the same, and its block is not stored whole.** -/
theorem Sample.nulled_not_storedWhole : ∃ w₀ w : World Unit,
    Answered (fun _ _ => True) (.single nulled nulled_complete) w₀ w w ∧
      (httpParserExecute nulled w).2.inst.state = .ready ∧
      (httpParserExecute nulled w).2.inst.http.httpErrno = .ok ∧
      ¬StoredWhole (Response.single nulled nulled_complete).fields
        (httpParserExecute nulled w).2 := by
  have hrun : (started arg).map (fun (_, status, w) => (status,
      (httpParserExecute nulled w).2.inst.state,
      (httpParserExecute nulled w).2.inst.http.httpErrno)) = some (.success, .ready, .ok) := by
    decide +kernel
  have hzero : (Response.single nulled nulled_complete).fields.any fun f => f.2.any (· = 0) := by
    decide +kernel
  obtain ⟨⟨w₀, status, w⟩, hw, heq⟩ := Option.map_eq_some_iff.mp hrun
  simp only [Prod.mk.injEq] at heq
  obtain ⟨rfl, hstate, herrno⟩ := heq
  obtain ⟨w₁, h⟩ := answered hw (.single nulled nulled_complete) fun _ _ => True
  rw [h.single] at h
  refine ⟨w₀, w, h, hstate, herrno, fun hstored => ?_⟩
  obtain ⟨f, hf, hany⟩ := List.any_eq_true.mp hzero
  obtain ⟨b, hb, heq⟩ := List.any_eq_true.mp hany
  rw [of_decide_eq_true heq] at hb
  exact (hstored.clean f hf).2 hb

namespace Answered

variable {allowed : Caller → Call → Prop} {r : Response} {w₀ w w₁ : World σ}

/-- **The lookups agree with an accepted response whose values have no zero in them, and whose header
block fits the rx buffer, if and only if that block has less than 65536 bytes.** -/
theorem lookups_agree_iff (h : Answered allowed r w₀ w w₁)
    (hopen : (httpParserExecute r.last w₁).2.inst.http.httpErrno = .ok)
    (hfit : (Fields.layout 0 r.fields).length ≤ w₀.inst.rx.s.size)
    (hv : ∀ f ∈ r.fields, 0 ∉ f.2) :
    Enumerates r.fields (httpParserExecute r.last w₁).2 ↔
      (Fields.layout 0 r.fields).length < 65536 := by
  obtain ⟨key, w', hreq, hu, -, -, hw, hc⟩ := h.completes
  have hrx : w.inst.rx = w₀.inst.rx := by rw [hreq.inst]
  rw [hw] at hopen ⊢
  rw [judged_of_upgrades (hc.accepts_iff.mpr hopen)]
  rw [← hrx] at hfit
  exact (hc.header hfit).enumerates_iff (hc.clean hv) hc.state

end Answered

/-- The headers of a short response are found. -/
theorem Sample.response_lookups_agree : ∃ w : World Unit,
    Enumerates (Response.single response response_complete).fields
      (httpParserExecute response w).2 := by
  obtain ⟨w₀, w, hanswered, hsize, herrno⟩ := response_accepted
  obtain ⟨hlen, hzero⟩ := response_fields
  have hfit : (Fields.layout 0 (Response.single response response_complete).fields).length ≤
      w₀.inst.rx.s.size := by
    rw [hsize]
    exact hlen
  refine ⟨w, ((hanswered fun _ _ => True).lookups_agree_iff herrno hfit hzero).mpr ?_⟩
  exact Nat.lt_of_le_of_lt hlen (by decide)

/-! ## A long value

The parser takes a value of any length, up to the limit for the whole block, however it is cut. -/

/-- A letter of a value is passed over. -/
theorem reportByte_letter {p : HttpParser} (hs : p.state = .headerValue)
    (hh : p.headerState = .general) (he : p.httpErrno = .ok) :
    reportByte [97] 0 97 4 { valueMark := some 0 } p =
      ([], .next { valueMark := some 0, run := some 1 } p) := by
  obtain ⟨flags, state, headerState, index, nread, contentLength, major, minor, code, errno, up⟩ := p
  subst hs hh he
  rfl

/-- One more letter of a value. -/
theorem report_letter {p : HttpParser} (hs : p.state = .headerValue)
    (hh : p.headerState = .general) (he : p.httpErrno = .ok)
    (hn : p.nread + 1 ≤ Http.maxHeaderSize) :
    report [97] p = ([.headerValue [97]], { p with nread := p.nread + 1 }) := by
  have hstart : startLocals p = { valueMark := some 0 } := by
    rw [startLocals, hs]
    rfl
  -- the letter is counted when it is read, and not again when it is reported
  have hfirst : (if p.state.parsingHeader && (startLocals p).run.isNone then counted 1 p else p) =
      { p with nread := p.nread + 1 } := by
    rw [if_pos (by rw [hs, hstart]; rfl)]
    exact counted_of_le hn
  have hlast : counted 0 { p with nread := p.nread + 1 } = { p with nread := p.nread + 1 } :=
    counted_of_le (v := 0) hn
  have hbyte : reportByte [97] 0 97 4 (startLocals p) { p with nread := p.nread + 1 } =
      ([], .next { valueMark := some 0, run := some 1 } { p with nread := p.nread + 1 }) := by
    rw [hstart]
    exact reportByte_letter hs hh he
  have hleft : reportLoop [97] [] 1 { valueMark := some 0, run := some 1 }
      { p with nread := p.nread + 1 } = ([.headerValue [97]], { p with nread := p.nread + 1 }) := by
    show reportLeft [97] _ _ = _
    unfold reportLeft countedRun
    dsimp only
    rw [hlast, if_neg (not_not.mpr he)]
    rfl
  rw [report, if_neg (not_not.mpr he), if_neg (by simp), reportLoop]
  dsimp only
  rw [hfirst, if_neg (not_not.mpr he), hbyte]
  dsimp only
  rw [hleft]
  rfl

/-- Letters of a value, one by one. -/
theorem reportAll_letters {p : HttpParser} (hs : p.state = .headerValue)
    (hh : p.headerState = .general) (he : p.httpErrno = .ok) {n : Nat}
    (hn : p.nread + n ≤ Http.maxHeaderSize) : reportAll (List.replicate n [97]) p =
      (List.replicate n (.headerValue [97]), { p with nread := p.nread + n }) := by
  induction n generalizing p with
  | zero => rfl
  | succ n ih =>
    have hletter := report_letter hs hh he (by omega)
    have hrest := ih (p := { p with nread := p.nread + 1 }) hs hh he (by dsimp only; omega)
    rw [List.replicate_succ, List.replicate_succ, reportAll, hletter]
    dsimp only at hrest ⊢
    rw [hrest, Nat.add_assoc, Nat.add_comm 1 n]
    rfl

/-- Pieces of a value are pieces of one value. -/
theorem hear_values (whole : List (List UInt8 × List UInt8)) (name value bytes : List UInt8)
    (n : Nat) : (List.replicate n (.headerValue bytes)).foldl Block.hear
      { whole, part := .value name value } =
        { whole, part := .value name (value ++ (List.replicate n bytes).flatten) } := by
  induction n generalizing value with
  | zero => simp
  | succ n ih =>
    rw [List.replicate_succ, List.foldl_cons, List.replicate_succ, List.flatten_cons,
      ← List.append_assoc]
    exact ih (value ++ bytes)

/-- The parser behind the front of a response and `n` more letters of the value it ends with. -/
def longParser (head : List UInt8) (n : Nat) : HttpParser :=
  { (report head {}).2 with nread := (report head {}).2.nread + n }

/-- The front of a response ends in a value to which `n` letters may be added. -/
structure LongHead (head : List UInt8) (n : Nat) : Prop where
  state : (report head {}).2.state = .headerValue
  headerState : (report head {}).2.headerState = .general
  errno : (report head {}).2.httpErrno = .ok
  goesOn : .messageComplete ∉ (report head {}).1
  nread : (report head {}).2.nread + n ≤ Http.maxHeaderSize
  last : (report (ascii "\r\n\r\n") (longParser head n)).1 = [.headerValue [], .messageComplete]

section LongHead

variable {head : List UInt8} {n : Nat}

theorem LongHead.blocks (h : LongHead head n) : reportAll (head :: List.replicate n [97]) {} =
    ((report head {}).1 ++ List.replicate n (.headerValue [97]), longParser head n) := by
  show ((report head {}).1 ++ (reportAll (List.replicate n [97]) (report head {}).2).1,
    (reportAll (List.replicate n [97]) (report head {}).2).2) = _
  rw [reportAll_letters h.state h.headerState h.errno h.nread]
  rfl

/-- The response, its letters one by one. -/
def LongHead.response (h : LongHead head n) : Response where
  blocks := head :: List.replicate n [97]
  last := ascii "\r\n\r\n"
  goesOn := by
    rw [h.blocks]
    intro hm
    rcases List.mem_append.mp hm with hm | hm
    · exact h.goesOn hm
    · cases List.eq_of_mem_replicate hm
  errno := by
    rw [h.blocks]
    exact h.errno
  complete := by
    rw [h.blocks, h.last]
    exact List.mem_cons_of_mem _ List.mem_cons_self

/-- Its last field has the long value. -/
theorem LongHead.fields (h : LongHead head n) {whole : List (List UInt8 × List UInt8)}
    {name value : List UInt8} (hfront : (report head {}).1.foldl Block.hear {} =
      { whole, part := .value name value }) :
    h.response.fields = whole ++ [(name, value ++ List.replicate n 97)] := by
  have hcalls : h.response.calls = (report head {}).1 ++ List.replicate n (.headerValue [97]) ++
      [.headerValue [], .messageComplete] := by
    rw [Response.calls, LongHead.response, h.blocks, h.last]
  rw [Response.fields, hcalls, fieldsOf, List.foldl_append, List.foldl_append, hfront, hear_values,
    List.flatten_replicate_singleton]
  show whole ++ [(name, _ ++ [])] = _
  rw [List.append_nil]

theorem LongHead.parser (h : LongHead head n) :
    h.response.parser = (report (ascii "\r\n\r\n") (longParser head n)).2 := by
  rw [Response.parser, LongHead.response, h.blocks]

/-- The size of its header block. -/
theorem LongHead.length (h : LongHead head n) {whole : List (List UInt8 × List UInt8)}
    {name value : List UInt8} (hfront : (report head {}).1.foldl Block.hear {} =
      { whole, part := .value name value }) :
    (Fields.layout 0 h.response.fields).length =
      (Fields.layout 0 whole).length + name.length + value.length + n + 2 := by
  rw [h.fields hfront, Fields.length_layout_concat]
  simp only [List.length_append, List.length_replicate]
  omega

/-- The letters are not zero. -/
theorem LongHead.clean (h : LongHead head n) {whole : List (List UInt8 × List UInt8)}
    {name value : List UInt8} (hfront : (report head {}).1.foldl Block.hear {} =
      { whole, part := .value name value }) (hwhole : ∀ f ∈ whole, 0 ∉ f.2) (hvalue : 0 ∉ value) :
    ∀ f ∈ h.response.fields, 0 ∉ f.2 := by
  have hlong : 0 ∉ value ++ List.replicate n 97 := by simp [hvalue, List.mem_replicate]
  rw [h.fields hfront]
  exact List.forall_mem_append.mpr ⟨hwhole, List.forall_mem_singleton.mpr hlong⟩

end LongHead

namespace Sample

/-- The response up to the first letter of a header. -/
def longHead : List UInt8 :=
  ascii "HTTP/1.1 101 Switching Protocols\r\nUpgrade: websocket\r\nConnection: Upgrade\r\n" ++
  ascii "Sec-WebSocket-Accept: tuNFO/XNjXKBBczJqWfkXV1RTQA=\r\nX: a"

theorem longHead_long : LongHead longHead 65536 := by
  constructor <;> decide +kernel

theorem longHead_front : (report longHead {}).1.foldl Block.hear {} =
    { whole := [(ascii "Upgrade", ascii "websocket"), (ascii "Connection", ascii "Upgrade"),
        (ascii "Sec-WebSocket-Accept", ascii "tuNFO/XNjXKBBczJqWfkXV1RTQA=")]
      part := .value (ascii "X") [97] } := by
  decide +kernel

/-- A client with a buffer of 131072 bytes. -/
def roomy : InitArg :=
  { arg with
    rx := List.replicate 131072 0
    rxMax := 131072
    rxMax_le := by rw [List.length_replicate] }

theorem roomy_started : ∃ w₀ w : World Unit, started roomy = some (w₀, .success, w) ∧
    w₀.inst.rx.s.size = 131072 ∧
      b64Encode 64 w.inst.hash 29 = ascii "tuNFO/XNjXKBBczJqWfkXV1RTQA=" := by
  have hrun : (started roomy).map (fun (w₀, status, w) => (status, w₀.inst.rx.s.size,
      b64Encode 64 w.inst.hash 29)) =
        some (.success, 131072, ascii "tuNFO/XNjXKBBczJqWfkXV1RTQA=") := by
    decide +kernel
  obtain ⟨⟨w₀, status, w⟩, hw, heq⟩ := Option.map_eq_some_iff.mp hrun
  simp only [Prod.mk.injEq] at heq
  obtain ⟨rfl, hsize, hhash⟩ := heq
  exact ⟨w₀, w, hw, hsize, hhash⟩

theorem long_parsed : longHead_long.response.parser.statusCode = 101 ∧
    longHead_long.response.parser.upgrade = true := by
  rw [LongHead.parser]
  decide +kernel

theorem long_length : (Fields.layout 0 longHead_long.response.fields).length = 65627 := by
  have hwhole : (Fields.layout 0 [(ascii "Upgrade", ascii "websocket"),
      (ascii "Connection", ascii "Upgrade"),
      (ascii "Sec-WebSocket-Accept", ascii "tuNFO/XNjXKBBczJqWfkXV1RTQA=")]).length = 87 := by
    decide +kernel
  have hname : (ascii "X").length = 1 := by decide
  rw [longHead_long.length longHead_front, hwhole, hname, List.length_singleton]

theorem long_clean : ∀ f ∈ longHead_long.response.fields, 0 ∉ f.2 := by
  have hwhole : [(ascii "Upgrade", ascii "websocket"), (ascii "Connection", ascii "Upgrade"),
      (ascii "Sec-WebSocket-Accept", ascii "tuNFO/XNjXKBBczJqWfkXV1RTQA=")].all
        fun f => f.2.all (· ≠ 0) := by
    decide +kernel
  refine longHead_long.clean longHead_front (fun f hf hzero => ?_) (by decide)
  have hall := List.all_eq_true.mp (List.all_eq_true.mp hwhole f hf) 0 hzero
  simp at hall

/-- The fields in front of the long one settle the judgement. -/
theorem long_judged (last : List UInt8 × List UInt8) :
    (firstField ([(ascii "Upgrade", ascii "websocket"), (ascii "Connection", ascii "Upgrade"),
      (ascii "Sec-WebSocket-Accept", ascii "tuNFO/XNjXKBBczJqWfkXV1RTQA=")] ++ [last])
        (ascii "Upgrade")).map (List.map tolower) = some (ascii "websocket") ∧
    firstField ([(ascii "Upgrade", ascii "websocket"), (ascii "Connection", ascii "Upgrade"),
      (ascii "Sec-WebSocket-Accept", ascii "tuNFO/XNjXKBBczJqWfkXV1RTQA=")] ++ [last])
        (ascii "Sec-WebSocket-Accept") = some (ascii "tuNFO/XNjXKBBczJqWfkXV1RTQA=") :=
  ⟨rfl, rfl⟩

/-- **A response with a header of 65537 bytes is accepted, and the lookups do not agree with it.** -/
theorem long_not_enumerated : ∃ w₀ w w₁ : World Unit,
    Answered (fun _ _ => True) longHead_long.response w₀ w w₁ ∧
      (httpParserExecute longHead_long.response.last w₁).2.inst.http.httpErrno = .ok ∧
      (Fields.layout 0 longHead_long.response.fields).length ≤ w₀.inst.rx.s.size ∧
      (∀ f ∈ longHead_long.response.fields, 0 ∉ f.2) ∧
      ¬Enumerates longHead_long.response.fields
        (httpParserExecute longHead_long.response.last w₁).2 := by
  obtain ⟨w₀, w, hstart, hsize, hhash⟩ := roomy_started
  have hclean := long_clean
  have hlength := long_length
  have hfields := longHead_long.fields longHead_front
  obtain ⟨hcode, hupgrade⟩ := long_parsed
  generalize longHead_long.response = r at hclean hlength hfields hcode hupgrade ⊢
  obtain ⟨w₁, h⟩ := answered hstart r fun _ _ => True
  -- the response is complete with its last block
  obtain ⟨key, w₂, hreq, hu, -, -, hw, hc⟩ := h.completes
  have hfit : (Fields.layout 0 r.fields).length ≤ w₀.inst.rx.s.size := by
    rw [hlength, hsize]
    decide
  have hrx : w.inst.rx = w₀.inst.rx := by rw [hreq.inst]
  have hheader := hc.header (hrx ▸ hfit)
  have hkept : w₂.inst.hash = w.inst.hash := by rw [hc.inst]
  obtain ⟨hwebsocket, haccept⟩ :=
    long_judged (ascii "X", [97] ++ List.replicate 65536 97)
  rw [← hfields] at hwebsocket haccept
  -- it is accepted, as its other fields are those of an upgrade
  have haccepts : Upgrades w₂ := by
    rw [Upgrades, acceptsUpgrade_iff hheader (hc.clean hclean) hc.state, hc.http, hkept, hhash]
    exact ⟨hcode, hupgrade, hwebsocket, haccept⟩
  refine ⟨w₀, w, w₁, h, ?_, hfit, hclean, ?_⟩
  · rw [hw]
    exact hc.accepts_iff.mp haccepts
  · rw [hw, judged_of_upgrades haccepts, hheader.enumerates_iff (hc.clean hclean) hc.state, hlength]
    decide

end Sample

end Wic
