import Wic.Handshake.Stops
import Wic.Runs.Chunks
import Wic.Runs.Stored

/-!
# A session however it is cut

The response and the frames behind it reach `wic_parse` in blocks, and where a block ends is up to
the network. As long as the header block fits the rx buffer and no frame is masked, what the instance
makes of the bytes does not depend on it: not what it keeps of the response, nor the byte at which the
frames begin, nor anything the application is told.

## Main definitions

* `hearing`: the instance that has stored a header block
* `ComesTo`: what becomes of the instance behind the bytes of a response
* `Unmasked`: frames without a mask
* `Alike`: two instances that have come to the same

## Main results

* `Awaits.comesTo`: blocks of a session come to what its bytes come to
* `Reachable.cut_free`: two ways to cut a session come to the same
-/

namespace Wic

open Http (ascii Errno Callback HttpParser)
open Websocket (Frame encodeAll)

variable {σ : Type}

/-! ## The header store -/

/-- The stream with `text` at its front, and its cursor behind it. -/
def Stream.filled (s : Stream) (text : List UInt8) : Stream :=
  { s with mem := text ++ s.mem.drop text.length, pos := text.length }

namespace Stream

variable {s : Stream} {text : List UInt8}

theorem filled_nil (hp : s.pos = 0) : s.filled [] = s := by
  unfold filled
  rw [List.length_nil, List.drop_zero, List.nil_append, ← hp]

theorem filled_write (hw : s.writable = true) (he : s.error = false) {bytes : List UInt8}
    (hfit : (text ++ bytes).length ≤ s.size) :
    (s.filled text).write bytes = s.filled (text ++ bytes) := by
  rw [List.length_append] at hfit
  have hroom : bytes.length ≤ (s.filled text).size - (s.filled text).pos := by
    show bytes.length ≤ s.size - text.length
    omega
  have hwritable : (s.filled text).writable = true := hw
  rw [write_eq hwritable he hroom]
  unfold filled
  dsimp only
  rw [List.take_left, List.length_append, List.drop_append, List.drop_drop, Nat.add_sub_cancel_left,
    List.drop_of_length_le (Nat.le_add_right _ _), List.nil_append]

end Stream

/-- The instance with `s` for its header store, its parser `p`. -/
def storing (s : Stream) (state : HeaderState) (p : HttpParser) (w : World σ) : World σ :=
  w.update fun i => { i with http := p, headerState := state, rx.s := s }

/-- The instance that has stored `b`, its parser `p`; `w` is the world before the response. -/
def hearing (b : Block) (p : HttpParser) (w : World σ) : World σ :=
  storing (w.inst.rx.s.filled b.text) b.part.state p w

section Store

variable {w : World σ} {b : Block} {p : HttpParser} {calls : List Callback}

/-- The first callback of several, and those behind it. -/
theorem Orderly.uncons {c : Callback} (ho : Orderly b.part.state (c :: calls))
    (hm : .messageComplete ∉ c :: calls) :
    Orderly b.part.state [c] ∧ Orderly (b.hear c).part.state calls := by
  have hsplit : Orderly b.part.state ([c] ++ calls) := ho
  have hc : .messageComplete ∉ [c] := by
    intro h
    exact hm (List.mem_singleton.mp h ▸ List.mem_cons_self)
  rw [orderly_append hc] at hsplit
  obtain ⟨hone, hrest⟩ := hsplit
  refine ⟨hone, ?_⟩
  rw [Block.hear_state hone]
  exact hrest

/-- Text is added to a block, and never taken away. -/
theorem Block.text_prefix {c : Callback} (ho : Orderly b.part.state [c]) :
    b.text <+: (b.hear c).text := by
  cases c with
  | headerField bytes =>
    rw [hear_field_text]
    exact List.prefix_append _ _
  | headerValue bytes =>
    rw [hear_value_text ho.1]
    exact List.prefix_append _ _
  | messageComplete => exact List.prefix_rfl

/-- A part of a field is stored. -/
theorem respondOr_hearing (hu : w.inst.Untouched) {c : Callback} (ho : Orderly b.part.state [c])
    (hm : c ≠ .messageComplete) (hfit : (b.hear c).text.length ≤ w.inst.rx.s.size) :
    respondOr c (hearing b p w) = hearing (b.hear c) p w := by
  have hstate : (hearing b p w).inst.headerState = b.part.state := rfl
  have hwritable := hu.store.writable
  obtain ⟨herror, -⟩ := hu.store.fits (Nat.zero_le _)
  -- what is written goes behind the block, with a terminator in front of another name or value
  have hwrite {bytes : List UInt8} (h : (b.text ++ bytes).length ≤ w.inst.rx.s.size) :
      (w.inst.rx.s.filled b.text).write bytes = w.inst.rx.s.filled (b.text ++ bytes) :=
    Stream.filled_write hwritable herror h
  have hzero {bytes : List UInt8} (h : (b.text ++ 0 :: bytes).length ≤ w.inst.rx.s.size) :
      ((w.inst.rx.s.filled b.text).putU8 0).write bytes =
        w.inst.rx.s.filled (b.text ++ 0 :: bytes) := by
    have hone : (b.text ++ [0] ++ bytes).length ≤ w.inst.rx.s.size := by
      rwa [List.append_assoc]
    have hfirst : (b.text ++ [0]).length ≤ w.inst.rx.s.size := by
      rw [List.length_append] at hone
      omega
    rw [Stream.putU8, hwrite hfirst, Stream.filled_write hwritable herror hone, List.append_assoc]
    rfl
  cases c with
  | headerField bytes =>
    have hnext : (b.hear (.headerField bytes)).part.state = .field := Block.hear_state ho
    rw [Block.hear_field_text] at hfit
    rw [respondOr_field, hstate, hearing, hearing, hnext, Block.hear_field_text]
    split_ifs at hfit ⊢
    · rw [← hzero hfit]
      rfl
    · rw [← hwrite hfit]
      rfl
  | headerValue bytes =>
    have hi : b.part.state ≠ .idle := ho.1
    have hnext : (b.hear (.headerValue bytes)).part.state = .value := Block.hear_state ho
    rw [Block.hear_value_text hi] at hfit
    rw [respondOr_value hi, hstate, hearing, hearing, hnext, Block.hear_value_text hi]
    split_ifs at hfit ⊢
    · rw [← hwrite hfit]
      rfl
    · rw [← hzero hfit]
      rfl
  | messageComplete => exact absurd rfl hm

/-- **What callbacks report is stored as it would be at once.** -/
theorem answer_hearing (hu : w.inst.Untouched) (ho : Orderly b.part.state calls)
    (hm : .messageComplete ∉ calls)
    (hfit : (calls.foldl Block.hear b).text.length ≤ w.inst.rx.s.size) :
    answer calls (hearing b p w) = hearing (calls.foldl Block.hear b) p w := by
  have hgrows {calls : List Callback} {b : Block} (ho : Orderly b.part.state calls)
      (hm : .messageComplete ∉ calls) : b.text <+: (calls.foldl Block.hear b).text := by
    induction calls generalizing b with
    | nil => exact List.prefix_rfl
    | cons c calls ih =>
      obtain ⟨hone, hrest⟩ := ho.uncons hm
      exact (Block.text_prefix hone).trans (ih hrest fun h => hm (List.mem_cons_of_mem _ h))
  induction calls generalizing b with
  | nil => rfl
  | cons c calls ih =>
    have hc : c ≠ .messageComplete := fun hc => hm (hc ▸ List.mem_cons_self)
    have hm' : .messageComplete ∉ calls := fun h => hm (List.mem_cons_of_mem _ h)
    obtain ⟨hone, hrest⟩ := ho.uncons hm
    have hlen := (hgrows hrest hm').length_le
    have hstep := respondOr_hearing (p := p) hu hone hc (Nat.le_trans hlen hfit)
    show answer calls (respondOr c (hearing b p w)) = _
    rw [hstep]
    exact ih hrest hm' hfit

end Store

/-! ## What becomes of the instance -/

/-- The instance behind a complete response. -/
def concluded (cb : Callbacks σ) (b : Block) (p : HttpParser) (w : World σ) : World σ :=
  afterHttp cb (judged (completed (hearing b p w)))

/-- The instance has been closed because the response is none. -/
structure Failed (w w' : World σ) : Prop where
  state : w'.inst.state = .closed
  log : w'.log = w.log ++ (if w.inst.onCloseTransport then [.onCloseTransport] else []) ++
    (if w.inst.onHandshakeFailure then [.onHandshakeFailure .protocol] else []) ++
      [.state .closed]

/-- An instance that a response has opened or closed. -/
def Over (w : World σ) : Prop := Boundary w ∨ w.inst.state = .closed

/-- The bytes are the beginning of frames without a mask. -/
def Unmasked (bs : List UInt8) : Prop :=
  ∃ (fs : List Frame) (more : List UInt8), (∀ f ∈ fs, f.key = none) ∧ bs ++ more = encodeAll fs

theorem Unmasked.left {as bs : List UInt8} (h : Unmasked (as ++ bs)) : Unmasked as := by
  obtain ⟨fs, more, hkeys, heq⟩ := h
  exact ⟨fs, bs ++ more, hkeys, by rw [← List.append_assoc, heq]⟩

/-- Calls on them cannot be broken off. -/
theorem Boundary.unbroken {w : World σ} (h : Boundary w) {cb : Callbacks σ} (hcb : cb.Obliging)
    {bs : List UInt8} (hu : Unmasked bs) : Unbroken cb bs w := by
  obtain ⟨fs, more, hkeys, heq⟩ := hu
  have hkeyless := h.keyless hkeys
  rw [← heq] at hkeyless
  have hleft : w.Keyless bs := hkeyless.left
  exact hleft.unbroken hcb.quiet h.toLive

/-- What becomes of an instance by what is heard of a response; `w` is the world before it. Where
the header block does not fit the rx buffer, what is kept of it is left open. -/
def ComesTo (cb : Callbacks σ) (w : World σ) : Heard → World σ → Prop
  | .more b p, w' => b.text.length ≤ w.inst.rx.s.size → w' = hearing b p w
  | .complete b p rest, w' => ∃ v, Over v ∧
    ((Fields.layout 0 b.fields).length ≤ w.inst.rx.s.size → v = concluded cb b p w) ∧
      Agrees (received cb rest v) w'
  | .failed, w' => Failed w w'

section Blocks

variable {cb : Callbacks σ} {w w₁ v : World σ} {b : Block} {p : HttpParser} {calls : List Callback}
  {data : List UInt8}

theorem Block.length_text_le (b : Block) : b.text.length ≤ (Fields.layout 0 b.fields).length := by
  obtain ⟨whole, part⟩ := b
  cases part <;> simp [text, fields, Pending.fields, Pending.text, Fields.layout, Fields.entry]

/-- Callbacks behind each other are stored as they would be at once. -/
theorem answer_setHttp (hu : w.inst.Untouched) (ho : Orderly .idle calls)
    (hm : .messageComplete ∉ calls)
    (hfit : (calls.foldl Block.hear {}).text.length ≤ w.inst.rx.s.size) :
    answer calls (setHttp p w) = hearing (calls.foldl Block.hear {}) p w := by
  have hempty : setHttp p w = hearing {} p w := by
    have hnone : w.inst.rx.s.filled (Block.text {}) = w.inst.rx.s := by
      refine Stream.filled_nil ?_
      have htext := (hu.store.fits (Nat.zero_le _)).2
      rw [← hu.store.ok.length_text, htext, List.length_nil]
    rw [hearing, hnone]
    show _ = storing w.inst.rx.s .idle p w
    rw [← hu.headerState]
    rfl
  rw [hempty]
  exact answer_hearing (b := {}) hu ho hm hfit

/-- An instance whose parser has failed by itself. -/
theorem Failed.of_errno (hcb : cb.Passive) {w' : World σ} (hlog : w'.log = w.log)
    (hinst : ∃ s state q, w'.inst = { w.inst with rx.s := s, headerState := state, http := q })
    (he : w'.inst.http.httpErrno ≠ .ok) (hb : w'.inst.http.httpErrno ≠ .cbMessageComplete) :
    Failed w (afterHttp cb w') := by
  obtain ⟨s, state, q, hinst⟩ := hinst
  have htransport : w'.inst.onCloseTransport = w.inst.onCloseTransport := by rw [hinst]
  have hfailure : w'.inst.onHandshakeFailure = w.inst.onHandshakeFailure := by rw [hinst]
  have hfirst : (callOnCloseTransport cb w').inst = w'.inst ∧ (callOnCloseTransport cb w').log =
      w'.log ++ (if w.inst.onCloseTransport then [.onCloseTransport] else []) := by
    unfold callOnCloseTransport
    rw [htransport]
    split_ifs
    · have hedit := hcb.onCloseTransport (w'.emit .onCloseTransport)
      exact ⟨hedit.inst, hedit.log⟩
    · exact ⟨rfl, (List.append_nil _).symm⟩
  unfold afterHttp
  rw [if_pos he, if_neg hb]
  generalize callOnCloseTransport cb w' = w₂ at hfirst ⊢
  obtain ⟨hinst₂, hlog₂⟩ := hfirst
  refine ⟨rfl, ?_⟩
  show (callOnHandshakeFailure cb .protocol w₂).log ++ _ = _
  unfold callOnHandshakeFailure
  rw [hinst₂, hfailure, ← hlog, ← hlog₂]
  split_ifs
  · have hedit := hcb.onHandshakeFailure .protocol (w₂.emit (.onHandshakeFailure .protocol))
    rw [hedit.log]
    rfl
  · rw [List.append_nil]

theorem Awaits.waiting (h : Awaits w calls p w₁) : w₁.inst.state = .parseHandshake := by
  obtain ⟨s, state, hw⟩ := (h.part p).frame
  rw [h.answered, hw]
  exact h.state

/-- A response that is judged leaves the instance open in front of the first frame, or closed. -/
theorem over_judged (hcb : cb.Obliging) (hinv : Invariant w₁)
    (hs : w₁.inst.state = .parseHandshake) {data : List UInt8} {w' : World σ}
    (hw : (httpParserExecute data w₁).2 = judged (completed w')) :
    Over (afterHttp cb (httpParserExecute data w₁).2) := by
  have hparse : Parsing w₁ (httpParserExecute data w₁).2 := httpParserExecute_parsing data
  have hnext := afterHttp_invariant hcb.quiet hinv hs hparse
  have hready : (judged (completed w')).inst.state = .ready := by
    unfold judged
    split_ifs <;> rfl
  rw [← hw] at hready
  have hopcode := (hparse.fresh (hinv.waiting (.inr hs)).1).state
  have hr : (httpParserExecute data w₁).2.inst.role = .client := by rw [hparse.role, hinv.role]
  generalize (httpParserExecute data w₁).2 = w₂ at hnext hready hopcode hr ⊢
  by_cases he : w₂.inst.http.httpErrno = .ok
  · left
    have hopens : afterHttp cb w₂ = (callOnOpen cb w₂).setState .open := by
      unfold afterHttp
      rw [if_neg (not_not.mpr he), if_pos hready]
    refine ⟨hnext.live (by rw [hopens]; rfl), ?_⟩
    rw [hopens, World.setState_inst]
    exact (congrArg RxFrame.state (callOnOpen_keeps hcb.quiet hr).rx).trans hopcode
  · right
    unfold afterHttp
    rw [if_pos he]
    rfl

/-- The bytes behind the response are received. -/
theorem wicParse_rest (hcb : cb.Obliging) (hs : w₁.inst.state = .parseHandshake)
    (ho : Over (afterHttp cb (httpParserExecute data w₁).2)) (hlen : data.length < 2 ^ 32)
    (hle : (httpParserExecute data w₁).1 ≤ data.length)
    (hkeys : Unmasked (data.drop (httpParserExecute data w₁).1)) :
    ∃ n w₂, wicParse cb data w₁ = some (n, w₂) ∧
      Agrees (received cb (data.drop (httpParserExecute data w₁).1)
        (afterHttp cb (httpParserExecute data w₁).2)) w₂ := by
  -- the stream is set to the first byte behind the response
  have hseek : ((streamInitRo data data.length).seek (httpParserExecute data w₁).1).rest =
      data.drop (httpParserExecute data w₁).1 := by
    have hsize : data.length % 2 ^ 32 = data.length := Nat.mod_eq_of_lt hlen
    unfold Stream.seek streamInitRo Stream.rest
    dsimp only
    rw [hsize, if_pos hle, List.take_length]
  have hok := (streamInitRo_ok data).seek (httpParserExecute data w₁).1
  have herror := Stream.seek_error (streamInitRo data data.length) (httpParserExecute data w₁).1
  rw [← hseek] at hkeys ⊢
  rw [wicParse, parseHandshake_eq cb hs]
  generalize (streamInitRo data data.length).seek (httpParserExecute data w₁).1 = s at hok herror hkeys ⊢
  generalize afterHttp cb (httpParserExecute data w₁).2 = v at ho ⊢
  -- the connection is open and reads frames, or it is closed and reads nothing
  rcases ho with hlive | hclosed
  · have hready : Ready s v := ⟨hok, herror, hlive.lawful.toSound, hlive.role⟩
    obtain ⟨w₂, s', hrun, as, cs, hends⟩ := parseWebsocket_drain hcb.quiet hready hlive.state
    have hu := hlive.unbroken hcb hkeys
    rw [hends.split] at hu ⊢
    obtain rfl := hu.whole hends.whole
    rw [List.append_nil]
    refine ⟨if w₂.inst.state = .open then s'.pos else data.length, w₂, ?_, ?_⟩
    · dsimp only
      rw [hrun]
      rfl
    · exact ⟨fun ho => (hends.of_open ho).1, hends.of_closed⟩
  · have hno : v.inst.state ≠ .open := by
      rw [hclosed]
      decide
    refine ⟨if v.inst.state = .open then s.pos else data.length, v, ?_, ?_⟩
    · dsimp only
      rw [parseWebsocket, if_neg hno]
      rfl
    · rw [received_of_not_open hno]
      exact ⟨fun ho => absurd ho hno, fun _ => ⟨id, rfl⟩⟩

/-- **Blocks behind a response are received behind it.** -/
theorem Over.receives (hv : Over v) (hcb : cb.Obliging) {as : List UInt8} {w₂ : World σ}
    (hagrees : Agrees (received cb as v) w₂) {blocks : List (List UInt8)}
    (hblocks : ∀ data ∈ blocks, Handy data) (hkeys : Unmasked (as ++ blocks.flatten)) :
    ∃ w₃, wicParseAll cb blocks w₂ = some w₃ ∧
      Agrees (received cb (as ++ blocks.flatten) v) w₃ := by
  have hclosed (hc : (received cb as v).inst.state = .closed)
      (happend : received cb (as ++ blocks.flatten) v =
        received cb blocks.flatten (received cb as v)) : ∃ w₃, wicParseAll cb blocks w₂ = some w₃ ∧
          Agrees (received cb (as ++ blocks.flatten) v) w₃ := by
    refine ⟨w₂, wicParseAll_of_closed (hagrees.state.trans hc) blocks, ?_⟩
    rw [happend, received_of_not_open (by rw [hc]; nofun)]
    exact hagrees
  rcases hv with hlive | hc
  -- the blocks that are left are read from where the first one has led
  · have happend := received_append hcb hlive.toLive as blocks.flatten
    by_cases ho : (received cb as v).inst.state = .open
    · obtain ⟨-, hrest, hlive'⟩ := drain_obliging hcb hlive.toLive as ho
      have hu : Unbroken cb blocks.flatten (received cb as v) :=
        (hlive.unbroken hcb hkeys).right hcb.quiet hlive.receiving fun hs => hs ⟨ho, hrest⟩
      rw [happend, hagrees.1 ho]
      refine wicParseAll_received hcb (fun data hd => ?_) hlive' (.inr hrest) hu
      have hlen := (hblocks data hd).2
      omega
    · have hlead := (drain_receiving hcb.quiet hlive.receiving as).2.state
      rw [hlive.state] at hlead
      exact hclosed (hlead.open_or.resolve_left ho) happend
  · have hno : v.inst.state ≠ .open := by
      rw [hc]
      nofun
    apply hclosed
    · rwa [received_of_not_open hno]
    · rw [received_of_not_open hno, received_of_not_open hno, received_of_not_open hno]

/-- A block that the parser fails on closes the instance. -/
theorem Awaits.fails (h : Awaits w calls p w₁) (hcb : cb.Obliging)
    (hm : .messageComplete ∉ (report data p).1) (he : (report data p).2.httpErrno ≠ .ok) :
    ∃ n w₂, wicParse cb data w₁ = some (n, w₂) ∧ Failed w w₂ := by
  obtain ⟨horderly, -, -⟩ := report_sound data h.sound
  have hall : Orderly .idle (calls ++ (report data p).1) :=
    (orderly_append h.incomplete).mpr ⟨h.orderly, horderly⟩
  have hrun := h.execute data
  -- the callbacks of the block are those of a response that is under way
  have hpart : AnswersPart (calls ++ (report data p).1) (setHttp (report data p).2 w) := by
    apply answersPart
    · rw [setHttp_headerState, h.idle]
      exact hall
    · simpa using ⟨h.incomplete, hm⟩
  obtain ⟨s, state, hframe⟩ := hpart.frame
  have hhttp : (httpParserExecute data w₁).2.inst.http = (report data p).2 := by
    rw [hrun]
    exact hpart.http
  -- and the handshake fails with the error of the parser
  have hfailed : Failed w (afterHttp cb (httpParserExecute data w₁).2) := by
    apply Failed.of_errno hcb.toPassive
    · rw [hrun, hframe]
      rfl
    · refine ⟨s, state, (report data p).2, ?_⟩
      rw [hrun, hframe]
      rfl
    · rwa [hhttp]
    · rw [hhttp]
      exact report_blames data (by rw [h.errno]; nofun)
  have hno : (afterHttp cb (httpParserExecute data w₁).2).inst.state ≠ .open := by
    rw [hfailed.state]
    nofun
  refine ⟨data.length, _, ?_, hfailed⟩
  rw [wicParse, parseHandshake_eq cb h.waiting]
  dsimp only
  rw [parseWebsocket, if_neg hno, Option.map_some, if_neg hno]

/-- A block that completes the response. -/
theorem Awaits.concludes (h : Awaits w calls p w₁) (hu : w.inst.Untouched) (hcb : cb.Obliging)
    (hinv : Invariant w₁) (hd : Handy data) (hm : .messageComplete ∈ (report data p).1)
    (hkeys : Unmasked (reportRest data data 0 (startLocals p) p)) :
    ∃ n w₂, wicParse cb data w₁ = some (n, w₂) ∧
      ComesTo cb w (.complete ((report data p).1.foldl Block.hear (calls.foldl Block.hear {}))
        (report data p).2 (reportRest data data 0 (startLocals p) p)) w₂ := by
  obtain ⟨hne, hlen⟩ := hd
  obtain ⟨horderly, -, -⟩ := report_sound data h.sound
  have hall : Orderly .idle (calls ++ (report data p).1) :=
    (orderly_append h.incomplete).mpr ⟨h.orderly, horderly⟩
  -- the callbacks in front of the one that completes the response
  obtain ⟨front, hcalls, hfront, ho, -⟩ := hall.split (List.mem_append_right _ hm)
  have hblock : (report data p).1.foldl Block.hear (calls.foldl Block.hear {}) =
      front.foldl Block.hear {} := by
    rw [← List.foldl_append, hcalls, List.foldl_append]
    rfl
  have hrun : (httpParserExecute data w₁).2 =
      judged (completed (answer front (setHttp (report data p).2 w))) := by
    rw [h.execute, hcalls, answer_append, ← respondOr_complete]
    rfl
  have hpart := h.part p
  have hhttp : w₁.inst.http = p := by
    rw [h.answered, hpart.http, setHttp_http]
  have hstate : w₁.inst.headerState = calls.foldl leaves .idle := by
    rw [h.answered, hpart.state, setHttp_headerState, h.idle]
  obtain ⟨hle, hrest⟩ := httpParserExecute_rest (w := w₁) hne (by rw [hhttp]; exact h.errno)
    (by rw [hhttp, hstate]; exact h.sound)
  have hover : Over (afterHttp cb (httpParserExecute data w₁).2) :=
    over_judged hcb hinv h.waiting hrun
  rw [hhttp] at hrest
  obtain ⟨n, w₂, hparse, hagrees⟩ :=
    wicParse_rest hcb h.waiting hover (by omega) hle (hrest ▸ hkeys)
  refine ⟨n, w₂, hparse, _, hover, fun hfit => ?_, ?_⟩
  · have htext : (front.foldl Block.hear {}).text.length ≤ w.inst.rx.s.size := by
      rw [hblock] at hfit
      exact Nat.le_trans (Block.length_text_le _) hfit
    rw [hrun, answer_setHttp hu ho hfront htext, hblock, concluded]
  · rwa [← hrest]

/-- The bytes behind a response that is complete. -/
def Heard.rest : Heard → List UInt8
  | .complete _ _ rest => rest
  | _ => []

/-- **Blocks of a session come to what is heard of them.** -/
theorem Awaits.comesTo (h : Awaits w calls p w₁) (hu : w.inst.Untouched) (hcb : cb.Obliging)
    (hinv : Invariant w₁) {blocks : List (List UInt8)} (hblocks : ∀ data ∈ blocks, Handy data)
    (hkeys : Unmasked (hearAll blocks (calls.foldl Block.hear {}) p).rest) :
    ∃ w₂, wicParseAll cb blocks w₁ = some w₂ ∧
      ComesTo cb w (hearAll blocks (calls.foldl Block.hear {}) p) w₂ := by
  induction blocks generalizing w₁ calls p with
  | nil =>
    refine ⟨w₁, rfl, fun hfit => ?_⟩
    rw [h.answered]
    exact answer_setHttp hu h.orderly h.incomplete hfit
  | cons data blocks ih =>
    obtain ⟨hd, hrest⟩ := List.forall_mem_cons.mp hblocks
    have hcons {n : Nat} {w₂ : World σ} (hrun : wicParse cb data w₁ = some (n, w₂)) :
        wicParseAll cb (data :: blocks) w₁ = wicParseAll cb blocks w₂ := by
      simp only [wicParseAll, List.foldlM_cons, hrun, Option.map_some, Option.bind_eq_bind,
        Option.bind_some]
    rw [hearAll] at hkeys ⊢
    by_cases hm : .messageComplete ∈ (report data p).1
    · -- the response ends here, and frames follow
      rw [hear, if_pos hm] at hkeys ⊢
      obtain ⟨n, w₂, hrun, v, hover, hkept, hagrees⟩ := h.concludes hu hcb hinv hd hm hkeys.left
      rw [hcons hrun]
      obtain ⟨w₃, hall, hagrees'⟩ := hover.receives hcb hagrees hrest hkeys
      exact ⟨w₃, hall, v, hover, hkept, hagrees'⟩
    · by_cases he : (report data p).2.httpErrno = .ok
      · -- the response goes on
        obtain ⟨w₂, hrun, hnext⟩ := h.parse cb hm he
        rw [hear_more hm he, ← List.foldl_append] at hkeys
        rw [hcons hrun, hear_more hm he, ← List.foldl_append]
        refine ih hnext ?_ hrest hkeys
        obtain ⟨n, w₂', hrun', hinv', -⟩ := wicParse_induction (fun _ => True) hcb.quiet hinv data
          (fun _ _ => trivial) (fun _ _ _ => trivial) (fun _ _ _ _ _ => trivial)
          (fun _ _ _ _ => trivial) trivial
        rw [hrun] at hrun'
        obtain ⟨-, rfl⟩ := Prod.mk.inj (Option.some.inj hrun')
        exact hinv'
      -- the parser fails in this block, and the instance is closed
      · obtain ⟨n, w₂, hrun, hfailed⟩ := h.fails hcb hm he
        rw [hcons hrun, hear_failed hm he]
        exact ⟨w₂, wicParseAll_of_closed hfailed.state blocks, hfailed⟩

end Blocks

/-! ## Two ways to cut a session -/

/-- The fields that have been heard. -/
def Heard.fields : Heard → List (List UInt8 × List UInt8)
  | .more b _ => b.fields
  | .complete b _ _ => b.fields
  | .failed => []

/-- Two worlds that have come to the same: the trace is the same, and nothing but the remains in a
closed instance may differ. -/
structure Alike (u v : World σ) : Prop where
  log : v.log = u.log
  state : v.inst.state = u.inst.state
  same : u.inst.state ≠ .closed → v = u

theorem Agrees.alike {x u v : World σ} (hu : Agrees x u) (hv : Agrees x v)
    (hx : x.inst.state ≠ .open → x.inst.state = .closed) : Alike u v := by
  have hlog {u : World σ} (h : Agrees x u) : u.log = x.log := by
    by_cases ho : x.inst.state = .open
    · rw [h.1 ho]
    · obtain ⟨f, rfl⟩ := h.2 ho
      rfl
  refine ⟨(hlog hv).trans (hlog hu).symm, hv.state.trans hu.state.symm, fun hno => ?_⟩
  rw [hu.state] at hno
  have ho : x.inst.state = .open := by_contra fun ho => hno (hx ho)
  rw [hu.1 ho, hv.1 ho]

theorem ComesTo.alike {cb : Callbacks σ} (hcb : cb.Obliging) {w u v : World σ} {h : Heard}
    (hfit : (Fields.layout 0 h.fields).length ≤ w.inst.rx.s.size) (hu : ComesTo cb w h u)
    (hv : ComesTo cb w h v) : Alike u v := by
  cases h with
  | more b p =>
    have htext := Nat.le_trans (Block.length_text_le b) hfit
    obtain rfl := (hu htext).trans (hv htext).symm
    exact ⟨rfl, rfl, fun _ => rfl⟩
  | complete b p rest =>
    obtain ⟨x, hover, hx, hagrees⟩ := hu
    obtain ⟨x', -, hx', hagrees'⟩ := hv
    obtain rfl := (hx hfit).trans (hx' hfit).symm
    apply hagrees.alike hagrees'
    intro hno
    rcases hover with hlive | hclosed
    · have hlead := (drain_receiving hcb.quiet hlive.receiving rest).2.state
      rw [hlive.state] at hlead
      exact hlead.open_or.resolve_left hno
    · rw [received_of_not_open (by rw [hclosed]; nofun)]
      exact hclosed
  | failed =>
    have hu' : Failed w u := hu
    have hv' : Failed w v := hv
    exact ⟨hv'.log.trans hu'.log.symm, hv'.state.trans hu'.state.symm,
      fun hno => absurd hu'.state hno⟩

/-- **What the instance makes of the response and of the frames behind it does not depend on how the
bytes are cut**, as long as the header block fits the rx buffer and no frame is masked. -/
theorem Reachable.cut_free {allowed : Caller → Call → Prop} {cb₀ cb : Callbacks σ} {fuel : Nat}
    {w₀ w : World σ} (h : Reachable allowed w₀) (hcb₀ : Reentrant allowed cb₀)
    (hstart : wicStart cb₀ fuel w₀ = some (.success, w)) (hcb : cb.Obliging)
    {blocks blocks' : List (List UInt8)} (hblocks : ∀ data ∈ blocks, Handy data)
    (hblocks' : ∀ data ∈ blocks', Handy data) (hsame : blocks'.flatten = blocks.flatten)
    (hkeys : Unmasked (hearBytes blocks.flatten {} {}).rest)
    (hfit : (Fields.layout 0 (hearBytes blocks.flatten {} {}).fields).length ≤
      w₀.inst.rx.s.size) :
    ∃ u v, wicParseAll cb blocks w = some u ∧ wicParseAll cb blocks' w = some v ∧ Alike u v := by
  obtain ⟨key, hreq⟩ := wicStart_requested hcb₀.quiet hstart
  have hu := hreq.untouched h
  have hinv := (Reachable.start h hcb₀ hstart).invariant
  have hwaits : Awaits w [] {} w := .start hreq.state hu
  have hsize : w.inst.rx.s.size = w₀.inst.rx.s.size := by rw [hreq.inst]
  -- both are heard like the bytes
  have hheard : hearAll blocks {} {} = hearBytes blocks.flatten {} {} := hearAll_eq hblocks .start
  have hheard' : hearAll blocks' {} {} = hearBytes blocks.flatten {} {} := by
    rw [← hsame]
    exact hearAll_eq hblocks' .start
  obtain ⟨u, hrun, hcomes⟩ := hwaits.comesTo hu hcb hinv hblocks (by
    rw [List.foldl_nil, hheard]
    exact hkeys)
  obtain ⟨v, hrun', hcomes'⟩ := hwaits.comesTo hu hcb hinv hblocks' (by
    rw [List.foldl_nil, hheard']
    exact hkeys)
  rw [List.foldl_nil, hheard] at hcomes
  rw [List.foldl_nil, hheard'] at hcomes'
  rw [← hsize] at hfit
  exact ⟨u, v, hrun, hrun', hcomes.alike hcb hfit hcomes'⟩

/-- A response and a frame behind it come to the same at once and byte by byte. -/
theorem Sample.response_cut_free : ∃ w u v : World Unit,
    wicParseAll giving [response ++ [0x82, 1, 0]] w = some u ∧
      wicParseAll giving ((response ++ [0x82, 1, 0]).map fun b => [b]) w = some v ∧
        Alike u v := by
  obtain ⟨w₀, w, hanswered, hsize, -⟩ := response_accepted
  obtain ⟨cb₀, fuel, hcb₀, hstart⟩ := (hanswered fun _ _ => True).started
  -- what is heard of the session, as computed
  have hheard : (Fields.layout 0 (hearBytes (response ++ [0x82, 1, 0]) {} {}).fields).length ≤
      300 ∧ (hearBytes (response ++ [0x82, 1, 0]) {} {}).rest = [0x82, 1, 0] := by
    decide +kernel
  obtain ⟨hfit, hrest⟩ := hheard
  have hkeys : Unmasked [0x82, 1, 0] :=
    ⟨[⟨true, 0, 2, none, [0], by decide⟩], [], by simp, by decide⟩
  rw [← hsize] at hfit
  have hone : Handy (response ++ [0x82, 1, 0]) := ⟨by decide +kernel, by decide +kernel⟩
  -- the two ways to cut it: one block, or one for each byte
  refine ⟨w, (hanswered fun _ _ => True).reachable.cut_free hcb₀ hstart giving_obliging ?_ ?_ ?_ ?_ ?_⟩
  · intro data hd
    rw [List.mem_singleton.mp hd]
    exact hone
  · intro data hd
    obtain ⟨b, -, rfl⟩ := List.mem_map.mp hd
    refine ⟨nofun, ?_⟩
    show 1 + Http.maxHeaderSize < 2 ^ 32
    decide
  · rw [List.flatten_singleton]
    generalize response ++ [0x82, 1, 0] = bytes
    induction bytes with
    | nil => rfl
    | cons b bytes ih => rw [List.map_cons, List.flatten_cons, ih, List.singleton_append]
  · rw [List.flatten_singleton, hrest]
    exact hkeys
  · rw [List.flatten_singleton]
    exact hfit

namespace Sample

/-- The response, with a header in front of the answer that leaves no room for more than it. -/
def crowded : List UInt8 :=
  ascii "HTTP/1.1 101 Switching Protocols\r\nUpgrade: websocket\r\nConnection: Upgrade\r\nX: " ++
    List.replicate 210 97 ++ ascii "\r\nSec-WebSocket-Accept: tuNFO/XNjXKBBczJqWfkXV1RTQA="

/-- More of the answer. -/
def surplus : List UInt8 := ascii "abc\r\n\r\n"

/-- **Where the header block does not fit, it matters where it is cut**: a response with a wrong
answer is accepted when a block ends behind the part of it that is right. -/
theorem cut_matters :
    (session (host id) arg () [crowded ++ surplus]).map (fun w => w.inst.state) = some .closed ∧
      (session (host id) arg () [crowded, surplus]).map (fun w => w.inst.state) = some .open := by
  decide +kernel

end Sample

end Wic
