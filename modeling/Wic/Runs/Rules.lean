import Wic.Runs.Exchanges
import Wic.Runs.Headers

/-!
# The rules for sequences of frames

The receiver lets a frame through exactly when it may come next. The message in progress, on which
that depends, moves as the rules say, and pings and pongs between the frames of a message change
nothing about it. This is so whatever calls the application makes in its callbacks, as long as they
do not close the instance.

## Main definitions

* `ObeysRules`: the receiver accepts the legal sequences of frames, in calls up to some length

## Main results

* `obeysRules_iff`
-/

namespace Wic

open Websocket (Frame Kind LengthForm encodeAll)

variable {σ : Type}

/-! ## The frame that may not come next -/

section Closing

variable {code code' : UInt16} {words words' : List UInt8} {type type' : BufferType}
  {w w' : World σ}

/-- Closing begins with the code. -/
theorem ClosedWith.head (h : ClosedWith code words type w w') :
    ∃ es more, w'.log = w.log ++ es ∧ heard es = .closing code :: more := by
  obtain ⟨es, f, buf, max, hlog, -, hheard⟩ := h.log
  simp only [List.append_assoc, List.cons_append] at hheard
  exact ⟨es, _, hlog, hheard⟩

/-- The trace tells the code. -/
theorem ClosedWith.code_eq (h : ClosedWith code words type w w')
    (h' : ClosedWith code' words' type' w w') : code = code' := by
  obtain ⟨es, more, hlog, hheard⟩ := h.head
  obtain ⟨es', more', hlog', hheard'⟩ := h'.head
  obtain rfl := List.append_cancel_left (hlog.symm.trans hlog')
  exact Event.closing.inj (List.cons.inj (hheard.symm.trans hheard')).1

/-- The code is made known. -/
theorem ClosedWith.closing_mem (h : ClosedWith code words type w w') :
    .closing code ∈ w.since w' := by
  obtain ⟨es, more, hlog, hheard⟩ := h.head
  rw [World.since, hlog, List.drop_left]
  refine closing_mem_shown (List.mem_of_mem_filter (p := fun e => e ≠ .status .notOpen) ?_)
  rw [show es.filter _ = heard es from rfl, hheard]
  exact List.mem_cons_self

/-- The frame of a closed instance does not matter. -/
theorem ClosedWith.agrees {u : World σ} (h : Agrees u w') :
    ClosedWith code words type w w' ↔ ClosedWith code words type w u := by
  constructor <;> rintro ⟨hs, hlog⟩
  · exact ⟨h.state ▸ hs, by rw [← h.log]; exact hlog⟩
  · exact ⟨h.state.trans hs, by rw [h.log]; exact hlog⟩

theorem not_mem_since {es : List Event} (hlog : w'.log = w.log ++ es)
    (hno : .closing code ∉ es) : .closing code ∉ w.since w' := by
  intro hmem
  rw [World.since, hlog, List.drop_left] at hmem
  exact hno (closing_of_shown hmem)

/-- A text that is not UTF-8 does not close with a protocol error. -/
theorem Rejected.no_error {encoding : Encoding} (h : Rejected encoding w w') :
    .closing closeProtocolError ∉ w.since w' := by
  obtain ⟨pieces, es, hlog, hes⟩ := h.log
  rw [List.append_assoc] at hlog
  refine not_mem_since hlog fun hmem => ?_
  rcases List.mem_append.mp hmem with hmem | hmem
  · simpa [Event.Inside] using flatMap_offered_inside _ _ _ _ hmem
  · rcases List.mem_cons.mp hmem with hmem | hmem
    · exact absurd (Event.closing.inj hmem) (by decide)
    · simpa [Event.Farewell] using hes _ hmem

/-- Neither does a frame that leaves the instance open. -/
theorem Survives.no_error {f : Frame} (h : Survives f w w') :
    .closing closeProtocolError ∉ w.since w' := by
  cases h with
  | data kind hk hd =>
    refine not_mem_since hd.log fun hmem => ?_
    rcases List.mem_append.mp hmem with hmem | hmem
    · simpa [Event.Inside] using flatMap_offered_inside _ _ _ _ hmem
    · unfold offered at hmem
      split_ifs at hmem <;> simp at hmem
  | control hc ha =>
    obtain ⟨es, hes, hreply⟩ := ha.log
    refine not_mem_since hes fun hmem => ?_
    by_cases h₉ : f.opcode.val = 9
    · rw [Replies, if_pos h₉] at hreply
      obtain ⟨data, m, buf, max, -, rfl⟩ := hreply
      split_ifs at hmem <;> simp at hmem
    · rw [Replies, if_neg h₉] at hreply
      rw [hreply] at hmem
      split_ifs at hmem <;> simp at hmem

end Closing

section Header

variable {cb : Callbacks σ} {w : World σ} {f : Frame}

/-- A header that is let through does not close with a protocol error. -/
theorem header_no_error (hcb : cb.Obliging) (h : Boundary w)
    (hv : headerVerdict w.inst.rx.inside w.inst.rx.s.size f = none) :
    .closing closeProtocolError ∉ w.since (received cb f.header w) := by
  by_cases hp : f.payload = []
  · have hbody : f.body = [] := List.length_eq_zero_iff.mp (by rw [f.length_body, hp]; rfl)
    have hencode : f.encode = f.header := by rw [Frame.encode, hbody, List.append_nil]
    rw [← hencode, ← List.append_nil f.encode]
    rcases kind_of_startAllowed (startAllowed_of_none hv) with ⟨kind, hk⟩ | h₈ | h₉
    · rcases received_data hcb h hv hk with ⟨w', hd, hrun⟩ | ⟨-, -, -, w', hrej, hrun⟩
      · rw [hrun, received_boundary hd.boundary]
        exact (Survives.data kind hk hd).no_error
      · rw [hrun]
        exact hrej.no_error
    · rw [headerVerdict, if_pos (startAllowed_of_none hv)] at hv
      simp [sizeVerdict, h₈, hp] at hv
    · obtain ⟨w', ha, hrun⟩ := received_ping_pong hcb h hv h₉
      rw [hrun, received_boundary ha.boundary]
      exact (Survives.control h₉ ha).no_error
  · have hrun : received cb (f.header ++ []) w = _ := received_header h hv []
    rw [List.append_nil, received_nil_of_rests (entered_rests h hp)] at hrun
    rw [hrun]
    exact not_mem_since (List.append_nil _).symm List.not_mem_nil

/-- **A header closes with a protocol error exactly when its frame may not come next**, whatever the
callbacks do. -/
theorem drain_header_closes_iff (hcb : cb.Respect CalmAt) (ha : cb.Agreeable) (h : Boundary w) :
    ClosedWith closeProtocolError [] .close w (drain cb f.header w).2 ↔
      ¬f.Legal w.inst.rx.inside := by
  have hform := LengthForm.minimal_holds f.length_lt
  have hclosed {code : UInt16} (hv : headerVerdict w.inst.rx.inside w.inst.rx.s.size f = some code) :
      ClosedWith code [] .close w (drain cb f.header w).2 := by
    rw [headerVerdict_eq] at hv
    have hdrain := drain_headerAs_verdict hcb.idlesOfCalm h hform hv []
    rwa [List.append_nil, ← f.header_eq] at hdrain
  rw [← headerVerdict_eq_protocolError_iff w.inst.rx.inside w.inst.rx.s.size]
  cases hv : headerVerdict w.inst.rx.inside w.inst.rx.s.size f with
  | some code =>
    refine ⟨fun h' => by rw [(hclosed hv).code_eq h'], fun heq => ?_⟩
    rw [← Option.some.inj heq]
    exact hclosed hv
  | none =>
    refine ⟨fun h' => ?_, fun heq => by cases heq⟩
    have hgrant : (Callbacks.granting : Callbacks σ).Obliging := Callbacks.granting_obliging
    have hmirrors : Mirrors f.header w (drain cb f.header w).2 := by
      obtain ⟨habreast, -, htold⟩ := drain_granting hcb (ha.complies w f.header) h.toLive
      exact ⟨habreast, htold⟩
    have hmem := (hmirrors.mem_iff rfl).mp h'.closing_mem
    rw [← received_output hgrant h.toLive] at hmem
    exact absurd hmem (header_no_error hgrant h hv)

end Header

/-! ## Calls -/

/-- In calls of at most `n` bytes, the receiver accepts exactly the legal sequences of frames. When
the frames `pre` have been read and have left the instance open, the header of the next frame closes
it with `WIC_CLOSE_PROTOCOL_ERROR` exactly when that frame may not come next, and then nothing else
happens, whatever bytes follow. The control frames among `pre` have changed neither the message in
progress nor what has been handed on. -/
def ObeysRules (n : Nat) : Prop :=
  ∀ (σ : Type) (cb : Callbacks σ) (allowed : Caller → Call → Prop) (w w₀ : World σ)
    (pre : List Frame) (f : Frame) (ks : List Nat), Reentrant allowed cb → cb.Agreeable →
    Reachable allowed w → w.inst.state = .open → w.inst.rx.state = .opcode → (∀ k ∈ ks, k ≤ n) →
    feed cb ks (encodeAll pre) w = some ([], w₀) → w₀.inst.state = .open →
    let inside := insideAll w.inst.rx.inside pre
    (∀ (rest : List UInt8) (ls : List Nat), (∀ k ∈ ls, k ≤ n) →
      Enough w ls (encodeAll pre ++ f.header ++ rest) →
      ∃ w', feed cb ls (encodeAll pre ++ f.header ++ rest) w = some ([], w') ∧
        (¬f.Legal inside → ClosedWith closeProtocolError [] .close w₀ w') ∧
        (rest = [] → ClosedWith closeProtocolError [] .close w₀ w' → ¬f.Legal inside)) ∧
    ∀ ls : List Nat, (∀ k ∈ ls, k ≤ n) →
      Enough w ls (encodeAll (pre.filter fun f => !f.isControl)) →
      ∃ w', feed cb ls (encodeAll (pre.filter fun f => !f.isControl)) w = some ([], w') ∧
        w'.inst.state = .open ∧ w'.inst.rx.inside = w₀.inst.rx.inside ∧
        w.messages w' = w.messages w₀

section Calls

variable {cb : Callbacks σ} {w w₀ w' : World σ} {pre : List Frame} {ks : List Nat}

/-- Frames that have been read and have left the instance open. -/
theorem read_frames (hcb : cb.Respect CalmAt) (ha : cb.Agreeable) (h : Boundary w)
    (hks : ∀ k ∈ ks, k < 2 ^ 32) (hfeed : feed cb ks (encodeAll pre) w = some ([], w₀))
    (ho₀ : w₀.inst.state = .open) :
    drain cb (encodeAll pre) w = ([], w₀) ∧ Boundary w₀ ∧
      (received .granting (encodeAll pre) w).inst.state = .open ∧
      w₀.inst.rx.inside = insideAll w.inst.rx.inside pre := by
  have hq := hcb.idlesOfCalm.quietOfIdles
  obtain ⟨habreast, hend, -⟩ := drain_granting hcb (ha.complies w (encodeAll pre)) h.toLive
  obtain ⟨rest, w₀', hfeed', -, hdrained⟩ := feed_drain hq ks
    (fun k hk => Nat.lt_of_le_of_lt (List.length_take_le k _) (hks k hk)) h.receiving h.state
    h.rests fun ho => (hend ho).2
  obtain ⟨rfl, rfl⟩ := Prod.mk.inj (Option.some.inj (hfeed.symm.trans hfeed'))
  obtain ⟨as, hsplit, hd⟩ := hdrained.of_open ho₀
  rw [List.append_nil] at hsplit
  subst hsplit
  have hlive := drain_live hq h.toLive (encodeAll pre)
  rw [hd] at habreast hlive
  have hopen : (received .granting (encodeAll pre) w).inst.state = .open :=
    habreast.state.symm.trans ho₀
  obtain ⟨hbound, hin⟩ := received_frames Callbacks.granting_obliging pre h hopen
  refine ⟨hd, ⟨hlive ho₀, ?_⟩, hopen, ?_⟩
  · rw [habreast.rx hopen]
    exact hbound.boundary
  · rw [habreast.rx hopen]
    exact hin

/-- What follows frames that have been read. -/
theorem drain_read (hcb : cb.Respect CalmAt) (h : Boundary w) (h₀ : Boundary w₀)
    {as : List UInt8} (hd : drain cb as w = ([], w₀)) (bs : List UInt8) :
    drain cb (as ++ bs) w = drain cb bs w₀ := by
  rcases drain_append hcb.idlesOfCalm.quietOfIdles h.receiving as bs with ⟨-, -, heq⟩ | ⟨hs, -⟩
  · rw [heq, hd]
  · rw [hd] at hs
    exact absurd ⟨h₀.state, h₀.rests⟩ hs

/-- Control frames between data frames change nothing about what is handed on. -/
theorem messages_without_control (h : Boundary w)
    (ho : (received .granting (encodeAll pre) w).inst.state = .open) :
    let datas := encodeAll (pre.filter fun f => !f.isControl)
    (received .granting datas w).inst.state = .open ∧
      (received .granting datas w).inst.rx.inside =
        (received .granting (encodeAll pre) w).inst.rx.inside ∧
      (w.output datas).filter Part.isMessage =
        (w.output (encodeAll pre)).filter Part.isMessage := by
  have hgrant : (Callbacks.granting : Callbacks σ).Obliging := Callbacks.granting_obliging
  obtain ⟨hsame, ho'⟩ := received_without_control hgrant pre h h (.refl w) ho
  dsimp only at ho' hsame ⊢
  refine ⟨ho', hsame.inside, ?_⟩
  obtain ⟨ps, hps⟩ := received_exchanges hgrant pre h ho
  obtain ⟨qs, hqs⟩ := received_exchanges hgrant _ h ho'
  have hparts := hsame.parts
  rw [hps.accepted, hqs.accepted] at hparts
  have haccepted := List.append_cancel_left hparts
  rw [← received_output hgrant h.toLive, ← received_output hgrant h.toLive]
  have hsince := hps.shows.eq_shown
  have hsince' := hqs.shows.eq_shown
  rw [List.filter_true, List.filter_true] at hsince hsince'
  rw [hsince, hsince', ← Part.accepted_messages, ← Part.accepted_messages, haccepted]

end Calls

theorem obeysRules_of_lt {n : Nat} (hn : n < 2 ^ 32) : ObeysRules n := by
  intro σ cb allowed w w₀ pre f ks hcb ha hw ho hb hks hfeed ho₀
  have hcalm := hcb.calm
  have hbound := hw.boundary ho hb
  have hshort (ls : List Nat) (hls : ∀ k ∈ ls, k ≤ n) (bs : List UInt8) :
      ∀ k ∈ ls, (bs.take k).length < 2 ^ 32 := fun k hk =>
    Nat.lt_of_le_of_lt (List.length_take_le k bs) (Nat.lt_of_le_of_lt (hls k hk) hn)
  obtain ⟨hd, hbound₀, hopen, hin⟩ := read_frames hcalm ha hbound
    (fun k hk => Nat.lt_of_le_of_lt (hks k hk) hn) hfeed ho₀
  dsimp only
  rw [← hin]
  refine ⟨fun rest ls hls henough => ?_, fun ls hls henough => ?_⟩
  -- a frame that breaks the rules closes the instance with its header, and no other one does
  · have hcomplies := ha.complies w (encodeAll pre ++ f.header ++ rest)
    obtain ⟨w', hrun, hagree⟩ := feed_agrees hcb.quiet hbound.toLive hbound.rests
      (hshort ls hls _) (fun ho => ((drain_granting hcalm hcomplies hbound.toLive).2.1 ho).2) henough
    rw [List.append_assoc, drain_read hcalm hbound hbound₀ hd] at hagree
    refine ⟨w', hrun, fun hill => ?_, fun hnil hcl => ?_⟩
    · have hform := LengthForm.minimal_holds f.length_lt
      have hv := (headerVerdict_eq_protocolError_iff _ w₀.inst.rx.s.size f).mpr hill
      rw [headerVerdict_eq] at hv
      have hclosed := drain_headerAs_verdict hcalm.idlesOfCalm hbound₀ hform hv rest
      rw [← f.header_eq] at hclosed
      exact (ClosedWith.agrees hagree).mpr hclosed
    · rw [ClosedWith.agrees hagree, hnil, List.append_nil] at hcl
      exact (drain_header_closes_iff hcalm ha hbound₀).mp hcl
  -- without the control frames the messages are the same
  · obtain ⟨ho', hin', hmessages⟩ := messages_without_control hbound hopen
    obtain ⟨habreast, -, htold⟩ := drain_granting hcalm (ha.complies w (encodeAll pre)) hbound.toLive
    rw [hd] at habreast htold
    have hmirrors : Mirrors (encodeAll pre) w w₀ := ⟨habreast, htold⟩
    obtain ⟨w', hrun, hmirrors'⟩ := feed_mirrors hcalm (ha.complies w _) hbound.toLive hbound.rests
      (hshort ls hls _) henough
    refine ⟨w', hrun, hmirrors'.abreast.state.trans ho', ?_, ?_⟩
    · have hrx := hmirrors'.abreast.rx ho'
      have hrx₀ := habreast.rx hopen
      rw [hrx, hrx₀]
      exact hin'
    · rw [hmirrors'.messages, hmirrors.messages, hmessages]

/-- A reserved frame in a block whose length is a multiple of 2^32 is not even read, although no call
can be broken off in it. -/
theorem reserved_unread {n : Nat} (hn : 2 ^ 32 ≤ n) : ∃ (w : World Unit) (f : Frame)
    (rest : List UInt8) (k : Nat), (∀ allowed, Reachable allowed w) ∧ Boundary w ∧
    ¬f.Legal w.inst.rx.inside ∧ k ≤ n ∧ Enough w [k] (f.header ++ rest) ∧
    feed Sample.giving [k] (f.header ++ rest) w = some (f.header ++ rest, w) := by
  obtain ⟨w, hw, hbound, -⟩ := Sample.opens_inside
  let f : Frame := ⟨true, 0, 3, none, [], by decide⟩
  have hhead : f.header = [0x83, 0x00] := by decide
  have hlen : (f.header ++ List.replicate (2 ^ 32 - 2) 0).length = 2 ^ 32 := by
    rw [hhead, List.length_append, List.length_replicate]
    rfl
  refine ⟨w, f, List.replicate (2 ^ 32 - 2) 0, 2 ^ 32, hw, hbound, fun hl => hl.2, hn, ?_, ?_⟩
  · refine ⟨by simp, .inr ⟨?_, by rw [hlen]; simp⟩⟩
    -- the first byte closes the instance
    refine (RxFrame.keyless_cons_of_rests hbound.rests f.firstByte _).mpr fun hv => ?_
    rw [RxFrame.verdict_firstByte hbound.boundary hbound.lawful.frag, if_neg (by simp [startAllowed, f])]
      at hv
    cases hv
  · generalize f.header ++ List.replicate (2 ^ 32 - 2) 0 = data at hlen
    have hrun := hbound.unread Sample.giving_obliging.quiet (by rw [hlen, Nat.mod_self])
    rw [feed, List.take_of_length_le (Nat.le_of_eq hlen), hrun]
    rfl

/-- **The receiver accepts exactly the legal sequences of frames as long as a stream can count the
bytes of every call.** -/
theorem obeysRules_iff (n : Nat) : ObeysRules n ↔ n < 2 ^ 32 := by
  refine ⟨fun h => ?_, obeysRules_of_lt⟩
  by_contra hn
  obtain ⟨w, f, rest, k, hw, hbound, hill, hk, henough, hrun⟩ := reserved_unread (Nat.not_lt.mp hn)
  obtain ⟨hrules, -⟩ := h Unit Sample.giving (fun _ _ => True) w w [] f []
    (.passive Sample.giving_obliging.toPassive) Sample.giving_obliging.agreeable (hw _) hbound.state
    hbound.boundary (by simp) rfl hbound.state
  obtain ⟨w', hrun', hcl, -⟩ := hrules rest [k] (by simpa using hk) henough
  obtain ⟨-, rfl⟩ := Prod.mk.inj (Option.some.inj (hrun.symm.trans hrun'))
  exact absurd hbound.state (by rw [(hcl hill).state]; decide)

/-- 2^32 bytes that begin with a reserved opcode, handed over at once: nothing is read, and the
instance stays open. -/
theorem reserved_accepted : ∃ (w : World Unit) (f : Frame) (rest : List UInt8) (k : Nat),
    (∀ allowed, Reachable allowed w) ∧ Boundary w ∧ ¬f.Legal w.inst.rx.inside ∧ k ≤ 2 ^ 32 ∧
    Enough w [k] (f.header ++ rest) ∧
    feed Sample.giving [k] (f.header ++ rest) w = some (f.header ++ rest, w) :=
  reserved_unread (Nat.le_refl _)

end Wic
