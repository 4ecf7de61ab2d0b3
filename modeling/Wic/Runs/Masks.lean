import Wic.Runs.Pongs

/-!
# Masking

Whether a frame is masked or not makes no difference to what the receiver makes known of it, and to
the state it is in afterwards, as long as the position in the rx buffer tells which byte of the key
is due: when the payload fits the buffer, or the size of the buffer is a multiple of the size of a
key.

## Main definitions

* `RxFrame.bare`: a frame without its key
* `RxFrame.behind`: the receiver behind a list of bytes
* `RxFrame.Alike`: two frames that come to the same
* `MaskFree`: the mask of a frame makes no difference

## Main results

* `RxFrame.alike_payload`: masked bytes come to what they decode to
* `Reachable.mask_free_iff`
-/

namespace Wic

open Websocket (Frame Key Kind xorKey)

variable {σ : Type}

namespace RxFrame

/-- The frame without its key. -/
def bare (rx : RxFrame) : RxFrame := { rx with mask := .replicate 4 0, masked := false }

/-- The state of the text and the receiver behind a list of bytes, unless the instance has been
closed on the way. -/
def behind (hs : Handlers) : List UInt8 → Nat → RxFrame → Option (Nat × RxFrame)
  | [], u, rx =>
    match rx.performs hs u with
    | .closes _ => none
    | .goes _ u rx => some (u, rx)
  | b :: bs, u, rx =>
    match rx.performs hs u with
    | .closes _ => none
    | .goes _ u rx => if rx.verdict u b = none then behind hs bs u (rx.take u b) else none

/-- The two frames come to the same on the bytes that are left for them, up to the keys they keep. -/
structure Alike (hs : Handlers) (u : Nat) (rx : RxFrame) (bs : List UInt8) (rx' : RxFrame)
    (bs' : List UInt8) : Prop where
  output : rx.output hs bs u = rx'.output hs bs' u
  behind : (rx.behind hs bs u).map (Prod.map id bare) = (rx'.behind hs bs' u).map (Prod.map id bare)

variable {rx rx' : RxFrame} {hs : Handlers} {u : Nat} {as as' bs bs' : List UInt8}

theorem Alike.symm (h : Alike hs u rx bs rx' bs') : Alike hs u rx' bs' rx bs :=
  ⟨h.output.symm, h.behind.symm⟩

theorem Alike.trans {rx'' : RxFrame} {bs'' : List UInt8} (h : Alike hs u rx bs rx' bs')
    (h' : Alike hs u rx' bs' rx'' bs'') : Alike hs u rx bs rx'' bs'' :=
  ⟨h.output.trans h'.output, h.behind.trans h'.behind⟩

/-! ## Headers -/

theorem behind_cons_of_rests (h : rx.Rests) (b : UInt8) (bs : List UInt8) :
    rx.behind hs (b :: bs) u =
      if rx.verdict u b = none then (rx.take u b).behind hs bs u else none := by
  rw [behind, performs_of_rests h]

/-- Bytes that flow make nothing known. -/
theorem flows_output (hs : Handlers) (h : rx.Flows u as) (bs : List UInt8) :
    rx.output hs (as ++ bs) u = (rx.takeAll u as).output hs bs u ∧
      rx.behind hs (as ++ bs) u = (rx.takeAll u as).behind hs bs u := by
  induction as generalizing rx with
  | nil => exact ⟨rfl, rfl⟩
  | cons a as ih =>
    obtain ⟨hrest, hv, hflows⟩ := h
    obtain ⟨hout, hbehind⟩ := ih hflows
    rw [List.cons_append, output_cons_of_rests hrest, behind_cons_of_rests hrest, hv, if_pos rfl]
    exact ⟨hout, hbehind⟩

/-- Bytes that break make the farewell known. -/
theorem breaks_output (hs : Handlers) {code : UInt16} {type : BufferType}
    (h : rx.Breaks u (code, type) as) (bs : List UInt8) :
    rx.output hs (as ++ bs) u = farewell hs code .null type ∧
      rx.behind hs (as ++ bs) u = none := by
  induction as generalizing rx with
  | nil => exact h.elim
  | cons a as ih =>
    obtain ⟨hrest, hv | ⟨hv, hbreaks⟩⟩ := h
    · rw [List.cons_append, output_cons_of_rests hrest, behind_cons_of_rests hrest, hv]
      exact ⟨rfl, rfl⟩
    · rw [List.cons_append, output_cons_of_rests hrest, behind_cons_of_rests hrest, hv, if_pos rfl]
      exact ih hbreaks

/-! ## Payloads -/

/-- The work that is due does not look at the key. -/
theorem performs_bare (rx : RxFrame) (hs : Handlers) (u : Nat) :
    rx.bare.performs hs u =
      match rx.performs hs u with
      | .closes ps => .closes ps
      | .goes ps u rx => .goes ps u rx.bare := by
  have hends : rx.bare.ends hs u =
      match rx.ends hs u with
      | .closes ps => .closes ps
      | .goes ps u rx => .goes ps u rx.bare := by
    unfold ends
    rw [show rx.bare.dataOpcode = rx.dataOpcode from rfl]
    cases rx.dataOpcode with
    | text =>
      rw [show rx.bare.fin = rx.fin from rfl, show rx.bare.utf8 = rx.utf8 from rfl]
      dsimp only
      split_ifs <;> rfl
    | _ => rfl
  unfold performs
  rw [show rx.bare.state = rx.state from rfl]
  cases rx.state with
  | data =>
    rw [show rx.bare.size = rx.size from rfl, show rx.bare.s = rx.s from rfl]
    dsimp only
    split_ifs
    · exact hends
    · rfl
    · rfl
  | _ => rfl

/-- A byte of a payload is taken as what it decodes to. -/
theorem take_bare (h : rx.state = .data) (b : UInt8) :
    rx.bare.verdict u (rx.unmask b) = rx.verdict u b ∧
      rx.bare.take u (rx.unmask b) = (rx.take u b).bare := by
  have htake : rx.bare.takeData (rx.unmask b) = (rx.takeData b).bare := by
    have hstored : rx.bare.stored (rx.unmask b) = (rx.stored b).bare := rfl
    unfold takeData
    dsimp only
    rw [hstored, show (rx.stored b).bare.inText = (rx.stored b).inText from rfl]
    split_ifs <;> rfl
  have hstate : rx.bare.state = .data := h
  unfold verdict take
  rw [h, hstate]
  exact ⟨by dsimp only; rw [htake]; rfl, htake⟩

/-- **Masked bytes of a payload come to what they decode to.** -/
theorem alike_payload (h : rx.Lawful) (hd : rx.state = .data) (hlen : bs.length ≤ rx.size) :
    Alike hs u rx bs rx.bare (decode rx.key rx.s.size rx.s.pos bs) := by
  induction bs generalizing rx with
  | nil =>
    refine ⟨?_, ?_⟩
    · rw [decode, output, output, performs_bare]
      cases rx.performs hs u <;> rfl
    · rw [decode, behind, behind, performs_bare]
      cases rx.performs hs u <;> rfl
  | cons b bs ih =>
    rw [List.length_cons] at hlen
    have hz : rx.size ≠ 0 := by omega
    obtain ⟨hsettled, hp⟩ : rx.Settled rx.vacate ∧ rx.performs hs u =
        .goes (if rx.s.eof then rx.flushes hs else []) u rx.vacate := by
      rw [performs_of_data hd, if_neg hz, vacate, Stream.vacate]
      by_cases he : rx.s.eof = true
      · rw [if_pos he, if_pos he, if_pos he]
        exact ⟨.flushed hd hz he, rfl⟩
      · rw [if_neg he, if_neg he, if_neg he]
        exact ⟨.rested fun _ => ⟨hz, by simpa using he⟩, rfl⟩
    have hrest := hsettled.rests h.toSound
    obtain ⟨hv, ht⟩ : rx.vacate.bare.verdict u (rx.vacate.unmask b) = _ ∧ _ :=
      take_bare (show rx.vacate.state = .data from hd) b
    have hdecoded : rx.vacate.unmask b = rx.decoded b := rfl
    rw [hdecoded] at hv ht
    rw [decode_cons]
    -- what comes behind the byte, unless the byte closes the instance
    have hnext (hnone : rx.vacate.verdict u b = none) : Alike hs u (rx.vacate.take u b) bs
        (rx.vacate.take u b).bare (decode rx.key rx.s.size (rx.vacate.s.pos + 1) bs) := by
      have hlawful := (hsettled.lawful h).take hrest hnone
      have htake : rx.vacate.take u b = rx.vacate.takeData b := by
        rw [take, show rx.vacate.state = .data from hd]
      obtain ⟨-, hpos, hsize⟩ := putU8_vacate h hd (rx.decoded b)
      have hs' : (rx.vacate.takeData b).s = rx.s.vacate.putU8 (rx.decoded b) := takeData_s b _
      have hkey : (rx.vacate.takeData b).key = rx.key := by
        unfold takeData
        dsimp only
        split_ifs <;> rfl
      rw [htake] at hlawful ⊢
      have hih : Alike hs u (rx.vacate.takeData b) bs _ _ := ih hlawful ((takeData_state b _).trans hd) (by
        rw [(takeData_fields b _).2.2.2]
        show bs.length ≤ rx.size - 1
        omega)
      rw [hkey, hs', hsize, hpos] at hih
      exact hih
    refine ⟨?_, ?_⟩
    · rw [output, output, performs_bare, hp]
      dsimp only
      rw [hv, ht]
      cases hverdict : rx.vacate.verdict u b with
      | none => exact congrArg _ (hnext hverdict).output
      | some r => rfl
    · rw [behind, behind, performs_bare, hp]
      dsimp only
      rw [hv, ht]
      split_ifs with hverdict
      · exact (hnext hverdict).behind
      · rfl

/-- **A frame comes to the same with a key and without it**, when the key is taken off its payload. -/
theorem alike_frame (h : rx.Lawful) (hst : rx.state = .opcode) {f : Frame} {key : Key}
    (hdecode : decode (some key) rx.s.size 0 (xorKey key 0 f.payload) = f.payload) :
    Alike hs u rx { f with key := some key }.encode rx { f with key := none }.encode := by
  let masked : Frame := { f with key := some key }
  let plain : Frame := { f with key := none }
  show Alike hs u rx masked.encode rx plain.encode
  -- the header closes the instance before the key is looked at
  cases hv : headerVerdict rx.inside rx.s.size f with
  | some code =>
    obtain ⟨hout, hbehind⟩ := breaks_output hs
      (breaks_header (f := masked) (u := u) hst h.frag hv) masked.body
    obtain ⟨hout', hbehind'⟩ := breaks_output hs
      (breaks_header (f := plain) (u := u) hst h.frag hv) plain.body
    exact ⟨hout.trans hout'.symm, by rw [Frame.encode, hbehind, Frame.encode, hbehind']⟩
  | none =>
    have hrsv : f.rsv = 0 := by
      unfold headerVerdict at hv
      split_ifs at hv with hstart
      exact rsv_of_startAllowed hstart
    -- or either frame comes to its payload with the key taken off
    have hbody (g : Frame) (hg : headerVerdict rx.inside rx.s.size g = none) (hr : g.rsv = 0) :
        Alike hs u rx g.encode (rx.entered u g).bare (decode g.key rx.s.size 0 g.body) := by
      have hflows := flows_header (u := u) hst h.frag hg
      have htake := takeAll_header (u := u) hst hr
      have hlawful := hflows.lawful h
      obtain ⟨hout, hbehind⟩ := flows_output hs hflows g.body
      rw [htake] at hlawful hout hbehind
      have hpay : Alike hs u (rx.entered u g) g.body _ _ :=
        alike_payload hlawful rfl (Nat.le_of_eq g.length_body)
      rw [entered_key] at hpay
      exact ⟨hout.trans hpay.output, by rw [Frame.encode, hbehind]; exact hpay.behind⟩
    have hmasked := hbody masked hv hrsv
    have hplain := hbody plain hv hrsv
    have hpayload : decode masked.key rx.s.size 0 masked.body = f.payload := hdecode
    have hpayload' : decode plain.key rx.s.size 0 plain.body = f.payload :=
      decode_none rx.s.size 0 f.payload
    rw [hpayload] at hmasked
    rw [hpayload'] at hplain
    exact hmasked.trans hplain.symm

end RxFrame

/-! ## What the receiver has come to -/

/-- **An application that is never held up finds the receiver where the bytes have taken it.** -/
theorem received_behind {cb : Callbacks σ} (hcb : cb.Obliging) {w : World σ} (h : Live w)
    (bs : List UInt8) :
    match w.inst.rx.behind w.inst.handlers bs w.inst.utf8Rx with
    | none => (received cb bs w).inst.state = .closed
    | some (u, rx) => (received cb bs w).inst.state = .open ∧
        (received cb bs w).inst.utf8Rx = u ∧ (received cb bs w).inst.rx = rx := by
  -- no work is refused, so that the receiver does what is due
  have hb := settle_obliging hcb h
  have hheard : cb.Heard fun _ => true := hcb.supplying.heard
  have hsetup := (settle_receiving hcb.quiet h.receiving).2
  have hrest := settle_rests hcb.quiet h.receiving hb
  have hlive := settle_live hcb.quiet h
  have hperf := (settle_performs hheard h).resolve_left fun hr => by simp [hb] at hr
  obtain ⟨-, hperf⟩ := hperf
  have hhandlers := hsetup.handlers
  rw [received_settle hcb h]
  generalize hp : w.inst.rx.performs w.inst.handlers w.inst.utf8Rx = p at hperf
  generalize (settle cb w).2 = w' at hperf hrest hlive hhandlers ⊢
  cases p with
  | closes ps =>
    have hc : w'.inst.state = .closed := hperf.2
    have hnone : w.inst.rx.behind w.inst.handlers bs w.inst.utf8Rx = none := by
      cases bs <;> rw [RxFrame.behind, hp]
    rw [hnone, received_of_not_open (by simp [hc])]
    exact hc
  | goes ps u rx =>
    obtain ⟨-, rfl, rfl, hstate⟩ := hperf
    have ho : w'.inst.state = .open := (hstate hcb.toPassive.steady).trans h.state
    cases bs with
    | nil =>
      rw [RxFrame.behind, hp, received_nil_of_rests hrest]
      exact ⟨ho, rfl, rfl⟩
    | cons b bs =>
      rw [RxFrame.behind, hp, received_cons ho hrest]
      dsimp only
      -- the byte goes on, or it closes the instance
      by_cases hv : w'.inst.rx.verdict w'.inst.utf8Rx b = none
      · rw [if_pos hv, ← hhandlers, consume_of_none hv]
        have ho' : (consume cb b w').inst.state = .open := by
          rw [consume_of_none hv]
          exact ho
        have hlive' := consume_live hcb.quiet (hlive ho) hrest ho'
        rw [consume_of_none hv] at hlive'
        exact received_behind hcb hlive' bs
      · obtain ⟨r, hr⟩ := Option.ne_none_iff_exists'.mp hv
        have hc := consume_closed hcb.quiet (hlive ho).role ho hr
        rw [if_neg hv, received_of_not_open (by simp [hc])]
        exact hc
termination_by bs.length

/-- The mask of a frame makes no difference: to what is made known, to the state of the instance, and
to everything an open instance keeps but the key. The masked frame is handed over in calls of the
sizes `ks`, the other one in calls of the sizes `ls`. -/
def MaskFree (cb : Callbacks σ) (w : World σ) (f : Frame) (key : Key) : Prop :=
  ∀ ks ls : List Nat, (∀ k ∈ ks ++ ls, k < 2 ^ 32) →
    Enough w ks { f with key := some key }.encode → Enough w ls { f with key := none }.encode →
    ∃ u v, feed cb ks { f with key := some key }.encode w = some ([], u) ∧
      feed cb ls { f with key := none }.encode w = some ([], v) ∧
      w.since u = w.since v ∧ u.inst.state = v.inst.state ∧
      (u.inst.state = .open →
        { u.inst with rx := u.inst.rx.bare } = { v.inst with rx := v.inst.rx.bare })

section MaskFree

variable {cb : Callbacks σ} {w w' : World σ} {f : Frame} {key : Key}

theorem Survives.inst (h : Survives f w w') :
    w'.inst = { w.inst with rx := w'.inst.rx, utf8Rx := w'.inst.utf8Rx } := by
  cases h with
  | data kind hk hd => exact hd.inst
  | control hc ha =>
    have hutf8 : w'.inst.utf8Rx = w.inst.utf8Rx := by rw [ha.inst]
    rw [hutf8]
    exact ha.inst

/-- Of an instance that stays open a frame changes the receiver and the state of the text. -/
theorem received_inst (hcb : cb.Obliging) (h : Boundary w) (f : Frame)
    (ho : (received cb f.encode w).inst.state = .open) : (received cb f.encode w).inst =
      { w.inst with
        rx := (received cb f.encode w).inst.rx
        utf8Rx := (received cb f.encode w).inst.utf8Rx } := by
  rcases received_frame hcb h f with ⟨-, w', hs, hrun⟩ | ⟨w', hc, -, hrun⟩
  · have hall := hrun []
    rw [List.append_nil, received_boundary hs.boundary] at hall
    rw [hall]
    exact hs.inst
  · have hall := hrun []
    rw [List.append_nil] at hall
    rw [hall, hc] at ho
    cases ho

/-- **A mask that is taken off makes no difference.** -/
theorem mask_free (hcb : cb.Obliging) (h : Boundary w)
    (hdecode : decode (some key) w.inst.rx.s.size 0 (xorKey key 0 f.payload) = f.payload) :
    MaskFree cb w f key := by
  intro ks ls hsizes hks hls
  -- every call is shorter than 2^32 bytes
  have hshort (l : List Nat) (hl : ∀ k ∈ l, k ∈ ks ++ ls) (bs : List UInt8) :
      ∀ k ∈ l, (bs.take k).length < 2 ^ 32 := fun k hk =>
    Nat.lt_of_le_of_lt (List.length_take_le k bs) (hsizes k (hl k hk))
  obtain ⟨u, hu, hagree⟩ := feed_received hcb h.toLive h.rests
    (hshort ks (fun _ => List.mem_append_left ls) _) hks
  obtain ⟨v, hv, hagree'⟩ := feed_received hcb h.toLive h.rests
    (hshort ls (fun _ => List.mem_append_right ks) _) hls
  obtain ⟨hout, hbehind⟩ : RxFrame.Alike w.inst.handlers w.inst.utf8Rx w.inst.rx _ w.inst.rx _ :=
    RxFrame.alike_frame h.lawful h.boundary hdecode
  have hmask := received_behind hcb h.toLive { f with key := some key }.encode
  have hopen := received_behind hcb h.toLive { f with key := none }.encode
  have hinst := received_inst hcb h { f with key := some key }
  have hinst' := received_inst hcb h { f with key := none }
  -- the output depends on the trace alone
  have hsince {a b : World σ} (ha : b.log = a.log) : w.since a = w.since b := by
    rw [World.since, World.since, ha]
  refine ⟨u, v, hu, hv, ?_, ?_⟩
  · rw [← hsince hagree.log, ← hsince hagree'.log, received_output hcb h.toLive,
      received_output hcb h.toLive]
    exact hout
  -- and so do the state and the receiver that are left
  · rw [hagree.state, hagree'.state]
    cases hs : w.inst.rx.behind w.inst.handlers { f with key := some key }.encode w.inst.utf8Rx with
    | none =>
      rw [hs] at hbehind hmask
      rw [Option.map_eq_none_iff.mp hbehind.symm] at hopen
      rw [hmask, hopen]
      refine ⟨rfl, fun hno => ?_⟩
      cases hno
    | some r =>
      obtain ⟨n, rx⟩ := r
      rw [hs] at hbehind hmask
      obtain ⟨⟨n', rx'⟩, hs', heq⟩ := Option.map_eq_some_iff.mp hbehind.symm
      obtain ⟨hn, hrx⟩ := Prod.mk.inj heq
      rw [hs'] at hopen
      obtain ⟨ho, hutf8, hr⟩ := hmask
      obtain ⟨ho', hutf8', hr'⟩ := hopen
      rw [ho, ho']
      refine ⟨rfl, fun _ => ?_⟩
      rw [hagree.1 ho, hagree'.1 ho', hinst ho, hinst' ho', hr, hr', hutf8, hutf8']
      show ({ w.inst with rx := rx.bare, utf8Rx := n } : Inst) =
        { w.inst with rx := rx'.bare, utf8Rx := n' }
      rw [show rx'.bare = rx.bare from hrx, show n' = n from hn]

end MaskFree

/-! ## Where the mask shows -/

/-- A payload is decoded byte by byte as far as it fits the buffer. -/
theorem decode_append_of_fits (key : Option Mask) {room pos : Nat} {as : List UInt8}
    (h : pos + as.length ≤ room) (bs : List UInt8) :
    decode key room pos (as ++ bs) = decode key room pos as ++ decode key room (pos + as.length) bs := by
  induction as generalizing pos with
  | nil => rfl
  | cons a as ih =>
    rw [List.length_cons] at h
    have hne : pos ≠ room := by omega
    simp only [List.cons_append, decode, if_neg hne, List.length_cons]
    rw [ih (by omega), Nat.add_right_comm pos 1, Nat.add_assoc pos as.length 1]

/-- Behind a full buffer the key starts anew. -/
theorem decode_full (key : Key) (room : Nat) (b : UInt8) (bs : List UInt8) :
    decode (some key) room room (b :: bs) = (b ^^^ key.get 0) :: decode (some key) room 1 bs := by
  simp [decode]
  rfl

/-- A text of `n` characters that a mask can turn into something else. -/
def delText (n : Nat) (h : n < 2 ^ 64) : Frame :=
  .of true 1 none (List.replicate n 0x7f) (by rw [List.length_replicate]; exact h)

/-- Its characters are ASCII. -/
theorem utf8ParseString_del (n : Nat) : utf8ParseString 0 (List.replicate n 0x7f) = 0 := by
  induction n with
  | zero => rfl
  | succ n ih =>
    have hstep : utf8Parse 0 0x7f = 0 := by decide
    rw [List.replicate_succ, utf8ParseString_cons, hstep, ih]

/-- A key whose first byte alone is not 0. -/
def topKey : Key := #v[0x80, 0, 0, 0]

theorem topKey_eq_zero : ∀ i : Fin 4, i ≠ 0 → topKey.get i = 0 := by
  decide

theorem utf8Parse_topKey : utf8Parse 0 ((0x7f : UInt8) ^^^ (0 : UInt8) ^^^ topKey.get 0) = 1 := by
  decide

/-- The first byte behind a full buffer is unmasked with the wrong byte of the key. -/
theorem decode_del {n room : Nat} (hlong : room < n) (hroom : room % 4 ≠ 0) :
    utf8ParseString 0 (decode (some topKey) room 0 (xorKey topKey 0 (List.replicate n 0x7f))) = 1 := by
  obtain ⟨m, rfl⟩ := Nat.exists_eq_add_of_lt hlong
  have hzero : topKey[room % 4] = 0 :=
    topKey_eq_zero ⟨room % 4, Nat.mod_lt _ (by decide)⟩ fun h => hroom (congrArg Fin.val h)
  have hsplit : List.replicate (room + m + 1) (0x7f : UInt8) =
      List.replicate room 0x7f ++ 0x7f :: List.replicate m 0x7f := by
    rw [← List.replicate_succ, List.replicate_append_replicate, Nat.add_assoc]
  have hfits : 0 + (xorKey topKey 0 (List.replicate room 0x7f)).length ≤ room := by
    rw [Websocket.length_xorKey, List.length_replicate]
    omega
  rw [hsplit, Websocket.xorKey_append, decode_append_of_fits _ hfits, decode_of_fits hfits,
    Websocket.xorKey_xorKey, Websocket.length_xorKey, List.length_replicate, Nat.zero_add,
    Websocket.xorKey_cons, hzero, decode_full, utf8ParseString_append,
    utf8ParseString_del, utf8ParseString_cons, utf8Parse_topKey, utf8ParseString_invalid]

/-- **A frame that does not fit a buffer of another size than the keys** can differ masked. -/
theorem mask_shows {cb : Callbacks σ} (hcb : cb.Obliging) {w : World σ} (h : Boundary w)
    (hin : w.inst.rx.inside = none) {n : Nat} (hn : n < 2 ^ 64) (hlong : w.inst.rx.s.size < n)
    (hroom : w.inst.rx.s.size % 4 ≠ 0) : ¬MaskFree cb w (delText n hn) topKey := by
  intro hfree
  let masked : Frame := { delText n hn with key := some topKey }
  let plain : Frame := { delText n hn with key := none }
  have hcarries : plain.Carries w.inst.rx.inside .text := ⟨rfl, .inl ⟨hin, rfl⟩⟩
  have hcarries' : masked.Carries w.inst.rx.inside .text := ⟨rfl, .inl ⟨hin, rfl⟩⟩
  -- a call for each byte
  have hone {n : Nat} : ∀ k ∈ List.replicate n 1, k = 1 := fun k hk => List.eq_of_mem_replicate hk
  have henough (f : Frame) : Enough w (List.replicate f.encode.length 1) f.encode := by
    refine ⟨fun hnil => ?_, .inl ⟨fun k hk => ?_, by rw [List.length_replicate]⟩⟩
    · rw [List.replicate_eq_nil_iff, List.length_eq_zero_iff, Frame.encode, f.header_eq] at hnil
      exact absurd hnil (List.cons_ne_nil _ _)
    · rw [hone k hk]
      exact Nat.one_pos
  have hsizes : ∀ k ∈ List.replicate masked.encode.length 1 ++ List.replicate plain.encode.length 1,
      k < 2 ^ 32 := fun k hk => by
    rw [(List.mem_append.mp hk).elim (hone k) (hone k)]
    decide
  obtain ⟨u, v, hu, hv, -, hstate, -⟩ := hfree _ _ hsizes (henough masked) (henough plain)
  have hfed {f : Frame} {w' : World σ}
      (hw : feed cb (List.replicate f.encode.length 1) f.encode w = some ([], w')) :
      w'.inst.state = (received cb f.encode w).inst.state := by
    obtain ⟨w'', hw', hagree⟩ := feed_received hcb h.toLive h.rests (fun k hk => by
      rw [hone k hk]
      exact Nat.lt_of_le_of_lt (List.length_take_le 1 _) (by decide)) (henough f)
    obtain ⟨-, rfl⟩ := Prod.mk.inj (Option.some.inj (hw.symm.trans hw'))
    exact hagree.state
  rw [hfed hu, hfed hv] at hstate
  have hstart (f : Frame) (ho : f.opcode.val = 1) : textStart f w.inst.utf8Rx = 0 := by
    rw [textStart, if_neg (by omega)]
  -- the masked text is in error behind the first buffer
  have hclosed : (received cb masked.encode w).inst.state = .closed := by
    rcases received_data hcb h (headerVerdict_of_carries hcarries') hcarries'.kind_eq with
      ⟨w', hd, -⟩ | ⟨-, -, -, w', hr, hrun⟩
    · have hvalid := hd.valid rfl
      rw [hstart masked rfl] at hvalid
      refine absurd ?_ (hvalid (.inl (by decide)))
      rw [BadText, if_pos (show masked.fin = true from rfl)]
      show utf8ParseString 0 (decode (some topKey) _ 0 (xorKey topKey 0 (List.replicate n 0x7f))) ≠ 0
      rw [decode_del hlong hroom]
      decide
    · have hall := hrun []
      rw [List.append_nil] at hall
      rw [hall]
      exact hr.state
  have hopen : (received cb plain.encode w).inst.state = .open := by
    rcases received_data hcb h (headerVerdict_of_carries hcarries) hcarries.kind_eq with
      ⟨w', hd, hrun⟩ | ⟨-, hbad, -⟩
    · have hall := hrun []
      rw [List.append_nil, received_boundary hd.boundary] at hall
      rw [hall]
      exact hd.boundary.state
    · rw [hstart plain rfl, BadText, if_pos (show plain.fin = true from rfl)] at hbad
      refine absurd ?_ hbad
      show utf8ParseString 0 (decode none _ 0 (List.replicate n 0x7f)) = 0
      rw [decode_none, utf8ParseString_del]
  rw [hclosed, hopen] at hstate
  cases hstate

/-- **The mask of a frame makes no difference if and only if its payload fits the rx buffer or the
size of the buffer is a multiple of 4**: of every frame with a payload of `n` bytes, when they do;
and not of every one, at an instance between two messages, when they do not. -/
theorem Reachable.mask_free_iff {allowed : Caller → Call → Prop} {cb : Callbacks σ} {w : World σ}
    (hw : Reachable allowed w) (hcb : cb.Obliging) (ho : w.inst.state = .open)
    (hb : w.inst.rx.state = .opcode) {n : Nat} (hn : n < 2 ^ 64) :
    (n ≤ w.inst.rx.s.size ∨ w.inst.rx.s.size % 4 = 0 →
      ∀ f : Frame, f.payload.length = n → ∀ key, MaskFree cb w f key) ∧
    (w.inst.rx.inside = none → (∀ f : Frame, f.payload.length = n → ∀ key, MaskFree cb w f key) →
      n ≤ w.inst.rx.s.size ∨ w.inst.rx.s.size % 4 = 0) := by
  have hbound := hw.boundary ho hb
  refine ⟨fun hfits f hlen key => mask_free hcb hbound ?_, fun hin hfree => ?_⟩
  · rcases hfits with hfits | hroom
    · rw [decode_of_fits (by rw [Websocket.length_xorKey]; omega), Websocket.xorKey_xorKey]
    · rw [decode_of_dvd hroom _ 0 rfl, Websocket.xorKey_xorKey]
  · by_contra hno
    obtain ⟨hlong, hroom⟩ := not_or.mp hno
    exact mask_shows hcb hbound hin hn (Nat.not_le.mp hlong) hroom
      (hfree (delText n hn) List.length_replicate topKey)

/-- A buffer of 300 bytes. -/
theorem Sample.mask_free_large : ∃ w : World Unit, w.inst.rx.s.size = 300 ∧
    ∀ f : Frame, f.payload.length = 1000 → ∀ key, MaskFree giving w f key := by
  obtain ⟨w, hw, ho, hb, -, hs, -⟩ := opens
  obtain ⟨hfree, -⟩ := (hw fun _ _ => True).mask_free_iff giving_obliging ho hb
    (by decide : 1000 < 2 ^ 64)
  exact ⟨w, hs, hfree (.inr (by rw [hs]))⟩

end Wic
