import Wic.Receiver.Mail

/-!
# Calls that cannot be broken off

`parse_mask` returns a variable it does not set, so that a call may stop behind each of the first
three bytes of a mask although it has bytes left. It cannot stop in bytes of which none but the last
is such a byte, whatever the compiler makes of that variable; and frames without a mask are such
bytes.

## Main definitions

* `Enough`: enough calls to read the bytes
* `RxFrame.Bare`: the length or the payload of a frame without a mask is being received

## Main results

* `World.Keyless.unbroken`, `World.keyless_of_unbroken`: where calls may be broken off
* `feed_agrees`: enough calls
* `keyless_headerAs`, `keyless_encodeAll`: frames without a mask
-/

namespace Wic

open Websocket (Frame LengthForm encodeAll)

variable {σ : Type}

/-! ## Where a call may stop -/

section Unbroken

variable {G : Prop} {cb : Callbacks σ} {w : World σ}

/-- Bytes that are all read up to the last, and that one. -/
theorem drain_snoc (hcb : cb.Respect (QuietAt G)) (h : Receiving w) {as : List UInt8} {a : UInt8}
    (hall : (drain cb (as ++ [a]) w).1 = []) :
    ¬Stuck (drain cb as w).2 ∧
      drain cb (as ++ [a]) w = drain cb [] (consume cb a (drain cb as w).2) := by
  rcases drain_append hcb h as [a] with ⟨hns, -, hd⟩ | ⟨-, hd⟩
  · obtain ⟨ho, hrest⟩ := not_not.mp hns
    exact ⟨hns, by rw [hd, drain_cons_of_rests ho hrest]⟩
  · rw [hd] at hall
    simp at hall

/-- **Where no byte but the last is one of the first three of a mask, no call is broken off.** -/
theorem World.Keyless.unbroken {bs : List UInt8} (hk : w.Keyless bs)
    (hcb : cb.Respect (QuietAt False)) (h : Live w) : Unbroken cb bs w := by
  rintro as cs rfl has hcs hall ho hmask
  obtain ⟨init, a, rfl⟩ := List.eq_nil_or_concat' as |>.resolve_left has
  obtain ⟨hns, hd⟩ := drain_snoc hcb h.receiving hall
  obtain ⟨ho₁, hrest⟩ := not_not.mp hns
  obtain ⟨ps, hout⟩ := drain_mail hcb h init
  have hkey := hout.keyless ho₁ (a :: cs) (by simpa using hk)
  have hlive := drain_live hcb h init ho₁
  have hrest₁ : (drain cb init w).1 = [] := by
    rcases drain_append hcb h.receiving init [a] with ⟨-, hnil, -⟩ | ⟨hs, -⟩
    · exact hnil
    · exact absurd hs hns
  rw [hrest₁, List.nil_append] at hkey
  rw [hd] at ho hmask
  generalize (drain cb init w).2 = w₁ at ho₁ hrest hkey hlive ho hmask
  -- the last byte that was read leads into the mask
  have ho₂ : (consume cb a w₁).inst.state = .open := by
    by_contra hno
    rw [drain_of_not_open hno] at ho
    exact hno ho
  have hr₂ := (consume_setup hcb hlive.role a).role.trans hlive.role
  have hin : (consume cb a w₁).inst.rx.InMask := by
    rcases drain_cases hcb (consume_live hcb hlive hrest ho₂).receiving ho₂ with
      ⟨-, hd⟩ | ⟨-, hd⟩ | ⟨-, hrest', hd⟩
    · rw [hd] at hmask
      exact settle_inMask hcb hr₂ hmask
    · rw [hd] at hmask
      exact settle_inMask hcb hr₂ hmask
    · rw [hd, drain_nil_of_rests hrest'] at hmask
      exact settle_inMask hcb hr₂ hmask
  have hv := verdict_of_open hcb hlive.role ho₂
  rw [consume_rx hcb hlive.role] at hin
  have hnot := ((RxFrame.keyless_cons_of_rests hrest a cs).mp hkey hv).1.resolve_left hcs
  exact hnot hin

/-- **Only there**: any other place is one where an application that obliges may see a call broken
off. -/
theorem World.keyless_of_unbroken (hcb : cb.Obliging) {bs : List UInt8} {w : World σ} (h : Live w)
    (hu : Unbroken cb bs w) : w.Keyless bs := by
  induction bs generalizing w with
  | nil => trivial
  | cons b bs ih =>
    have hb := settle_obliging hcb h
    have hperf := settle_performs (hcb.supplying.heard : cb.Heard fun _ => true) h
    have hrest := settle_rests hcb.quiet h.receiving hb
    have hsetup := (settle_receiving hcb.quiet h.receiving).2
    -- the work that is due in front of the byte is done, as nobody refuses it
    have hdrain (ds : List UInt8) : drain cb ds w = drain cb ds (settle cb w).2 :=
      drain_settle hcb.quiet h.role h.lawful.toSound h.state hb
    rcases hperf with ⟨hb', -⟩ | ⟨-, hperf⟩
    · simp [hb] at hb'
    generalize hp : w.inst.rx.performs w.inst.handlers w.inst.utf8Rx = p at hperf
    cases p with
    | closes ps => exact RxFrame.keyless_of_closes hp (b :: bs)
    | goes ps u rx =>
      obtain ⟨-, rfl, rfl, hstate⟩ := hperf
      have ho := (hstate hcb.toPassive.steady).trans h.state
      have hlive := settle_live hcb.quiet h ho
      refine (RxFrame.keyless_of_goes hp hrest (b :: bs)).mpr ?_
      rw [← hsetup.handlers]
      generalize (settle cb w).2 = w' at hrest hdrain ho hlive
      rw [RxFrame.keyless_cons_of_rests hrest]
      -- a byte that closes the instance breaks off nothing
      intro hv
      have hnext : consume cb b w' = w'.updateRx fun rx => rx.take w'.inst.utf8Rx b :=
        consume_of_none hv
      have hcons (ds : List UInt8) : drain cb (b :: ds) w = drain cb ds (consume cb b w') := by
        rw [hdrain, drain_cons_of_rests ho hrest]
      have ho' : (consume cb b w').inst.state = .open := by rw [hnext]; exact ho
      have hkeyless : (consume cb b w').Keyless bs := by
        refine ih (consume_live hcb.quiet hlive hrest ho') fun as cs hsplit has hcs => ?_
        rw [← hcons as]
        exact hu (b :: as) cs (congrArg (b :: ·) hsplit) (by simp) hcs
      rw [hnext] at hkeyless hcons ho'
      refine ⟨or_iff_not_imp_left.mpr fun hne hm => ?_, hkeyless⟩
      -- in a mask behind the byte the call could be broken off there
      have hone := hcons []
      rw [drain_nil_of_rests (RxFrame.InMask.rests hm)] at hone
      have hno := hu [b] bs rfl (by simp) hne
      rw [hone] at hno
      exact hno rfl ho' hm

/-- Inside a mask the state of the receiver does not stay as it is, and does not come back without a
place where a call may be broken off. -/
theorem state_ne_of_inMask (hcb : cb.Respect (QuietAt G)) (h : Receiving w) (hm : w.inst.rx.InMask)
    (ho : w.inst.state = .open) {as : List UInt8} (has : as ≠ []) (hu : Unbroken cb as w)
    (hall : (drain cb as w).1 = []) :
    (drain cb as w).2.inst.rx.state ≠ w.inst.rx.state := by
  intro heq
  obtain ⟨init, z, rfl⟩ := List.eq_nil_or_concat' as |>.resolve_left has
  obtain ⟨hns, hd⟩ := drain_snoc hcb h hall
  obtain ⟨-, hk⟩ := drain_receiving hcb h init
  have hr := hk.role.trans h.role
  rw [hd] at heq
  -- the last byte leads into the mask again
  have hend : (drain cb [] (consume cb z (drain cb init w).2)).2.inst.rx.InMask := by
    rw [RxFrame.InMask, heq]
    exact hm
  have hlast := drain_nil_inMask hcb ((consume_setup hcb hr z).role.trans hr) hend
  rw [drain_nil_of_rests hlast.rests, consume_rx hcb hr] at heq
  rw [consume_rx hcb hr] at hlast
  have hbefore := RxFrame.inMask_of_take hlast
  -- so that the receiver has been in the state in front of it
  have hnext : ∀ (rx : RxFrame) u, rx.state = .mask0 ∨ rx.state = .mask1 ∨ rx.state = .mask2 →
      (rx.take u z).state = rx.state.nextMask := by
    rintro rx u (h | h | h) <;> simp [RxFrame.take, RxFrame.takeMask, h]
  rw [hnext _ _ hbefore] at heq
  by_cases hinit : init = []
  · subst hinit
    rw [drain_nil_of_rests hm.rests] at heq hbefore
    dsimp only at heq hbefore
    rcases hbefore with h | h | h <;> simp [h, RxState.nextMask] at heq
  · -- the byte in front of the last does not lead into the mask, so that the last is the first of one
    have hall' : (drain cb init w).1 = [] := by
      rcases drain_append hcb h init [z] with ⟨-, hnil, -⟩ | ⟨hs, -⟩
      · exact hnil
      · exact absurd hs hns
    have hnot := hu init [z] rfl hinit (by simp) hall' (not_not.mp hns).1
    have hfirst : (drain cb init w).2.inst.rx.state = .mask0 := by
      rcases hbefore with h | h | h
      · exact h
      · exact absurd (.inl h) hnot
      · exact absurd (.inr (.inl h)) hnot
    rw [hfirst] at heq
    have hw : w.inst.rx.state = .mask1 := heq.symm
    -- the first byte leads from the second of the mask to the third
    obtain ⟨a, init, rfl⟩ := List.exists_cons_of_ne_nil hinit
    have hv : w.inst.rx.verdict w.inst.utf8Rx a = none := by simp [RxFrame.verdict, hw]
    have htake : (w.inst.rx.take w.inst.utf8Rx a).state = .mask2 := by
      simp [RxFrame.take, RxFrame.takeMask, hw, RxState.nextMask]
    have hone : drain cb [a] w = ([], w.updateRx fun rx => rx.take w.inst.utf8Rx a) := by
      rw [drain_cons_of_rests ho hm.rests, consume_of_none hv]
      exact drain_nil_of_rests (RxFrame.InMask.rests (.inr (.inl htake)))
    have hno := hu [a] (init ++ [z]) rfl (by simp) (by simp)
    rw [hone] at hno
    exact hno rfl ho (.inr (.inl htake))

end Unbroken

/-! ## Enough calls -/

/-- Enough calls to read the bytes: one for each of them, or, where no call can be broken off, calls
for so many bytes. -/
def Enough (w : World σ) (ks : List Nat) (bs : List UInt8) : Prop :=
  ks ≠ [] ∧
    ((∀ k ∈ ks, 0 < k) ∧ bs.length ≤ ks.length ∨ w.Keyless bs ∧ bs.length ≤ ks.sum)

section Enough

variable {cb : Callbacks σ} {w w' : World σ} {ks : List Nat} {bs rest : List UInt8}

/-- Enough calls that are not refused read everything. -/
theorem Reads.enough (h : Reads cb ks bs rest w w') (hcb : cb.Respect (QuietAt False))
    (hlive : w.inst.state = .open → Live w) (he : Enough w ks bs) : rest = [] := by
  rcases he.2 with ⟨hpos, hlen⟩ | ⟨hk, hlen⟩
  · exact h.nil hpos hlen
  · have hu : Unbroken cb bs w := by
      by_cases ho : w.inst.state = .open
      · exact hk.unbroken hcb (hlive ho)
      · intro as cs _ _ _ _ ho'
        rw [drain_of_not_open ho] at ho'
        exact absurd ho' ho
    rw [(h.whole hu).1, List.drop_of_length_le hlen]

/-- A short list of bytes makes short calls. -/
theorem length_take_lt {n : Nat} (h : bs.length < n) (k : Nat) : (bs.take k).length < n :=
  Nat.lt_of_le_of_lt (List.length_take_le' k bs) h

/-- **Enough calls on bytes that nobody refuses** get as far as the receiver gets. -/
theorem feed_agrees (hcb : cb.Respect (QuietAt False)) (h : Live w) (hrest : w.inst.rx.Rests)
    (hlen : ∀ k ∈ ks, (bs.take k).length < 2 ^ 32)
    (hend : (drain cb bs w).2.inst.state = .open → (drain cb bs w).2.inst.rx.Rests)
    (he : Enough w ks bs) : ∃ w', feed cb ks bs w = some ([], w') ∧ Agrees (drain cb bs w).2 w' := by
  obtain ⟨rest, w', hrun, hreads, hdrained⟩ :=
    feed_drain hcb ks hlen h.receiving h.state hrest hend
  obtain rfl := hreads.enough hcb (fun _ => h) he
  refine ⟨w', hrun, ?_⟩
  by_cases ho : w'.inst.state = .open
  · obtain ⟨as, hsplit, hd⟩ := hdrained.of_open ho
    rw [List.append_nil] at hsplit
    subst hsplit
    rw [hd]
    exact ⟨fun _ => rfl, fun hno => absurd ho hno⟩
  · exact hdrained.of_closed ho

/-- Enough calls on bytes to an application that refuses nothing. -/
theorem feed_received (hcb : cb.Obliging) (h : Live w) (hrest : w.inst.rx.Rests)
    (hlen : ∀ k ∈ ks, (bs.take k).length < 2 ^ 32) (he : Enough w ks bs) :
    ∃ w', feed cb ks bs w = some ([], w') ∧ Agrees (received cb bs w) w' :=
  feed_agrees hcb.quiet h hrest hlen (fun ho => (drain_obliging hcb h bs ho).2.1) he

end Enough

/-- Callbacks that accept and supply everything, in a build in which calls are broken off wherever
they can be. -/
def Callbacks.hasty : Callbacks σ := { (Callbacks.granting : Callbacks σ) with unset := fun _ _ => true }

theorem Callbacks.hasty_obliging : (hasty : Callbacks σ).Obliging :=
  { (granting_obliging : (granting : Callbacks σ).Obliging) with }

theorem Callbacks.hasty_eager : (hasty : Callbacks σ).Eager := fun _ _ => rfl

/-! ## Frames without a mask -/

/-- The states of the extended length and of the payload. -/
def RxState.behindSize : RxState → Bool
  | .opcode | .size | .mask0 | .mask1 | .mask2 | .mask3 => false
  | _ => true

namespace RxFrame

/-- The length or the payload of a frame without a mask is being received. -/
structure Bare (rx : RxFrame) : Prop where
  masked : rx.masked = false
  state : rx.state.behindSize = true

variable {hs : Handlers} {u : Nat} {rx : RxFrame} {f : Frame} {as bs : List UInt8}

theorem Bare.not_inMask (h : rx.Bare) : ¬rx.InMask := by
  have hst := h.state
  rintro (hm | hm | hm) <;> simp [hm, RxState.behindSize] at hst

theorem takeData_masked (b : UInt8) (rx : RxFrame) : (rx.takeData b).masked = rx.masked := by
  unfold takeData
  dsimp only
  split_ifs <;> rfl

theorem takeData_size (b : UInt8) (rx : RxFrame) : (rx.takeData b).size = rx.size - 1 := by
  unfold takeData
  dsimp only
  split_ifs <;> rfl

/-- No byte leads out of such a frame. -/
theorem Bare.take (h : rx.Bare) (b : UInt8) : (rx.take u b).Bare := by
  have hm := h.masked
  have hst := h.state
  unfold RxFrame.take
  cases hs : rx.state with
  | data => exact ⟨(takeData_masked b rx).trans hm, by rw [takeData_state]; exact hst⟩
  | opcode | size | mask0 | mask1 | mask2 | mask3 => simp [hs, RxState.behindSize] at hst
  | _ =>
    refine ⟨hm, ?_⟩
    simp [takeExtendedSize, nextSize, afterSize, hs, hm, RxState.behindSize]

/-- The bytes of the extended length. -/
theorem Bare.keyless_flows (h : rx.Bare) (hf : rx.Flows u as)
    (hnext : (rx.takeAll u as).Keyless hs bs u) : rx.Keyless hs (as ++ bs) u := by
  induction as generalizing rx with
  | nil => exact hnext
  | cons a as ih =>
    obtain ⟨hrest, -, hflows⟩ := hf
    rw [List.cons_append, keyless_cons_of_rests hrest]
    exact fun _ => ⟨.inr (h.take a).not_inMask, ih (h.take a) hflows hnext⟩

/-- The end of a frame closes the instance, or leads to a boundary. -/
theorem ends_cases (hs : Handlers) (u : Nat) (rx : RxFrame) : (∃ ps, rx.ends hs u = .closes ps) ∨
    ∃ ps u' rx', rx.ends hs u = .goes ps u' rx' ∧ rx'.state = .opcode := by
  unfold ends
  cases rx.dataOpcode with
  | text =>
    dsimp only
    split_ifs
    · exact .inr ⟨_, _, _, rfl, rfl⟩
    · exact .inr ⟨_, _, _, rfl, rfl⟩
    · exact .inl ⟨_, rfl⟩
  | close => exact .inl ⟨_, rfl⟩
  | _ => exact .inr ⟨_, _, _, rfl, rfl⟩

theorem rests_of_opcode (h : rx.state = .opcode) : rx.Rests := fun hd => by simp [h] at hd

/-- The bytes of the payload. -/
theorem Bare.keyless_payload (h : rx.Bare) (hd : rx.state = .data) (hlen : rx.size = as.length)
    (hnext : ∀ u (rx : RxFrame), rx.state = .opcode → rx.Keyless hs bs u) :
    rx.Keyless hs (as ++ bs) u := by
  induction as generalizing rx u with
  | nil =>
    have hz : rx.size = 0 := hlen
    have hperf := performs_of_data hd hs u
    rw [if_pos hz] at hperf
    rcases ends_cases hs u rx with ⟨ps, hends⟩ | ⟨ps, u', rx', hends, ho⟩
    · exact keyless_of_closes (hperf.trans hends) bs
    · exact (keyless_of_goes (hperf.trans hends) (rests_of_opcode ho) bs).mpr (hnext u' rx' ho)
  | cons a as ih =>
    have hz : rx.size ≠ 0 := by rw [hlen]; exact Nat.succ_ne_zero _
    -- the byte is read once a full buffer has been passed on
    have hstep (rx' : RxFrame) (h' : rx'.Bare) (hd' : rx'.state = .data) (hs' : rx'.size = rx.size) :
        (as ++ bs = [] ∨ ¬(rx'.take u a).InMask) ∧ (rx'.take u a).Keyless hs (as ++ bs) u := by
      have htake : rx'.take u a = rx'.takeData a := by rw [RxFrame.take, hd']
      refine ⟨.inr (h'.take a).not_inMask, ih (h'.take a) ?_ ?_⟩
      · rw [htake, takeData_state, hd']
      · rw [htake, takeData_size, hs', hlen]
        rfl
    rw [List.cons_append, Keyless, performs_of_data hd, if_neg hz]
    split_ifs with he
    · dsimp only
      split
      · exact hstep _ ⟨h.masked, h.state⟩ hd rfl
      · trivial
    · dsimp only
      split
      · exact hstep rx h hd rfl
      · trivial

/-- **The header of a frame without a mask**, whatever the form of its length. -/
theorem keyless_headerAs (ho : rx.state = .opcode) {form : LengthForm}
    (hform : form.Holds f.payload.length) (hkey : f.key = none)
    (hnext : (rx.entered u f).Keyless hs bs u) : rx.Keyless hs (f.headerAs form ++ bs) u := by
  have hbytes : f.headerAs form ++ bs =
      f.firstByte :: f.secondByteAs form :: (form.extension f.payload.length ++ f.keyBytes ++ bs) := by
    rfl
  rw [hbytes, keyless_cons_of_rests (rests_of_opcode ho)]
  intro hv
  -- a frame with an RSV bit is closed on at its first byte
  have hrsv : f.rsv = 0 := by
    by_contra hne
    have hset : (rx.opened f.firstByte).rsv = true :=
      (firstByte_split f).2.1.trans (decide_eq_true hne)
    simp [verdict, ho, hset] at hv
  obtain ⟨rx₁, hfirst, hsize⟩ : ∃ rx₁, rx.take u f.firstByte = rx₁ ∧ rx₁.state = .size :=
    ⟨_, take_firstByte ho hrsv, rfl⟩
  have hall := takeAll_headerAs (u := u) ho hrsv hform
  unfold Frame.headerAs at hall
  rw [takeAll_cons, takeAll_cons, hfirst, take_secondByte hsize hform] at hall
  have hflows := (takeAll_extension (u := u) rx₁ f hform).2
  rw [hfirst]
  -- behind the first byte comes the length, behind the length no mask
  refine ⟨.inr (by simp [InMask, hsize]), ?_⟩
  rw [keyless_cons_of_rests (fun h => by simp [hsize] at h), take_secondByte hsize hform]
  intro _
  have hbare : ({ rx₁ with masked := f.key.isSome, size := form.bits f.payload.length } :
      RxFrame).branch.Bare := by
    unfold branch afterSize
    rw [hkey]
    split_ifs <;> first | exact ⟨rfl, rfl⟩ | simp at *
  refine ⟨.inr hbare.not_inMask, hbare.keyless_flows hflows ?_⟩
  rw [hall]
  exact hnext

/-- **A frame without a mask.** -/
theorem keyless_encode (ho : rx.state = .opcode) (hkey : f.key = none)
    (hnext : ∀ u (rx : RxFrame), rx.state = .opcode → rx.Keyless hs bs u) :
    rx.Keyless hs (f.encode ++ bs) u := by
  rw [Frame.encode, f.header_eq, List.append_assoc]
  have hbare : (rx.entered u f).Bare := ⟨by rw [entered, hkey]; rfl, rfl⟩
  refine keyless_headerAs ho (LengthForm.minimal_holds f.length_lt) hkey ?_
  exact hbare.keyless_payload rfl f.length_body.symm hnext

/-- **Frames without masks**, and what follows them. -/
theorem keyless_encodeAll {fs : List Frame} (hkeys : ∀ f ∈ fs, f.key = none)
    (ho : rx.state = .opcode)
    (hnext : ∀ u (rx : RxFrame), rx.state = .opcode → rx.Keyless hs bs u) :
    rx.Keyless hs (encodeAll fs ++ bs) u := by
  induction fs generalizing rx u with
  | nil => exact hnext u rx ho
  | cons f fs ih =>
    rw [Websocket.encodeAll_cons, List.append_assoc]
    exact keyless_encode ho (hkeys f (by simp)) fun u rx ho =>
      ih (fun f hf => hkeys f (by simp [hf])) ho

end RxFrame

/-- Frames without masks that follow a boundary. -/
theorem Boundary.keyless {w : World σ} (h : Boundary w) {fs : List Frame}
    (hkeys : ∀ f ∈ fs, f.key = none) : w.Keyless (encodeAll fs) := by
  have hall : w.Keyless (encodeAll fs ++ []) :=
    RxFrame.keyless_encodeAll hkeys h.boundary fun _ _ _ => trivial
  rwa [List.append_nil] at hall

/-- Calls for so many bytes are enough for frames without masks. -/
theorem Boundary.enough {w : World σ} (h : Boundary w) {fs : List Frame}
    (hkeys : ∀ f ∈ fs, f.key = none) {ks : List Nat} (hne : ks ≠ [])
    (hsum : (encodeAll fs).length ≤ ks.sum) : Enough w ks (encodeAll fs) :=
  ⟨hne, .inr ⟨h.keyless hkeys, hsum⟩⟩

end Wic
