import Wic.Receiver.Leftovers
import Wic.Runs.BackPressure

/-!
# Messages of an application without room

An application that refuses messages, has no room for pongs or makes calls of its own is handed the
messages an obliging one is handed, in the same order and each once, as far as it has come. The two
may even be given their bytes in calls of different sizes. Nor does it matter what the two have been
through before, as long as both wait for a frame and are in the same place of the same kind of message.

## Main definitions

* `Resemble`: instances that wait for a frame in the same place of a message

## Main results

* `feed_mail`: what several calls hand on
* `Reachable.messages_delivered`, `Reachable.messages_unaffected`
-/

namespace Wic

variable {σ : Type}

section Feed

variable {cb : Callbacks σ} {w w' : World σ} {bs rest : List UInt8} {ps : List Part}

/-- The messages handed on are those the trace shows. -/
theorem Outputs.messages (h : Outputs Part.isMessage cb bs rest w w' ps) :
    w.messages w' = ps.filter Part.isMessage := h.shows.eq_shown

/-- **Several calls.** What they hand on and what is still to be handed on make up the messages. -/
theorem feed_mail (hcb : cb.Respect (QuietAt False)) (ks : List Nat) (bs : List UInt8)
    {w : World σ} (h : Live w) (hks : ∀ k ∈ ks, k < 2 ^ 32) :
    ∃ rest w', feed cb ks bs w = some (rest, w') ∧ Fed Part.isMessage cb bs rest w w' := by
  induction ks generalizing bs w with
  | nil =>
    have hfed : Fed Part.isMessage cb bs bs w w :=
      ⟨⟨[], .refl w, rfl, fun _ _ => rfl, fun _ => List.nil_prefix, fun _ hno => absurd h.state hno,
        fun _ _ => id⟩, fun _ => h, .inl h.state⟩
    exact ⟨bs, w, rfl, hfed⟩
  | cons k ks ih =>
    obtain ⟨hk, hks⟩ := List.forall_mem_cons.mp hks
    have hlen : (bs.take k).length < 2 ^ 32 :=
      Nat.lt_of_le_of_lt (List.length_take_le k bs) hk
    obtain ⟨n, w₁, hrun, hle, ⟨⟨ps, hout⟩, hlive, hstate⟩⟩ := wicParse_mail hcb h hlen
    -- what is left of the call and what is behind it
    have hout' := hout.append (bs.drop k)
    rw [← List.drop_append_of_le_length hle, List.take_append_drop] at hout'
    have hfeed : feed cb (k :: ks) bs w = feed cb ks (bs.drop n) w₁ := by
      rw [feed, hrun]
      rfl
    rw [hfeed]
    rcases hstate with ho | hc
    · obtain ⟨rest, w', hrest, ⟨⟨qs, hmore⟩, hlive', hstate'⟩⟩ := ih (bs.drop n) (hlive ho) hks
      exact ⟨rest, w', hrest, ⟨_, hout'.trans ho hmore⟩, hlive', hstate'⟩
    · have hno : w₁.inst.state ≠ .open := by
        rw [hc]
        decide
      exact ⟨_, w₁, feed_of_closed hc ks _, ⟨ps, hout'.closed hno _ id⟩, hlive, .inr hc⟩

/-- An application that obliges is handed all the messages. -/
theorem feed_obliging (hcb : cb.Obliging) (h : Live w) {ks : List Nat}
    (hks : ∀ k ∈ ks, k < 2 ^ 32) (henough : Enough w ks bs) :
    ∃ v, feed cb ks bs w = some ([], v) ∧
      w.messages v = (w.output bs).filter Part.isMessage := by
  obtain ⟨rest, v, hfeed, ⟨⟨ps, hout⟩, -, -⟩, hread⟩ := feed_fed hcb.supplying.heard ks bs h
  have hreads := hread hks hcb.not_refused
  obtain rfl := hreads.enough hcb.quiet (fun _ => h) henough
  exact ⟨v, hfeed, congrArg _ (hout.all hcb.supplying (hreads.rests henough.1))⟩

/-- Any application is handed the first ones of them, and all once nothing is left to be done. -/
theorem feed_any (hcb : cb.Respect (QuietAt False)) (h : Live w) {ks : List Nat}
    (hks : ∀ k ∈ ks, k < 2 ^ 32) (bs : List UInt8) : ∃ rest u, feed cb ks bs w = some (rest, u) ∧
      w.messages u <+: (w.output bs).filter Part.isMessage ∧
      (u.inst.state = .open → rest = [] → u.inst.rx.Rests →
        w.messages u = (w.output bs).filter Part.isMessage) := by
  obtain ⟨rest, u, hfeed, ⟨⟨ps, hout⟩, -, -⟩⟩ := feed_mail hcb ks bs h hks
  refine ⟨rest, u, hfeed, ?_, ?_⟩
  · have hstarts := hout.starts []
    rw [List.append_nil] at hstarts
    rw [hout.messages]
    exact hstarts.filter _
  · rintro hopen rfl hrest
    have hgoes := hout.goes hopen []
    have hnil : u.output [] = [] := RxFrame.output_nil_of_rests hrest
    rw [List.append_nil, List.append_nil, hnil, List.append_nil] at hgoes
    rw [hout.messages, hgoes]

/-- **What is handed on does not depend on what the application refuses**: `cb` may refuse messages and
pongs and make calls of its own, `cb'` obliges, and both are given the bytes `bs` in calls of their
own sizes, `cb'` in enough of them. The messages `cb` accepts are the first ones of those `cb'`
accepts, and all of them once nothing is left to be done. -/
theorem Reachable.messages_delivered {allowed : Caller → Call → Prop} {cb' : Callbacks σ}
    (h : Reachable allowed w) (ho : w.inst.state = .open) (hcb : Reentrant allowed cb)
    (hcb' : cb'.Obliging) {ks ks' : List Nat} (hks : ∀ k ∈ ks ++ ks', k < 2 ^ 32)
    (henough : Enough w ks' bs) :
    ∃ rest u v, feed cb ks bs w = some (rest, u) ∧ feed cb' ks' bs w = some ([], v) ∧
      w.messages u <+: w.messages v ∧
      (u.inst.state = .open → rest = [] → u.inst.rx.Rests → w.messages u = w.messages v) := by
  have hlive := h.live ho
  obtain ⟨rest, u, hfeed, hprefix, hall⟩ :=
    feed_any hcb.quiet hlive (fun k hk => hks k (List.mem_append_left _ hk)) bs
  obtain ⟨v, hfeed', hmessages⟩ :=
    feed_obliging hcb' hlive (fun k hk => hks k (List.mem_append_right _ hk)) henough
  rw [← hmessages] at hprefix hall
  exact ⟨rest, u, v, hfeed, hfeed', hprefix, hall⟩

end Feed

namespace Sample

/-- An application that has no room for anything. -/
def stingy : Callbacks Unit :=
  { host id with onBuffer := fun _ _ w => ((none, 0), w) }

theorem stingy_passive : stingy.Passive :=
  { host_passive with onBuffer := fun _ _ w => .refl w }

/-- A ping that is never answered, and a message behind it. -/
theorem stingy_delivered : ∃ w u v : World Unit,
    feed stingy [5] [0x89, 0, 0x82, 1, 7] w = some ([], u) ∧
      feed giving [1, 1, 1, 1, 1] [0x89, 0, 0x82, 1, 7] w = some ([], v) ∧ w.messages u = w.messages v := by
  have hrun : (session (host id) arg () [response]).bind (fun w =>
      (feed stingy [5] [0x89, 0, 0x82, 1, 7] w).map fun r =>
        (w.inst.state, r.1, r.2.inst.state, r.2.inst.rx.state)) =
      some (.open, [], .open, .opcode) := by
    decide +kernel
  obtain ⟨w, hw, hrun⟩ := Option.bind_eq_some_iff.mp hrun
  obtain ⟨⟨rest, u⟩, hfeed, heq⟩ := Option.map_eq_some_iff.mp hrun
  simp only [Prod.mk.injEq] at heq
  obtain ⟨ho, rfl, hopen, hst⟩ := heq
  have hreach : Reachable (fun _ _ => True) w := session_reachable (.passive host_passive) hw
  have hsizes : ∀ k ∈ [5] ++ [1, 1, 1, 1, 1], k < 2 ^ 32 := by decide
  have henough : Enough w [1, 1, 1, 1, 1] [0x89, 0, 0x82, 1, 7] := ⟨by decide, .inl (by decide)⟩
  obtain ⟨rest, u', v, hfeed', hgiving, -, hall⟩ :=
    hreach.messages_delivered ho (.passive stingy_passive) giving_obliging hsizes henough
  obtain ⟨rfl, rfl⟩ := Prod.mk.inj (Option.some.inj (hfeed.symm.trans hfeed'))
  refine ⟨w, u, v, hfeed, hgiving, hall hopen rfl ?_⟩
  intro hd
  cases hst.symm.trans hd

end Sample

/-! ## What has been before -/

/-- Two instances that wait for a frame: they are in the middle of messages of the same kind, or of no
message, and in a text at the same place of a character. What they have received before may differ. -/
structure Resemble (i j : Inst) : Prop where
  waits : i.rx.state = .opcode
  waits' : j.rx.state = .opcode
  kind : j.rx.frag = i.rx.frag
  text : i.rx.frag = .text → j.utf8Rx = i.utf8Rx
  size : j.rx.s.size = i.rx.s.size
  handlers : j.handlers = i.handlers

section Before

variable {cb cb' : Callbacks σ} {w w' : World σ} {bs : List UInt8}

/-- Such instances have the same messages to come. -/
theorem Resemble.output (h : Resemble w.inst w'.inst) (hw : Live w) (hw' : Live w')
    (bs : List UInt8) :
    (w'.output bs).filter Part.isMessage = (w.output bs).filter Part.isMessage := by
  have hwritable : w'.inst.rx.s.writable = w.inst.rx.s.writable :=
    hw'.lawful.writable.trans hw.lawful.writable.symm
  have htext : RxFrame.readsText w.inst.rx.frag = true → w'.inst.utf8Rx = w.inst.utf8Rx := by
    -- the kind of a message is that of a data frame, so that only a text is read as one
    have hdata := hw.lawful.frag
    intro hreads
    apply h.text
    cases hfrag : w.inst.rx.frag with
    | text => rfl
    | _ =>
      rw [hfrag] at hdata hreads
      exact absurd (And.intro hdata hreads) (by decide)
  unfold World.output
  rw [h.handlers]
  exact RxFrame.output_begins h.waits h.waits' h.kind htext h.size hwritable bs

/-- **The messages do not depend on what has been before**: two instances that wait for a frame in the
same place of a message are given the same bytes, in calls of their own sizes, the second in enough
of them. What is handed on by the one, whose application may refuse messages and pongs and make calls
of its own, are the first messages of those handed on by the other, and all of them once nothing is
left to be done. -/
theorem Reachable.messages_unaffected {allowed : Caller → Call → Prop} (h : Reachable allowed w)
    (h' : Reachable allowed w') (hsame : Resemble w.inst w'.inst) (ho : w.inst.state = .open)
    (ho' : w'.inst.state = .open) (hcb : Reentrant allowed cb) (hcb' : cb'.Obliging)
    {ks ks' : List Nat} (hks : ∀ k ∈ ks ++ ks', k < 2 ^ 32) (henough : Enough w' ks' bs) :
    ∃ rest u v, feed cb ks bs w = some (rest, u) ∧ feed cb' ks' bs w' = some ([], v) ∧
      w.messages u <+: w'.messages v ∧
      (u.inst.state = .open → rest = [] → u.inst.rx.Rests → w.messages u = w'.messages v) := by
  have hlive := h.live ho
  have hlive' := h'.live ho'
  obtain ⟨rest, u, hfeed, hprefix, hall⟩ :=
    feed_any hcb.quiet hlive (fun k hk => hks k (List.mem_append_left _ hk)) bs
  obtain ⟨v, hfeed', hmessages⟩ :=
    feed_obliging hcb' hlive' (fun k hk => hks k (List.mem_append_right _ hk)) henough
  rw [hsame.output hlive hlive'] at hmessages
  rw [← hmessages] at hprefix hall
  exact ⟨rest, u, v, hfeed, hfeed', hprefix, hall⟩

end Before

namespace Sample

/-- The response with a masked message and a text in two fragments behind it, that are cut inside of a
character. -/
def used : List UInt8 :=
  response ++ [0x82, 0x81, 1, 2, 3, 4, 5, 0x01, 1, 0xc3, 0x80, 1, 0xa9]

/-- The messages of a new instance and of one that has been in use. -/
theorem used_unaffected : ∃ w w' u v : World Unit, w.inst.utf8Rx ≠ w'.inst.utf8Rx ∧
    w.inst.rx.mask ≠ w'.inst.rx.mask ∧ w.inst.rx.s.mem ≠ w'.inst.rx.s.mem ∧
    feed stingy [5] [0x89, 0, 0x82, 1, 7] w = some ([], u) ∧
      feed giving [1, 1, 1, 1, 1] [0x89, 0, 0x82, 1, 7] w' = some ([], v) ∧ w.messages u = w'.messages v := by
  -- the sessions and all that is asked of them, as computed
  have hrun : (session (host id) arg () [response]).bind (fun w =>
      (session (host id) arg () [used]).bind fun w' =>
        (feed stingy [5] [0x89, 0, 0x82, 1, 7] w).map fun r =>
          decide (w.inst.state = .open ∧ w'.inst.state = .open ∧
            r.1 = [] ∧ r.2.inst.state = .open ∧ r.2.inst.rx.state = .opcode ∧
            w.inst.utf8Rx ≠ w'.inst.utf8Rx ∧ w.inst.rx.mask ≠ w'.inst.rx.mask ∧
            w.inst.rx.s.mem ≠ w'.inst.rx.s.mem ∧
            w.inst.rx.state = .opcode ∧ w'.inst.rx.state = .opcode ∧
            w.inst.rx.frag = .continue ∧ w'.inst.rx.frag = .continue ∧
            w'.inst.rx.s.size = w.inst.rx.s.size ∧
            w'.inst.onMessage = w.inst.onMessage ∧ w'.inst.onClose = w.inst.onClose ∧
            w'.inst.onPing = w.inst.onPing ∧ w'.inst.onPong = w.inst.onPong)) = some true := by
    decide +kernel
  obtain ⟨w, hw, hrun⟩ := Option.bind_eq_some_iff.mp hrun
  obtain ⟨w', hw', hrun⟩ := Option.bind_eq_some_iff.mp hrun
  obtain ⟨⟨rest, u⟩, hfeed, heq⟩ := Option.map_eq_some_iff.mp hrun
  obtain ⟨ho, ho', hrest, hopen, hst, hutf8, hmask, hmem, hwaits, hwaits', hfrag, hfrag', hsize,
    h₁, h₂, h₃, h₄⟩ := of_decide_eq_true heq
  dsimp only at hrest
  subst hrest
  -- what the two instances have in common
  have hsame : Resemble w.inst w'.inst := by
    refine ⟨hwaits, hwaits', hfrag'.trans hfrag.symm, fun htext => ?_, hsize, ?_⟩
    · cases hfrag.symm.trans htext
    · rw [Inst.handlers, h₁, h₂, h₃, h₄, Inst.handlers]
  have hreach : Reachable (fun _ _ => True) w := session_reachable (.passive host_passive) hw
  have hreach' : Reachable (fun _ _ => True) w' := session_reachable (.passive host_passive) hw'
  have hsizes : ∀ k ∈ [5] ++ [1, 1, 1, 1, 1], k < 2 ^ 32 := by decide
  have henough : Enough w' [1, 1, 1, 1, 1] [0x89, 0, 0x82, 1, 7] := ⟨by decide, .inl (by decide)⟩
  obtain ⟨rest, u', v, hfeed', hgiving, -, hall⟩ :=
    hreach.messages_unaffected hreach' hsame ho ho' (.passive stingy_passive) giving_obliging hsizes
      henough
  obtain ⟨rfl, rfl⟩ := Prod.mk.inj (Option.some.inj (hfeed.symm.trans hfeed'))
  refine ⟨w, w', u, v, hutf8, hmask, hmem, hfeed, hgiving, hall hopen rfl ?_⟩
  intro hd
  cases hst.symm.trans hd

end Sample

end Wic
