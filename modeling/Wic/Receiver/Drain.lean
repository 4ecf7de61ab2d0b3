import Wic.Receiver.Settle

/-!
# The receiver, byte by byte

The loop of `wic_parse` reads up to two bytes a turn and does a part of its work without reading
any. `drain` does the same work cut at the bytes: it settles what is due, reads one byte, and so on
until a callback refuses, the instance closes or the bytes are used up. `parseLoop_drain` says that
the loop does what `drain` does, and that it ends.

After a close the loop may still read one byte of the frame it is in. Nothing but the frame under
reception can tell, so that the two agree up to `rx` when the instance is closed.

Behind each of the first three bytes of a mask `parse_mask` may break the loop off, as the compiler
has it. Then the loop has done what `drain` does with the bytes it has read.

## Main definitions

* `drain`: the receiver over a list of bytes
* `RxFrame.InMask`: the receiver is where the loop may have been broken off

## Main results

* `parseLoop_drain`: the loop ends, and agrees with `drain`
* `drain_append`: bytes may come in parts
-/

namespace Wic

variable {σ : Type} (cb : Callbacks σ)

/-- The receiver over a list of bytes: the bytes it did not read, and the world. -/
def drain : List UInt8 → World σ → List UInt8 × World σ
  | bs, w =>
    if w.inst.state = .open then
      match settle cb w with
      | (true, w) => (bs, w)
      | (false, w) =>
        match bs with
        | [] => ([], w)
        | b :: bs => if w.inst.state = .open then drain bs (consume cb b w) else (b :: bs, w)
    else (bs, w)

section Drain

variable {G : Prop} {cb} {w : World σ} {bs : List UInt8}

theorem drain_of_not_open (h : w.inst.state ≠ .open) : drain cb bs w = (bs, w) := by
  unfold drain
  rw [if_neg h]

theorem drain_of_refused (ho : w.inst.state = .open) (h : (settle cb w).1 = true) :
    drain cb bs w = (bs, (settle cb w).2) := by
  unfold drain
  rw [if_pos ho]
  generalize settle cb w = r at h ⊢
  obtain ⟨refused, w'⟩ := r
  obtain rfl : refused = true := h
  rfl

theorem drain_nil_of_rests (hrest : w.inst.rx.Rests) : drain cb [] w = ([], w) := by
  unfold drain
  rw [settle_of_rests hrest]
  simp

theorem drain_cons_of_rests (ho : w.inst.state = .open) (hrest : w.inst.rx.Rests) (b : UInt8) :
    drain cb (b :: bs) w = drain cb bs (consume cb b w) := by
  rw [drain, if_pos ho, settle_of_rests hrest]
  simp [ho]

/-- Settling what is due is the first thing the receiver does. -/
theorem drain_settle (hcb : cb.Respect (QuietAt G)) (hr : w.inst.role = .client)
    (hs : w.inst.rx.Sound) (ho : w.inst.state = .open) (h : (settle cb w).1 = false) :
    drain cb bs w = drain cb bs (settle cb w).2 := by
  have hcases := settle_cases hcb hr
  have hrest : (settle cb w).2.inst.rx.Rests := by
    rcases hcases with ⟨h', -⟩ | ⟨-, -, hset⟩
    · simp [h] at h'
    · exact hset.rests hs
  generalize hw : settle cb w = r at h hrest
  obtain ⟨refused, w'⟩ := r
  obtain rfl : refused = false := h
  unfold drain
  rw [if_pos ho, hw, settle_of_rests hrest]
  cases bs with
  | nil => split_ifs <;> rfl
  | cons b bs =>
    dsimp only
    split_ifs <;> rfl

end Drain

/-! ## Parts -/

section Parts

variable {G : Prop} {cb} {w : World σ}

/-- What holds of a world as long as bytes are received. -/
structure Receiving (w : World σ) : Prop where
  sound : w.inst.rx.Sound
  role : w.inst.role = .client

theorem settle_receiving (hcb : cb.Respect (QuietAt G)) (h : Receiving w) :
    Receiving (settle cb w).2 ∧ KeepsSetup w (settle cb w).2 := by
  rcases settle_cases hcb h.role with ⟨-, hk⟩ | ⟨-, hk, hset⟩
  · exact ⟨⟨by rw [hk.rx]; exact h.sound, by rw [hk.role, h.role]⟩, hk.setup⟩
  · exact ⟨⟨hset.sound h.sound, by rw [hk.role, h.role]⟩, hk⟩

theorem consume_receiving (hcb : cb.Respect (QuietAt G)) (h : Receiving w)
    (hrest : w.inst.rx.Rests) (b : UInt8) :
    Receiving (consume cb b w) ∧ KeepsSetup w (consume cb b w) := by
  have hk := consume_setup hcb h.role b
  refine ⟨⟨?_, by rw [hk.role, h.role]⟩, hk⟩
  rw [consume_rx hcb h.role]
  exact h.sound.take hrest _ _

theorem settle_rests (hcb : cb.Respect (QuietAt G)) (h : Receiving w)
    (hb : (settle cb w).1 = false) : (settle cb w).2.inst.rx.Rests := by
  rcases settle_cases hcb h.role with ⟨h', -⟩ | ⟨-, -, hset⟩
  · simp [hb] at h'
  · exact hset.rests h.sound

/-- Where `drain` goes from a world in which the instance is open: it is refused, or the instance
closes, or it goes on from a world in which no work is due. -/
theorem drain_cases (hcb : cb.Respect (QuietAt G)) (h : Receiving w) (ho : w.inst.state = .open) :
    (¬(settle cb w).2.inst.rx.Rests ∧ ∀ bs, drain cb bs w = (bs, (settle cb w).2)) ∨
      ((settle cb w).2.inst.state ≠ .open ∧ ∀ bs, drain cb bs w = (bs, (settle cb w).2)) ∨
      ((settle cb w).2.inst.state = .open ∧ (settle cb w).2.inst.rx.Rests ∧
        ∀ bs, drain cb bs w = drain cb bs (settle cb w).2) := by
  cases hb : (settle cb w).1 with
  | true =>
    refine .inl ⟨fun hrest => ?_, fun bs => drain_of_refused ho hb⟩
    rcases settle_cases hcb h.role with ⟨-, hk⟩ | ⟨hb', -⟩
    · rw [hk.rx] at hrest
      simp [settle_of_rests hrest] at hb
    · simp [hb] at hb'
  | false =>
    have hdrain (bs : List UInt8) : drain cb bs w = drain cb bs (settle cb w).2 :=
      drain_settle hcb h.role h.sound ho hb
    by_cases ho' : (settle cb w).2.inst.state = .open
    · exact .inr (.inr ⟨ho', settle_rests hcb h hb, hdrain⟩)
    · exact .inr (.inl ⟨ho', fun bs => (hdrain bs).trans (drain_of_not_open ho')⟩)

/-- The receiver stops behind `as` only when nothing of what follows is read. -/
def Stuck (w : World σ) : Prop := ¬(w.inst.state = .open ∧ w.inst.rx.Rests)

/-- **Bytes may come in parts.** A part is used up when the instance is still open and no work is due
behind it; otherwise nothing of the next part is read. -/
theorem drain_append {w : World σ} (hcb : cb.Respect (QuietAt G)) (h : Receiving w)
    (as bs : List UInt8) :
    (¬Stuck (drain cb as w).2 ∧ (drain cb as w).1 = [] ∧
        drain cb (as ++ bs) w = drain cb bs (drain cb as w).2) ∨
      (Stuck (drain cb as w).2 ∧
        drain cb (as ++ bs) w = ((drain cb as w).1 ++ bs, (drain cb as w).2)) := by
  -- an instance that is stuck reads nothing of what follows
  have hstuck (w' : World σ) (as' : List UInt8) (hs : Stuck w')
      (hd : ∀ cs, drain cb (as' ++ cs) w = (as' ++ cs, w')) :
      Stuck (drain cb as' w).2 ∧
        drain cb (as' ++ bs) w = ((drain cb as' w).1 ++ bs, (drain cb as' w).2) := by
    have hnil := hd []
    rw [List.append_nil] at hnil
    rw [hnil, hd bs]
    exact ⟨hs, rfl⟩
  by_cases ho : w.inst.state = .open
  swap
  · exact .inr (hstuck w as (fun h => ho h.1) fun _ => drain_of_not_open ho)
  -- the work that is due is refused, or closes the instance, or is done
  rcases drain_cases hcb h ho with ⟨hr, hd⟩ | ⟨hc, hd⟩ | ⟨ho', hrest, hd⟩
  · exact .inr (hstuck _ as (fun h => hr h.2) fun _ => hd _)
  · exact .inr (hstuck _ as (fun h => hc h.1) fun _ => hd _)
  have hset := (settle_receiving hcb h).1
  rw [hd, hd]
  generalize (settle cb w).2 = w' at ho' hrest hset
  cases as with
  | nil =>
    rw [drain_nil_of_rests hrest]
    exact .inl ⟨fun h => h ⟨ho', hrest⟩, rfl, rfl⟩
  | cons a as =>
    rw [List.cons_append, drain_cons_of_rests ho' hrest, drain_cons_of_rests ho' hrest]
    exact drain_append hcb (consume_receiving hcb hset hrest a).1 as bs
termination_by as.length

/-- What holds as long as bytes are received holds behind them. -/
theorem drain_receiving {w : World σ} (hcb : cb.Respect (QuietAt G)) (h : Receiving w)
    (bs : List UInt8) :
    Receiving (drain cb bs w).2 ∧ KeepsSetup w (drain cb bs w).2 := by
  by_cases ho : w.inst.state = .open
  swap
  · rw [drain_of_not_open ho]
    exact ⟨h, .refl w⟩
  obtain ⟨hset, hk⟩ := settle_receiving hcb h
  rcases drain_cases hcb h ho with ⟨-, hd⟩ | ⟨-, hd⟩ | ⟨ho', hrest, hd⟩
  · rw [hd]
    exact ⟨hset, hk⟩
  · rw [hd]
    exact ⟨hset, hk⟩
  rw [hd]
  generalize (settle cb w).2 = w' at ho' hrest hset hk
  cases bs with
  | nil =>
    rw [drain_nil_of_rests hrest]
    exact ⟨hset, hk⟩
  | cons b bs =>
    obtain ⟨hnext, hk'⟩ := consume_receiving hcb hset hrest b
    rw [drain_cons_of_rests ho' hrest]
    obtain ⟨hend, hk''⟩ := drain_receiving hcb hnext bs
    exact ⟨hend, hk.trans (hk'.trans hk'')⟩
termination_by bs.length

/-- The bytes that are left are the last ones. -/
theorem drain_suffix (cb : Callbacks σ) (bs : List UInt8) (w : World σ) :
    (drain cb bs w).1 <:+ bs := by
  induction bs generalizing w with
  | nil =>
    unfold drain
    split_ifs
    · split <;> exact List.suffix_rfl
    · exact List.suffix_rfl
  | cons b bs ih =>
    unfold drain
    split_ifs
    · split
      · exact List.suffix_rfl
      · dsimp only
        split_ifs
        · exact (ih _).trans (List.suffix_cons b bs)
        · exact List.suffix_rfl
    · exact List.suffix_rfl

end Parts

/-! ## Masks -/

/-- The receiver is behind one of the first three bytes of a mask. -/
def RxFrame.InMask (rx : RxFrame) : Prop :=
  rx.state = .mask1 ∨ rx.state = .mask2 ∨ rx.state = .mask3

theorem RxFrame.InMask.rests {rx : RxFrame} (h : rx.InMask) : rx.Rests := by
  intro hd
  rcases h with h | h | h <;> simp [hd] at h

/-- No call on these bytes can be broken off in front of the last of them. -/
def Unbroken (bs : List UInt8) (w : World σ) : Prop :=
  ∀ as cs, bs = as ++ cs → as ≠ [] → cs ≠ [] → (drain cb as w).1 = [] →
    (drain cb as w).2.inst.state = .open → ¬(drain cb as w).2.inst.rx.InMask

/-- The calls are broken off as soon as they can be. -/
def Callbacks.Eager (cb : Callbacks σ) : Prop := ∀ s w, cb.unset s w = true

section Masks

variable {G : Prop} {cb} {w w' : World σ} {as bs : List UInt8}

/-- Behind one byte no call can be broken off in front of it. -/
theorem unbroken_of_length (h : bs.length ≤ 1) : Unbroken cb bs w := by
  rintro as cs rfl has hcs
  have h₁ := List.length_pos_iff.mpr has
  have h₂ := List.length_pos_iff.mpr hcs
  rw [List.length_append] at h
  omega

/-- The work that is due does not lead into a mask. -/
theorem settle_inMask (hcb : cb.Respect (QuietAt G)) (hr : w.inst.role = .client)
    (h : (settle cb w).2.inst.rx.InMask) : w.inst.rx.InMask := by
  rcases settle_cases hcb hr with ⟨-, hk⟩ | ⟨-, -, hset⟩
  · rwa [hk.rx] at h
  · generalize (settle cb w).2.inst.rx = rx' at hset h
    cases hset with
    | rested => exact h
    | flushed => exact h
    | ended => simp [RxFrame.InMask] at h

theorem drain_nil_inMask (hcb : cb.Respect (QuietAt G)) (hr : w.inst.role = .client)
    (h : (drain cb [] w).2.inst.rx.InMask) : w.inst.rx.InMask := by
  unfold drain at h
  split_ifs at h
  · apply settle_inMask hcb hr
    generalize settle cb w = r at h
    obtain ⟨refused, w₁⟩ := r
    cases refused <;> exact h
  · exact h

/-- Bytes follow bytes behind which no call is broken off. -/
theorem Unbroken.append (hcb : cb.Respect (QuietAt G)) (hr : w'.inst.role = .client)
    (h : Unbroken cb as w) (hd : ∀ bs, drain cb (as ++ bs) w = drain cb bs w')
    (hm : ¬w'.inst.rx.InMask) (h' : Unbroken cb bs w') : Unbroken cb (as ++ bs) w := by
  intro ds cs hsplit hds hcs
  have hnil : ¬(drain cb as w).2.inst.rx.InMask := by
    have hd₀ := hd []
    rw [List.append_nil] at hd₀
    rw [hd₀]
    exact fun hm' => hm (drain_nil_inMask hcb hr hm')
  rcases List.append_eq_append_iff.mp hsplit with ⟨es, rfl, rfl⟩ | ⟨es, rfl, rfl⟩
  · by_cases hes : es = []
    · subst hes
      rw [List.append_nil]
      exact fun _ _ => hnil
    · rw [hd]
      exact h' es cs rfl hes hcs
  · by_cases hes : es = []
    · subst hes
      rw [List.append_nil] at hnil
      exact fun _ _ => hnil
    · exact h ds es rfl hds hes

theorem Unbroken.left (h : Unbroken cb (as ++ bs) w) : Unbroken cb as w := by
  rintro ds cs rfl hds hcs
  refine h ds (cs ++ bs) (List.append_assoc ds cs bs) hds fun hnil => ?_
  exact hcs (List.append_eq_nil_iff.mp hnil).1

theorem Unbroken.right (hcb : cb.Respect (QuietAt G)) (hr : Receiving w)
    (h : Unbroken cb (as ++ bs) w) (hns : ¬Stuck (drain cb as w).2) :
    Unbroken cb bs (drain cb as w).2 := by
  rintro ds cs rfl hds hcs
  have hall := h (as ++ ds) cs (List.append_assoc as ds cs).symm
    (fun hnil => hds (List.append_eq_nil_iff.mp hnil).2) hcs
  rcases drain_append hcb hr as ds with ⟨-, -, hd⟩ | ⟨hs, -⟩
  · rwa [hd] at hall
  · exact absurd hs hns

/-- A call on such bytes is not broken off. -/
theorem Unbroken.whole (h : Unbroken cb (as ++ bs) w) (hends : bs = [] ∨ as ≠ [] ∧
    (drain cb as w).1 = [] ∧ (drain cb as w).2.inst.state = .open ∧
    (drain cb as w).2.inst.rx.InMask) : bs = [] := by
  by_contra hne
  obtain ⟨has, hall, ho, hmask⟩ := hends.resolve_left hne
  exact h as bs rfl has hne hall ho hmask

/-- Bytes of which the last are refused follow bytes behind which no call is broken off. -/
theorem Unbroken.refused (hcb : cb.Respect (QuietAt G)) (hr : Receiving w) (h : Unbroken cb as w)
    (hd : (drain cb (as ++ bs) w).1 = bs) : Unbroken cb (as ++ bs) w := by
  -- nothing is read of what follows
  have hstuck (hne : bs ≠ []) : Stuck (drain cb as w).2 := by
    by_contra hns
    obtain ⟨ho, hrest⟩ := not_not.mp hns
    obtain ⟨c, cs, rfl⟩ := List.exists_cons_of_ne_nil hne
    rcases drain_append hcb hr as (c :: cs) with ⟨-, -, heq⟩ | ⟨hs, -⟩
    · rw [heq, drain_cons_of_rests ho hrest] at hd
      have hle := (drain_suffix cb cs (consume cb c (drain cb as w).2)).length_le
      rw [hd, List.length_cons] at hle
      omega
    · exact hns hs
  intro ds cs hsplit hds hcs
  rcases List.append_eq_append_iff.mp hsplit with ⟨es, rfl, rfl⟩ | ⟨es, rfl, rfl⟩
  · intro hall ho hm
    have hne : es ++ cs ≠ [] := fun hnil => hcs (List.append_eq_nil_iff.mp hnil).2
    rcases drain_append hcb hr as es with ⟨hns, -, -⟩ | ⟨hs, heq⟩
    · exact hns (hstuck hne)
    · rw [heq] at ho hm
      exact hs ⟨ho, RxFrame.InMask.rests hm⟩
  · by_cases hes : es = []
    · subst hes
      rw [List.nil_append] at hcs
      rw [List.append_nil] at hstuck
      exact fun _ ho hm => hstuck hcs ⟨ho, RxFrame.InMask.rests hm⟩
    · exact h ds es rfl hds hes

end Masks

/-! ## One turn of the loop -/

namespace Stream

variable {s : Stream}

theorem Ok.length_rest (h : s.Ok) : s.rest.length = s.size - s.pos := by
  have hl := h.size_le
  simp only [rest, List.length_drop, List.length_take]
  omega

end Stream

instance (rx : RxFrame) : Decidable rx.Rests := inferInstanceAs (Decidable (_ → _))

/-- The turns left are fewer than this: two for each byte, and one for the work that is due. -/
def turnsLeft (s : Stream) (w : World σ) : Nat :=
  2 * s.rest.length + if w.inst.rx.Rests then 0 else 1

/-- Work that was due and is done leaves a turn less. -/
theorem turnsLeft_lt {s : Stream} {w w' : World σ} (hdue : ¬w.inst.rx.Rests)
    (hrest : w'.inst.rx.Rests) : turnsLeft s w' < turnsLeft s w := by
  rw [turnsLeft, turnsLeft, if_pos hrest, if_neg hdue]
  omega

/-- A byte that is read leaves a turn less, whatever is due behind it. -/
theorem turnsLeft_advance {s : Stream} {w w' : World σ} (hrest : w.inst.rx.Rests) {b : UInt8}
    {bs : List UInt8} (hb : s.rest = b :: bs) :
    turnsLeft { s with pos := s.pos + 1 } w' < turnsLeft s w := by
  have hlen := congrArg List.length hb
  have hlen' := congrArg List.length (Stream.rest_advance hb)
  simp only [List.length_cons] at hlen
  simp only [turnsLeft, hlen, hlen', hrest, if_true]
  split_ifs <;> omega

/-- A world that the loop can go on from. -/
structure Ready (s : Stream) (w : World σ) : Prop where
  ok : s.Ok
  error : s.error = false
  sound : w.inst.rx.Sound
  role : w.inst.role = .client

/-- One turn of the loop is a part of `drain`. An eager loop has not gone on inside a mask. -/
structure Turn (s : Stream) (w : World σ) (blocked : Bool) (w' : World σ) (s' : Stream) : Prop where
  reads : ∃ as, s.rest = as ++ s'.rest ∧
    (blocked = false → ∀ bs, drain cb (as ++ bs) w = drain cb bs w') ∧
    (cb.Eager → Unbroken cb as w ∧ (blocked = false → ¬w'.inst.rx.InMask))
  stops : blocked = true → drain cb s.rest w = (s'.rest, w')
  ok : s'.Ok
  size : s'.size = s.size
  ready : blocked = false → Ready s' w'
  less : blocked = false → turnsLeft s' w' < turnsLeft s w

/-- What `parse_mask` returns behind a byte, and false in the other states of a frame header. -/
def breaksOff (s : Stream) (w : World σ) : Bool :=
  match w.inst.rx.state with
  | .mask0 | .mask1 | .mask2 | .mask3 => cb.unset s w
  | _ => false

/-- The turn has closed the instance with the byte it read, and has perhaps read on in the frame. -/
def ClosingTurn (s : Stream) (w w' : World σ) : Prop :=
  (∃ b bs, s.rest = b :: bs ∧ ∀ cs, (drain cb (b :: cs) w).2.inst.state ≠ .open) ∧
    ∃ f, w' = (drain cb s.rest w).2.updateRx f

section Turn

variable {G : Prop} {cb} {w : World σ} {s : Stream}

theorem Ready.keeps {w' : World σ} (h : Ready s w) (hk : KeepsSetup w w')
    (hs : w'.inst.rx.Sound) : Ready s w' :=
  ⟨h.ok, h.error, hs, by rw [hk.role, h.role]⟩

/-- A byte is read. -/
theorem Ready.advance (h : Ready s w) {b : UInt8} {bs : List UInt8} (hb : s.rest = b :: bs) :
    Ready { s with pos := s.pos + 1 } w :=
  ⟨h.ok.advance hb, h.error, h.sound, h.role⟩

/-- The part of a turn that needs no byte. -/
theorem turn_settle (hcb : cb.Respect (QuietAt G)) (h : Ready s w) (ho : w.inst.state = .open)
    (hd : ¬w.inst.rx.Rests) : Turn cb s w (settle cb w).1 (settle cb w).2 s := by
  have hreads : cb.Eager → Unbroken cb [] w ∧
      ((settle cb w).1 = false → ¬(settle cb w).2.inst.rx.InMask) := fun _ =>
    ⟨unbroken_of_length (Nat.zero_le 1), fun _ hm => hd (settle_inMask hcb h.role hm).rests⟩
  rcases settle_cases hcb h.role with ⟨hb, -⟩ | ⟨hb, hk, hset⟩
  · rw [hb] at hreads ⊢
    exact ⟨⟨[], rfl, fun h => by simp at h, hreads⟩, fun _ => drain_of_refused ho hb, h.ok, rfl,
      fun h => by simp at h, fun h => by simp at h⟩
  · refine ⟨⟨[], rfl, fun _ bs => ?_, hreads⟩, fun h => by simp [hb] at h, h.ok, rfl,
      fun _ => h.keeps hk (hset.sound h.sound), fun _ => ?_⟩
    · exact drain_settle hcb h.role h.sound ho hb
    · exact turnsLeft_lt hd (hset.rests h.sound)

/-- The bytes are used up. -/
theorem turn_nil (h : Ready s w) (hrest : w.inst.rx.Rests) (hnil : s.rest = []) :
    Turn cb s w true w { s with error := true } where
  reads := ⟨[], rfl, fun h => by simp at h, fun _ =>
    ⟨unbroken_of_length (Nat.zero_le 1), fun h => by simp at h⟩⟩
  stops _ := by
    rw [hnil, drain_nil_of_rests hrest]
    exact congrArg (·, w) hnil.symm
  ok := ⟨h.ok.pos_le, h.ok.size_le⟩
  size := rfl
  ready h := by simp at h
  less h := by simp at h

/-- A byte is read. -/
theorem turn_cons (hcb : cb.Respect (QuietAt G)) (h : Ready s w) (ho : w.inst.state = .open)
    (hrest : w.inst.rx.Rests) {b : UInt8} {bs : List UInt8} (hb : s.rest = b :: bs)
    (hm : cb.Eager → ¬(consume cb b w).inst.rx.InMask) :
    Turn cb s w false (consume cb b w) { s with pos := s.pos + 1 } where
  reads := ⟨[b], by rw [hb, Stream.rest_advance hb]; rfl, fun _ _ => drain_cons_of_rests ho hrest b,
    fun heager => ⟨unbroken_of_length (Nat.le_refl 1), fun _ => hm heager⟩⟩
  stops h := by simp at h
  ok := h.ok.advance hb
  size := rfl
  ready _ := by
    refine (h.advance hb).keeps (consume_setup hcb h.role b) ?_
    rw [consume_rx hcb h.role]
    exact h.sound.take hrest _ _
  less _ := turnsLeft_advance hrest hb

/-- A turn that is not blocked leaves the rest to `drain`. -/
theorem Turn.drain {w' : World σ} {s' : Stream} (h : Turn cb s w false w' s') :
    Wic.drain cb s.rest w = Wic.drain cb s'.rest w' := by
  obtain ⟨as, hs, hd, -⟩ := h.reads
  rw [hs, hd rfl]

/-- Turns follow each other. -/
theorem Turn.trans {w' w'' : World σ} {s' s'' : Stream} {blocked : Bool}
    (hcb : cb.Respect (QuietAt G)) (h : Turn cb s w false w' s')
    (h' : Turn cb s' w' blocked w'' s'') : Turn cb s w blocked w'' s'' where
  reads := by
    obtain ⟨as, hs, hd, hm⟩ := h.reads
    obtain ⟨bs, hs', hd', hm'⟩ := h'.reads
    refine ⟨as ++ bs, by rw [hs, hs', List.append_assoc], fun hb cs => ?_, fun heager => ?_⟩
    · rw [List.append_assoc, hd rfl, hd' hb]
    · obtain ⟨hu, hno⟩ := hm heager
      obtain ⟨hu', hno'⟩ := hm' heager
      exact ⟨hu.append hcb (h.ready rfl).role (hd rfl) (hno rfl) hu', hno'⟩
  stops hb := h.drain.trans (h'.stops hb)
  ok := h'.ok
  size := h'.size.trans h.size
  ready := h'.ready
  less hb := Nat.lt_trans (h'.less hb) (h.less rfl)

/-- `parse_data` with work that is due does that work. -/
theorem parseData_of_due (hcb : cb.Respect (QuietAt G)) (h : Ready s w)
    (ho : w.inst.state = .open) (hd : w.inst.rx.state = .data) (hdue : ¬w.inst.rx.Rests) :
    parseData cb s w = ((settle cb w).1, (settle cb w).2, s) := by
  by_cases hz : w.inst.rx.size = 0
  · simp [parseData, settle, hd, hz, ho]
  · have he : w.inst.rx.s.eof = true := by
      by_contra hne
      exact hdue fun _ => ⟨hz, by simpa using hne⟩
    have hset : settle cb w = flush cb w := by simp [settle, hd, hz, he]
    have hsize : (settle cb w).2.inst.rx.size = w.inst.rx.size := by
      rcases settle_cases hcb h.role with ⟨-, hk⟩ | ⟨-, -, hset⟩
      · rw [hk.rx]
      · generalize (settle cb w).2.inst.rx = rx' at hset
        cases hset with
        | ended _ _ _ hz' => exact absurd hz' hz
        | _ => rfl
    rw [hset] at hsize ⊢
    have hpos : 0 < w.inst.rx.size := Nat.pos_of_ne_zero hz
    have hne : ¬((flush cb w).2.inst.state = .open ∧ (flush cb w).2.inst.rx.size = 0) := by
      rw [hsize]
      exact fun h => hz h.2
    simp only [parseData, if_pos hpos, he, if_true]
    rw [if_neg hne]

/-- `parse_data` while the instance is open. -/
theorem parseData_turn (hcb : cb.Respect (QuietAt G)) (h : Ready s w) (ho : w.inst.state = .open)
    (hd : w.inst.rx.state = .data) :
    Turn cb s w (parseData cb s w).1 (parseData cb s w).2.1 (parseData cb s w).2.2 := by
  -- either a byte is read, or work is due
  by_cases hrest : w.inst.rx.Rests
  · obtain ⟨hz, he⟩ := hrest hd
    have hpos : 0 < w.inst.rx.size := Nat.pos_of_ne_zero hz
    cases hb : s.rest with
    | nil =>
      have hrun : parseData cb s w = (true, w, { s with error := true }) := by
        simp [parseData, hpos, he, Stream.getU8_nil h.ok h.error hb, hz]
      rw [hrun]
      exact turn_nil h hrest hb
    | cons b bs =>
      have hstate : (consume cb b w).inst.rx.state = .data := by
        rw [consume_rx hcb h.role, RxFrame.take, hd]
        exact (RxFrame.takeData_state b _).trans hd
      have hturn := turn_cons hcb h ho hrest hb fun _ => by simp [RxFrame.InMask, hstate]
      -- the last byte of a payload is followed by the work that is due then
      have hrun : parseData cb s w =
          if (consume cb b w).inst.state = .open ∧ (consume cb b w).inst.rx.size = 0 then
            ((settle cb (consume cb b w)).1, (settle cb (consume cb b w)).2,
              { s with pos := s.pos + 1 })
          else (false, consume cb b w, { s with pos := s.pos + 1 }) := by
        rw [consume_data cb hd] at hstate ⊢
        simp only [parseData, if_pos hpos, he, Stream.getU8_cons h.error hb, Bool.false_eq_true,
          if_false, Bool.false_or]
        by_cases hdone : (dataByte cb b w).inst.state = .open ∧ (dataByte cb b w).inst.rx.size = 0
        · rw [if_pos hdone, if_pos hdone]
          simp [settle, hstate, hdone.2]
        · rw [if_neg hdone, if_neg hdone]
      rw [hrun]
      split_ifs with hdone
      · have hdue : ¬(consume cb b w).inst.rx.Rests := fun h => (h hstate).1 hdone.2
        exact hturn.trans hcb (turn_settle hcb (hturn.ready rfl) hdone.1 hdue)
      · exact hturn
  · rw [parseData_of_due hcb h ho hd hrest]
    exact turn_settle hcb h ho hrest

/-- A closed instance is not closed again. -/
theorem closeWithReason_of_closed (hc : w.inst.state = .closed) (code : UInt16) (reason : Payload)
    (type : BufferType) : closeWithReason cb code reason type w = w := by
  unfold closeWithReason
  rw [hc]

/-- A byte read by a closed instance changes the frame at most. -/
theorem consume_of_closed (cb : Callbacks σ) (hc : w.inst.state = .closed) (b : UInt8) :
    consume cb b w = w.updateRx fun rx => rx.take w.inst.utf8Rx b := by
  have hobeys := consume_obeys cb w b
  generalize consume cb b w = w' at hobeys ⊢
  cases hobeys with
  | stays f _ hf => exact World.updateRx_congr hf
  | closes f g code type _ hf =>
    rw [closeWithCode, closeWithReason_of_closed (by exact hc), World.updateRx_updateRx]
    exact World.updateRx_congr hf

/-- `parse_data` of a closed instance changes the frame at most. -/
theorem parseData_of_closed (hc : w.inst.state = .closed) (hd : w.inst.rx.state = .data)
    (he : w.inst.rx.s.eof = false) :
    ∃ blocked s' f, parseData cb s w = (blocked, w.updateRx f, s') := by
  have hno (w' : World σ) (h : w'.inst.state = .closed) :
      ¬(w'.inst.state = .open ∧ w'.inst.rx.size = 0) := by simp [h]
  unfold parseData
  by_cases hpos : 0 < w.inst.rx.size
  · simp only [if_pos hpos, he, Bool.false_eq_true, if_false]
    obtain ⟨b, s'⟩ := s.getU8
    cases b with
    | none => exact ⟨true, s', id, if_neg (hno w hc)⟩
    | some b =>
      have hbyte := consume_of_closed cb hc b
      rw [consume_data cb hd] at hbyte
      have hclosed : (dataByte cb b w).inst.state = .closed := by rw [hbyte]; exact hc
      exact ⟨false, s', _, (if_neg (hno _ hclosed)).trans (congrArg (fun w => (false, w, s')) hbyte)⟩
  · simp only [if_neg hpos]
    exact ⟨false, s, id, if_neg (hno w hc)⟩

/-- The buffer is not full behind a byte of a frame header. -/
theorem RxFrame.Sound.take_not_eof {rx : RxFrame} (h : rx.Sound) (hd : rx.state ≠ .data) (u : Nat)
    (b : UInt8) : (rx.take u b).s.eof = false := by
  unfold RxFrame.take
  cases hst : rx.state with
  | data => exact absurd hst hd
  | opcode =>
    have hroom := h.room
    simp only [RxFrame.takeOpcode_s, Stream.eof, Stream.rewind_pos, Stream.rewind_size,
      beq_eq_false_iff_ne]
    omega
  | size =>
    dsimp only
    rw [RxFrame.branch_s]
    exact h.not_eof (by simp [hst]) hd
  | _ => exact h.not_eof (by simp [hst]) hd

/-- A turn that starts in a payload. -/
theorem parseStep_data (hd : w.inst.rx.state = .data) : parseStep cb s w = parseData cb s w := by
  simp [parseStep, hd]

/-- The second `switch` of a turn. -/
theorem match_data {α : Type} (st : RxState) (x y : α) :
    (match st with | .data => x | _ => y) = if st = .data then x else y := by
  cases st <;> rfl

/-- A turn that starts in a frame header. -/
theorem parseStep_header (hd : w.inst.rx.state ≠ .data) :
    parseStep cb s w =
      match s.getU8 with
      | (some b, s) =>
        if (consume cb b w).inst.rx.state = .data then parseData cb s (consume cb b w)
        else (breaksOff cb s w, consume cb b w, s)
      | (none, s) => (true, w, s) := by
  unfold parseStep consume breaksOff
  cases hst : w.inst.rx.state with
  | data => exact absurd hst hd
  | _ =>
    rcases hs : s.getU8 with ⟨_ | b, s'⟩
    · simp [parseHeader, parseMask, hs, hst]
    · simp only [parseHeader, parseMask, hs]
      exact match_data _ _ _

/-- A turn breaks off inside a mask only. -/
theorem inMask_of_breaksOff {b : UInt8}
    (hb : breaksOff cb s w = true) (hd : (consume cb b w).inst.rx.state ≠ .data) :
    (consume cb b w).inst.state = w.inst.state ∧ (consume cb b w).inst.rx.InMask := by
  unfold breaksOff at hb
  unfold consume at hd ⊢
  cases hst : w.inst.rx.state with
  | mask0 | mask1 | mask2 => simp [maskByte, RxFrame.InMask, RxState.nextMask, hst]
  | mask3 => simp [maskByte, RxState.nextMask, hst] at hd
  | _ => simp [hst] at hb

/-- Only a byte of a mask leads into it. -/
theorem RxFrame.inMask_of_take {rx : RxFrame} {u : Nat} {b : UInt8} (h : (rx.take u b).InMask) :
    rx.state = .mask0 ∨ rx.state = .mask1 ∨ rx.state = .mask2 := by
  unfold take at h
  cases hst : rx.state with
  | mask0 | mask1 | mask2 => simp
  | mask3 => simp [hst, takeMask, InMask, RxState.nextMask] at h
  | data => simp [hst, InMask, takeData_state] at h
  | opcode =>
    simp only [hst, takeOpcode] at h
    split_ifs at h <;> simp [InMask, opened, hst] at h
  | size =>
    simp only [hst, branch, afterSize] at h
    split_ifs at h <;> simp [InMask] at h
  | size1 | size9 =>
    simp only [hst, takeExtendedSize, nextSize, afterSize, InMask] at h
    split_ifs at h <;> simp at h
  | _ => simp [hst, takeExtendedSize, nextSize, InMask] at h

/-- An eager turn does not go on inside a mask. -/
theorem not_inMask_of_breaksOff (hcb : cb.Respect (QuietAt G)) (hr : w.inst.role = .client)
    {b : UInt8} (hb : breaksOff cb s w = false) (heager : cb.Eager) :
    ¬(consume cb b w).inst.rx.InMask := by
  rw [consume_rx hcb hr]
  intro hm
  unfold breaksOff at hb
  rcases RxFrame.inMask_of_take hm with h | h | h <;> simp [h, heager s w] at hb

/-- **A turn of the loop is a part of `drain`, or it closes the instance, or it is broken off inside a
mask.** -/
theorem parseStep_turn (hcb : cb.Respect (QuietAt G)) (h : Ready s w) (ho : w.inst.state = .open) :
    Turn cb s w (parseStep cb s w).1 (parseStep cb s w).2.1 (parseStep cb s w).2.2 ∨
      ((parseStep cb s w).2.1.inst.state ≠ .open ∧ ClosingTurn cb s w (parseStep cb s w).2.1) ∨
      ∃ b bs, s.rest = b :: bs ∧ w.inst.rx.Rests ∧
        parseStep cb s w = (true, consume cb b w, { s with pos := s.pos + 1 }) ∧
        (consume cb b w).inst.state = .open ∧ (consume cb b w).inst.rx.InMask := by
  by_cases hd : w.inst.rx.state = .data
  · rw [parseStep_data hd]
    exact .inl (parseData_turn hcb h ho hd)
  have hrest : w.inst.rx.Rests := fun h => absurd h hd
  rw [parseStep_header hd]
  cases hb : s.rest with
  | nil =>
    rw [Stream.getU8_nil h.ok h.error hb]
    exact .inl (turn_nil h hrest hb)
  | cons b bs =>
    rw [Stream.getU8_cons h.error hb]
    dsimp only
    -- the byte may be the last of the header, and `parse_data` follows in the same turn
    split_ifs with hd'
    · have hturn := turn_cons hcb h ho hrest hb fun _ => by simp [RxFrame.InMask, hd']
      by_cases ho' : (consume cb b w).inst.state = .open
      · exact .inl (hturn.trans hcb (parseData_turn hcb (hturn.ready rfl) ho' hd'))
      · have hc : (consume cb b w).inst.state = .closed := by
          have hlead := (consume_setup hcb h.role b).state
          rw [ho] at hlead
          exact hlead.open_or.resolve_left ho'
        have he : (consume cb b w).inst.rx.s.eof = false := by
          rw [consume_rx hcb h.role]
          exact h.sound.take_not_eof hd _ _
        -- on a closed instance `parse_data` may still read a byte of the payload
        obtain ⟨blocked, s', f, hrun⟩ := parseData_of_closed hc hd' he
        have hdrain (cs : List UInt8) : drain cb (b :: cs) w = (cs, consume cb b w) := by
          rw [drain_cons_of_rests ho hrest, drain_of_not_open ho']
        rw [hrun]
        refine .inr (.inl ⟨ho', ⟨b, bs, hb, fun cs => ?_⟩, f, ?_⟩)
        · rw [hdrain]
          exact ho'
        · rw [hb, hdrain]
    · cases hbreak : breaksOff cb { s with pos := s.pos + 1 } w with
      | false => exact .inl (turn_cons hcb h ho hrest hb (not_inMask_of_breaksOff hcb h.role hbreak))
      | true =>
        obtain ⟨ho', hmask⟩ := inMask_of_breaksOff hbreak hd'
        exact .inr (.inr ⟨b, bs, rfl, hrest, rfl, ho'.trans ho, hmask⟩)

end Turn

/-! ## The loop -/

/-- What the loop ends with when it has read of the bytes `as ++ cs` no more than `as`: the world that
`drain` ends with, up to the frame under reception of a closed instance. It has not been broken off
when `cs` is empty, and could not have been before when it is eager. -/
structure LoopEnds (as cs : List UInt8) (s : Stream) (w : World σ) (w' : World σ) (s' : Stream) :
    Prop where
  split : s.rest = as ++ cs
  of_open : (drain cb as w).2.inst.state = .open →
    w' = (drain cb as w).2 ∧ s'.rest = (drain cb as w).1 ++ cs ∧ s'.Ok ∧ s'.size = s.size
  of_closed : (drain cb as w).2.inst.state ≠ .open →
    ∃ f, w' = (drain cb as w).2.updateRx f
  whole : cs = [] ∨ as ≠ [] ∧ (drain cb as w).1 = [] ∧ (drain cb as w).2.inst.state = .open ∧
    (drain cb as w).2.inst.rx.InMask
  eager : cb.Eager → Unbroken cb as w

/-- What follows a turn follows from where the turn began. -/
theorem LoopEnds.turn {G : Prop} {cb : Callbacks σ} (hcb : cb.Respect (QuietAt G))
    {as cs : List UInt8} {s s' s'' : Stream} {w w' w'' : World σ}
    (hturn : Turn cb s w false w' s') (h : LoopEnds cb as cs s' w' w'' s'') :
    ∃ as', LoopEnds cb as' cs s w w'' s'' := by
  obtain ⟨bs, hs, hd, hm⟩ := hturn.reads
  have heq : drain cb (bs ++ as) w = drain cb as w' := hd rfl as
  refine ⟨bs ++ as, ?_⟩
  constructor
  · rw [hs, h.split, List.append_assoc]
  · rw [heq, ← hturn.size]
    exact h.of_open
  · rw [heq]
    exact h.of_closed
  · rw [heq]
    refine h.whole.imp_right fun ⟨hne, hrest⟩ => ⟨fun hnil => ?_, hrest⟩
    exact hne (List.append_eq_nil_iff.mp hnil).2
  · intro heager
    obtain ⟨hu, hno⟩ := hm heager
    exact hu.append hcb (hturn.ready rfl).role (hd rfl) (hno rfl) (h.eager heager)

/-- The loop ends behind a turn that is blocked, or has closed the instance. -/
theorem LoopEnds.stop {cb : Callbacks σ} {s s' : Stream} {w w' : World σ}
    (hd : drain cb s.rest w = (s'.rest, w')) (hok : s'.Ok) (hsize : s'.size = s.size)
    (hu : cb.Eager → Unbroken cb s.rest w) : LoopEnds cb s.rest [] s w w' s' := by
  refine ⟨(List.append_nil _).symm, fun _ => ?_, fun _ => ⟨id, ?_⟩, .inl rfl, hu⟩ <;> rw [hd]
  · exact ⟨rfl, (List.append_nil _).symm, hok, hsize⟩
  · rfl

/-- **The loop ends, and does what `drain` does.** -/
theorem parseLoop_drain {G : Prop} {cb : Callbacks σ} (hcb : cb.Respect (QuietAt G)) {s : Stream}
    {w : World σ} (h : Ready s w) (ho : w.inst.state = .open) {fuel : Nat}
    (hf : turnsLeft s w < fuel) :
    ∃ w' s', parseLoop cb fuel s w = some (w', s') ∧ ∃ as cs, LoopEnds cb as cs s w w' s' := by
  induction fuel generalizing s w with
  | zero => exact absurd hf (Nat.not_lt_zero _)
  | succ fuel ih =>
    have hturn := parseStep_turn hcb h ho
    have hreceiving : Receiving w := ⟨h.sound, h.role⟩
    unfold parseLoop
    generalize parseStep cb s w = r at hturn ⊢
    obtain ⟨blocked, w', s'⟩ := r
    rcases hturn with hturn | ⟨hno, hclosing⟩ | ⟨b, bs, hb, hrest, heq, ho', hmask⟩
    · obtain ⟨as, hs, hd, hm⟩ := hturn.reads
      -- a turn that is blocked is the last one
      cases blocked with
      | true =>
        have hdrain := hturn.stops rfl
        have hleft : (drain cb (as ++ s'.rest) w).1 = s'.rest := by rw [← hs, hdrain]
        refine ⟨w', s', rfl, _, _, .stop hdrain hturn.ok hturn.size fun heager => ?_⟩
        rw [hs]
        exact (hm heager).1.refused hcb hreceiving hleft
      | false =>
        by_cases ho' : w'.inst.state = .open
        · have hless := hturn.less rfl
          obtain ⟨w'', s'', hrun, as, cs, hends⟩ := ih (hturn.ready rfl) ho' (by omega)
          obtain ⟨as', hends'⟩ := hends.turn hcb hturn
          exact ⟨w'', s'', by simpa [ho'] using hrun, as', cs, hends'⟩
        -- a turn that has closed the instance is the last one, too
        · have hdrain : drain cb s.rest w = drain cb s'.rest w' := hturn.drain
          rw [drain_of_not_open ho'] at hdrain
          have hleft : (drain cb (as ++ s'.rest) w).1 = s'.rest := by rw [← hs, hdrain]
          refine ⟨w', s', by simp [ho'], _, _, .stop hdrain hturn.ok hturn.size fun heager => ?_⟩
          rw [hs]
          exact (hm heager).1.refused hcb hreceiving hleft
    -- the instance has been closed by the byte, with another one read behind it
    · obtain ⟨⟨b, bs, hb, hclosed⟩, hframe⟩ := hclosing
      refine ⟨w', s', by simp [show w'.inst.state ≠ .open from hno], s.rest, [], ?_⟩
      refine ⟨(List.append_nil _).symm, fun h => ?_, fun _ => hframe, .inl rfl, fun _ => ?_⟩
      · rw [hb] at h
        exact absurd h (hclosed bs)
      · intro ds cs hsplit hds _ _ ho'
        obtain ⟨d, ds, rfl⟩ := List.exists_cons_of_ne_nil hds
        obtain ⟨rfl, -⟩ := List.cons.inj (hb.symm.trans hsplit)
        exact absurd ho' (hclosed ds)
    · -- the bytes behind the one that has been read are left
      obtain ⟨rfl, rfl, rfl⟩ : blocked = true ∧ w' = consume cb b w ∧ s' = { s with pos := s.pos + 1 } := by
        simpa using heq
      have hdrain : drain cb [b] w = ([], consume cb b w) := by
        rw [drain_cons_of_rests ho hrest, drain_nil_of_rests hmask.rests]
      refine ⟨_, _, rfl, [b], bs, hb, ?_, ?_, .inr ⟨by simp, ?_⟩, fun _ =>
        unbroken_of_length (Nat.le_refl 1)⟩
      · rw [hdrain, Stream.rest_advance hb]
        exact fun _ => ⟨rfl, rfl, h.ok.advance hb, rfl⟩
      · rw [hdrain]
        exact fun hno => absurd ho' hno
      · rw [hdrain]
        exact ⟨rfl, ho', hmask⟩

/-! ## Whole calls -/

section Calls

variable {G : Prop} {cb} {w : World σ}

/-- **The websocket part of `wic_parse` returns, and does what `drain` does.** -/
theorem parseWebsocket_drain (hcb : cb.Respect (QuietAt G)) {s : Stream} (h : Ready s w)
    (ho : w.inst.state = .open) :
    ∃ w' s', parseWebsocket cb s w = some (w', s') ∧ ∃ as cs, LoopEnds cb as cs s w w' s' := by
  have hturns : turnsLeft s w < 2 * s.size + 4 := by
    have hlen := h.ok.length_rest
    unfold turnsLeft
    split_ifs <;> omega
  unfold parseWebsocket
  rw [if_pos ho]
  exact parseLoop_drain hcb h ho hturns

theorem streamInitRo_ok (data : List UInt8) : (streamInitRo data data.length).Ok :=
  ⟨Nat.zero_le _, Nat.mod_le _ _⟩

theorem streamInitRo_rest (data : List UInt8) :
    (streamInitRo data data.length).rest = data.take (data.length % 2 ^ 32) := rfl

/-- What a call makes of the bytes `as ++ cs` when it has read no more than `as`. It has not been
broken off when `cs` is empty, and could not have been before when it is eager. -/
structure CallEnds (cb : Callbacks σ) (as cs : List UInt8) (w w' : World σ) : Prop where
  of_open : (drain cb as w).2.inst.state = .open → w' = (drain cb as w).2
  of_closed : (drain cb as w).2.inst.state ≠ .open → ∃ f, w' = (drain cb as w).2.updateRx f
  whole : cs = [] ∨ as ≠ [] ∧ (drain cb as w).1 = [] ∧ (drain cb as w).2.inst.state = .open ∧
    (drain cb as w).2.inst.rx.InMask
  eager : cb.Eager → Unbroken cb as w

/-- **`wic_parse` of an open instance is `drain` of the bytes the stream holds**, or of those in front
of the place where it is broken off. -/
theorem wicParse_open (hcb : cb.Respect (QuietAt G)) (h : Receiving w) (ho : w.inst.state = .open)
    (data : List UInt8) {bs : List UInt8} (hbs : data.take (data.length % 2 ^ 32) = bs) :
    ∃ as cs w', bs = as ++ cs ∧ wicParse cb data w = some (if w'.inst.state = .open then
        data.length % 2 ^ 32 - ((drain cb as w).1 ++ cs).length else data.length, w') ∧
      CallEnds cb as cs w w' := by
  have hready : Ready (streamInitRo data data.length) w :=
    ⟨streamInitRo_ok data, rfl, h.sound, h.role⟩
  obtain ⟨w', s', hrun, as, cs, hends⟩ := parseWebsocket_drain hcb hready ho
  have hparse : wicParse cb data w =
      some (if w'.inst.state = .open then s'.pos else data.length, w') := by
    have hhand : parseHandshake cb data (streamInitRo data data.length) w =
        (streamInitRo data data.length, w) := by simp [parseHandshake, ho]
    simp [wicParse, hhand, hrun]
  have hsplit := hends.split
  rw [streamInitRo_rest, hbs] at hsplit
  refine ⟨as, cs, w', hsplit, ?_, fun h => (hends.of_open h).1, hends.of_closed, hends.whole,
    hends.eager⟩
  rw [hparse]
  by_cases ho' : (drain cb as w).2.inst.state = .open
  · obtain ⟨-, hrest, hok, hsize⟩ := hends.of_open ho'
    have hlen := hok.length_rest
    have hpos := hok.pos_le
    rw [hrest, hsize] at hlen
    rw [hsize] at hpos
    simp only [streamInitRo] at hlen hpos
    have hbytes : s'.pos = data.length % 2 ^ 32 - ((drain cb as w).1 ++ cs).length := by omega
    rw [hbytes]
  · obtain ⟨f, rfl⟩ := hends.of_closed ho'
    simp [ho']

/-- **`wic_parse` of an open instance is `drain`** where it cannot be broken off. -/
theorem wicParse_drain (hcb : cb.Respect (QuietAt G)) (h : Receiving w) (ho : w.inst.state = .open)
    (data : List UInt8) {bs : List UInt8} (hbs : data.take (data.length % 2 ^ 32) = bs)
    (hu : Unbroken cb bs w) :
    ∃ w', wicParse cb data w = some (if w'.inst.state = .open then
        data.length % 2 ^ 32 - (drain cb bs w).1.length else data.length, w') ∧
      ((drain cb bs w).2.inst.state = .open → w' = (drain cb bs w).2) ∧
      ((drain cb bs w).2.inst.state ≠ .open → ∃ f, w' = (drain cb bs w).2.updateRx f) := by
  obtain ⟨as, cs, w', rfl, hrun, hends⟩ := wicParse_open hcb h ho data hbs
  obtain rfl := hu.whole hends.whole
  rw [List.append_nil] at hrun ⊢
  exact ⟨w', hrun, hends.of_open, hends.of_closed⟩

end Calls

end Wic
