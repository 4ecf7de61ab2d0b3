import Wic.Receiver.Refeeding
import Wic.Runs.Chunks

/-!
# Back-pressure

An application that refuses messages for a while, and a caller that hands in again what was not read,
get what an application gets that never refuses: nothing is lost, and nothing comes twice. This holds
as long as `stream_init_ro` can count the bytes of every call, that is for fewer than 2^32. Such a
call reads all it is given when nothing is refused, unless it is broken off in a mask.

## Main definitions

* `LosesNothing`: calls of up to so many bytes lose and duplicate nothing
* `ReadsAll`: a call reads all it is given, or something was refused

## Main results

* `losesNothing_iff`
-/

namespace Wic

variable {σ : Type}

/-- Calls of at most `n` bytes lose and duplicate nothing: `ks` are the sizes of calls some of which
are refused, `more` those of calls of which none is, and `ks'` those of a run on the same bytes whose
application never refuses. -/
def LosesNothing (w : World σ) (n : Nat) : Prop :=
  ∀ (cb cb' : Callbacks σ) (bs : List UInt8) (ks more ks' : List Nat), cb.Supplying → cb'.Obliging →
    (∀ k ∈ ks ++ more ++ ks', k ≤ n) → Enough w ks' bs →
    ∃ rest u rest' v v', feed cb ks bs w = some (rest, u) ∧
      feed cb more rest u = some (rest', v) ∧ feed cb' ks' bs w = some ([], v') ∧
      w.since u <+: w.since v' ∧
      (.answer false ∉ v.log.drop u.log.length → Enough u more rest →
        rest' = [] ∧ w.since v = w.since v')

/-- A call on an open instance reads all it is given, or something was refused. -/
def ReadsAll (w : World σ) (data : List UInt8) : Prop :=
  ∀ cb : Callbacks σ, cb.Supplying → ∃ read w', wicParse cb data w = some (read, w') ∧
    (w'.inst.state = .open → read < data.length → Refused cb w w')

section LosesNothing

variable {cb : Callbacks σ} {w w' : World σ} {bs rest : List UInt8} {ps : List Part}

/-- What is made known is what the trace shows. -/
theorem Outputs.since (h : Outputs (fun _ => true) cb bs rest w w' ps) : w.since w' = ps := by
  have hshown := h.shows.eq_shown
  rw [List.filter_true, List.filter_true] at hshown
  exact hshown

/-- **A run that is not refused at its end has made all the output known.** -/
theorem Outputs.all (h : Outputs (fun _ => true) cb bs [] w w' ps) (hcb : cb.Supplying)
    (hrest : w'.inst.state = .open → w'.inst.rx.Rests) : w.since w' = w.output bs := by
  rw [h.since]
  by_cases ho : w'.inst.state = .open
  · have hout := h.goes ho []
    have hnil : w'.output [] = [] := RxFrame.output_nil_of_rests (hrest ho)
    rw [List.append_nil, List.append_nil, hnil, List.append_nil] at hout
    exact hout.symm
  · have hout := h.ends hcb.toPassive.steady ho []
    rw [List.append_nil] at hout
    exact hout.symm

end LosesNothing

theorem losesNothing_of_lt {w : World σ} (hlive : Live w) {n : Nat} (hn : n < 2 ^ 32) :
    LosesNothing w n := by
  intro cb cb' bs ks more ks' hcb hcb' hsmall henough
  have hheard : cb.Heard fun _ => true := hcb.heard
  have hshort (l : List Nat) (hl : ∀ k ∈ l, k ∈ ks ++ more ++ ks') : ∀ k ∈ l, k < 2 ^ 32 :=
    fun k hk => Nat.lt_of_le_of_lt (hsmall k (hl k hk)) hn
  obtain ⟨rest, u, hfeed, hfed, -⟩ := feed_fed hheard ks bs hlive
  obtain ⟨ps, hout⟩ := hfed.outputs
  -- the run that is never refused
  obtain ⟨rest'', v', hfeed', ⟨⟨qs, hout'⟩, -, -⟩, hread'⟩ :=
    feed_fed hcb'.supplying.heard ks' bs hlive
  have hreads' := hread' (hshort ks' fun k hk => by simp [hk]) hcb'.not_refused
  obtain rfl := hreads'.enough hcb'.quiet (fun _ => hlive) henough
  have hall' := hout'.all hcb'.supplying (hreads'.rests henough.1)
  have hpre : w.since u <+: w.since v' := by
    have h := hout.starts []
    rw [List.append_nil] at h
    rw [hout.since, hall']
    exact h
  -- the calls behind the last refusal
  obtain ⟨rest', v, hfeed₂, ⟨⟨rs, hout₂⟩, -, -⟩, hread₂⟩ := hfed.feed hheard more
  refine ⟨rest, u, rest', v, v', hfeed, hfeed₂, hfeed', hpre, fun hno hmore => ?_⟩
  have hreads₂ := hread₂ (hshort more fun k hk => by simp [hk]) fun hr => hno (hcb.refused hr)
  obtain rfl := hreads₂.enough hcb.quiet hfed.live hmore
  exact ⟨rfl, (hout₂.all hcb (hreads₂.rests hmore.1)).trans hall'.symm⟩

/-- **A call reads all it is given exactly where it cannot be broken off.** -/
theorem readsAll_iff {w : World σ} (h : Live w) {data : List UInt8} (hlen : data.length < 2 ^ 32) :
    ReadsAll w data ↔ w.Keyless data := by
  constructor
  · intro hall
    by_contra hkey
    -- callbacks under which a call is broken off wherever it can be
    have hcb : (Callbacks.hasty : Callbacks σ).Obliging := Callbacks.hasty_obliging
    have htake : data.take (data.length % 2 ^ 32) = data := by
      rw [Nat.mod_eq_of_lt hlen, List.take_length]
    obtain ⟨as, cs, w', rfl, hrun, hends⟩ :=
      wicParse_open hcb.quiet h.receiving h.state data htake
    -- the call has left something, or it could not be broken off
    have hcs : cs ≠ [] := by
      rintro rfl
      have hu := hends.eager Callbacks.hasty_eager
      rw [List.append_nil] at hkey
      exact hkey (World.keyless_of_unbroken hcb h hu)
    obtain ⟨-, -, ho, -⟩ := hends.whole.resolve_left hcs
    obtain rfl := hends.of_open ho
    rw [if_pos ho] at hrun
    -- but nothing has been refused in it
    obtain ⟨read, v, hrun', hrefused⟩ := hall Callbacks.hasty hcb.supplying
    obtain ⟨rfl, rfl⟩ := Prod.mk.inj (Option.some.inj (hrun.symm.trans hrun'))
    refine hcb.not_refused (hrefused ho ?_)
    have hpos := List.length_pos_iff.mpr hcs
    rw [Nat.mod_eq_of_lt hlen, List.length_append, List.length_append]
    omega
  · intro hk cb hcb
    -- the other way round, a call that cannot be broken off reads to its end
    obtain ⟨read, w', hrun, -, hread⟩ :=
      wicParse_fed (hcb.heard : cb.Heard fun _ => true) h data.length data
    rw [List.take_length] at hrun
    refine ⟨read, w', hrun, fun _ hlt => ?_⟩
    by_contra hno
    obtain ⟨hdrop, -⟩ := (hread hlen hno).whole (hk.unbroken hcb.quiet h)
    rw [List.sum_singleton, List.drop_length, List.drop_eq_nil_iff] at hdrop
    omega

/-- Of a block whose length is a multiple of 2^32 nothing is read, and nothing is refused. -/
theorem block_unread {n : Nat} (hn : 2 ^ 32 ≤ n) : ∃ (w : World Unit) (data : List UInt8),
    (∀ allowed, Reachable allowed w) ∧ w.inst.state = .open ∧ data.length ≤ n ∧ w.Keyless data ∧
    0 < data.length ∧ wicParse Sample.giving data w = some (0, w) := by
  obtain ⟨w, hw, hbound, -⟩ := Sample.opens_inside
  refine ⟨w, List.replicate (2 ^ 32) 0, hw, hbound.state, ?_, hbound.keyless_zeros _, ?_, ?_⟩
  · rw [List.length_replicate]
    exact hn
  · rw [List.length_replicate]
    exact Nat.two_pow_pos 32
  · have hlen : (List.replicate (2 ^ 32) (0 : UInt8)).length = 2 ^ 32 := List.length_replicate
    generalize List.replicate (2 ^ 32) (0 : UInt8) = data at hlen
    exact hbound.unread Sample.giving_obliging.quiet (by rw [hlen, Nat.mod_self])

/-- **Back-pressure loses and duplicates nothing as long as a stream can count the bytes of every
call**, and then a call reads all it is given, or is refused, exactly where it cannot be broken
off. -/
theorem losesNothing_iff (n : Nat) :
    (n < 2 ^ 32 → ∀ (σ : Type) (allowed : Caller → Call → Prop) (w : World σ),
      Reachable allowed w → w.inst.state = .open → LosesNothing w n ∧
        ∀ data : List UInt8, data.length ≤ n → (ReadsAll w data ↔ w.Keyless data)) ∧
    (2 ^ 32 ≤ n → ∃ (w : World Unit) (data : List UInt8), (∀ allowed, Reachable allowed w) ∧
      w.inst.state = .open ∧ data.length ≤ n ∧ w.Keyless data ∧ ¬ReadsAll w data) := by
  constructor
  · intro hn σ allowed w hw ho
    exact ⟨losesNothing_of_lt (hw.live ho) hn, fun data hdata =>
      readsAll_iff (hw.live ho) (Nat.lt_of_le_of_lt hdata hn)⟩
  · intro hn
    obtain ⟨w, data, hw, ho, hlen, hk, hpos, hrun⟩ := block_unread hn
    refine ⟨w, data, hw, ho, hlen, hk, fun h => ?_⟩
    obtain ⟨read, w', hrun', hrefused⟩ := h Sample.giving Sample.giving_obliging.supplying
    obtain ⟨rfl, rfl⟩ := Prod.mk.inj (Option.some.inj (hrun.symm.trans hrun'))
    exact Sample.giving_obliging.not_refused (hrefused ho hpos)

/-- 2^32 bytes, handed over at once to an application that refuses nothing: none of them is read, and
the instance stays open. -/
theorem back_pressure_without_refusal : ∃ (w : World Unit) (data : List UInt8),
    (∀ allowed, Reachable allowed w) ∧ w.inst.state = .open ∧ data.length ≤ 2 ^ 32 ∧
    w.Keyless data ∧ 0 < data.length ∧ wicParse Sample.giving data w = some (0, w) :=
  block_unread (Nat.le_refl _)

end Wic
