import Wic.Receiver.Keyless
import Wic.Receiver.Parts
import Wic.Runs.Invariant

/-!
# Bytes in chunks

The bytes of a connection may be handed to `wic_parse` at once or in chunks, as long as they are
fewer than a stream can count and no call is broken off: `stream_init_ro` takes the size as a
`uint32_t`, so that of a longer block `wic_parse` reads only the bytes that are left over from
multiples of 2^32, and `parse_mask` returns a variable it has not set.

## Main definitions

* `ChunkingIndependent`: these bytes may be cut anywhere

## Main results

* `chunkingIndependent_iff`
-/

namespace Wic

open Websocket (Frame Kind encodeAll)

variable {σ : Type}

/-! ## Reachable worlds -/

section Reachable

variable {allowed : Caller → Call → Prop} {cb : Callbacks σ} {w : World σ}

theorem Reachable.live (h : Reachable allowed w) (ho : w.inst.state = .open) : Live w :=
  h.invariant.live ho

theorem Reachable.boundary (h : Reachable allowed w) (ho : w.inst.state = .open)
    (hb : w.inst.rx.state = .opcode) : Boundary w := ⟨h.live ho, hb⟩

/-- **Blocks that are not too long and hold no mask are received like their concatenation.** -/
theorem Boundary.feed (h : Boundary w) (hcb : cb.Obliging) {blocks : List (List UInt8)}
    (hlen : ∀ data ∈ blocks, data.length < 2 ^ 32) (hk : w.Keyless blocks.flatten) :
    ∃ w', wicParseAll cb blocks w = some w' ∧ Agrees (received cb blocks.flatten w) w' :=
  wicParseAll_received hcb hlen h.toLive (.inr fun hd => by simp [h.boundary] at hd)
    (hk.unbroken hcb.quiet h.toLive)

/-- The world behind a block is reachable when the instance is still open. -/
theorem Reachable.received (h : Reachable allowed w) (hcb : cb.Obliging) (ho : w.inst.state = .open)
    {data : List UInt8} (hlen : data.length < 2 ^ 32) (hk : w.Keyless data)
    (ho' : (received cb data w).inst.state = .open) : Reachable allowed (received cb data w) := by
  obtain ⟨n, w', hrun, hagree⟩ :=
    wicParse_received hcb (h.live ho) hlen (hk.unbroken hcb.quiet (h.live ho))
  rw [← hagree.1 ho']
  exact .parse h (.passive hcb.toPassive) hrun

/-- Of a block whose length is a multiple of 2^32 nothing is read. -/
theorem Boundary.unread {G : Prop} (h : Boundary w) (hcb : cb.Respect (QuietAt G))
    {data : List UInt8} (hlen : data.length % 2 ^ 32 = 0) : wicParse cb data w = some (0, w) := by
  have htake : data.take (data.length % 2 ^ 32) = [] := by rw [hlen, List.take_zero]
  have hrests : w.inst.rx.Rests := fun hd => by simp [h.boundary] at hd
  obtain ⟨w', hrun, hopen, -⟩ := wicParse_drain hcb h.toLive.receiving h.state data htake
    (unbroken_of_length (Nat.zero_le 1))
  rw [drain_nil_of_rests hrests] at hopen hrun
  obtain rfl := hopen h.state
  rw [hrun, if_pos h.state, hlen]
  rfl

end Reachable

/-! ## An application that supplies every buffer -/

namespace Sample

/-- An application that accepts everything and supplies a buffer of every size. -/
def giving : Callbacks Unit :=
  { host id with onBuffer := fun minSize _ w => ((some 0, minSize), w) }

theorem giving_obliging : giving.Obliging :=
  { host_passive with
    onBuffer := fun _ _ w => .refl w
    accepts := fun _ _ _ _ => rfl
    supplies := fun minSize _ _ => ⟨0, minSize, rfl, Nat.le_refl _⟩ }

/-- A session at a boundary between two frames, in the middle of a binary message. -/
theorem opens_inside : ∃ w : World Unit, (∀ allowed, Reachable allowed w) ∧ Boundary w ∧
    w.inst.rx.inside = some .binary ∧ w.inst.onMessage = true := by
  obtain ⟨w, hw, ho, hb, hf, -, hm, -⟩ := opens
  have hbound := (hw fun _ _ => True).boundary ho hb
  let f : Frame := ⟨false, 0, 2, none, [], by decide⟩
  have hin : w.inst.rx.inside = none := by simp [RxFrame.inside, hf]
  have hcarries : f.Carries w.inst.rx.inside .binary := ⟨rfl, .inl ⟨hin, rfl⟩⟩
  rcases received_data giving_obliging hbound (headerVerdict_of_carries hcarries)
    hcarries.kind_eq with ⟨w', hd, hrun⟩ | ⟨htext, -⟩
  swap
  · cases htext
  have hrun := hrun []
  rw [List.append_nil, received_nil_of_rests (fun h => by simp [hd.boundary.boundary] at h)] at hrun
  refine ⟨w', fun allowed => ?_, hd.boundary, ?_, ?_⟩
  · rw [← hrun]
    have hk : w.Keyless f.encode := by
      have hall : w.Keyless (encodeAll [f]) := hbound.keyless (by simp [f])
      rwa [Websocket.encodeAll_cons, Websocket.encodeAll_nil, List.append_nil] at hall
    exact (hw allowed).received giving_obliging ho (by decide) hk
      (by rw [hrun]; exact hd.boundary.state)
  · rw [hd.inside, hcarries.progress]
    rfl
  · rw [hd.inst]
    exact hm

end Sample

/-! ## Cutting -/

/-- However the bytes are cut, an open instance that the application never holds up makes of the
chunks what it makes of all the bytes at once. -/
def ChunkingIndependent (w : World σ) (bs : List UInt8) : Prop :=
  ∀ (cb : Callbacks σ) (chunks : List (List UInt8)), cb.Obliging → chunks ≠ [] →
    chunks.flatten = bs →
    ∃ k w₁ w₂, wicParse cb bs w = some (k, w₁) ∧ wicParseAll cb chunks w = some w₂ ∧
      w₂.log = w₁.log ∧ w₂.inst.state = w₁.inst.state ∧
      (w₁.inst.state = .open → w₂.inst = w₁.inst)

theorem length_le_flatten {data : List UInt8} {chunks : List (List UInt8)} (h : data ∈ chunks) :
    data.length ≤ chunks.flatten.length := by
  induction chunks with
  | nil => cases h
  | cons c chunks ih =>
    rw [List.flatten_cons, List.length_append]
    rcases List.mem_cons.mp h with rfl | h
    · exact Nat.le_add_right _ _
    · exact Nat.le_trans (ih h) (Nat.le_add_left _ _)

/-- Zeros, two of which are an empty continuation of a binary message. -/
theorem received_zeros {cb : Callbacks σ} (hcb : cb.Obliging) (m : Nat) {w : World σ}
    (h : Boundary w) (hin : w.inst.rx.inside = some .binary) (hm : w.inst.onMessage = true) :
    (received cb (List.replicate m 0) w).log.length = w.log.length + 2 * (m / 2) := by
  let f : Frame := ⟨false, 0, 0, none, [], by decide⟩
  have hcarries : f.Carries w.inst.rx.inside .binary := ⟨rfl, .inr ⟨hin, rfl⟩⟩
  have hencode : f.encode = [0, 0] := by decide
  have hv : headerVerdict w.inst.rx.inside w.inst.rx.s.size f = none :=
    headerVerdict_of_carries hcarries
  match m with
  | 0 =>
    have hrest : w.inst.rx.Rests := fun hd => by simp [h.boundary] at hd
    rw [List.replicate_zero, received_nil_of_rests hrest]
    rfl
  | 1 =>
    -- one zero is the first half of a frame, with which nothing happens yet
    have hone : (1 : Nat) < f.encode.length := by rw [hencode]; decide
    rcases received_data_part hcb h hv hcarries.kind_eq hone with ⟨es, hpart, hempty, -⟩ | ⟨htext, -⟩
    · have hlog := hpart.log
      rw [hempty (Nat.zero_le _), hencode, List.append_nil] at hlog
      exact congrArg List.length hlog
    · cases htext
  | m + 2 =>
    -- two zeros are a whole one, and the instance is at the next
    have hsplit : List.replicate (m + 2) (0 : UInt8) = f.encode ++ List.replicate m 0 := by
      rw [hencode]
      rfl
    rcases received_data hcb h hv hcarries.kind_eq with ⟨w', hd, hrun⟩ | ⟨htext, -⟩
    swap
    · cases htext
    have hm' : w'.inst.onMessage = w.inst.onMessage := by rw [hd.inst]
    have hin' : w'.inst.rx.inside = some .binary := by
      rw [hd.inside, hcarries.progress]
      rfl
    have hlen : w'.log.length = w.log.length + 2 := by
      rw [hd.log, hm, List.length_append]
      rfl
    rw [hsplit, hrun, received_zeros hcb m hd.boundary hin' (hm'.trans hm), hlen]
    omega

/-- Zeros have no mask in the middle of a binary message. -/
theorem Boundary.keyless_zeros {w : World σ} (h : Boundary w) (n : Nat) :
    w.Keyless (List.replicate n 0) := by
  let f : Frame := ⟨false, 0, 0, none, [], by decide⟩
  have hencode : f.encode = List.replicate 2 0 := by decide
  have hall : encodeAll (List.replicate n f) = List.replicate (n * 2) 0 := by
    rw [encodeAll, List.flatMap_replicate, hencode, List.flatten_replicate_replicate]
  have hkeyless : w.Keyless (encodeAll (List.replicate n f)) := h.keyless fun g hg => by
    rw [List.eq_of_mem_replicate hg]
  rw [hall, Nat.mul_two, List.replicate_add] at hkeyless
  exact RxFrame.Keyless.left hkeyless

/-- Zeros that are too many to be counted, at once and one by one. -/
theorem zeros_differ {n : Nat} (hn : 2 ^ 32 ≤ n) : ∃ w : World Unit,
    (∀ allowed, Reachable allowed w) ∧ w.inst.state = .open ∧ w.Keyless (List.replicate n 0) ∧
    ∃ k w₁ w₂, wicParse Sample.giving (List.replicate n 0) w = some (k, w₁) ∧
      wicParseAll Sample.giving (List.replicate n [0]) w = some w₂ ∧ w₂.log ≠ w₁.log := by
  obtain ⟨w, hw, hbound, hin, hm⟩ := Sample.opens_inside
  have hcb := Sample.giving_obliging
  have hflat : (List.replicate n [(0 : UInt8)]).flatten = List.replicate n 0 := by
    rw [List.flatten_replicate_singleton]
  have hshort : ∀ data ∈ List.replicate n [(0 : UInt8)], data.length < 2 ^ 32 := by
    intro data hdata
    rw [List.eq_of_mem_replicate hdata]
    decide
  obtain ⟨w₂, hall, hagree⟩ := hbound.feed hcb hshort (by rw [hflat]; exact hbound.keyless_zeros n)
  have htake : (List.replicate n (0 : UInt8)).take ((List.replicate n (0 : UInt8)).length % 2 ^ 32) =
      List.replicate (n % 2 ^ 32) 0 := by
    rw [List.length_replicate, List.take_replicate, Nat.min_eq_left (Nat.mod_le _ _)]
  obtain ⟨w₁, hone, hopen, hclosed⟩ := wicParse_drain hcb.quiet hbound.toLive.receiving hbound.state
    (List.replicate n 0) htake ((hbound.keyless_zeros _).unbroken hcb.quiet hbound.toLive)
  have hagree₁ : Agrees (received Sample.giving (List.replicate (n % 2 ^ 32) 0) w) w₁ :=
    ⟨hopen, hclosed⟩
  refine ⟨w, hw, hbound.state, hbound.keyless_zeros n, _, w₁, w₂, hone, hall, fun heq => ?_⟩
  rw [hflat] at hagree
  have hlen := congrArg List.length heq
  rw [hagree.log, hagree₁.log, received_zeros hcb _ hbound hin hm,
    received_zeros hcb _ hbound hin hm] at hlen
  have hmod : n % 2 ^ 32 < 2 ^ 32 := Nat.mod_lt _ (by decide)
  omega

/-- **Bytes that a stream can count may be cut anywhere where no call is broken off.** -/
theorem chunkingIndependent_of_keyless {w : World σ} (h : Live w) {bs : List UInt8}
    (hlen : bs.length < 2 ^ 32) (hk : w.Keyless bs) : ChunkingIndependent w bs := by
  rintro cb chunks hcb hne rfl
  have hu := hk.unbroken hcb.quiet h
  have hshort : ∀ data ∈ chunks, data.length < 2 ^ 32 := fun data hd =>
    Nat.lt_of_le_of_lt (length_le_flatten hd) hlen
  obtain ⟨k, w₁, hone, hagree₁⟩ := wicParse_received hcb h hlen hu
  obtain ⟨w₂, hall, hagree₂⟩ := wicParseAll_received hcb hshort h (.inl hne) hu
  refine ⟨k, w₁, w₂, hone, hall, by rw [hagree₂.log, hagree₁.log],
    by rw [hagree₂.state, hagree₁.state], fun ho₁ => ?_⟩
  rw [hagree₁.state] at ho₁
  rw [hagree₂.1 ho₁, hagree₁.1 ho₁]

/-- **And only there**: a call that is broken off leaves the receiver elsewhere than two calls. -/
theorem ChunkingIndependent.keyless {w : World σ} {bs : List UInt8} (h : ChunkingIndependent w bs)
    (hlive : Live w) (hlen : bs.length < 2 ^ 32) : w.Keyless bs := by
  by_contra hkey
  have hcb : (Callbacks.hasty : Callbacks σ).Obliging := Callbacks.hasty_obliging
  have heager : (Callbacks.hasty : Callbacks σ).Eager := Callbacks.hasty_eager
  generalize (Callbacks.hasty : Callbacks σ) = cb at hcb heager
  have hbroken : ¬Unbroken cb bs w := fun hu => hkey (World.keyless_of_unbroken hcb hlive hu)
  have htake (data : List UInt8) (hd : data.length < 2 ^ 32) :
      data.take (data.length % 2 ^ 32) = data := by
    rw [Nat.mod_eq_of_lt hd, List.take_length]
  -- the one call is broken off between `as` and `cs`
  obtain ⟨as, cs, w₁, rfl, hone, hends⟩ :=
    wicParse_open hcb.quiet hlive.receiving hlive.state bs (htake bs hlen)
  have hu := hends.eager heager
  have hcs : cs ≠ [] := by
    rintro rfl
    rw [List.append_nil] at hbroken
    exact hbroken hu
  obtain ⟨-, -, ho₁, hm₁⟩ := hends.whole.resolve_left hcs
  rw [List.length_append] at hlen
  obtain rfl := hends.of_open ho₁
  have hlive₁ := (drain_obliging hcb hlive as ho₁).2.2
  rw [received] at hlive₁
  -- two calls go on behind `as`
  obtain ⟨v, hfirst, hopen, -⟩ :=
    wicParse_drain hcb.quiet hlive.receiving hlive.state as (htake as (by omega)) hu
  obtain rfl := hopen ho₁
  obtain ⟨as', cs', w₂, rfl, htwo, hends'⟩ :=
    wicParse_open hcb.quiet hlive₁.receiving ho₁ cs (htake cs (by omega))
  have hall : wicParseAll cb [as, as' ++ cs'] w = some w₂ := by
    simp [wicParseAll, hfirst, htwo]
  obtain ⟨k, u₁, u₂, hone', hall', -, hstate, hsame⟩ := h cb [as, as' ++ cs'] hcb (by simp) (by simp)
  rw [hone] at hone'
  obtain ⟨-, rfl⟩ := Prod.mk.inj (Option.some.inj hone')
  obtain rfl := Option.some.inj (hall.symm.trans hall')
  -- they do not end in the same state
  have has' : as' ≠ [] := by
    rcases hends'.whole with rfl | ⟨has', -⟩
    · rwa [List.append_nil] at hcs
    · exact has'
  have ho₂ : (drain cb as' (drain cb as w).2).2.inst.state = .open := by
    by_contra hno
    obtain ⟨f, hf⟩ := hends'.of_closed hno
    rw [hf] at hstate
    exact hno (hstate.trans ho₁)
  obtain rfl := hends'.of_open ho₂
  exact state_ne_of_inMask hcb.quiet hlive₁.receiving hm₁ ho₁ has' (hends'.eager heager)
    (drain_obliging hcb hlive₁ as' ho₂).1 (by rw [hsame ho₁])

/-- **Bytes may be cut anywhere exactly when a stream can count them and no call is broken off.** -/
theorem chunkingIndependent_iff (n : Nat) :
    (n < 2 ^ 32 → ∀ (σ : Type) (allowed : Caller → Call → Prop) (w : World σ) (bs : List UInt8),
      Reachable allowed w → w.inst.state = .open → bs.length = n →
      (ChunkingIndependent w bs ↔ w.Keyless bs)) ∧
    (2 ^ 32 ≤ n → ∃ (w : World Unit) (bs : List UInt8), (∀ allowed, Reachable allowed w) ∧
      w.inst.state = .open ∧ bs.length = n ∧ w.Keyless bs ∧ ¬ChunkingIndependent w bs) := by
  constructor
  · rintro hn σ allowed w bs hw ho rfl
    exact ⟨fun h => h.keyless (hw.live ho) hn, chunkingIndependent_of_keyless (hw.live ho) hn⟩
  · intro hn
    obtain ⟨w, hw, ho, hk, k, w₁, w₂, hone, hall, hne⟩ := zeros_differ hn
    refine ⟨w, List.replicate n 0, hw, ho, List.length_replicate, hk, fun h => ?_⟩
    obtain ⟨k', w₁', w₂', hone', hall', heq, -⟩ :=
      h Sample.giving (List.replicate n [0]) Sample.giving_obliging (fun hnil => by
        have hzero := congrArg List.length hnil
        rw [List.length_replicate] at hzero
        rw [hzero] at hn
        exact absurd hn (by decide)) (by rw [List.flatten_replicate_singleton])
    rw [hone] at hone'
    rw [hall] at hall'
    obtain ⟨-, rfl⟩ := Prod.mk.inj (Option.some.inj hone')
    obtain rfl := Option.some.inj hall'
    exact hne heq

/-- 2^32 zeros in the middle of a binary message: one by one they are so many empty parts of it, at
once they are not read at all. -/
theorem chunking_dependent : ∃ w : World Unit,
    (∀ allowed, Reachable allowed w) ∧ w.inst.state = .open ∧ w.Keyless (List.replicate (2 ^ 32) 0) ∧
    ∃ k w₁ w₂, wicParse Sample.giving (List.replicate (2 ^ 32) 0) w = some (k, w₁) ∧
      wicParseAll Sample.giving (List.replicate (2 ^ 32) [0]) w = some w₂ ∧ w₂.log ≠ w₁.log :=
  zeros_differ (Nat.le_refl _)

end Wic
