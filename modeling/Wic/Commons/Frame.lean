import Mathlib.Algebra.GroupWithZero.Nat
import Mathlib.Data.List.Basic
import Mathlib.Data.Nat.Basic
import Mathlib.Tactic.Common
import Mathlib.Tactic.SplitIfs

/-!
# The websocket frame

The frame of RFC 6455: its bytes with the minimal form of the length, the masking of a payload, and
the rules for a sequence of frames. A frame here is any value of the fields; `Frame.Legal` says
which frames may come next.

## Main definitions

* `Frame`, `Frame.encode`: a frame and its bytes
* `LengthForm`, `Frame.headerAs`: the three forms of a length, and a header in any of them
* `xorKey`: masking
* `Kind`, `Frame.Legal`, `Frame.progress`: the message a sequence of frames is in the middle of
* `Frame.Carries`: a part of a message
* `LegalSequence`, `messages`: sequences of frames, and the messages they carry
* `Frame.FromClient`: what a client may send
* `Fragments`, `carried`, `carriedWithin`: the frames of one message with pings and pongs between
  them, its payload, and the part of it in the first bytes

## Main results

* `xorKey_xorKey`: masking twice with a key gives the payload back
* `Frame.FromClient.length_le`: the size of a control frame
-/

namespace Websocket

/-- A masking key. -/
abbrev Key := Vector UInt8 4

theorem mod_four_lt (i : Nat) : i % 4 < 4 := Nat.mod_lt i (by decide)

/-- The bytes `bs`, the first at offset `i` of the payload, masked with `key`. -/
def xorKey (key : Key) : Nat → List UInt8 → List UInt8
  | _, [] => []
  | i, b :: bs => (b ^^^ getElem key (i % 4) (mod_four_lt i)) :: xorKey key (i + 1) bs

/-- The low `n` bytes of `v`, the most significant first. -/
def bigEndian : Nat → Nat → List UInt8
  | 0, _ => []
  | n + 1, v => UInt8.ofNat (v / 256 ^ n) :: bigEndian n v

/-- A frame. -/
structure Frame where
  fin : Bool
  rsv : Fin 8
  opcode : Fin 16
  key : Option Key
  payload : List UInt8
  length_lt : payload.length < 2 ^ 64
  deriving DecidableEq

/-- A frame without RSV bits. -/
def Frame.of (fin : Bool) (opcode : Nat) (key : Option Key) (payload : List UInt8)
    (h : payload.length < 2 ^ 64) : Frame := ⟨fin, 0, Fin.ofNat 16 opcode, key, payload, h⟩

/-- The three RSV bits. -/
def reserved (rsv1 rsv2 rsv3 : Bool) : Fin 8 :=
  (if rsv1 then 4 else 0) + (if rsv2 then 2 else 0) + if rsv3 then 1 else 0

/-- The seven bits of the length, in the minimal form. -/
def length7 (n : Nat) : Nat := if n ≤ 125 then n else if n < 2 ^ 16 then 126 else 127

/-- The bytes of the extended length, in the minimal form. -/
def extendedLength (n : Nat) : List UInt8 :=
  if n ≤ 125 then [] else if n < 2 ^ 16 then bigEndian 2 n else bigEndian 8 n

namespace Frame

variable (f : Frame)

/-- FIN, RSV and the opcode. -/
def firstByte : UInt8 := UInt8.ofNat ((if f.fin then 128 else 0) + f.rsv * 16 + f.opcode)

/-- MASK and the seven bits of the length. -/
def secondByte : UInt8 :=
  UInt8.ofNat ((if f.key.isSome then 128 else 0) + length7 f.payload.length)

/-- The masking key. -/
def keyBytes : List UInt8 := match f.key with
  | none => []
  | some key => key.toList

/-- Everything before the payload. -/
def header : List UInt8 :=
  f.firstByte :: f.secondByte :: (extendedLength f.payload.length ++ f.keyBytes)

/-- The payload as it is sent. -/
def body : List UInt8 := match f.key with
  | none => f.payload
  | some key => xorKey key 0 f.payload

/-- The bytes of a frame. -/
def encode : List UInt8 := f.header ++ f.body

end Frame

/-! ## Other forms of the length -/

/-- The forms of a length: in the second byte, in two bytes more, and in eight. -/
inductive LengthForm
  | short
  | medium
  | long
  deriving DecidableEq

namespace LengthForm

/-- The form can hold a length. -/
def Holds : LengthForm → Nat → Prop
  | short, n => n ≤ 125
  | medium, n => n < 2 ^ 16
  | long, n => n < 2 ^ 64

/-- The seven bits of the second byte. -/
def bits : LengthForm → Nat → Nat
  | short, n => n
  | medium, _ => 126
  | long, _ => 127

/-- The bytes behind the second one. -/
def extension : LengthForm → Nat → List UInt8
  | short, _ => []
  | medium, n => bigEndian 2 n
  | long, n => bigEndian 8 n

/-- The form a length is to be sent in. -/
def minimal (n : Nat) : LengthForm := if n ≤ 125 then short else if n < 2 ^ 16 then medium else long

theorem bits_lt {form : LengthForm} {n : Nat} (h : form.Holds n) : form.bits n < 128 := by
  cases form with
  | short => exact Nat.lt_of_le_of_lt h (by decide)
  | medium => exact (by decide : 126 < 128)
  | long => exact (by decide : 127 < 128)

theorem minimal_holds {n : Nat} (h : n < 2 ^ 64) : (minimal n).Holds n := by
  unfold minimal
  split_ifs with h₁ h₂
  · exact h₁
  · exact h₂
  · exact h

end LengthForm

namespace Frame

/-- MASK and the seven bits of the length, in the given form. -/
def secondByteAs (form : LengthForm) (f : Frame) : UInt8 :=
  UInt8.ofNat ((if f.key.isSome then 128 else 0) + form.bits f.payload.length)

/-- Everything before the payload, the length in the given form. -/
def headerAs (form : LengthForm) (f : Frame) : List UInt8 :=
  f.firstByte :: f.secondByteAs form :: (form.extension f.payload.length ++ f.keyBytes)

/-- The header of a frame has the length in its minimal form. -/
theorem header_eq (f : Frame) : f.header = f.headerAs (.minimal f.payload.length) := by
  have hbits : length7 f.payload.length =
      (LengthForm.minimal f.payload.length).bits f.payload.length := by
    unfold length7 LengthForm.minimal
    split_ifs <;> rfl
  have hextension : extendedLength f.payload.length =
      (LengthForm.minimal f.payload.length).extension f.payload.length := by
    unfold extendedLength LengthForm.minimal
    split_ifs <;> rfl
  rw [header, headerAs, secondByte, secondByteAs, hbits, hextension]

end Frame

/-! ## Masking -/

@[simp] theorem xorKey_nil (key : Key) (i : Nat) : xorKey key i [] = [] := by
  unfold xorKey
  rfl

@[simp] theorem xorKey_cons (key : Key) (i : Nat) (b : UInt8) (bs : List UInt8) :
    xorKey key i (b :: bs) = (b ^^^ key[i % 4]) :: xorKey key (i + 1) bs := by
  rw [xorKey]

@[simp] theorem length_xorKey (key : Key) (i : Nat) (bs : List UInt8) :
    (xorKey key i bs).length = bs.length := by
  induction bs generalizing i with
  | nil => simp
  | cons b bs ih => simp [ih]

theorem xorKey_append (key : Key) (i : Nat) (bs cs : List UInt8) :
    xorKey key i (bs ++ cs) = xorKey key i bs ++ xorKey key (i + bs.length) cs := by
  induction bs generalizing i with
  | nil => simp
  | cons b bs ih => simp [ih, Nat.add_assoc, Nat.add_comm 1]

/-- **Masking twice with a key gives the payload back.** -/
@[simp] theorem xorKey_xorKey (key : Key) (i : Nat) (bs : List UInt8) :
    xorKey key i (xorKey key i bs) = bs := by
  induction bs generalizing i with
  | nil => simp
  | cons b bs ih =>
    rw [xorKey_cons, xorKey_cons, ih, UInt8.xor_assoc, UInt8.xor_self, UInt8.xor_zero]

@[simp] theorem length_bigEndian (n v : Nat) : (bigEndian n v).length = n := by
  induction n with
  | zero => rfl
  | succ n ih => simp [bigEndian, ih]

/-- The bytes of a number, read from the most significant on. -/
theorem foldl_bigEndian (n v acc : Nat) :
    (bigEndian n v).foldl (fun a b => a * 256 + b.toNat) acc = acc * 256 ^ n + v % 256 ^ n := by
  induction n generalizing acc with
  | zero => simp [bigEndian, Nat.mod_one]
  | succ n ih =>
    have hpow : (256 : Nat) ^ (n + 1) = 256 ^ n * 256 := Nat.pow_succ 256 n
    rw [bigEndian, List.foldl_cons, ih, UInt8.toNat_ofNat', hpow, Nat.mod_mul, Nat.add_mul,
      Nat.mul_assoc, Nat.mul_comm 256 (256 ^ n), Nat.mul_comm (256 ^ n) (v / 256 ^ n % 256),
      Nat.add_assoc, Nat.add_comm (v % 256 ^ n)]

theorem Frame.length_body (f : Frame) : f.body.length = f.payload.length := by
  unfold body
  cases f.key <;> simp

/-- The length that a header declares, and the bytes behind the header. -/
def splitHeader : List UInt8 → Option (Nat × List UInt8)
  | _ :: b :: bs =>
    let bits := b.toNat % 128
    let extension := if bits = 126 then 2 else if bits = 127 then 8 else 0
    let declared := if bits < 126 then bits
      else (bs.take extension).foldl (fun a b => a * 256 + b.toNat) 0
    some (declared, bs.drop (extension + if 128 ≤ b.toNat then 4 else 0))
  | _ => none

theorem Frame.secondByte_toNat (f : Frame) :
    f.secondByte.toNat = (if f.key.isSome then 128 else 0) + length7 f.payload.length := by
  have hlt : length7 f.payload.length < 128 := by
    unfold length7
    split_ifs <;> omega
  rw [secondByte, UInt8.toNat_ofNat']
  apply Nat.mod_eq_of_lt
  split_ifs <;> omega

theorem Frame.length_keyBytes_eq (f : Frame) :
    f.keyBytes.length = if f.key.isSome then 4 else 0 := by
  unfold keyBytes
  cases f.key <;> simp

/-- **The header of a frame declares the length of what is behind it.** -/
theorem Frame.splitHeader_encode (f : Frame) :
    splitHeader f.encode = some (f.payload.length, f.body) := by
  have hn := f.length_lt
  have hkey := f.length_keyBytes_eq
  have hb := f.secondByte_toNat
  -- what the second byte says: whether a key follows, and the seven bits of the length
  have hmask : (if 128 ≤ f.secondByte.toNat then 4 else 0) = f.keyBytes.length := by
    have hlt : length7 f.payload.length < 128 := by
      unfold length7
      split_ifs <;> omega
    rw [hb, hkey]
    split_ifs <;> omega
  have hbits : f.secondByte.toNat % 128 = length7 f.payload.length := by
    rw [hb]
    unfold length7
    split_ifs <;> omega
  -- behind the `n` bytes of an extended length and the key there is the body
  have hdrop {e : List UInt8} {n : Nat} (he : e.length = n) :
      (e ++ f.keyBytes ++ f.body).drop (n + f.keyBytes.length) = f.body := by
    rw [← he, ← List.length_append]
    exact List.drop_left
  have htake {n : Nat} : ((bigEndian n f.payload.length ++ f.keyBytes ++ f.body).take n).foldl
      (fun a b => a * 256 + b.toNat) 0 = f.payload.length % 256 ^ n := by
    rw [List.append_assoc, List.take_left' (length_bigEndian n _), foldl_bigEndian, Nat.zero_mul,
      Nat.zero_add]
  simp only [encode, header, List.cons_append, splitHeader, hmask, hbits]
  -- one case for each minimal form of the length
  by_cases h₁ : f.payload.length ≤ 125
  · have hne : f.payload.length ≠ 126 ∧ f.payload.length ≠ 127 ∧ f.payload.length < 126 := by omega
    simp only [length7, extendedLength, if_pos h₁, if_neg hne.1, if_neg hne.2.1, if_pos hne.2.2]
    rw [hdrop (e := []) (n := 0) rfl]
  · by_cases h₂ : f.payload.length < 2 ^ 16
    · simp only [length7, extendedLength, if_neg h₁, if_pos h₂]
      rw [if_neg (by decide), if_pos trivial, htake, hdrop (length_bigEndian 2 _),
        Nat.mod_eq_of_lt (by omega)]
    · simp only [length7, extendedLength, if_neg h₁, if_neg h₂]
      rw [if_neg (by decide), if_neg (by decide), if_pos trivial, htake,
        hdrop (length_bigEndian 8 _), Nat.mod_eq_of_lt (by omega)]

/-! ## Sequences of frames -/

/-- What a data message carries. -/
inductive Kind
  | text
  | binary
  deriving DecidableEq, Repr

/-- The control frames are those whose opcode has its highest bit set. -/
def Frame.isControl (f : Frame) : Bool := 8 ≤ f.opcode.val

/-- The frame may come next when `inside` is the message in progress. -/
def Frame.Legal (inside : Option Kind) (f : Frame) : Prop :=
  f.rsv = 0 ∧
    match f.opcode.val with
    | 0 => inside ≠ none
    | 1 | 2 => inside = none
    | 8 => f.fin = true ∧ f.payload.length ≤ 125 ∧ f.payload.length ≠ 1
    | 9 | 10 => f.fin = true ∧ f.payload.length ≤ 125
    | _ => False

instance (inside : Option Kind) (f : Frame) : Decidable (f.Legal inside) := by
  unfold Frame.Legal
  split <;> infer_instance

/-- What the message a data frame belongs to carries. -/
def Frame.kind (inside : Option Kind) (f : Frame) : Option Kind :=
  match f.opcode.val with
  | 0 => inside
  | 1 => some .text
  | 2 => some .binary
  | _ => none

/-- Control frames belong to no message. -/
theorem Frame.isControl_of_kind {inside : Option Kind} {f : Frame} {kind : Kind}
    (h : f.kind inside = some kind) : f.isControl = false := by
  unfold Frame.kind at h
  unfold Frame.isControl
  split at h <;> simp_all

/-- The message in progress behind a frame. -/
def Frame.progress (inside : Option Kind) (f : Frame) : Option Kind :=
  if f.isControl then inside else if f.fin then none else f.kind inside

/-- Every frame of a sequence may come next. -/
def LegalSequence : Option Kind → List Frame → Prop
  | _, [] => True
  | inside, f :: fs => f.Legal inside ∧ LegalSequence (f.progress inside) fs

instance decidableLegalSequence : (inside : Option Kind) → (fs : List Frame) →
    Decidable (LegalSequence inside fs)
  | _, [] => isTrue trivial
  | inside, f :: fs =>
    have := decidableLegalSequence (f.progress inside) fs
    inferInstanceAs (Decidable (_ ∧ _))

/-- The payload of the message in progress behind a frame. -/
def Frame.pending (pending : List UInt8) (f : Frame) : List UInt8 :=
  if f.isControl then pending else if f.fin then [] else pending ++ f.payload

/-- A data message. -/
structure Message where
  kind : Kind
  payload : List UInt8
  deriving DecidableEq

/-- The message a frame completes, when the payload of the frames before it is `pending`. -/
def Frame.completes (inside : Option Kind) (pending : List UInt8) (f : Frame) : Option Message :=
  if f.isControl || !f.fin then none
  else (f.kind inside).map fun kind => ⟨kind, pending ++ f.payload⟩

/-- The messages a sequence of frames completes. -/
def messages : Option Kind → List UInt8 → List Frame → List Message
  | _, _, [] => []
  | inside, pending, f :: fs =>
    (f.completes inside pending).toList ++ messages (f.progress inside) (f.pending pending) fs

/-- The opcode of the first frame of a message. -/
def Kind.opcode : Kind → Fin 16
  | .text => 1
  | .binary => 2

/-- The frame is a part of a message of the kind `kind`: its first frame or a continuation. -/
def Frame.Carries (inside : Option Kind) (kind : Kind) (f : Frame) : Prop :=
  f.rsv = 0 ∧ (inside = none ∧ f.opcode = kind.opcode ∨ inside = some kind ∧ f.opcode = 0)

namespace Frame.Carries

variable {inside : Option Kind} {kind : Kind} {f : Frame}

theorem kind_eq (h : f.Carries inside kind) : f.kind inside = some kind := by
  obtain ⟨-, ⟨rfl, ho⟩ | ⟨rfl, ho⟩⟩ := h
  · cases kind <;> simp [Frame.kind, ho, Kind.opcode]
  · simp [Frame.kind, ho]

theorem isControl (h : f.Carries inside kind) : f.isControl = false := by
  obtain ⟨-, ⟨-, ho⟩ | ⟨-, ho⟩⟩ := h
  · cases kind <;> simp [Frame.isControl, ho, Kind.opcode]
  · simp [Frame.isControl, ho]

theorem legal (h : f.Carries inside kind) : f.Legal inside := by
  obtain ⟨hr, ⟨rfl, ho⟩ | ⟨rfl, ho⟩⟩ := h
  · cases kind <;> simp [Frame.Legal, ho, hr, Kind.opcode]
  · simp [Frame.Legal, ho, hr]

theorem progress (h : f.Carries inside kind) :
    f.progress inside = if f.fin then none else some kind := by
  simp [Frame.progress, h.isControl, h.kind_eq]

theorem pending (h : f.Carries inside kind) (bs : List UInt8) :
    f.pending bs = if f.fin then [] else bs ++ f.payload := by
  simp [Frame.pending, h.isControl]

theorem completes (h : f.Carries inside kind) (bs : List UInt8) :
    f.completes inside bs = if f.fin then some ⟨kind, bs ++ f.payload⟩ else none := by
  cases hf : f.fin <;> simp [Frame.completes, h.isControl, h.kind_eq, hf]

end Frame.Carries

/-- A control frame leaves the message in progress alone. -/
theorem Frame.control_eq {f : Frame} (h : f.isControl = true) (inside : Option Kind)
    (pending : List UInt8) : f.progress inside = inside ∧ f.pending pending = pending ∧
      f.completes inside pending = none := by
  simp [Frame.progress, Frame.pending, Frame.completes, h]

/-- The frames of a message of the kind `kind`, none of them masked, with pings and pongs of at most
`room` bytes before and between them; `inside` is the message in progress. -/
inductive Fragments (kind : Kind) (room : Nat) : Option Kind → List Frame → Prop
  | last {inside f} (h : f.Carries inside kind) (hkey : f.key = none) (hfin : f.fin = true) :
    Fragments kind room inside [f]
  | part {inside f fs} (h : f.Carries inside kind) (hkey : f.key = none) (hfin : f.fin = false)
    (hfs : Fragments kind room (some kind) fs) : Fragments kind room inside (f :: fs)
  | control {inside f fs} (h : f.Legal inside) (hkey : f.key = none)
    (hop : f.opcode.val = 9 ∨ f.opcode.val = 10) (hroom : f.payload.length ≤ room)
    (hfs : Fragments kind room inside fs) : Fragments kind room inside (f :: fs)

theorem Fragments.keys {kind : Kind} {room : Nat} {inside : Option Kind} {fs : List Frame}
    (h : Fragments kind room inside fs) : ∀ f ∈ fs, f.key = none := by
  induction h with
  | last _ hkey _ =>
    intro f hf
    rwa [List.mem_singleton.mp hf]
  | part _ hkey _ _ ih | control _ hkey _ _ _ ih =>
    intro f hf
    rcases List.mem_cons.mp hf with rfl | hf
    · exact hkey
    · exact ih f hf

/-- The bytes of a sequence of frames. -/
def encodeAll (fs : List Frame) : List UInt8 := fs.flatMap Frame.encode

/-- The payloads of the data frames of a sequence. -/
def carried (fs : List Frame) : List UInt8 :=
  (fs.filter fun f => !f.isControl).flatMap Frame.payload

/-- The part of these payloads in the first `n` bytes of the sequence. -/
def carriedWithin : List Frame → Nat → List UInt8
  | [], _ => []
  | f :: fs, n =>
    (if f.isControl then [] else f.payload.take (n - f.header.length)) ++
      carriedWithin fs (n - f.encode.length)

@[simp] theorem encodeAll_nil : encodeAll [] = [] := rfl

@[simp] theorem encodeAll_cons (f : Frame) (fs : List Frame) :
    encodeAll (f :: fs) = f.encode ++ encodeAll fs := rfl

@[simp] theorem encodeAll_append (fs gs : List Frame) :
    encodeAll (fs ++ gs) = encodeAll fs ++ encodeAll gs := List.flatMap_append

theorem carried_cons (f : Frame) (fs : List Frame) :
    carried (f :: fs) = (if f.isControl then [] else f.payload) ++ carried fs := by
  cases hf : f.isControl <;> simp [carried, hf]

@[simp] theorem carriedWithin_zero (fs : List Frame) : carriedWithin fs 0 = [] := by
  induction fs with
  | nil => rfl
  | cons f fs ih => simp [carriedWithin, ih]

/-- A frame as a client may send it. -/
structure Frame.FromClient (f : Frame) : Prop where
  rsv : f.rsv = 0
  masked : f.key.isSome = true
  opcode : f.opcode.val ∈ [0, 1, 2, 8, 9, 10]
  control : f.isControl = true → f.fin = true ∧ f.payload.length ≤ 125
  close : f.opcode.val = 8 →
    ∃ (code : UInt16) (reason : List UInt8),
      f.payload = (code >>> 8).toUInt8 :: code.toUInt8 :: reason

/-- The opcode can be read off the bytes of a frame. -/
theorem Frame.opcode_of_encode {f : Frame} {b : UInt8} {bs : List UInt8} (h : f.encode = b :: bs) :
    f.opcode.val = b.toNat % 16 := by
  have hb : f.firstByte = b := (List.cons.inj h).1
  have hrsv := f.rsv.isLt
  have hop := f.opcode.isLt
  rw [← hb, firstByte, UInt8.toNat_ofNat']
  split_ifs <;> omega

theorem Frame.length_encode (f : Frame) :
    f.encode.length = 2 + (extendedLength f.payload.length).length + f.keyBytes.length +
      f.payload.length := by
  simp [encode, header, length_body]
  omega

theorem Frame.length_keyBytes (f : Frame) : f.keyBytes.length ≤ 4 := by
  unfold keyBytes
  cases f.key <;> simp

/-- A header is at most 14 bytes. -/
theorem Frame.length_encode_le (f : Frame) : f.encode.length ≤ 14 + f.payload.length := by
  have hkey := f.length_keyBytes
  have hext : (extendedLength f.payload.length).length ≤ 8 := by
    unfold extendedLength
    split_ifs <;> simp
  rw [f.length_encode]
  omega

/-- The bytes of a control frame that a client may send are few. -/
theorem Frame.FromClient.length_le {f : Frame} (h : f.FromClient) (hc : f.isControl = true) :
    f.encode.length ≤ 131 := by
  have hlen := (h.control hc).2
  have hkey := f.length_keyBytes
  rw [f.length_encode, extendedLength, if_pos hlen]
  simp only [List.length_nil]
  omega

end Websocket
