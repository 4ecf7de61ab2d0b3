import Wic.Http.Chars

/-!
# Base64 and SHA-1

`b64_encode` and the SHA-1 functions behind `server_hash`.

## Main definitions

* `b64EncodedSize`, `b64Encode`: base64, with `size_t` arithmetic modulo `2 ^ w`
* `Sha1Context`, `sha1UpdateRet`, `sha1FinishRet`: SHA-1
* `serverHash`: the digest of a nonce and the protocol's GUID
-/

namespace Wic

open Http (ascii chr)

/-- The table of `b64_encode_byte` -/
def b64Map : List UInt8 :=
  ascii "ABCDEFGHIJKLMNOPQRSTUVWXYZabcdefghijklmnopqrstuvwxyz0123456789+/"

/-- `b64_encode_byte` -/
def b64EncodeByte (b : UInt8) : UInt8 := b64Map.getD (b &&& 0x3f).toNat 0

/-- `b64_encoded_size` -/
def b64EncodedSize (w size : Nat) : Nat :=
  4 * (size / 3 + if size % 3 = 0 then 0 else 1) % 2 ^ w

/-- The characters `b64_encode` writes from the bytes at index `i` on, with `acc` carried over. -/
def b64EncodeLoop : List UInt8 → Nat → UInt8 → List UInt8
  | [], i, acc =>
    if i % 3 = 0 then []
    else [b64EncodeByte acc, chr '='] ++ if i % 3 = 1 then [chr '='] else []
  | c :: rest, i, acc =>
    match i % 3 with
    | 0 => b64EncodeByte (c >>> 2) :: b64EncodeLoop rest (i + 1) (c <<< 4)
    | 1 => b64EncodeByte (acc ||| c >>> 4) :: b64EncodeLoop rest (i + 1) (c <<< 2)
    | _ => b64EncodeByte (acc ||| c >>> 6) :: b64EncodeByte c :: b64EncodeLoop rest (i + 1) acc

/-- `b64_encode`: the characters written, as many as the function returns. -/
def b64Encode (w : Nat) (bytes : List UInt8) (max : Nat) : List UInt8 :=
  if b64EncodedSize w bytes.length ≤ max ∧ bytes.length ≤ b64EncodedSize w bytes.length then
    b64EncodeLoop bytes 0 0
  else []

/-- `sha1_context`; `buffer` holds the bytes not processed yet. -/
structure Sha1Context where
  total : Nat
  state : Vector UInt32 5
  buffer : List UInt8
  deriving DecidableEq, Repr

/-- `sha1_init`, `sha1_starts_ret` -/
def sha1StartsRet : Sha1Context where
  total := 0
  state := #v[0x67452301, 0xEFCDAB89, 0x98BADCFE, 0x10325476, 0xC3D2E1F0]
  buffer := []

/-- `GET_UINT32_BE` -/
def getUint32Be (b : List UInt8) (i : Nat) : UInt32 :=
  (b.getD i 0).toUInt32 <<< 24 ||| (b.getD (i + 1) 0).toUInt32 <<< 16 |||
    (b.getD (i + 2) 0).toUInt32 <<< 8 ||| (b.getD (i + 3) 0).toUInt32

/-- `PUT_UINT32_BE` -/
def putUint32Be (n : UInt32) : List UInt8 :=
  [(n >>> 24).toUInt8, (n >>> 16).toUInt8, (n >>> 8).toUInt8, n.toUInt8]

/-- `S(x,n)` -/
def sha1Rotate (x n : UInt32) : UInt32 := x <<< n ||| x >>> (32 - n)

/-- `F(x,y,z)` and `K` of the round `t`. -/
def sha1Round (t : Nat) (x y z : UInt32) : UInt32 × UInt32 :=
  if t < 20 then (z ^^^ (x &&& (y ^^^ z)), 0x5A827999)
  else if t < 40 then (x ^^^ y ^^^ z, 0x6ED9EBA1)
  else if t < 60 then ((x &&& y) ||| (z &&& (x ||| y)), 0x8F1BBCDC)
  else (x ^^^ y ^^^ z, 0xCA62C1D6)

/-- `R(t)`: the word of round `t` and the window of the last sixteen words, the oldest first. -/
def sha1Word (t : Nat) (win : List UInt32) : UInt32 × List UInt32 :=
  let next := if t < 16 then win.getD 0 0
    else sha1Rotate (win.getD 13 0 ^^^ win.getD 8 0 ^^^ win.getD 2 0 ^^^ win.getD 0 0) 1
  (next, win.drop 1 ++ [next])

/-- The `n` rounds of `internal_sha1_process` from round `t` on. -/
def sha1Rounds : Nat → Nat → List UInt32 → Vector UInt32 5 → Vector UInt32 5
  | 0, _, _, v => v
  | n + 1, t, win, v =>
    let (x, win) := sha1Word t win
    let (f, k) := sha1Round t v[1] v[2] v[3]
    let e := v[4] + (sha1Rotate v[0] 5 + f + k + x)
    sha1Rounds n (t + 1) win #v[e, v[0], sha1Rotate v[1] 30, v[2], v[3]]

/-- `internal_sha1_process` -/
def internalSha1Process (state : Vector UInt32 5) (data : List UInt8) : Vector UInt32 5 :=
  let win := (List.range 16).map fun i => getUint32Be data (4 * i)
  state.zipWith (· + ·) (sha1Rounds 80 0 win state)

/-- The whole blocks of `input`, at most `n` of them, and the bytes after them. -/
def sha1Blocks : Nat → Vector UInt32 5 → List UInt8 → Vector UInt32 5 × List UInt8
  | 0, state, input => (state, input)
  | n + 1, state, input =>
    if 64 ≤ input.length then
      sha1Blocks n (internalSha1Process state (input.take 64)) (input.drop 64)
    else (state, input)

/-- `sha1_update_ret` -/
def sha1UpdateRet (ctx : Sha1Context) (input : List UInt8) : Sha1Context :=
  let pending := ctx.buffer ++ input
  let (state, buffer) := sha1Blocks (pending.length / 64) ctx.state pending
  { total := (ctx.total + input.length) % 2 ^ 64, state, buffer }

/-- `sha1_finish_ret` -/
def sha1FinishRet (ctx : Sha1Context) : List UInt8 :=
  let used := ctx.buffer.length + 1
  let zeros := if used ≤ 56 then 56 - used else 120 - used
  let bits := ctx.total * 8
  let last := ctx.buffer ++ [0x80] ++ List.replicate zeros 0 ++
    putUint32Be (UInt32.ofNat (bits / 2 ^ 32)) ++ putUint32Be (UInt32.ofNat bits)
  let (state, _) := sha1Blocks 2 ctx.state last
  state.toList.flatMap putUint32Be

/-- `server_hash` -/
def serverHash (nonce : List UInt8) : List UInt8 :=
  sha1FinishRet (sha1UpdateRet (sha1UpdateRet sha1StartsRet nonce)
    (ascii "258EAFA5-E914-47DA-95CA-C5AB0DC85B11"))

/-- The nonce and the digest of the protocol's own example. -/
example : b64Encode 64 (serverHash (ascii "dGhlIHNhbXBsZSBub25jZQ==")) 28 =
    ascii "s3pPLMBiTxaQ9kYGzzhZRbK+xOo=" := by
  decide +kernel

end Wic
