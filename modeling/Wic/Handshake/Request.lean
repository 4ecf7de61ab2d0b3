import Wic.Calls.Quiet

/-!
# The request

What `wic_start` may do, case by case: refuse, find no buffer, find one that is too small for the
request and give it back empty, or hand the request over. The buffer that goes back is the one that
was lent, and the hash kept for the response is that of the key in the request.

## Main definitions

* `drawKey`, `putHandshake`: the key and the request
* `Started`: what `wic_start` may do

## Main results

* `startClient_started`: it does nothing else
* `putHandshake_base`, `putHandshake_text`: the buffer of the request and its text
-/

namespace Wic

open Http (ascii)

variable {σ : Type} (cb : Callbacks σ)

/-- The sixteen random bytes of a request. -/
def drawKey (w : World σ) : List UInt8 × World σ :=
  if w.inst.rand then drawNonce cb 4 w else (List.replicate 16 0xaa, w)

/-- The request for `url` with the key `key`, `none` when the header list is broken. -/
def putHandshake (fuel : Nat) (w : World σ) (url : List UInt8) (u : Http.HttpParserUrl)
    (key : List UInt8) (tx : Stream) : Option Stream :=
  let tx := (putRequest url u tx).putStr (ascii "Sec-WebSocket-Key: ")
  let tx := (tx.write key).putStr (ascii "\r\n")
  (putHeaders w.heap fuel w.inst.txHeader tx).map fun tx => tx.putStr (ascii "\r\n")

/-- What `wic_start` may do. -/
inductive Started (fuel : Nat) (w : World σ) : Status × World σ → Prop
  | refused (status) (h : status = .badState ∨ status = .badInput) : Started fuel w (status, w)
  | blocked (h : w.inst.state = .init) (hb : (lease cb 0 .http w).1.1 = none) :
    Started fuel w (.wouldBlock, (lease cb 0 .http w).2)
  | ended (h : w.inst.state = .init) {buf max w₁ nonce w₂ key u tx}
    (hb : lease cb 0 .http w = ((some buf, max), w₁)) (hk : drawKey cb w₁ = (nonce, w₂))
    (hn : key = b64Encode 64 nonce 24)
    (ht : putHandshake fuel w₂ (w.inst.url.getD []) u key
      (streamInit buf (List.replicate (max % 2 ^ 32) 0) max) = some tx) :
    Started fuel w
      (if tx.error then
        (.tooLarge, handOver cb tx 0 .http (w₂.update fun i => { i with hash := serverHash key }))
      else
        (.success, handOver cb tx tx.pos .http
          ((w₂.update fun i => { i with hash := serverHash key }).setState .parseHandshake)))

variable {cb}

/-- **`wic_start` does nothing else.** -/
theorem startClient_started {fuel : Nat} {w : World σ} {r : Status × World σ}
    (h : startClient cb fuel w = some r) : Started cb fuel w r := by
  unfold startClient at h
  -- nothing happens but in `INIT`, with a URL that can be parsed and a buffer
  by_cases hs : w.inst.state = .init
  · rw [if_pos hs] at h
    dsimp only at h
    cases hu : Http.httpParserParseUrl (w.inst.url.getD []) {} with
    | none =>
      rw [hu] at h
      cases h
      exact .refused _ (.inr rfl)
    | some u =>
      rw [hu] at h
      dsimp only at h
      rcases hb : lease cb 0 .http w with ⟨⟨buf, max⟩, w₁⟩
      rw [hb] at h
      cases buf with
      | none =>
        cases h
        have hblocked : Started cb fuel w _ := .blocked hs (congrArg (fun r => r.1.1) hb)
        rwa [hb] at hblocked
      | some buf =>
        dsimp only at h
        obtain ⟨tx, hput, htx⟩ := Option.map_eq_some_iff.mp h
        have hended := Started.ended hs hb rfl rfl (Option.map_eq_some_iff.mpr ⟨tx, hput, rfl⟩)
        rw [← htx]
        exact hended
  · rw [if_neg hs] at h
    cases h
    exact .refused _ (.inl rfl)

/-! ## The buffer of the request -/

theorem lease_log (cb : Callbacks σ) (n : Nat) (type : BufferType) (w : World σ) :
    (lease cb n type w).2.log = (cb.onBuffer n type w).2.log ++
      [.buffer n type (lease cb n type w).1.1 (lease cb n type w).1.2] := rfl

theorem lease_inst (cb : Callbacks σ) (n : Nat) (type : BufferType) (w : World σ) :
    (lease cb n type w).2.inst = (cb.onBuffer n type w).2.inst := rfl

@[simp] theorem Stream.write_base (s : Stream) (buf : List UInt8) :
    (s.write buf).base = s.base := by
  unfold Stream.write
  split_ifs <;> rfl

@[simp] theorem Stream.putStr_base (s : Stream) (str : List UInt8) :
    (s.putStr str).base = s.base := s.write_base str

theorem putHeaders_base {heap : Nat → Header} {fuel : Nat} {header : Option Nat} {tx tx' : Stream}
    (h : putHeaders heap fuel header tx = some tx') : tx'.base = tx.base := by
  induction fuel generalizing header tx with
  | zero =>
    cases header with
    | none =>
      cases h
      rfl
    | some header => cases h
  | succ fuel ih =>
    cases header with
    | none =>
      cases h
      rfl
    | some header =>
      unfold putHeaders at h
      split at h
      · rw [ih h]
        simp
      · cases h

theorem putRequest_base (url : List UInt8) (u : Http.HttpParserUrl) (tx : Stream) :
    (putRequest url u tx).base = tx.base := by
  unfold putRequest
  dsimp only
  split_ifs <;> simp

/-- The request is written into the buffer that was lent. -/
theorem putHandshake_base {fuel : Nat} {w : World σ} {url : List UInt8} {u : Http.HttpParserUrl}
    {key : List UInt8} {tx tx' : Stream} (h : putHandshake fuel w url u key tx = some tx') :
    tx'.base = tx.base := by
  obtain ⟨tx₁, hput, rfl⟩ := Option.map_eq_some_iff.mp h
  rw [Stream.putStr_base, putHeaders_base hput]
  simp [putRequest_base]

theorem drawNonce_edits {P : Caller → World σ → World σ → Prop} (hcb : cb.Respect P) (n : Nat)
    (w : World σ) : Edits w (drawNonce cb n w).2 := by
  induction n generalizing w with
  | zero => exact .refl w
  | succ n ih => exact (hcb.rand w).trans (ih _)

theorem drawKey_edits {P : Caller → World σ → World σ → Prop} (hcb : cb.Respect P)
    (w : World σ) : Edits w (drawKey cb w).2 := by
  unfold drawKey
  split_ifs
  · exact drawNonce_edits hcb 4 w
  · exact .refl w

/-! ## The length of the request -/

theorem drawNonce_length (n : Nat) (w : World σ) : (drawNonce cb n w).1.length = 4 * n := by
  induction n generalizing w with
  | zero => rfl
  | succ n ih =>
    show ([_, _, _, _] ++ (drawNonce cb n (cb.rand w).2).1).length = 4 * (n + 1)
    rw [List.length_append, ih]
    simp only [List.length_cons, List.length_nil]
    omega

theorem drawKey_length (w : World σ) : (drawKey cb w).1.length = 16 := by
  unfold drawKey
  split_ifs
  · exact drawNonce_length 4 w
  · rfl

theorem b64Encode_length {nonce : List UInt8} (h : nonce.length = 16) :
    (b64Encode 64 nonce 24).length = 24 := by
  match nonce, h with
  | [_, _, _, _, _, _, _, _, _, _, _, _, _, _, _, _], _ =>
    simp [b64Encode, b64EncodedSize, b64EncodeLoop]

/-- The parts of the request before its key. -/
def requestParts (url : List UInt8) (u : Http.HttpParserUrl) : List (List UInt8) :=
  [ascii "GET ", u.text .path url] ++
    (if 0 < (u.fieldData .query).len then [ascii "?", u.text .query url] else []) ++
    (if 0 < (u.fieldData .fragment).len then [ascii "#", u.text .fragment url] else []) ++
    [ascii " HTTP/1.1\r\n", ascii "Host: ", u.text .host url] ++
    (if u.port ≠ 0 then [ascii ":", u.text .port url] else []) ++
    [ascii "\r\n", ascii "Upgrade: websocket\r\n", ascii "Connection: upgrade\r\n",
      ascii "Sec-WebSocket-Version: 13\r\n"]

/-- The length of the request for `url` without headers of the application: `GET` to the version, the
key with its name, and two ends of line. -/
def requestLength (url : List UInt8) (u : Http.HttpParserUrl) : Nat :=
  (requestParts url u).flatten.length + 47

theorem putRequest_eq (url : List UInt8) (u : Http.HttpParserUrl) (tx : Stream) :
    putRequest url u tx = (requestParts url u).foldl Stream.write tx := by
  unfold putRequest requestParts Stream.putStr
  dsimp only
  split_ifs <;> rfl

/-- A stream has room for `n` bytes. -/
structure Stream.Fits (s : Stream) (n : Nat) : Prop where
  writable : s.writable = true
  error : s.error = false
  room : s.pos + n ≤ s.size

theorem Stream.Fits.write {s : Stream} {buf : List UInt8} {n : Nat} (h : s.Fits (buf.length + n)) :
    (s.write buf).Fits n := by
  have hroom := h.room
  rw [Stream.write_eq h.writable h.error (by omega)]
  refine ⟨h.writable, h.error, ?_⟩
  show s.pos + buf.length + n ≤ s.size
  omega

theorem Stream.Fits.writes {s : Stream} {bufs : List (List UInt8)} {n : Nat}
    (h : s.Fits (bufs.flatten.length + n)) : (bufs.foldl Stream.write s).Fits n := by
  induction bufs generalizing s with
  | nil =>
    rw [List.flatten_nil, List.length_nil, Nat.zero_add] at h
    exact h
  | cons buf bufs ih =>
    apply ih
    apply Stream.Fits.write
    rw [List.flatten_cons, List.length_append, Nat.add_assoc] at h
    exact h

/-- A request that fits its buffer is written. -/
theorem putHandshake_fits {fuel : Nat} {w : World σ} {url : List UInt8} {u : Http.HttpParserUrl}
    {key : List UInt8} {tx tx' : Stream} (h : putHandshake fuel w url u key tx = some tx')
    (hw : w.inst.txHeader = none) (hk : key.length = 24) (hf : tx.Fits (requestLength url u)) :
    tx'.error = false := by
  obtain ⟨tx₁, hput, rfl⟩ := Option.map_eq_some_iff.mp h
  rw [hw] at hput
  have hput' : (((putRequest url u tx).putStr (ascii "Sec-WebSocket-Key: ")).write key).putStr
      (ascii "\r\n") = tx₁ := by
    cases fuel <;> exact Option.some.inj hput
  rw [← hput', putRequest_eq]
  have hparts := Stream.Fits.writes (n := 47) hf
  have hname : (Stream.write _ (ascii "Sec-WebSocket-Key: ")).Fits 28 := hparts.write
  have hkey : (Stream.write _ key).Fits 4 := Stream.Fits.write (by rw [hk]; exact hname)
  have hline : (Stream.write _ (ascii "\r\n")).Fits 2 := hkey.write
  have hend : (Stream.write _ (ascii "\r\n")).Fits 0 := hline.write
  exact hend.error

/-! ## The text of the request -/

theorem Stream.Keeps.writes {s : Stream} {text : List UInt8} (h : s.Keeps text)
    (bufs : List (List UInt8)) : (bufs.foldl Stream.write s).Keeps (text ++ bufs.flatten) := by
  induction bufs generalizing s text with
  | nil => simpa using h
  | cons buf bufs ih =>
    have hrest := ih (h.write buf)
    rwa [List.append_assoc] at hrest

/-- What the loop over the headers appends. -/
theorem putHeaders_keeps {heap : Nat → Header} {fuel : Nat} {header : Option Nat} {tx tx' : Stream}
    {text : List UInt8} (h : putHeaders heap fuel header tx = some tx') (hk : tx.Keeps text) :
    ∃ headers, tx'.Keeps (text ++ headers) := by
  induction fuel generalizing header tx text with
  | zero =>
    cases header with
    | none =>
      cases h
      exact ⟨[], by rwa [List.append_nil]⟩
    | some a => cases h
  | succ fuel ih =>
    cases header with
    | none =>
      cases h
      exact ⟨[], by rwa [List.append_nil]⟩
    | some a =>
      unfold putHeaders at h
      split at h
      · rename_i name value _ _
        obtain ⟨headers, hk'⟩ := ih h
          (hk.writes [name, ascii ": ", value, ascii "\r\n"])
        exact ⟨_, by rwa [List.append_assoc] at hk'⟩
      · cases h

/-- **A request that fits is the request line, the fields of the upgrade, the key and the headers
of the application.** -/
theorem putHandshake_text {fuel : Nat} {w : World σ} {url : List UInt8} {u : Http.HttpParserUrl}
    {key : List UInt8} {tx tx' : Stream} (h : putHandshake fuel w url u key tx = some tx')
    (hk : tx.Keeps []) (he : tx'.error = false) :
    ∃ headers, tx'.text = (requestParts url u).flatten ++ ascii "Sec-WebSocket-Key: " ++ key ++
      ascii "\r\n" ++ headers ++ ascii "\r\n" := by
  obtain ⟨tx₁, hput, rfl⟩ := Option.map_eq_some_iff.mp h
  rw [putRequest_eq] at hput
  have hfront := ((hk.writes (requestParts url u)).write (ascii "Sec-WebSocket-Key: ")).write key
  obtain ⟨headers, hheaders⟩ := putHeaders_keeps hput (hfront.write (ascii "\r\n"))
  have hall := hheaders.write (ascii "\r\n")
  refine ⟨headers, ?_⟩
  have hfit := (hall.fits (by
    by_contra hfull
    have herr := hall.full (Nat.lt_of_not_le hfull)
    exact Bool.false_ne_true (he.symm.trans herr))).2
  rw [List.nil_append] at hfit
  exact hfit

/-- `wic_start` succeeds when its URL can be parsed and its request fits the buffer it is lent. -/
theorem startClient_success {fuel : Nat} {w w' : World σ} {status : Status} {u : Http.HttpParserUrl}
    {buf max : Nat} {w₁ : World σ} (hs : w.inst.state = .init)
    (hu : Http.httpParserParseUrl (w.inst.url.getD []) {} = some u)
    (hb : lease cb 0 .http w = ((some buf, max), w₁))
    (hh : (drawKey cb w₁).2.inst.txHeader = none)
    (hf : requestLength (w.inst.url.getD []) u ≤ max % 2 ^ 32)
    (h : startClient cb fuel w = some (status, w')) : status = .success := by
  unfold startClient at h
  rw [if_pos hs] at h
  dsimp only at h
  rw [hu] at h
  dsimp only at h
  rw [hb] at h
  dsimp only at h
  obtain ⟨tx, hput, htx⟩ := Option.map_eq_some_iff.mp h
  have hfits : (streamInit buf (List.replicate (max % 2 ^ 32) 0) max).Fits
      (requestLength (w.inst.url.getD []) u) := ⟨rfl, rfl, by simpa [streamInit] using hf⟩
  have hput' : putHandshake fuel (drawKey cb w₁).2 (w.inst.url.getD []) u
      (b64Encode 64 (drawKey cb w₁).1 24)
      (streamInit buf (List.replicate (max % 2 ^ 32) 0) max) = some (tx.putStr (ascii "\r\n")) :=
    Option.map_eq_some_iff.mpr ⟨tx, hput, rfl⟩
  have herror := putHandshake_fits hput' hh (b64Encode_length (drawKey_length w₁)) hfits
  rw [if_neg (by rw [herror]; exact Bool.false_ne_true)] at htx
  exact (Prod.mk.inj htx).1.symm

end Wic
