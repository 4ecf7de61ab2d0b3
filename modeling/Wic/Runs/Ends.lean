import Wic.Handshake.Upgrades
import Wic.Runs.Polls
import Wic.Runs.Responses

/-!
# The end of the input

To the parser of the response a call without bytes is the end of the input. Most responses may not end
there, and a response that lasts until then is no upgrade; so a call without bytes never opens the
instance, and in the middle of a response it always closes it.

## Main definitions

* `Midway`: what is known of the parser while the instance waits

## Main results

* `Reachable.midway`
* `Reachable.poll_never_opens`
-/

namespace Wic

open Http (Errno Callback HttpParser)

variable {σ : Type}

/-- While the instance waits for the response its parser agrees with its header store, and knows the
length of the response where the headers say it. -/
structure Midway (i : Inst) : Prop where
  sound : Sound i.http.state (startLocals i.http) i.headerState
  measured : Measured i.http

section Midway

variable {w w' : World σ} {data : List UInt8} {cb : Callbacks σ} {allowed : Caller → Call → Prop}

/-- The instance as `wic_init` has left it. -/
theorem Inst.Untouched.midway {i : Inst} (h : i.Untouched) : Midway i := by
  obtain ⟨hhttp, hstate, -⟩ := h
  refine ⟨?_, ?_⟩
  · rw [hhttp, hstate]
    exact ⟨fun hh => absurd hh (by decide), rfl, rfl⟩
  · rw [hhttp]
    exact .start

/-- Calls and edits leave the parser and the header state alone. -/
theorem Midway.of_eq {i j : Inst} (h : Midway i) (hhttp : j.http = i.http)
    (hstate : j.headerState = i.headerState) : Midway j := by
  refine ⟨?_, ?_⟩
  · rw [hhttp, hstate]
    exact h.sound
  · rw [hhttp]
    exact h.measured

/-- **A block that leaves the instance waiting.** -/
theorem Midway.execute (h : Midway w.inst)
    (hs : (httpParserExecute data w).2.inst.state = .parseHandshake)
    (he : (httpParserExecute data w).2.inst.http.httpErrno = .ok) :
    Midway (httpParserExecute data w).2.inst := by
  obtain ⟨horderly, hsound, -⟩ := report_sound data h.sound
  have hmeasured := report_measured data h.measured
  rw [httpParserExecute_eq h.sound] at hs he ⊢
  by_cases hm : .messageComplete ∈ (report data w.inst.http).1
  · -- behind a complete response the instance no longer waits
    obtain ⟨front, hcalls, -⟩ := horderly.split hm
    rw [hcalls, answer_append] at hs
    have hready := respondOr_complete_ready (w := answer front (setHttp (report data w.inst.http).2 w))
    cases hready.symm.trans hs
  · have hpart : AnswersPart (report data w.inst.http).1 (setHttp (report data w.inst.http).2 w) := by
      apply answersPart _ hm
      rw [setHttp_headerState]
      exact horderly
    have hhttp := hpart.http
    have hstate := hpart.state
    rw [setHttp_http] at hhttp
    rw [setHttp_headerState] at hstate
    rw [hhttp] at he
    refine ⟨?_, ?_⟩
    · rw [hhttp, hstate]
      exact hsound hm he
    · rw [hhttp]
      exact hmeasured

/-- An instance that still waits behind `wic_parse` has read a block of the response. -/
theorem wicParse_waiting {G : Prop} (hcb : cb.Respect (QuietAt G)) (h : Invariant w) {n : Nat}
    (hrun : wicParse cb data w = some (n, w')) (hs : w'.inst.state = .parseHandshake) :
    w.inst.state = .parseHandshake ∧ w' = (httpParserExecute data w).2 ∧
      w'.inst.http.httpErrno = .ok := by
  obtain ⟨s, w₁, hok, herr, hinv, hkept, hhandled, hparse⟩ := wicParse_split hcb h data
  obtain ⟨w₂, s', hsocket, hlead⟩ := parseWebsocket_leads hcb hinv hok herr
  rw [hparse, hsocket] at hrun
  obtain ⟨-, rfl⟩ := Prod.mk.inj (Option.some.inj hrun)
  -- an instance that is not open is left alone
  have hno : w₁.inst.state ≠ .open := by
    intro ho
    rw [ho, hs] at hlead
    rcases hlead.open_or with hl | hl <;> cases hl
  rw [parseWebsocket, if_neg hno] at hsocket
  obtain ⟨rfl, -⟩ := Prod.mk.inj (Option.some.inj hsocket)
  by_cases hw : w.inst.state = .parseHandshake
  · have hafter := hhandled hw
    unfold afterHttp at hafter
    by_cases he : (httpParserExecute data w).2.inst.http.httpErrno = .ok
    · rw [if_neg (not_not.mpr he)] at hafter
      split_ifs at hafter
      · rw [hafter] at hs
        cases hs
      · exact ⟨hw, hafter, hafter ▸ he⟩
    · rw [if_pos he] at hafter
      rw [hafter] at hs
      cases hs
  · rw [hkept hw] at hs
    exact absurd hs hw

/-- **What is known of the parser while the instance waits.** -/
theorem Reachable.midway (h : Reachable allowed w) (hs : w.inst.state = .parseHandshake) :
    Midway w.inst := by
  induction h with
  | init hinit =>
    have hinitial := (wicInit_eq hinit).2.1
    cases hinitial.symm.trans hs
  | edit _ he ih =>
    rw [he.inst] at hs ⊢
    exact ih hs
  | @call cb c w h hcb hc ih =>
    have hk := (Call.run_quiet hcb.quiet h.invariant.role c False.elim).toKeeps
    have hstate : (c.run cb w).inst.headerState = w.inst.headerState := by rw [hk.inst]
    have hbefore : w.inst.state = .parseHandshake := by
      rcases hk.state with hl | hl | ⟨-, hl⟩
      · exact hl ▸ hs
      · cases hl.symm.trans hs
      · cases hl.symm.trans hs
    exact (ih hbefore).of_eq hk.http hstate
  | start h hcb hrun ih =>
    have hst := startClient_starts hcb.quiet hrun
    rcases hst.state with hl | ⟨hi, -⟩
    · exact (ih (hl ▸ hs)).of_eq (by rw [hst.inst]) (by rw [hst.inst])
    · exact (h.untouched hi).midway.of_eq (by rw [hst.inst]) (by rw [hst.inst])
  | parse h hcb hrun ih =>
    obtain ⟨hw, rfl, he⟩ := wicParse_waiting hcb.quiet h.invariant hrun hs
    exact (ih hw).execute hs he

/-- The end of the input in the middle of a response is an error, or completes no upgrade. -/
theorem execute_end (h : Midway w.inst) (he : w.inst.http.httpErrno = .ok)
    (hmid : w.inst.http.atEof ≠ .nothing) :
    (httpParserExecute [] w).2.inst.http.httpErrno ≠ .ok := by
  simp only [httpParserExecute, he, ne_eq, not_true_eq_false, if_false, List.length_nil, if_true]
  cases hend : w.inst.http.atEof with
  | nothing => exact absurd hend hmid
  | invalid => exact Errno.noConfusion
  | complete =>
    have hno : (completed w).inst.http.upgrade = false := by
      obtain ⟨s, -, hcompleted⟩ := completed_frame w
      rw [hcompleted]
      exact h.measured.not_upgrade hend
    have hrefused : acceptsUpgrade (completed w).inst = false := by
      unfold acceptsUpgrade
      rw [hno]
      rfl
    show (respondOr .messageComplete w).inst.http.httpErrno ≠ .ok
    rw [respondOr_complete]
    unfold judged
    rw [hrefused, if_neg Bool.false_ne_true]
    split_ifs <;> exact Errno.noConfusion

/-- **A call without bytes never opens an instance**, and in the middle of a response it closes it. -/
theorem Reachable.poll_never_opens (h : Reachable allowed w) (hcb : Reentrant allowed cb) :
    ∃ n w', wicParse cb [] w = some (n, w') ∧ (MidResponse w → w'.inst.state = .closed) ∧
      (w'.inst.state = .open → w.inst.state = .open) := by
  have hinv := h.invariant
  by_cases ho : w.inst.state = .open
  · refine ⟨0, _, wicParse_nil_of_live hcb.quiet (hinv.live ho), fun hmid => ?_, fun _ => ho⟩
    cases ho.symm.trans hmid.1
  by_cases hmid : MidResponse w
  · obtain ⟨hs, hend⟩ := hmid
    have herr := execute_end (h.midway hs) (hinv.waiting (.inr hs)).2 hend
    obtain ⟨s, w₁, hok, hserr, hinv₁, -, hhandled, hparse⟩ := wicParse_split hcb.quiet hinv []
    have hclosed : w₁.inst.state = .closed := by
      rw [hhandled hs]
      unfold afterHttp
      rw [if_pos herr]
      rfl
    have hno : w₁.inst.state ≠ .open := by
      rw [hclosed]
      decide
    rw [parseWebsocket, if_neg hno] at hparse
    exact ⟨_, w₁, hparse, fun _ => hclosed, fun ho₁ => absurd ho₁ hno⟩
  · exact ⟨0, w, wicParse_nil_of_not_open hcb.quiet hinv ho hmid, fun h => absurd h hmid, id⟩

end Midway

namespace Sample

/-- A response that says neither how long it is nor that it comes in chunks. -/
def lasting : List UInt8 := Http.ascii "HTTP/1.1 200 OK\r\nUpgrade: websocket\r\n\r\n"

/-- Such a response is complete at the end of the input, and the instance closes. -/
theorem lasting_never_opens : ∃ w : World Unit, w.inst.http.atEof = .complete ∧
    ∃ n w', wicParse (host id) [] w = some (n, w') ∧ w'.inst.state = .closed := by
  have hrun : (session (host id) arg () [lasting]).map (fun w =>
      (w.inst.state, w.inst.http.atEof)) = some (.parseHandshake, .complete) := by
    decide +kernel
  obtain ⟨w, hw, heq⟩ := Option.map_eq_some_iff.mp hrun
  obtain ⟨hs, hend⟩ := Prod.mk.inj heq
  have hreach : Reachable (fun _ _ => True) w := session_reachable (.passive host_passive) hw
  obtain ⟨n, w', hpoll, hclosed, -⟩ := hreach.poll_never_opens (.passive host_passive)
  refine ⟨w, hend, n, w', hpoll, hclosed ⟨hs, ?_⟩⟩
  rw [hend]
  decide

end Sample

end Wic
