import Wic.Runs.Invariant

/-!
# The sender of an open client

What the application sees of a sequence of `wic_send_*` calls, when its callbacks make no calls
themselves and refuse buffers as they like, is what the sender of `Wic.Sender.Progress` makes of the
calls and the answers. So the data frames handed over are a legal sequence, the texts are well
formed, and a call that fails might as well not have been made.

## Main definitions

* `handed`: the blocks of bytes handed to `on_send`
* `Report`, `observe`, `observeAll`: what the application sees of a call, and of a sequence of calls

## Main results

* `Send.run_outcome`: a call comes to an outcome of the sender
* `Reachable.sends_legal`: a sequence of calls on an open client
-/

namespace Wic

open Websocket (Frame LegalSequence messages)

variable {σ : Type}

/-- The blocks of bytes handed to `on_send`. -/
def handed (es : List Event) : List (List UInt8) :=
  es.filterMap fun
    | .send _ data _ => some data
    | _ => none

@[simp] theorem handed_append (es fs : List Event) : handed (es ++ fs) = handed es ++ handed fs :=
  List.filterMap_append

/-- What the application sees of a call: the status, the blocks handed over, and the progress
behind it. -/
structure Report where
  status : Status
  blocks : List (List UInt8)
  progress : Progress

/-- What the application sees of a call, and the world behind it. -/
def observe (cb : Callbacks σ) (send : Send) (w : World σ) : Report × World σ :=
  let (status, w') := send.run cb w
  (⟨status, handed (w'.log.drop w.log.length), w'.inst.progress⟩, w')

/-- What the application sees of a sequence of calls. -/
def observeAll (cb : Callbacks σ) : List Send → World σ → List Report × World σ
  | [], w => ([], w)
  | send :: sends, w =>
    let (report, w) := observe cb send w
    let (reports, w) := observeAll cb sends w
    (report :: reports, w)

/-- What an outcome looks like to the application. -/
def Outcome.report (o : Outcome) : Report :=
  ⟨o.status, (o.frame.map fun f => f.frame.encode).toList, o.progress⟩

section Calls

variable {cb : Callbacks σ} {w : World σ}

theorem allowedToSend_open (ho : w.inst.state = .open) : allowedToSend w = (true, w) := by
  simp [allowedToSend, ho]

/-- **A call of an open client comes to an outcome of the sender**, for the answers the application
gives during it. -/
theorem Send.run_outcome (hcb : cb.Passive) (hr : w.inst.role = .client)
    (ho : w.inst.state = .open) (send : Send) :
    ∃ a, (send.run cb w).1 = (send.outcome w.inst.progress a).status ∧
      (send.run cb w).2.inst = w.inst.advance (fun _ => (send.outcome w.inst.progress a).progress) ∧
      ∃ es, (send.run cb w).2.log = w.log ++ es ∧
        handed es = (send.outcome w.inst.progress a).report.blocks := by
  rw [send.run_eq, allowedToSend_open ho]
  simp only [if_true]
  unfold attempt outcome Outcome.report
  cases hf : send.frame w.inst.progress with
  | error status => exact ⟨⟨0, none, 0⟩, rfl, rfl, [.status status], rfl, rfl⟩
  | ok r =>
    obtain ⟨f, done⟩ := r
    -- the key is drawn when there is a source of randomness
    have hdraw : Edits w (drawMask cb w).2 := by
      unfold drawMask
      split_ifs
      · exact hcb.rand w
      · exact .refl w
    have hwire := wire_eq_encode hf (drawMask cb w).1
    dsimp only
    rw [putAndSend_eq cb f _ w (by rw [hdraw.inst]; exact hr)]
    generalize drawMask cb w = d at hdraw hwire ⊢
    obtain ⟨m, w₁⟩ := d
    dsimp only at hdraw hwire ⊢
    -- the answers of the application: the key, and what it gives as a buffer
    refine ⟨⟨m, (lease cb (f.withMask m).wire.length (f.withMask m).type w₁).1.1,
      (lease cb (f.withMask m).wire.length (f.withMask m).type w₁).1.2⟩, ?_⟩
    dsimp only
    generalize f.withMask m = g at hwire ⊢
    have hlease : Edits w₁ (cb.onBuffer g.wire.length g.type w₁).2 := hcb.onBuffer _ _ _
    unfold lease deliver
    generalize cb.onBuffer g.wire.length g.type w₁ = l at hlease ⊢
    obtain ⟨⟨buf, max⟩, w₂⟩ := l
    have hw : Edits w w₂ := hdraw.trans hlease
    dsimp only
    -- the buffer has room for the frame, or the call fails with `TOO_LARGE`
    by_cases hfit : g.wire.length ≤ max
    · rw [if_pos hfit, if_pos hfit]
      cases buf with
      | none =>
        exact ⟨rfl, hw.inst, [.buffer g.wire.length g.type none max, .status .wouldBlock],
          by simp [hw.log], rfl⟩
      | some buf =>
        have hsend := hcb.onSend buf g.wire g.type
          (((w₂.emit (.buffer g.wire.length g.type (some buf) max)).update
            (Inst.advance done)).emit (.send buf g.wire g.type))
        refine ⟨rfl, ?_, [.buffer g.wire.length g.type (some buf) max, .send buf g.wire g.type,
          .status .success], ?_, ?_⟩
        · show (cb.onSend _ _ _ _).inst = _
          rw [hsend.inst]
          show Inst.advance done w₂.inst = _
          rw [hw.inst]
          rfl
        · show (cb.onSend _ _ _ _).log ++ [Event.status .success] = _
          rw [hsend.log]
          simp [hw.log]
        · simp [handed, hwire]
    · rw [if_neg hfit, if_neg hfit]
      exact ⟨rfl, hw.inst, [.buffer g.wire.length g.type buf max, .status .tooLarge],
        by simp [hw.log], rfl⟩

/-- A call of an open client, as the application sees it. -/
theorem observe_outcome (hcb : cb.Passive) (hr : w.inst.role = .client)
    (ho : w.inst.state = .open) (send : Send) :
    ∃ a, (observe cb send w).1 = (send.outcome w.inst.progress a).report ∧
      (observe cb send w).2.inst =
        w.inst.advance (fun _ => (send.outcome w.inst.progress a).progress) := by
  obtain ⟨a, hstatus, hinst, es, hlog, hes⟩ := send.run_outcome hcb hr ho
  refine ⟨a, ?_, hinst⟩
  unfold observe
  dsimp only
  rw [hstatus, hinst, hlog, List.drop_left, hes]
  rfl

/-- **A sequence of calls on an open client, as the application sees it.** -/
theorem observeAll_outcomes (hcb : cb.Passive) (hr : w.inst.role = .client)
    (ho : w.inst.state = .open) (sends : List Send) :
    ∃ script : List (Send × Answer), script.map Prod.fst = sends ∧
      (observeAll cb sends w).1 = (outcomes w.inst.progress script).map Outcome.report ∧
      (observeAll cb sends w).2.inst.role = .client ∧
      (observeAll cb sends w).2.inst.state = .open := by
  induction sends generalizing w with
  | nil => exact ⟨[], rfl, rfl, hr, ho⟩
  | cons send sends ih =>
    obtain ⟨a, hreport, hinst⟩ := observe_outcome hcb hr ho send
    obtain ⟨script, hscript, hreports, hend⟩ :=
      ih (show (observe cb send w).2.inst.role = .client by rw [hinst]; exact hr)
        (by rw [hinst]; exact ho)
    refine ⟨(send, a) :: script, by rw [List.map_cons, hscript], ?_, hend⟩
    unfold observeAll
    dsimp only
    rw [hreport, hreports, hinst]
    rfl

/-- The blocks handed over are the frames. -/
theorem blocks_outcomes (p : Progress) (script : List (Send × Answer)) :
    ((outcomes p script).map Outcome.report).flatMap Report.blocks =
      (sent p script).map fun x => x.2.encode := by
  induction script generalizing p with
  | nil => rfl
  | cons x script ih =>
    obtain ⟨send, a⟩ := x
    rw [outcomes_cons, List.map_cons, List.flatMap_cons, ih, sent, List.map_append]
    congr 1
    cases hf : (send.outcome p a).frame <;> simp [Outcome.report, hf]

/-- **A call hands over one frame when it succeeds; when it fails it hands over nothing and leaves
the instance as it was.** -/
theorem observe_cases (hcb : cb.Passive) (hr : w.inst.role = .client)
    (ho : w.inst.state = .open) (send : Send) :
    ((observe cb send w).1.status = .success ∧
        ∃ f : Frame, (observe cb send w).1.blocks = [f.encode]) ∨
      ((observe cb send w).1.status ≠ .success ∧ (observe cb send w).1.blocks = [] ∧
        (observe cb send w).2.inst = w.inst) := by
  obtain ⟨a, hreport, hinst⟩ := observe_outcome hcb hr ho send
  rw [hreport, hinst]
  unfold Outcome.report
  rcases send.outcome_cases w.inst.progress a with ⟨hs, f, done, -, hframe, -⟩ | ⟨hs, hframe, hp⟩
  · exact .inl ⟨hs, (f.withMask a.mask).frame, by simp [hframe]⟩
  · refine .inr ⟨hs, by simp [hframe], ?_⟩
    rw [hp]
    rfl

end Calls

/-! ## Runs -/

/-- **A sequence of calls on an open client** with callbacks that make no calls. `inside` is the
message in progress and `pending` what has been sent of it; `script` are the calls with the answers
of the application.

What the application sees is what the sender makes of the script; the frames carry the data of their
calls; the data frames are legal and the texts well formed; a call that succeeds hands over one
frame; a call that fails hands over nothing and leaves the instance alone, and the other calls come
to the same without it. -/
theorem Reachable.sends_legal {allowed : Caller → Call → Prop} {cb : Callbacks σ} {w : World σ}
    (hw : Reachable allowed w) (ho : w.inst.state = .open) (hcb : cb.Passive)
    (sends : List Send) :
    ∃ inside pending, w.inst.progress.At inside pending ∧
      ∃ script : List (Send × Answer), script.map Prod.fst = sends ∧
        (observeAll cb sends w).1 = (outcomes w.inst.progress script).map Outcome.report ∧
        (observeAll cb sends w).1.flatMap Report.blocks =
          (sent w.inst.progress script).map (fun x => x.2.encode) ∧
        Carried inside (sent w.inst.progress script) ∧
        LegalSequence inside
          (((sent w.inst.progress script).map Prod.snd).filter fun f => !f.isControl) ∧
        (∀ m ∈ messages inside pending ((sent w.inst.progress script).map Prod.snd),
          m.kind = .text → Utf8.WellFormed m.payload) ∧
        (∀ pre send post, sends = pre ++ send :: post →
          let w₁ := (observeAll cb pre w).2
          ((observe cb send w₁).1.status = .success ∧
              ∃ f : Frame, (observe cb send w₁).1.blocks = [f.encode]) ∨
            ((observe cb send w₁).1.status ≠ .success ∧ (observe cb send w₁).1.blocks = [] ∧
              (observe cb send w₁).2.inst = w₁.inst)) ∧
        (∀ pre x post, script = pre ++ x :: post →
          (∀ o, (outcomes w.inst.progress script)[pre.length]? = some o → o.status ≠ .success) →
          outcomes w.inst.progress (pre ++ post) =
            (outcomes w.inst.progress script).eraseIdx pre.length) := by
  have hr := hw.invariant.role
  obtain ⟨inside, pending, hat⟩ := hw.invariant.sends
  obtain ⟨script, hscript, hreports, -⟩ := observeAll_outcomes hcb hr ho sends
  obtain ⟨hcarried, hlegal, htexts⟩ := sent_legal hat script
  refine ⟨inside, pending, hat, script, hscript, hreports, ?_, hcarried, hlegal, htexts, ?_, ?_⟩
  · rw [hreports, blocks_outcomes]
  -- the call behind `pre`, from where the calls before it have led
  · intro pre send post _
    obtain ⟨-, -, -, hr', ho'⟩ := observeAll_outcomes hcb hr ho pre
    exact observe_cases hcb hr' ho' send
  · rintro pre ⟨send, a⟩ post rfl hfail
    exact outcomes_remove hfail

/-- A text cut inside a character, with a ping and a call of `wic_send_binary` between its parts. -/
theorem sends_legal_sample :
    ∃ (w : World Unit) (script : List (Send × Answer)), script.map Prod.fst =
        [.text false ⟨[0xc3], by decide⟩, .ping .null, .binary true .null,
          .text true ⟨[0xa9], by decide⟩] ∧
      (observeAll (Sample.host id) (script.map Prod.fst) w).1 =
        (outcomes w.inst.progress script).map Outcome.report := by
  obtain ⟨w, hw, ho, -⟩ := Sample.opens
  obtain ⟨-, -, -, script, hscript, hreports, -⟩ := (hw fun _ _ => False).sends_legal ho
    Sample.host_passive [.text false ⟨[0xc3], by decide⟩, .ping .null, .binary true .null,
      .text true ⟨[0xa9], by decide⟩]
  exact ⟨w, script, hscript, by rw [hscript]; exact hreports⟩

end Wic
