import MeshcoreRepeater.Backbone.Rejected
import MeshcoreRepeater.Backbone.RateLimit

/-! # RESETs and the HELLOs they cause

A RESET makes the client register again, and `on_reset` is to keep such HELLOs 5 s apart.
It counts from the RESET before, and the HELLO that one caused may have been put off: the
next one is then too early. `resetHellos_spaced` says when it is not.

* `bbStep_afterReset`: a client is reset by a RESET alone.
* `ResetInv.step`, `ResetInv.run`: one step, every run.
* `resetHellos_spaced`: when the HELLOs are 5 s apart.
* `stormRun_not_spaced`: when they are not.
-/

namespace Meshcore

set_option maxRecDepth 8000

open ByteLib

variable {C : BbCrypto} {p : BbHal} {bb bb' : McBackbone} {now t : Nat} {x : BbInput}

/-! ## HELLOs and what caused them -/

/-- What has come of the last RESET. -/
inductive ResetPhase where
  | done
  /-- it was obeyed, and no attempt has been started since -/
  | waiting
  /-- the attempt it caused has not sent a HELLO yet -/
  | started
deriving DecidableEq

/-- The times of the HELLOs that were the first of an attempt a RESET caused. -/
structure ResetScan where
  hellos : List Nat
  phase : ResetPhase

/-- One event of the log. -/
def ResetScan.see (s : ResetScan) : BbEvent → ResetScan
  | .reset _ => { s with phase := .waiting }
  | .attempt _ => { s with phase := if s.phase = .waiting then .started else .done }
  | .hello now _ => ⟨if s.phase = .started then s.hellos ++ [now] else s.hellos, .done⟩
  | _ => s

/-- The whole log. -/
def resetScan (es : List BbEvent) : ResetScan := es.foldl ResetScan.see ⟨[], .done⟩

/-- The times of the HELLOs that RESETs caused. -/
def resetHellos (es : List BbEvent) : List Nat := (resetScan es).hellos

/-- An event the scan passes over. -/
def BbEvent.Passed : BbEvent → Prop
  | .reset _ => False
  | .attempt _ => False
  | .hello _ _ => False
  | _ => True

/-- Events inside a session are passed over. -/
theorem BbEvent.Inner.passed {e : BbEvent} (h : e.Inner) : e.Passed := by
  cases e <;> simp_all [BbEvent.Inner, BbEvent.Passed]

/-- Such events do not change what was scanned. -/
theorem resetScan_append (es : List BbEvent) {es' : List BbEvent} (h : ∀ e ∈ es', e.Passed) :
    resetScan (es ++ es') = resetScan es := by
  induction es' generalizing es with
  | nil => rw [List.append_nil]
  | cons e es' ih =>
    have hrest := ih (es ++ [e]) fun e he => h e (List.mem_cons_of_mem _ he)
    have hfirst := h e List.mem_cons_self
    rw [List.append_assoc, List.singleton_append] at hrest
    rw [hrest, resetScan, List.foldl_append, ← resetScan]
    cases e <;> first | rfl | cases hfirst

/-- The last event, behind the others. -/
theorem resetScan_concat (es : List BbEvent) (e : BbEvent) :
    resetScan (es ++ [e]) = (resetScan es).see e := by
  rw [resetScan, List.foldl_append, ← resetScan]
  rfl

/-! ## A client at rest -/

/-- Off, or waiting for its next attempt, a client starts that attempt, is closed, or goes
on waiting. -/
theorem bbStep_resting (C : BbCrypto) (hfd : bb.fd = false) (hstate : bb.state = .idle ∨ bb.state = .off)
    (x : BbInput) :
    Calls bb (bbStep C bb x) ∨
      (∃ now, x.now = some now ∧ bb.state = .idle ∧ bb.nextTryMs ≤ now ∧
        Attempted now bb (bbStep C bb x)) ∨
      (bbStep C bb x).state = .off ∧
        ∃ es, (bbStep C bb x).log = bb.log ++ es ∧ ∀ e ∈ es, e.Inner := by
  -- at rest nothing is waited for
  have hno : bb.state ≠ .helloSent ∧ bb.state ≠ .up ∧ bb.state ≠ .resolving := by
    rcases hstate with h | h <;> rw [h] <;> decide
  cases x with
  | state p now g =>
    unfold bbStep serviceState
    simp only
    split
    -- the one input that acts: the time of the next attempt has come
    · rename_i hidle
      split
      · rename_i hdue
        exact .inr (.inl ⟨now, rfl, hidle, hdue, startAttempt_attempted p bb now⟩)
      · exact .inl (.refl bb)
    · rename_i hresolving
      exact absurd hresolving hno.2.2
    · exact .inl (.refl bb)
  | datagram p now d =>
    -- there is no socket to read from
    have hsame : bbStep C bb (.datagram p now d) = bb := by
      show readTurn C p now bb d = bb
      rw [readTurn, if_neg (by simp [hfd])]
    rw [hsame]
    exact .inl (.refl bb)
  | timers p now =>
    have hsame : bbStep C bb (.timers p now) = bb := by
      show serviceTimers C p bb now = bb
      rw [serviceTimers, helloTimer, if_neg fun h => hno.1 h.1, sessionTimers, if_pos hno.2.1]
    rw [hsame]
    exact .inl (.refl bb)
  | observe p frame rssi snrQ disposition => exact .inl (backboneObserve_calls C.toCrypto p bb _ _ _ _ _)
  | mesh p x =>
    unfold bbStep
    simp only
    split
    · exact .inl (.refl bb)
    · exact .inl (meshRan_calls C.toCrypto p bb _)
  | offer p frame own => exact .inl (backboneOffer_calls C.toCrypto p bb _ _)
  | statusSoon => exact .inl (backboneStatusSoon_calls bb)
  | configure cfg => exact .inl (.setCfg bb cfg)
  | close p =>
    refine .inr (.inr ⟨rfl, [], ?_, by simp⟩)
    unfold bbStep backboneClose
    simp only [if_neg hno.2.1]
    split
    · exact (List.append_nil _).symm
    · exact (List.append_nil _).symm

/-! ## Which inputs are obeyed RESETs -/

/-- The log has grown without a RESET. -/
def NoReset (bb bb' : McBackbone) : Prop :=
  ∃ es, bb'.log = bb.log ++ es ∧ ∀ now, BbEvent.reset now ∉ es

/-- Calls inside a session log no RESET. -/
theorem Calls.noReset (h : Calls bb bb') : NoReset bb bb' := by
  rcases h.log with ⟨es, k, hlog, hinner, -⟩
  exact ⟨es, hlog, fun now hin => hinner _ hin⟩

/-- A log that stayed as it was. -/
theorem NoReset.of_eq (h : bb'.log = bb.log) : NoReset bb bb' :=
  ⟨[], by rw [h, List.append_nil], fun _ hin => by cases hin⟩

/-- A RESET that is obeyed is logged. -/
theorem noReset_afterReset : ¬ NoReset bb (bb.afterReset now) := by
  rintro ⟨es, hlog, hno⟩
  have hlast : (bb.afterReset now).log = bb.log ++ [.reset now] := rfl
  rw [hlast] at hlog
  rw [← List.append_cancel_left hlog] at hno
  exact hno now (List.mem_singleton_self _)

/-- The hub's session datagrams reset nothing. -/
theorem onSession_noReset (C : Crypto) (R : Reading) (p : BbHal) (bb : McBackbone) (now : Nat) (d : Bytes) :
    NoReset bb (onSession C R p bb now d) := by
  unfold onSession
  -- state, tag and replay window refuse with a counter
  split
  · exact .of_eq rfl
  split
  · exact .of_eq rfl
  split
  · exact .of_eq rfl
  -- FRAME, POLICY and BYE, by the type of the body
  · rename_i s _ _ rwin _
    unfold onBody
    split
    · exact .of_eq rfl
    split
    · rcases onFrame_cases C R p (bb.heard s.seq rwin now) now s.body with h | h | ⟨-, raw, h⟩
      · exact h.noReset
      · exact h.noReset
      · rcases h.noReset with ⟨es, hlog, hno⟩
        refine ⟨.frame now raw :: es, hlog.trans (List.append_assoc ..), ?_⟩
        intro t hin
        rcases List.mem_cons.mp hin with hframe | hin
        · cases hframe
        · exact hno t hin
    split
    · exact (onPolicy_calls C _ _ _).noReset
    split
    · unfold onByeDown
      split
      · exact .of_eq rfl
      · exact .of_eq rfl
    · exact .of_eq rfl

/-- What an input without a clock does is no RESET. -/
theorem Move.noReset (h : Move C bb x bb') (hx : x.now = none) : NoReset bb bb' := by
  -- the moves of the clock are excluded
  have hclock : ∀ {now : Nat}, x.now ≠ some now := by
    intro now hnow
    rw [hx] at hnow
    cases hnow
  have hinner : ∀ {es : List BbEvent}, (∀ e ∈ es, e.Inner) → ∀ now, BbEvent.reset now ∉ es :=
    fun hinner now hin => hinner _ hin
  cases h with
  | calls hcalls => exact hcalls.noReset
  | heard _ _ hcalls => exact hcalls.noReset
  | limited hnow => exact absurd hnow hclock
  | frame hnow => exact absurd hnow hclock
  | forgotten hforgotten =>
    rcases hforgotten.log with ⟨es, k, hlog, hes, -⟩
    exact ⟨es, hlog, hinner hes⟩
  | reset hnow => exact absurd hnow hclock
  | attempt hnow => exact absurd hnow hclock
  | hello hnow => exact absurd hnow hclock
  | up hx' =>
    rw [hx'] at hx
    cases hx
  | erased => exact .of_eq rfl
  | closed hcalls _ hclosed =>
    rcases hcalls.noReset with ⟨es, hlog, hno⟩
    rcases hclosed with ⟨busy, rfl⟩
    exact ⟨es, hlog, hno⟩

/-- A client is reset by a RESET that passes every check, and by nothing else. -/
theorem bbStep_afterReset (hup : bb.state = .up) (h : bbStep C bb x = bb.afterReset now) :
    ∃ p d, x = .datagram p now d ∧ d.getD 3 0 = bbTReset ∧ ¬ ResetFails C p bb d := by
  -- any input that logs no RESET is out
  have hlog : ¬ NoReset bb (bbStep C bb x) := by
    rw [h]
    exact noReset_afterReset
  cases x with
  | state p now g =>
    have hsame : bbStep C bb (.state p now g) = bb := by
      show serviceState C p bb now g = bb
      simp only [serviceState, hup]
    exact absurd (.of_eq (by rw [hsame])) hlog
  | datagram p now' d =>
    have hstep : bbStep C bb (.datagram p now' d) = readTurn C p now' bb d := rfl
    rw [hstep] at h hlog
    unfold readTurn at h hlog
    split at hlog
    · rename_i hopen
      rw [if_pos hopen] at h
      -- the kinds of datagram, in the order of the source
      unfold readDatagram at h hlog
      split at hlog
      · exact absurd (.of_eq rfl) hlog
      rename_i hhead
      have hwhole : recvd d = d := recvd_eq (by
        by_contra hlong
        exact hhead (.inl (not_le.mp hlong)))
      rw [if_neg hhead] at h
      rw [hwhole] at h hlog
      split at hlog
      · -- a WELCOME is not waited for
        unfold onWelcome at hlog
        rw [if_pos (by rw [hup]; decide)] at hlog
        exact absurd (.of_eq rfl) hlog
      rename_i hwelcome
      rw [if_neg hwelcome] at h
      split at hlog
      · rename_i htype
        rw [if_pos htype] at h
        -- a RESET that fails a check only counts
        have hvalid : ¬ ResetFails C p bb d := by
          intro hfails
          rw [onReset_rejects hfails] at hlog
          exact absurd (.of_eq rfl) hlog
        -- obeyed, it notes the time of the call
        have hnow : now' = now := by
          unfold onReset at h hlog
          split at hlog
          · exact absurd (.of_eq rfl) hlog
          rename_i hlen
          simp only at h hlog
          rw [if_neg hlen] at h
          split at hlog
          · exact absurd (.of_eq rfl) hlog
          rename_i hfields
          rw [if_neg hfields] at h
          split at hlog
          · exact absurd (.of_eq rfl) hlog
          · rename_i heq
            rw [heq] at h
            exact congrArg McBackbone.lastResetMs h
        exact ⟨p, d, by rw [hnow], htype, hvalid⟩
      split at hlog
      · exact absurd (onSession_noReset ..) hlog
      · exact absurd (.of_eq rfl) hlog
    · exact absurd (.of_eq rfl) hlog
  | timers p now' =>
    have hsame : bbStep C bb (.timers p now') = sessionTimers C.toCrypto p bb now' := by
      show serviceTimers C p bb now' = _
      rw [serviceTimers, helloTimer, if_neg (by rw [hup]; exact fun h => by cases h.1)]
    -- seen as an input without a clock, the session timers are no RESET
    have hmove := sessionTimers_move C p bb now' .statusSoon
    rw [← hsame] at hmove
    exact absurd (hmove.noReset rfl) hlog
  | observe p frame rssi snrQ disposition =>
    exact absurd (backboneObserve_calls C.toCrypto p bb _ _ _ _ _).noReset hlog
  | mesh p x =>
    unfold bbStep at hlog
    simp only at hlog
    split at hlog
    · exact absurd (.of_eq rfl) hlog
    · exact absurd (meshRan_calls C.toCrypto p bb _).noReset hlog
  | offer p frame own => exact absurd (backboneOffer_calls C.toCrypto p bb _ _).noReset hlog
  | statusSoon => exact absurd (backboneStatusSoon_calls bb).noReset hlog
  | configure cfg => exact absurd (Calls.setCfg bb cfg).noReset hlog
  | close p =>
    have hoff : (bbStep C bb (.close p)).state = .off := rfl
    rw [h] at hoff
    cases hoff

/-! ## The spacing -/

/-- A valid RESET comes 5 s after the last HELLO a RESET caused, or that HELLO was sent no
later than the RESET before was obeyed: it is from there that `on_reset` counts. -/
def ResetWaits (C : BbCrypto) (bb : McBackbone) (x : BbInput) : Prop :=
  ∀ p now d, x = .datagram p now d → d.getD 3 0 = bbTReset → ¬ ResetFails C p bb d →
    ∀ h ∈ (resetHellos bb.log).getLast?, h + 5000 ≤ now ∨ (0 < bb.lastResetMs ∧ h ≤ bb.lastResetMs)

/-- The HELLOs so far are 5 s apart, and so is the next one a RESET causes. -/
structure ResetInv (t : Nat) (bb : McBackbone) : Prop where
  spaced : (resetHellos bb.log).IsChain fun a b => a + 5000 ≤ b
  waiting : (resetScan bb.log).phase = .waiting → bb.state = .off ∨ bb.state = .idle ∧
    ∀ h ∈ (resetHellos bb.log).getLast?, h + 5000 ≤ bb.nextTryMs
  started : (resetScan bb.log).phase = .started → ∀ h ∈ (resetHellos bb.log).getLast?, h + 5000 ≤ t

/-- It may be said of a later time. -/
theorem ResetInv.mono {t' : Nat} (h : ResetInv t bb) (hle : t ≤ t') : ResetInv t' bb where
  spaced := h.spaced
  waiting := h.waiting
  started := fun hphase last hlast => (h.started hphase last hlast).trans hle

/-- What it is of a log whose scan is known. -/
theorem ResetInv.of_scan {hellos : List Nat} {phase : ResetPhase} (hscan : resetScan bb.log = ⟨hellos, phase⟩)
    (hspaced : hellos.IsChain fun a b => a + 5000 ≤ b)
    (hwaiting : phase = .waiting → bb.state = .off ∨ bb.state = .idle ∧
      ∀ h ∈ hellos.getLast?, h + 5000 ≤ bb.nextTryMs)
    (hstarted : phase = .started → ∀ h ∈ hellos.getLast?, h + 5000 ≤ t) : ResetInv t bb := by
  have hhellos : resetHellos bb.log = hellos := congrArg ResetScan.hellos hscan
  refine ⟨?_, ?_, ?_⟩
  · rw [hhellos]
    exact hspaced
  · rw [hscan, hhellos]
    exact hwaiting
  · rw [hscan, hhellos]
    exact hstarted

/-- Events the scan passes over. A client that waits for an attempt waits on. -/
theorem ResetInv.still (h : ResetInv t bb) (bb' : McBackbone) (es : List BbEvent)
    (hlog : bb'.log = bb.log ++ es) (hes : ∀ e ∈ es, e.Passed)
    (hwait : (resetScan bb.log).phase = .waiting →
      bb'.state = .off ∨ bb'.state = bb.state ∧ bb'.nextTryMs = bb.nextTryMs) : ResetInv t bb' := by
  -- the scan of the log is the same
  have hscan : resetScan bb'.log = resetScan bb.log := by rw [hlog, resetScan_append _ hes]
  have hhellos : resetHellos bb'.log = resetHellos bb.log := congrArg ResetScan.hellos hscan
  refine ⟨by rw [hhellos]; exact h.spaced, ?_, ?_⟩
  · intro hphase
    rw [hscan] at hphase
    rw [hhellos]
    rcases hwait hphase with hoff | ⟨hstate, hnext⟩
    · exact .inl hoff
    · rw [hstate, hnext]
      exact h.waiting hphase
  · rw [hscan, hhellos]
    exact h.started

/-- Calls inside a session keep it. -/
theorem ResetInv.calls (h : ResetInv t bb) (hcalls : Calls bb bb') : ResetInv t bb' := by
  rcases hcalls.log with ⟨es, k, hlog, hinner, -⟩
  exact h.still bb' es hlog (fun e he => (hinner e he).passed) fun _ =>
    .inr ⟨hcalls.state, congrArg BbKept.nextTryMs hcalls.kept⟩

/-- When the next attempt is due after a RESET that waits. -/
theorem resetTryMs_spaced {h : Nat}
    (hwaits : h + 5000 ≤ now ∨ (0 < bb.lastResetMs ∧ h ≤ bb.lastResetMs)) :
    h + 5000 ≤ resetTryMs bb now := by
  have hmax : ∀ a b : Nat, a ≤ (if b < a then a else b) ∧ b ≤ (if b < a then a else b) := by
    intro a b
    split <;> omega
  unfold resetTryMs
  -- late enough already, or 5 s after the RESET before, which came behind the HELLO
  rcases hwaits with hlate | ⟨hpos, hle⟩
  · exact hlate.trans (hmax _ now).2
  · have hearliest : h + 5000 ≤ (if bb.lastResetMs ≠ 0 then bb.lastResetMs + 5000 else now) := by
      rw [if_pos (by omega)]
      omega
    exact hearliest.trans (hmax _ now).1

/-- One step, at a time no earlier than the last. -/
theorem ResetInv.step (h : ResetInv t bb) (hinv : SessionInv bb) (hclock : ∀ now, x.now = some now → t ≤ now)
    (hwaits : ResetWaits C bb x) : ResetInv (x.now.getD t) (bbStep C bb x) := by
  have hlater : t ≤ x.now.getD t := by
    cases hx : x.now with
    | none => exact le_rfl
    | some now => exact hclock now hx
  by_cases hphase : (resetScan bb.log).phase = .waiting
  · -- the client is at rest, until its attempt is due
    have hrest : bb.state = .idle ∨ bb.state = .off := by
      rcases h.waiting hphase with hoff | ⟨hidle, -⟩
      · exact .inr hoff
      · exact .inl hidle
    have hfd : bb.fd = false := by
      rcases hrest with hidle | hoff
      · exact (hinv.resting (.inr (.inl hidle))).fd
      · exact (hinv.resting (.inl hoff)).fd
    rcases bbStep_resting C hfd hrest x with
      hcalls | ⟨now, hx, hidle, hdue, hattempt⟩ | ⟨hoff, es, hlog, hinner⟩
    · exact (h.mono hlater).calls hcalls
    · have hscan : resetScan (bbStep C bb x).log = ⟨resetHellos bb.log, .started⟩ := by
        rw [hattempt.log, resetScan_concat, ResetScan.see, if_pos hphase]
        rfl
      refine .of_scan hscan h.spaced (by nofun) ?_
      intro _ last hlast
      rcases h.waiting hphase with hoff | ⟨-, hnext⟩
      · rw [hidle] at hoff
        cases hoff
      · rw [hx]
        exact (hnext last hlast).trans hdue
    · exact (h.mono hlater).still _ es hlog (fun e he => (hinner e he).passed) fun _ => .inl hoff
  · have hmove := bbStep_move C bb x
    -- a RESET in the log is a datagram that passed every check
    have hreset := fun (now : Nat) (hup : bb.state = .up) =>
      @bbStep_afterReset C bb now x hup
    generalize bbStep C bb x = bb' at hmove hreset
    -- without a RESET, an attempt or a HELLO nothing is scanned
    have hskip : ∀ (bb' : McBackbone) (es : List BbEvent), bb'.log = bb.log ++ es →
        (∀ e ∈ es, e.Passed) → ResetInv (x.now.getD t) bb' := fun bb' es hlog hes =>
      (h.mono hlater).still bb' es hlog hes fun hcontra => absurd hcontra hphase
    cases hmove with
    | calls hcalls => exact (h.mono hlater).calls hcalls
    | heard _ _ hcalls =>
      refine ResetInv.calls ?_ hcalls
      exact hskip _ [] (List.append_nil _).symm (by simp)
    | limited _ _ _ hcalls =>
      refine ResetInv.calls ?_ hcalls
      exact hskip _ [] (List.append_nil _).symm (by simp)
    | frame _ _ _ _ hcalls => exact (hskip _ [.frame _ _] rfl (by simp [BbEvent.Passed])).calls hcalls
    | forgotten hforgotten =>
      rcases hforgotten.log with ⟨es, k, hlog, hinner, -⟩
      exact hskip _ es hlog fun e he => (hinner e he).passed
    | @reset now hx hup =>
      rcases hreset now hup rfl with ⟨p, d, hdatagram, htype, hvalid⟩
      have hscan : resetScan (bb.afterReset now).log = ⟨resetHellos bb.log, .waiting⟩ := resetScan_concat _ _
      refine .of_scan hscan h.spaced ?_ (by nofun)
      intro _
      refine .inr ⟨rfl, ?_⟩
      intro last hlast
      exact resetTryMs_spaced (hwaits p now d hdatagram htype hvalid last hlast)
    | attempt hx hidle hdue hattempt =>
      have hscan : resetScan bb'.log = ⟨resetHellos bb.log, .done⟩ := by
        rw [hattempt.log, resetScan_concat, ResetScan.see, if_neg hphase]
        rfl
      exact .of_scan hscan h.spaced (by nofun) (by nofun)
    | @hello _ now hx hwas hhello =>
      rcases hhello.log with ⟨es, hlog, hinner, -⟩
      have hscan : resetScan bb'.log = ⟨if (resetScan bb.log).phase = .started then
          resetHellos bb.log ++ [now] else resetHellos bb.log, .done⟩ := by
        have hsplit : bb'.log = bb.log ++ [.hello now bb'.hello] ++ es := by
          rw [hlog, List.append_assoc]
          rfl
        rw [hsplit, resetScan_append _ fun e he => (hinner e he).passed, resetScan_concat]
        rfl
      refine .of_scan hscan ?_ (by nofun) (by nofun)
      split
      · -- the attempt was due 5 s after the HELLO before
        rename_i hstarted
        refine List.isChain_append.mpr ⟨h.spaced, List.isChain_singleton _, ?_⟩
        intro last hlast next hnext
        cases hnext
        exact (h.started hstarted last hlast).trans (hclock now hx)
      · exact h.spaced
    | up _ _ _ _ _ hcalls => exact (hskip _ [.welcome _] rfl (by simp [BbEvent.Passed])).calls hcalls
    | erased => exact hskip _ [] (List.append_nil _).symm (by simp)
    | closed hcalls _ hclosed =>
      rcases hcalls.log with ⟨es, k, hlog, hinner, -⟩
      rcases hclosed with ⟨busy, rfl⟩
      exact hskip _ es hlog fun e he => (hinner e he).passed

/-- Every run, on a clock that does not go back. -/
theorem ResetInv.run (h : ResetInv t bb) (hinv : SessionInv bb) {xs : List BbInput}
    (hclock : (t :: clockOf xs).IsChain (· ≤ ·)) (hwaits : Runs.Every (bbStep C) (ResetWaits C) bb xs) :
    ∃ t', ResetInv t' (bbRun C bb xs) := by
  induction xs generalizing t bb with
  | nil => exact ⟨t, h⟩
  | cons x xs ih =>
    rcases hwaits with ⟨hx, hrest⟩
    have hfirst : ∀ now, x.now = some now → t ≤ now := by
      intro now hnow
      rw [clockOf, List.filterMap_cons_some hnow] at hclock
      exact (List.isChain_cons_cons.mp hclock).1
    -- the clock goes on from this input
    have hafter : (x.now.getD t :: clockOf xs).IsChain (· ≤ ·) := by
      cases hnow : x.now with
      | none =>
        rw [clockOf, List.filterMap_cons_none hnow] at hclock
        exact hclock
      | some now =>
        rw [clockOf, List.filterMap_cons_some hnow] at hclock
        exact (List.isChain_cons_cons.mp hclock).2
    exact ih (h.step hinv hfirst hx) (hinv.move (bbStep_move C bb x)) hafter hrest

/-- In every run from `backbone_init`, on a clock that does not go back, where every valid
RESET comes 5 s after the last HELLO a RESET caused, or that HELLO was sent no later than
the RESET before: any two such HELLOs are sent 5 s apart. -/
theorem resetHellos_spaced (C : BbCrypto) (cfg : McConfig) (id : McIdentity) (mesh : Option McMesh)
    (now : Nat) (xs : List BbInput) (hclock : (clockOf xs).Pairwise (· ≤ ·))
    (hwaits : Runs.Every (bbStep C) (ResetWaits C) (backboneInit cfg id mesh now).1 xs) :
    (resetHellos (bbRun C (backboneInit cfg id mesh now).1 xs).log).Pairwise fun a b => a + 5000 ≤ b := by
  have hinit : ResetInv 0 (backboneInit cfg id mesh now).1 := by
    have hscan : resetScan (backboneInit cfg id mesh now).1.log = ⟨[], .done⟩ := by
      rw [backboneInit_log]
      rfl
    exact .of_scan hscan List.isChain_nil (by nofun) (by nofun)
  have hchain : (0 :: clockOf xs).IsChain (· ≤ ·) := by
    rw [List.isChain_iff_pairwise]
    exact List.pairwise_cons.mpr ⟨fun _ _ => Nat.zero_le _, hclock⟩
  rcases hinit.run (sessionInv_backboneInit cfg id mesh now) hchain hwaits with ⟨t, h⟩
  -- neighbours 5 s apart, so any two are
  have htrans : Trans (fun a b : Nat => a + 5000 ≤ b) (fun a b => a + 5000 ≤ b) (fun a b => a + 5000 ≤ b) :=
    ⟨fun hab hbc => by omega⟩
  exact List.isChain_iff_pairwise.mp h.spaced

/-! ## Three RESETs in bytes -/

/-- The node's HELLOs, one second apart. -/
def stormHelloHead (i : Nat) : Bytes :=
  helloHead nodeIdentity bbRoleObserve (1760000000 + UInt32.ofNat i) nodeEph (lit "ON0R")

/-- Their signatures. -/
def stormHelloSig : Nat → Bytes
  | 0 => pairHelloSig
  | 1 => bytesBE 32 0x9d3846721c5c53ebead72a0828762f5d8afc8556b4e9b15e5f1c4d1f9f2ca12f ++
      bytesBE 32 0x2b78bddc7b992c8f8bc0a32f6e7b4206355df8fd85c2b516987de76eb22bb206
  | 2 => bytesBE 32 0x12913ede43d34a05e99eef370da5ec8c77c6eb3d128bae1c17d3bbbee9405bad ++
      bytesBE 32 0x99c43c71a2e2c94f3c8882d50043128815949a90fef592fd9ffc0b8ffcd7af03
  | _ => bytesBE 32 0xb6a8f2a791d916b92c21d9650fbc8e13e2687a1c3a01527db5305587969091d5 ++
      bytesBE 32 0x7c3e8fcf0892f5e82c1f5e4e18bff0f39f147617c26417349bcc341e59d0ab08

/-- A HELLO of the node. -/
def stormHello (i : Nat) : Bytes := stormHelloHead i ++ stormHelloSig i

/-- The hashes the hub answers with. -/
def stormHelloHash : Nat → Buf 32
  | 0 => pairHelloHash
  | 1 => .ofBytes 32 (bytesBE 32 0xf9ffeb7a6a105d6a427fc52197bfa6f8e8e25f383fb9eb213e69e6bbec00bf3e)
  | 2 => .ofBytes 32 (bytesBE 32 0xaef6de5c33f895ac055f50b94a671fafd287b24a20a80f6122f9a3abc9bcdd64)
  | _ => .ofBytes 32 (bytesBE 32 0x1304f6b3daaaf09faa5bcca02bf95b311eaf61ed80cad1b15b4aa0b25f6431f3)

/-- The hub's WELCOMEs for the first three. -/
def stormWelcomeHead (i : Nat) : Bytes :=
  welcomeHead ⟨bbRoleObserve, 1760000000, 7 + UInt32.ofNat i, hubEph, 0, 0, 0⟩ (stormHelloHash i)

/-- Their signatures. -/
def stormWelcomeSig : Nat → Bytes
  | 0 => pairWelcomeSig
  | 1 => bytesBE 32 0xe701ed78da9455e2fd05342cff214615f900ad4a8785ca58dbcaee1612cbcfd8 ++
      bytesBE 32 0xa9093d7182aed39c10332c24cef8a2bacb960ac172799d59c7e2d83bbd16f20e
  | _ => bytesBE 32 0x491c93c233ad51a3260270f15eb472c7d56773ed6db4e8a6ee5dc1325888a7f9 ++
      bytesBE 32 0xd55627adda2e1293dc3307b688da83a4e2a8c171afd6c62bbd0db45641e16a00

/-- A WELCOME of the hub. -/
def stormWelcome (i : Nat) : Bytes := stormWelcomeHead i ++ stormWelcomeSig i

/-- Its RESETs of these sessions, for the first datagram of each. -/
def stormResetHead (i : Nat) : Bytes := resetHead (7 + UInt32.ofNat i) 1 1760000000

/-- Their signatures. -/
def stormResetSig : Nat → Bytes
  | 0 => bytesBE 32 0x4d4e13a8daaebc963e8c2061fe5e7979ce786d7d8c9afbb53203402c6885bb19 ++
      bytesBE 32 0x6a6f5851e1d6d3701e94f0d85bf2d1899a4f482ae88658b99c7650267278a105
  | 1 => bytesBE 32 0x413094bead50fe0d17405687751a48ad97e496c6a07c45d23a33fa0a41656457 ++
      bytesBE 32 0xa064b5a8d902d9703e59e15a29c6e74f9faffa7213193543d22d1340bcdbcf07
  | _ => bytesBE 32 0x5a04bbaa267c270a1da5c014aad2e95f52502c4db2b632b50e74f605c2a87f40 ++
      bytesBE 32 0x899791c4fc138e18a98de8e6c7b60cba7dabed81700e58b45dc4f140c0e4c90f

/-- A RESET of the hub. -/
def stormReset (i : Nat) : Bytes := stormResetHead i ++ stormResetSig i

/-- The values of the primitives on these datagrams. -/
def stormCrypto : BbCrypto :=
  { pairCrypto with
    toCrypto := { Crypto.ofTable
        (((List.range 4).map fun i => (stormHello i, (stormHelloHash i).bytes)) ++
          [(stormHello 0 ++ stormWelcome 0,
            bytesBE 32 0x84ab9b48418e6aff1bb319725d8220e492ffd9db442b907e2cf9b18317ad6d4e),
           (stormHello 1 ++ stormWelcome 1,
            bytesBE 32 0x18e45a67e39b37468662c578278d27e553d5310c500c1622988d845eca3a2f28),
           (stormHello 2 ++ stormWelcome 2,
            bytesBE 32 0x195d3b66282950a848f7e6b7116d6e14ebfc0ad61918119136cf5466e045afb0)])
        (((List.range 3).map fun i => (hubPub, stormWelcomeSig i, bbCtxWelcome ++ stormWelcomeHead i)) ++
          (List.range 3).map fun i => (hubPub, stormResetSig i, bbCtxReset ++ stormResetHead i)) with
      cryptoSign := fun _ msg =>
        match (List.range 4).find? fun i => msg = bbCtxHello ++ stormHelloHead i with
        | some i => .ofBytes 64 (stormHelloSig i)
        | none => .zero 64 } }

/-- An attempt at the time `now`, which the hub answers at once and resets one ms later. -/
def stormSession (i now : Nat) : List BbInput :=
  [.state (.calm now) now .inProgress, .state (.calm now) now .resolved,
   .datagram (.calm now) now (stormWelcome i), .datagram (.calm (now + 1)) (now + 1) (stormReset i)]

/-- The second attempt is put off by 5 s, the third is not. -/
def stormRun : List BbInput :=
  stormSession 0 1000 ++ stormSession 1 1001 ++ stormSession 2 6001 ++
    [.state (.calm 6002) 6002 .inProgress, .state (.calm 6002) 6002 .resolved]

/-- The HELLO that was put off goes out at 6001, and the next one a millisecond later. -/
theorem stormRun_not_spaced :
    (clockOf stormRun).Pairwise (· ≤ ·) ∧
      resetHellos (bbRun stormCrypto pairNode stormRun).log = [1001, 6001, 6002] ∧
      ¬ (resetHellos (bbRun stormCrypto pairNode stormRun).log).Pairwise fun a b => a + 5000 ≤ b := by
  have hhellos : resetHellos (bbRun stormCrypto pairNode stormRun).log = [1001, 6001, 6002] := by
    decide
  refine ⟨by decide, hhellos, ?_⟩
  rw [hhellos]
  decide

/-- Up to the HELLO that was put off, the RESETs waited. -/
theorem resetHellos_spaced_storm :
    resetHellos (bbRun stormCrypto pairNode (stormRun.take 10)).log = [1001, 6001] ∧
      (resetHellos (bbRun stormCrypto pairNode (stormRun.take 10)).log).Pairwise fun a b => a + 5000 ≤ b := by
  -- only datagrams have to wait
  have hother : ∀ {bb : McBackbone} {p : BbHal} {now : Nat} {g : GaiState},
      ResetWaits stormCrypto bb (.state p now g) := by
    intro bb p now g p' now' d hx
    cases hx
  have hread : ∀ {bb : McBackbone} {p : BbHal} {now : Nat} {d : Bytes},
      (∀ h ∈ (resetHellos bb.log).getLast?, h + 5000 ≤ now ∨ (0 < bb.lastResetMs ∧ h ≤ bb.lastResetMs)) →
        ResetWaits stormCrypto bb (.datagram p now d) := by
    intro bb p now d hwaits p' now' d' hx _ _
    cases hx
    exact hwaits
  have hwaits : Runs.Every (bbStep stormCrypto) (ResetWaits stormCrypto) pairNode (stormRun.take 10) :=
    ⟨hother, hother, hread (by decide), hread (by decide), hother, hother,
      hread (by decide), hread (by decide), hother, hother, trivial⟩
  refine ⟨by decide, ?_⟩
  exact resetHellos_spaced stormCrypto pairConfig nodeIdentity none 1000 (stormRun.take 10) (by decide) hwaits

end Meshcore
