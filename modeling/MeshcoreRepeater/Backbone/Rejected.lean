import MeshcoreRepeater.Backbone.Handshake

/-! # What a rejected datagram changes

`FailsCheck` lists the checks a datagram has to pass before its body is looked at, in the
words of the protocol: for the signed ones against the HELLO and the session of the client,
for those of a session against the numbers already taken. A datagram that fails one of them
is counted, and changes nothing else (`rejected_changes_nothing`).

* `onWelcome_rejects`, `onReset_rejects`, `onSession_rejects`: the three kinds of datagram.
* `rejected_changes_nothing`: every reachable client.
-/

namespace Meshcore

set_option maxRecDepth 8000

open ByteLib

variable {C : BbCrypto} {p : BbHal} {bb : McBackbone} {now : Nat} {d : Bytes}

/-! ## The checks -/

/-- How far a timestamp is from the clock. -/
def clockSkew (p : BbHal) (ts : UInt32) : Nat :=
  (p.time32.toNat - ts.toNat) + (ts.toNat - p.time32.toNat)

/-- The types of the hub's session datagrams. -/
def IsDown (t : UInt8) : Prop := 0x20 ≤ t ∧ t ≤ 0x2F

/-- Of a WELCOME: it comes at the wrong time, for another HELLO, badly signed, or with a
session it must not bring. -/
def WelcomeFails (C : BbCrypto) (bb : McBackbone) (d : Bytes) : Prop :=
  bb.state ≠ .helloSent ∨ d.length ≠ 148 ∨ (d.drop 46).take 32 ≠ (C.sha256 bb.hello).bytes ∨
    verifyCtx C.toCrypto bb.hubPub bbCtxWelcome (d.take 84) (d.drop 84) = false ∨
    rdU32le (d.drop 10) = 0 ∨ d.getD 4 0 &&& ~~~bb.rolesAsked ≠ 0

/-- Of a RESET: there is no session or another one, its number is not among the last 64
sent, it is too old or too new, or badly signed. -/
def ResetFails (C : BbCrypto) (p : BbHal) (bb : McBackbone) (d : Bytes) : Prop :=
  bb.state ≠ .up ∨ d.length ≠ 80 ∨ rdU32le (d.drop 4) ≠ bb.sid ∨
    ((rdU32le (d.drop 8)).toNat = 0 ∨ bb.seqOut.toNat < (rdU32le (d.drop 8)).toNat ∨
      (rdU32le (d.drop 8)).toNat + 64 ≤ bb.seqOut.toNat) ∨
    120 < clockSkew p (rdU32le (d.drop 12)) ∨
    verifyCtx C.toCrypto bb.hubPub bbCtxReset (d.take 16) (d.drop 16) = false

/-- Of a session datagram: there is no session or another one, its MAC is wrong, or its
number is 0, taken before, or 64 or more below one that was. -/
def SessionFails (C : BbCrypto) (bb : McBackbone) (d : Bytes) : Prop :=
  bb.state ≠ .up ∨ d.length < 28 ∨ rdU32le (d.drop 4) ≠ bb.sid ∨
    d.drop (d.length - 16) ≠ sessionMac C.toCrypto bb.kDown.bytes (d.take (d.length - 16)) ∨
    rdU32le (d.drop 8) = 0 ∨ rdU32le (d.drop 8) ∈ bb.taken ∨
    ∃ n ∈ bb.taken, (rdU32le (d.drop 8)).toNat + 64 ≤ n.toNat

/-- A check that is made before the body is handled, and fails. -/
inductive FailsCheck (C : BbCrypto) (p : BbHal) (bb : McBackbone) (d : Bytes) : Prop
  | length (h : d.length < 4 ∨ 1200 < d.length)
  | magic (h : d.take 2 ≠ lit "MB")
  | version (h : d.getD 2 0 ≠ 1)
  | type (h : d.getD 3 0 ≠ bbTWelcome ∧ d.getD 3 0 ≠ bbTReset ∧ ¬IsDown (d.getD 3 0))
  | welcome (ht : d.getD 3 0 = bbTWelcome) (h : WelcomeFails C bb d)
  | reset (ht : d.getD 3 0 = bbTReset) (h : ResetFails C p bb d)
  | session (ht : IsDown (d.getD 3 0)) (h : SessionFails C bb d)

/-! ## The handlers -/

/-- The first two bytes. -/
theorem magicOk_iff (h : 2 ≤ d.length) : magicOk d = true ↔ d.take 2 = lit "MB" ∧ d.getD 2 0 = 1 := by
  obtain ⟨b0, b1, rest, rfl⟩ : ∃ b0 b1 rest, d = b0 :: b1 :: rest := by
    match d, h with
    | b0 :: b1 :: rest, _ => exact ⟨b0, b1, rest, rfl⟩
  have hlit : lit "MB" = [77, 66] := by decide
  rw [hlit]
  simp [magicOk, bbVersion, and_assoc]

/-- A WELCOME that is not for this client, now, is refused. -/
theorem onWelcome_rejects (hhash : bb.state = .helloSent → bb.helloHash = C.sha256 bb.hello)
    (h : WelcomeFails C bb d) : onWelcome C p bb now d = bb.reject := by
  unfold onWelcome
  split
  · rfl
  rename_i hstate
  rw [not_not] at hstate
  split
  · rfl
  rename_i w hcheck
  obtain ⟨rfl, hlen, -, hhello, hsig, hsid, hroles⟩ := bbCheckWelcome_ok hcheck
  rw [hhash hstate] at hhello
  rcases h with h | h | h | h | h | h
  · exact absurd hstate h
  · exact absurd hlen h
  · exact absurd hhello h
  · rw [hsig] at h
    cases h
  · exact absurd h hsid
  · exact absurd hroles h

/-- The distance of two clocks, as the code computes it. -/
theorem toNat_skewS (p : BbHal) (ts : UInt32) : (skewS p.time32 ts).toNat = clockSkew p ts := by
  unfold skewS clockSkew
  split
  · rename_i hlt
    have hlt := UInt32.lt_iff_toNat_lt.mp hlt
    rw [UInt32.toNat_sub_of_le _ _ (UInt32.le_iff_toNat_le.mpr hlt.le)]
    omega
  · rename_i hge
    have hle := UInt32.le_iff_toNat_le.mp (UInt32.not_lt.mp hge)
    rw [UInt32.toNat_sub_of_le _ _ (UInt32.not_lt.mp hge)]
    omega

/-- The window of sequence numbers sent, as the code tests it. -/
theorem resetSeq_iff (seq out : UInt32) :
    (seq = 0 ∨ out < seq ∨ 64 ≤ out - seq) ↔
      (seq.toNat = 0 ∨ out.toNat < seq.toNat ∨ seq.toNat + 64 ≤ out.toNat) := by
  have hzero : seq = 0 ↔ seq.toNat = 0 := by rw [← UInt32.toNat_inj]; rfl
  rw [hzero, UInt32.lt_iff_toNat_lt]
  refine or_congr_right ?_
  by_cases hlt : out.toNat < seq.toNat
  · simp [hlt]
  · have hsub := UInt32.toNat_sub_of_le out seq (UInt32.le_iff_toNat_le.mpr (not_lt.mp hlt))
    have hconst : (64 : UInt32).toNat = 64 := rfl
    rw [UInt32.le_iff_toNat_le, hsub, hconst]
    omega

/-- A RESET that is not for this session, now, is refused. -/
theorem onReset_rejects (h : ResetFails C p bb d) : onReset C.toCrypto p bb now d = bb.reject := by
  unfold onReset
  by_cases hshape : bb.state ≠ .up ∨ d.length ≠ bbResetLen
  · rw [if_pos hshape]
  rw [if_neg hshape]
  simp only
  split
  · rfl
  rename_i hfields
  simp only [not_or, not_not] at hshape hfields
  obtain ⟨hsid, hseq⟩ := hfields
  have hseq' := (not_congr (resetSeq_iff (rdU32le (d.drop 8)) bb.seqOut)).mp
    (by simp only [not_or]; exact ⟨hseq.1, hseq.2.1, hseq.2.2.1⟩)
  have hskew : ¬120 < clockSkew p (rdU32le (d.drop 12)) := by
    rw [← toNat_skewS]
    exact fun hlt => hseq.2.2.2 (UInt32.lt_iff_toNat_lt.mpr hlt)
  have hsig : verifyCtx C.toCrypto bb.hubPub bbCtxReset (d.take 16) (d.drop 16) = false := by
    rcases h with h | h | h | h | h | h
    · exact absurd hshape.1 h
    · exact absurd hshape.2 h
    · exact absurd hsid h
    · exact absurd h hseq'
    · exact absurd h hskew
    · exact h
  have herror : ∃ e, bbCheckReset C.toCrypto d bb.hubPub = .error e := by
    unfold bbCheckReset
    rw [hsig]
    split
    · exact ⟨_, rfl⟩
    · exact ⟨_, rfl⟩
  obtain ⟨e, he⟩ := herror
  rw [he]

/-- A session datagram of another session, not sealed by the hub, or heard before. -/
theorem onSession_rejects (hwindow : bb.rwin.Represents bb.taken) (h : SessionFails C bb d) :
    onSession C.toCrypto C.reading p bb now d = bb.reject := by
  unfold onSession
  by_cases hshape : bb.state ≠ .up ∨ d.length < bbHdr + bbMac ∨ rdU32le (d.drop 4) ≠ bb.sid
  · rw [if_pos hshape]
  rw [if_neg hshape]
  simp only [not_or, not_not] at hshape
  split
  · rfl
  rename_i s hopen
  -- opened: the MAC is right, and what is left is the number
  have hmac : d.drop (d.length - 16) = sessionMac C.toCrypto bb.kDown.bytes (d.take (d.length - 16)) ∧
      s.seq = rdU32le (d.drop 8) := by
    unfold bbOpen at hopen
    split at hopen
    · cases hopen
    simp only at hopen
    split at hopen
    · cases hopen
    rename_i hdiff
    cases hopen
    refine ⟨?_, rfl⟩
    have hlen : (sessionMac C.toCrypto bb.kDown.bytes (d.take (d.length - bbMac))).length =
        (d.drop (d.length - bbMac)).length := by
      have hlong := hshape.2.1
      simp only [bbHdr, bbMac, not_lt] at hlong
      rw [length_sessionMac, List.length_drop, bbMac]
      omega
    exact ((diffBytes_eq_zero hlen).mp (not_not.mp hdiff)).symm
  have hold : s.seq = 0 ∨ s.seq ∈ bb.taken ∨ ∃ n ∈ bb.taken, s.seq.toNat + 64 ≤ n.toNat := by
    rw [hmac.2]
    rcases h with h | h | h | h | h
    · exact absurd hshape.1 h
    · exact absurd h hshape.2.1
    · exact absurd hshape.2.2 h
    · exact absurd hmac.1 h
    · exact h
  have hrefused : (bbReplayCheck bb.rwin s.seq).1 = false := by
    by_contra htaken
    have haccepts := (hwindow.check s.seq).1.mp (by simpa using htaken)
    obtain ⟨hpos, hnew, hnear⟩ := haccepts
    rcases hold with hzero | hmem | ⟨n, hn, hfar⟩
    · rw [hzero] at hpos
      exact absurd hpos (by decide)
    · exact hnew (List.mem_map_of_mem hmem)
    · have hle := ReplayWindow.le_largest (List.mem_map_of_mem (f := UInt32.toNat) hn)
      rcases hnear with hnil | hlt
      · rw [List.map_eq_nil_iff] at hnil
        rw [hnil] at hn
        cases hn
      · omega
  have hsame := bbReplayCheck_refused hrefused
  generalize bbReplayCheck bb.rwin s.seq = r at hrefused hsame
  obtain ⟨ok, rwin⟩ := r
  simp only at hrefused hsame
  subst hrefused hsame
  rfl

/-! ## Every datagram -/

/-- A datagram that fails a check made before its body is handled is counted; every other
field of the client, the configuration, the mesh and what was sent stay as they were. -/
theorem rejected_changes_nothing (hreach : BbReachable C bb) (hfd : bb.fd = true)
    (hfails : FailsCheck C p bb d) :
    bbStep C bb (.datagram p now d) = { bb with rejected := bb.rejected + 1 } := by
  have hinv := sessionInv_of_reachable hreach
  have hhello := helloInv_of_reachable hreach
  have hopen : bb.state ≠ .off ∧ bb.fd = true := by
    refine ⟨fun hoff => ?_, hfd⟩
    have hclosed := (hinv.resting (Or.inl hoff)).fd
    rw [hfd] at hclosed
    cases hclosed
  show readTurn C p now bb d = bb.reject
  rw [readTurn, if_pos hopen]
  unfold readDatagram
  split
  · rfl
  rename_i hhead
  have hwhole : recvd d = d := recvd_eq (by
    by_contra hlong
    exact hhead (Or.inl (not_le.mp hlong)))
  rw [hwhole] at hhead ⊢
  simp only [not_or, not_lt, Bool.not_eq_false] at hhead
  obtain ⟨hmax, hmin, hmagic⟩ := hhead
  have hmagic := (magicOk_iff (by omega)).mp hmagic
  have hheader : ¬(d.length < 4 ∨ 1200 < d.length) := not_or.mpr ⟨not_lt.mpr hmin, not_lt.mpr hmax⟩
  have hdown : ¬IsDown bbTWelcome ∧ ¬IsDown bbTReset := ⟨by simp [IsDown, bbTWelcome], by simp [IsDown, bbTReset]⟩
  have hdiffer : bbTWelcome ≠ bbTReset := by decide
  split
  · rename_i ht
    refine onWelcome_rejects hhello.hash ?_
    cases hfails with
    | length h => exact absurd h hheader
    | magic h => exact absurd hmagic.1 h
    | version h => exact absurd hmagic.2 h
    | type h => exact absurd ht h.1
    | welcome _ h => exact h
    | reset ht' _ => exact absurd (ht.symm.trans ht') hdiffer
    | session ht' _ => exact absurd (ht ▸ ht') hdown.1
  rename_i hnotWelcome
  split
  · rename_i ht
    refine onReset_rejects ?_
    cases hfails with
    | length h => exact absurd h hheader
    | magic h => exact absurd hmagic.1 h
    | version h => exact absurd hmagic.2 h
    | type h => exact absurd ht h.2.1
    | welcome ht' _ => exact absurd ht' hnotWelcome
    | reset _ h => exact h
    | session ht' _ => exact absurd (ht ▸ ht') hdown.2
  rename_i hnotReset
  split
  · rename_i ht
    refine onSession_rejects hinv.window ?_
    cases hfails with
    | length h => exact absurd h hheader
    | magic h => exact absurd hmagic.1 h
    | version h => exact absurd hmagic.2 h
    | type h => exact absurd ht h.2.2
    | welcome ht' _ => exact absurd ht' hnotWelcome
    | reset ht' _ => exact absurd ht' hnotReset
    | session _ h => exact h
  · rfl

/-- The session of the node whose HELLO the hub answered. -/
def pairUp : McBackbone :=
  bbRun pairCrypto pairNode (pairAttempt ++ [.datagram (.calm 1100) 1100 pairWelcome])

/-- A WELCOME that comes twice. -/
theorem rejected_changes_nothing_pair :
    bbStep pairCrypto pairUp (.datagram (.calm 1200) 1200 pairWelcome) =
      { pairUp with rejected := pairUp.rejected + 1 } :=
  rejected_changes_nothing ⟨pairConfig, nodeIdentity, none, 1000, _, rfl⟩ (by decide)
    (.welcome (by decide) (Or.inl (by decide)))

end Meshcore
