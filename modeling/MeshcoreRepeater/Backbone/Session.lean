import MeshcoreRepeater.Backbone.Moves
import MeshcoreRepeater.Backbone.Replay

/-! # Sessions

What every reachable client looks like in each state (`SessionInv`), and how the
datagrams of one session are numbered: 1, 2, 3 and so on under one key, as long as the
client is serviced before 2^31 more are sealed (`session_invariants`).

* `SessionInv`: what a client looks like in each state.
* `SealInv.move`: one step keeps the numbers in order.
* `session_invariants`: every state that is reached.
-/

namespace Meshcore

open ByteLib

variable {C : BbCrypto} {bb bb' : McBackbone} {x : BbInput}

/-! ## The state of a client -/

/-- What holds in each state. -/
structure SessionInv (bb : McBackbone) : Prop where
  resting : bb.state = .off ∨ bb.state = .idle ∨ bb.state = .resolving → bb.Clean
  waiting : bb.state = .helloSent → bb.fd = true
  up : bb.state = .up →
    bb.fd = true ∧ bb.sid ≠ 0 ∧ bb.roles &&& ~~~bb.rolesAsked = 0 ∧ bb.ephSec = .zero 32
  backoff : 5 ≤ bb.backoffS ∧ bb.backoffS ≤ 300
  window : bb.rwin.Represents bb.taken

/-- Before its first attempt a client holds nothing. -/
theorem clean_blank (cfg : McConfig) (id : McIdentity) (mesh : Option McMesh) :
    (McBackbone.blank cfg id mesh).Clean := by
  constructor <;> rfl

/-- A client starts at rest. -/
theorem backboneInit_state (cfg : McConfig) (id : McIdentity) (mesh : Option McMesh) (now : Nat) :
    (backboneInit cfg id mesh now).1.state ≠ .helloSent ∧ (backboneInit cfg id mesh now).1.state ≠ .up := by
  unfold backboneInit
  simp only
  repeat' split
  all_goals exact ⟨nofun, nofun⟩

/-- Nothing is logged yet. -/
@[simp] theorem backboneInit_log (cfg : McConfig) (id : McIdentity) (mesh : Option McMesh) (now : Nat) :
    (backboneInit cfg id mesh now).1.log = [] := by
  unfold backboneInit
  simp only
  repeat' split
  all_goals rfl

/-- A client starts with it, whether it was given what it needs or not. -/
theorem sessionInv_backboneInit (cfg : McConfig) (id : McIdentity) (mesh : Option McMesh) (now : Nat) :
    SessionInv (backboneInit cfg id mesh now).1 := by
  have hoff : SessionInv (McBackbone.blank cfg id mesh) :=
    ⟨fun _ => clean_blank cfg id mesh, nofun, nofun, ⟨Nat.le_refl _, Nat.le_of_ble_eq_true rfl⟩,
      BbReplay.represents_zero⟩
  unfold backboneInit
  simp only
  split
  · exact hoff
  split
  · exact hoff
  split
  · exact hoff
  · exact ⟨fun _ => by constructor <;> rfl, nofun, nofun, hoff.backoff, BbReplay.represents_zero⟩

/-- The fields the invariant is about. -/
theorem SessionInv.congr (h : SessionInv bb) (hkept : bb'.kept = bb.kept) (hseq : bb.Clean → bb'.seqOut = 0) :
    SessionInv bb' := by
  have hstate : bb'.state = bb.state := congrArg BbKept.state hkept
  refine ⟨fun hrest => ?_, fun hwait => ?_, fun hup => ?_, ?_, ?_⟩
  · rw [hstate] at hrest
    have hclean := h.resting hrest
    exact ⟨(congrArg BbKept.fd hkept).trans hclean.fd, (congrArg BbKept.kUp hkept).trans hclean.kUp,
      (congrArg BbKept.kDown hkept).trans hclean.kDown, (congrArg BbKept.ephSec hkept).trans hclean.ephSec,
      (congrArg BbKept.sid hkept).trans hclean.sid, (congrArg BbKept.roles hkept).trans hclean.roles,
      hseq hclean, (congrArg BbKept.rwin hkept).trans hclean.rwin,
      (congrArg BbKept.taken hkept).trans hclean.taken⟩
  · rw [hstate] at hwait
    exact (congrArg BbKept.fd hkept).trans (h.waiting hwait)
  · rw [hstate] at hup
    have hfd : bb'.fd = bb.fd := congrArg BbKept.fd hkept
    have hsid : bb'.sid = bb.sid := congrArg BbKept.sid hkept
    have hroles : bb'.roles = bb.roles := congrArg BbKept.roles hkept
    have hasked : bb'.rolesAsked = bb.rolesAsked := congrArg BbKept.rolesAsked hkept
    have heph : bb'.ephSec = bb.ephSec := congrArg BbKept.ephSec hkept
    rw [hfd, hsid, hroles, hasked, heph]
    exact h.up hup
  · have hbackoff : bb'.backoffS = bb.backoffS := congrArg BbKept.backoffS hkept
    rw [hbackoff]
    exact h.backoff
  · have hrwin : bb'.rwin = bb.rwin := congrArg BbKept.rwin hkept
    have htaken : bb'.taken = bb.taken := congrArg BbKept.taken hkept
    rw [hrwin, htaken]
    exact h.window

/-- Calls inside a session keep it. -/
theorem SessionInv.calls (h : SessionInv bb) (hcalls : Calls bb bb') : SessionInv bb' := by
  by_cases hup : bb.state = .up
  · -- a session is not clean
    refine h.congr hcalls.kept fun hclean => absurd hclean.fd ?_
    simp [(h.up hup).1]
  · refine h.congr hcalls.kept fun hclean => ?_
    obtain ⟨es, k, -, -, -, hseq, honly⟩ := hcalls.log
    -- outside a session nothing is sealed
    have hzero : k = 0 := by
      by_contra hk
      exact hup (honly hk)
    rw [hseq, hclean.seqOut, hzero]
    rfl

/-- A clean client satisfies it wherever it waits. -/
theorem SessionInv.of_clean (hclean : bb.Clean) (hstate : bb.state ≠ .helloSent ∧ bb.state ≠ .up)
    (hbackoff : 5 ≤ bb.backoffS ∧ bb.backoffS ≤ 300) : SessionInv bb where
  resting := fun _ => hclean
  waiting := fun h => absurd h hstate.1
  up := fun h => absurd h hstate.2
  backoff := hbackoff
  window := by
    rw [hclean.rwin, hclean.taken]
    exact BbReplay.represents_zero

/-- A number taken keeps the window true to the session. -/
theorem SessionInv.heard (h : SessionInv bb) (hup : bb.state = .up) {seq : UInt32} {rwin : BbReplay}
    (hcheck : bbReplayCheck bb.rwin seq = (true, rwin)) (now : Nat) : SessionInv (bb.heard seq rwin now) where
  resting := by
    intro hrest
    have hrest' : bb.state = .off ∨ bb.state = .idle ∨ bb.state = .resolving := hrest
    simp [hup] at hrest'
  waiting := h.waiting
  up := h.up
  backoff := h.backoff
  window := by
    have hstep := (h.window.check seq).2
    rw [hcheck] at hstep
    exact hstep

/-- A WELCOME that passes, check by check. -/
theorem bbCheckWelcome_ok {C : Crypto} {d hubPub : Bytes} {helloHash : Buf 32} {asked : UInt8}
    {w : BbWelcome} (h : bbCheckWelcome C d hubPub helloHash asked = .ok w) :
    w = readWelcome d ∧ d.length = bbWelcomeLen ∧ hdrOk d bbTWelcome = true ∧
      (d.drop 46).take 32 = helloHash.bytes ∧
      verifyCtx C hubPub bbCtxWelcome (d.take 84) (d.drop 84) = true ∧ w.sid ≠ 0 ∧
      w.roles &&& ~~~asked = 0 := by
  unfold bbCheckWelcome at h
  split at h
  · cases h
  rename_i hshape
  split at h
  · cases h
  rename_i hhash
  split at h
  · cases h
  rename_i hsig
  simp only at h
  split at h
  · cases h
  rename_i hfields
  cases h
  simp only [not_or, not_not, Bool.not_eq_false] at hshape hhash hsig hfields
  exact ⟨rfl, hshape.1, hshape.2, hhash, hsig, hfields.1, hfields.2⟩

/-- A change of the bucket alone. -/
theorem SessionInv.setTokens (h : SessionInv bb) (tokens : ℚ) (now : Nat) :
    SessionInv (bb.setTokens tokens now) :=
  ⟨fun hrest => ⟨(h.resting hrest).fd, (h.resting hrest).kUp, (h.resting hrest).kDown,
    (h.resting hrest).ephSec, (h.resting hrest).sid, (h.resting hrest).roles, (h.resting hrest).seqOut,
    (h.resting hrest).rwin, (h.resting hrest).taken⟩, h.waiting, h.up, h.backoff, h.window⟩

/-- What is noted is no part of it. -/
theorem SessionInv.note (h : SessionInv bb) (e : BbEvent) : SessionInv (bb.note e) :=
  h.congr rfl fun hclean => hclean.seqOut

/-- One step keeps it. -/
theorem SessionInv.move (h : SessionInv bb) (hmove : Move C bb x bb') : SessionInv bb' := by
  cases hmove with
  | calls hcalls => exact h.calls hcalls
  | heard hup hcheck hcalls => exact (h.heard hup hcheck _).calls hcalls
  | limited hx hup hcheck hcalls => exact ((h.heard hup hcheck _).setTokens _ _).calls hcalls
  | frame hx hup hcheck htoken hcalls =>
    exact (((h.heard hup hcheck _).setTokens _ _).note _).calls hcalls
  | forgotten hforgotten =>
    refine .of_clean hforgotten.clean ?_ (hforgotten.backoff h.backoff)
    rw [hforgotten.state]
    exact ⟨nofun, nofun⟩
  | reset hx hup => exact .of_clean (by constructor <;> rfl) ⟨nofun, nofun⟩ h.backoff
  | attempt hx hidle hdue hattempt =>
    refine .of_clean hattempt.clean ?_ (hattempt.backoff h.backoff)
    rcases hattempt.state with hstate | hstate <;>
    · rw [hstate]
      exact ⟨nofun, nofun⟩
  -- after a HELLO the socket is there, from the attempt or from before
  | hello hx hwas hhello =>
    refine ⟨fun hrest => ?_, fun _ => ?_, fun hup => ?_, ?_, ?_⟩
    · simp [hhello.state] at hrest
    · rcases hwas with ⟨-, hfd⟩ | ⟨hsent, hfd⟩
      · exact hfd
      · exact hfd.trans (h.waiting hsent)
    · simp [hhello.state] at hup
    · rw [hhello.backoffS]
      exact h.backoff
    · rw [hhello.rwin, hhello.taken]
      exact h.window
  | up hx hfd hwas hcheck hkeys hcalls =>
    obtain ⟨-, -, -, -, -, hsid, hroles⟩ := bbCheckWelcome_ok hcheck
    refine SessionInv.calls ⟨fun hrest => ?_, fun hwait => ?_, fun _ => ?_, ?_, BbReplay.represents_zero⟩
      hcalls
    · simp [sessionUp] at hrest
    · simp [sessionUp] at hwait
    · exact ⟨hfd, hsid, hroles, rfl⟩
    · exact ⟨Nat.le_refl _, Nat.le_of_ble_eq_true rfl⟩
  -- a WELCOME from which no keys come: the secret is gone, the state stays
  | erased hx hwas hcheck hkeys =>
    have hstate : ({ bb with ephSec := .zero 32 } : McBackbone).reject.state = .helloSent := hwas
    refine ⟨fun hrest => ?_, fun _ => h.waiting hwas, fun hup => ?_, h.backoff, h.window⟩
    · simp [hstate] at hrest
    · simp [hstate] at hup
  | closed hcalls _ hclosed =>
    rename_i b _
    obtain ⟨busy, rfl⟩ := hclosed
    have hbackoff : b.backoffS = bb.backoffS := congrArg BbKept.backoffS hcalls.kept
    refine .of_clean (by constructor <;> rfl) ⟨nofun, nofun⟩ ?_
    show 5 ≤ b.backoffS ∧ b.backoffS ≤ 300
    rw [hbackoff]
    exact h.backoff

/-- Every reachable client. -/
theorem sessionInv_of_reachable (h : BbReachable C bb) : SessionInv bb := by
  obtain ⟨cfg, id, mesh, now, xs, rfl⟩ := h
  exact Runs.run_invariant SessionInv (fun s x hs => hs.move (bbStep_move C s x))
    (sessionInv_backboneInit cfg id mesh now) xs

/-! ## The numbers of a session -/

/-- A datagram sealed in the newest session. -/
def sealIn (parts : List (List (Buf 32 × UInt32))) (s : Buf 32 × UInt32) : List (List (Buf 32 × UInt32)) :=
  match parts with
  | [] => [[s]]
  | part :: parts => (part ++ [s]) :: parts

/-- Key and number of the datagrams sealed in each session, the newest session first. -/
def sessionSeals (es : List BbEvent) : List (List (Buf 32 × UInt32)) :=
  es.foldl (fun parts e =>
    match e with
    | .welcome _ => [] :: parts
    | .seal key seq => sealIn parts (key, seq)
    | _ => parts) []

/-- One key, and the numbers 1, 2, 3 and so on. -/
def Numbered (part : List (Buf 32 × UInt32)) : Prop :=
  ∃ key, part.map (fun s => (s.1, s.2.toNat)) = (List.range part.length).map fun i => (key, i + 1)

/-- A service call ends with a look at the age of the keys. -/
def BbInput.IsTimers : BbInput → Prop
  | .timers _ _ => True
  | _ => False

/-- Fewer than 2^31 datagrams are sealed between two service calls, from one look at the
age of the keys to the next. -/
def SealBudget (C : BbCrypto) (bb : McBackbone) (xs : List BbInput) : Prop :=
  ∀ pre mid post, xs = pre ++ mid ++ post → (∀ x ∈ mid.tail, ¬x.IsTimers) →
    sealCount (bbRun C bb (pre ++ mid)) < sealCount (bbRun C bb pre) + 2 ^ 31

/-- An event that brings no session up. -/
def BbEvent.Within : BbEvent → Prop
  | .welcome _ => False
  | _ => True

/-- Events inside a session bring none up. -/
theorem BbEvent.Inner.within {e : BbEvent} (h : e.Inner) : e.Within := by
  cases e <;> simp_all [BbEvent.Inner, BbEvent.Within]

/-- A WELCOME begins another session. -/
theorem sessionSeals_welcome (es : List BbEvent) (d : Bytes) :
    sessionSeals (es ++ [.welcome d]) = [] :: sessionSeals es := by
  simp [sessionSeals]

/-- Datagrams go to the newest session. -/
theorem foldl_sealIn_cons (part : List (Buf 32 × UInt32)) (parts : List (List (Buf 32 × UInt32)))
    (ss : List (Buf 32 × UInt32)) : ss.foldl sealIn (part :: parts) = (part ++ ss) :: parts := by
  induction ss generalizing part with
  | nil => simp
  | cons s ss ih => simp [sealIn, ih]

/-- What is sealed belongs to the newest session. -/
theorem sessionSeals_append {es es' : List BbEvent} (hwithin : ∀ e ∈ es', e.Within) :
    sessionSeals (es ++ es') = (sealsOf es').foldl sealIn (sessionSeals es) := by
  induction es' generalizing es with
  | nil => simp [sealsOf]
  | cons e es' ih =>
    have hrest : sessionSeals (es ++ [e] ++ es') = (sealsOf es').foldl sealIn (sessionSeals (es ++ [e])) :=
      ih fun e he => hwithin e (List.mem_cons_of_mem _ he)
    have hfirst : e.Within := hwithin e List.mem_cons_self
    rw [List.append_assoc, List.singleton_append] at hrest
    rw [hrest]
    cases e with
    | welcome d => exact hfirst.elim
    | _ => simp [sessionSeals, sealsOf, List.foldl_append]

/-- Numbers that have not wrapped. -/
theorem numbered_sealed (key : Buf 32) {n : Nat} (h : n < 2 ^ 32) : Numbered (sealed key 0 n) := by
  refine ⟨key, ?_⟩
  rw [length_sealed, sealed, List.map_map]
  refine List.map_congr_left fun i hi => ?_
  have hlt : i + 1 < 2 ^ 32 := by
    have := List.mem_range.mp hi
    omega
  simp only [Function.comp_apply, UInt32.zero_add, UInt32.toNat_ofNat', Nat.mod_eq_of_lt hlt]

/-- The sessions so far are numbered, the one that is up has room for 2^31 numbers and
those sealed since the keys were last looked at (`quota`). -/
structure SealInv (quota : Nat) (bb : McBackbone) : Prop where
  parts : ∀ part ∈ sessionSeals bb.log, Numbered part
  up : bb.state = .up → ∃ n rest, sessionSeals bb.log = sealed bb.kUp 0 n :: rest ∧
    bb.seqOut = UInt32.ofNat n ∧ n < 2 ^ 31 + quota

/-- What a step without a WELCOME seals, numbered on from `seq_out`. -/
theorem SealInv.grow {quota k : Nat} {log : List BbEvent} (h : SealInv quota bb) (hroom : quota + k ≤ 2 ^ 31)
    (hlog : ∃ es, log = bb.log ++ es ∧ (∀ e ∈ es, e.Within) ∧ sealsOf es = sealed bb.kUp bb.seqOut k ∧
      (k ≠ 0 → bb.state = .up)) :
    (∀ part ∈ sessionSeals log, Numbered part) ∧
      (bb.state = .up → ∃ n rest, sessionSeals log = sealed bb.kUp 0 n :: rest ∧
        bb.seqOut + UInt32.ofNat k = UInt32.ofNat n ∧ n < 2 ^ 31 + (quota + k)) := by
  obtain ⟨es, rfl, hwithin, hseals, hup⟩ := hlog
  rw [sessionSeals_append hwithin, hseals]
  by_cases hstate : bb.state = .up
  · obtain ⟨n, rest, hparts, hseq, hn⟩ := h.up hstate
    -- the numbers go on where they stopped
    have hnext : sealed bb.kUp 0 n ++ sealed bb.kUp bb.seqOut k = sealed bb.kUp 0 (n + k) := by
      have hadd := sealed_add bb.kUp 0 n k
      rwa [UInt32.zero_add, ← hseq] at hadd
    rw [hparts, foldl_sealIn_cons, hnext]
    refine ⟨fun part hpart => ?_, fun _ => ⟨n + k, rest, rfl, ?_, by omega⟩⟩
    · rcases List.mem_cons.mp hpart with rfl | hold
      · exact numbered_sealed _ (by omega)
      · refine h.parts part ?_
        rw [hparts]
        exact List.mem_cons_of_mem _ hold
    · rw [hseq, UInt32.ofNat_add]
  · have hzero : k = 0 := by
      by_contra hk
      exact hstate (hup hk)
    subst hzero
    exact ⟨h.parts, fun hcontra => absurd hcontra hstate⟩

/-- What was sealed, by the count of the log. -/
theorem sealCount_grow (bb' : McBackbone) (es : List BbEvent) (h : bb'.log = bb.log ++ es) :
    sealCount bb' = sealCount bb + (sealsOf es).length := by
  rw [sealCount, h, sealsOf_append, List.length_append, sealCount]

/-- Calls inside a session seal as many as the log counts. -/
theorem SealInv.calls {quota k : Nat} (h : SealInv quota bb) (hroom : quota + k ≤ 2 ^ 31)
    (hcount : sealCount bb' = sealCount bb + k) (hcalls : Calls bb bb') : SealInv (quota + k) bb' := by
  obtain ⟨es, k', hlog, hinner, hseals, hseq, hup⟩ := hcalls.log
  -- the count of the log and the numbers are the same thing
  have hk : k' = k := by
    have hlen := sealCount_grow _ _ hlog
    rw [hseals, length_sealed] at hlen
    omega
  subst hk
  obtain ⟨hparts, hnewest⟩ :=
    h.grow hroom ⟨es, hlog, fun e he => (hinner e he).within, hseals, hup⟩
  refine ⟨hparts, fun hstate => ?_⟩
  rw [hcalls.kUp, hseq]
  exact hnewest (hcalls.state.symm.trans hstate)

/-- A step that ends a session may seal one datagram more. -/
theorem SealInv.ended {quota k : Nat} (h : SealInv quota bb) (hroom : quota + k ≤ 2 ^ 31)
    (hcount : sealCount bb' = sealCount bb + k) (hlog : SealsOn bb bb') (hstate : bb'.state ≠ .up) :
    SealInv (quota + k) bb' := by
  obtain ⟨es, k', hgrown, hinner, hseals, hup⟩ := hlog
  have hk : k' = k := by
    have hlen := sealCount_grow _ _ hgrown
    rw [hseals, length_sealed] at hlen
    omega
  subst hk
  exact ⟨(h.grow hroom ⟨es, hgrown, fun e he => (hinner e he).within, hseals, hup⟩).1,
    fun hcontra => absurd hcontra hstate⟩

/-- A step that seals nothing. -/
theorem SealInv.still {quota : Nat} (h : SealInv quota bb) (bb' : McBackbone) (es : List BbEvent)
    (hlog : bb'.log = bb.log ++ es)
    (hwithin : ∀ e ∈ es, e.Within) (hnone : sealsOf es = [])
    (hup : bb'.state = .up → bb.state = .up ∧ bb'.kUp = bb.kUp ∧ bb'.seqOut = bb.seqOut) :
    SealInv quota bb' ∧ sealCount bb' = sealCount bb := by
  have hsame : sessionSeals bb'.log = sessionSeals bb.log := by
    rw [hlog, sessionSeals_append hwithin, hnone]
    rfl
  refine ⟨⟨by rw [hsame]; exact h.parts, fun hstate => ?_⟩, ?_⟩
  · obtain ⟨hwas, hkUp, hseq⟩ := hup hstate
    rw [hsame, hkUp, hseq]
    exact h.up hwas
  · rw [sealCount_grow _ _ hlog, hnone]
    rfl

/-- The same for a step that moves to another state on its way. -/
theorem SealInv.stillCalls {b : McBackbone} {quota k : Nat} (hcalls : Calls b bb')
    (hroom : quota + k ≤ 2 ^ 31) (hcount : sealCount bb' = sealCount bb + k)
    (h : SealInv quota b ∧ sealCount b = sealCount bb) : SealInv (quota + k) bb' :=
  h.1.calls hroom (hcount.trans (by rw [h.2])) hcalls

/-- More room does no harm. -/
theorem SealInv.mono {quota quota' : Nat} (h : SealInv quota bb) (hle : quota ≤ quota') :
    SealInv quota' bb := by
  refine ⟨h.parts, fun hup => ?_⟩
  obtain ⟨n, rest, hparts, hseq, hn⟩ := h.up hup
  exact ⟨n, rest, hparts, hseq, by omega⟩

/-- One step keeps the numbers in order, while there is room for what it seals. -/
theorem SealInv.move {quota k : Nat} (h : SealInv quota bb) (hroom : quota + k ≤ 2 ^ 31)
    (hcount : sealCount bb' = sealCount bb + k) (hmove : Move C bb x bb') : SealInv (quota + k) bb' := by
  cases hmove with
  | calls hcalls => exact h.calls hroom hcount hcalls
  | heard hup hcheck hcalls =>
    exact .stillCalls hcalls hroom hcount
      (h.still _ [] (List.append_nil _).symm (by simp) rfl fun _ => ⟨hup, rfl, rfl⟩)
  | limited hx hup hcheck hcalls =>
    exact .stillCalls hcalls hroom hcount
      (h.still _ [] (List.append_nil _).symm (by simp) rfl fun _ => ⟨hup, rfl, rfl⟩)
  | frame hx hup hcheck htoken hcalls =>
    refine .stillCalls hcalls hroom hcount (h.still _ [.frame _ _] rfl ?_ rfl fun _ => ⟨hup, rfl, rfl⟩)
    simp [BbEvent.Within]
  | forgotten hforgotten =>
    refine h.ended hroom hcount hforgotten.log ?_
    rw [hforgotten.state]
    nofun
  | reset hx hup =>
    refine (h.still _ [.reset _] rfl ?_ rfl fun hcontra => by cases hcontra).1.mono (Nat.le_add_right _ _)
    simp [BbEvent.Within]
  | attempt hx hidle hdue hattempt =>
    refine (h.still _ _ hattempt.log (by simp [BbEvent.Within]) rfl ?_).1.mono (Nat.le_add_right _ _)
    rcases hattempt.state with hstate | hstate <;>
    · rw [hstate]
      nofun
  | hello hx hwas hhello =>
    obtain ⟨es, hlog, hinner, hnone⟩ := hhello.log
    refine (h.still _ _ hlog ?_ ?_ ?_).1.mono (Nat.le_add_right _ _)
    · intro e he
      rcases List.mem_cons.mp he with rfl | hrest
      · trivial
      · exact (hinner e hrest).within
    · simpa [sealsOf] using hnone
    · rw [hhello.state]
      nofun
  | up hx hfd hwas hcheck hkeys hcalls =>
    rename_i p d now w keys
    -- a session of its own, with no datagram yet
    have hfresh : SealInv quota (sessionUp bb now d w keys) := by
      refine ⟨?_, fun _ => ⟨0, sessionSeals bb.log, sessionSeals_welcome _ d, rfl, by omega⟩⟩
      intro part hpart
      rw [show (sessionUp bb now d w keys).log = bb.log ++ [.welcome d] from rfl,
        sessionSeals_welcome] at hpart
      rcases List.mem_cons.mp hpart with rfl | hold
      · exact ⟨.zero 32, rfl⟩
      · exact h.parts part hold
    have hnone : sealCount (sessionUp bb now d w keys) = sealCount bb := sealCount_grow _ [.welcome d] rfl
    exact .stillCalls hcalls hroom hcount ⟨hfresh, hnone⟩
  | erased hx hwas hcheck hkeys =>
    have hstill : SealInv quota ({ bb with ephSec := .zero 32 } : McBackbone).reject := by
      refine (h.still ({ bb with ephSec := .zero 32 } : McBackbone).reject [] (List.append_nil _).symm
        (by simp) rfl fun hup => ?_).1
      have hsent : bb.state = .up := hup
      rw [hwas] at hsent
      cases hsent
    exact hstill.mono (Nat.le_add_right _ _)
  | closed hcalls hseals hclosed =>
    obtain ⟨busy, rfl⟩ := hclosed
    exact h.ended hroom hcount hcalls.sealsOn nofun

/-- Behind the look at the age of the keys there is no old session. -/
theorem serviceTimers_rekey (C : BbCrypto) (p : BbHal) (now : Nat) (hup : bb.state = .up)
    (hold : 0x80000000 ≤ bb.seqOut) : Forgotten bb (serviceTimers C p bb now) := by
  -- no HELLO is waited for in a session
  have hhello : helloTimer C p bb now = bb := by
    rw [helloTimer, if_neg]
    rw [hup]
    nofun
  unfold serviceTimers sessionTimers
  rw [hhello, if_neg (not_not.mpr hup)]
  split
  · exact (Outlasts.refl bb).forgotten id
  · have hbye : Calls bb (sendSession C.toCrypto p bb bbTBye [bbByeRekey]) :=
      sendSession_calls C.toCrypto p hup (by simp)
    refine (hbye.outlasts (sendSession_sealCount C.toCrypto p bb _ _)).forgotten ?_
    have hsame : (sendSession C.toCrypto p bb bbTBye [bbByeRekey]).backoffS = bb.backoffS :=
      congrArg BbKept.backoffS hbye.kept
    rw [← hsame]
    exact id

/-! ## Every run -/

/-- The quota of a run: what was sealed since the keys were last looked at. -/
theorem sealInv_run (h : SealInv 0 bb) {xs : List BbInput} (hbudget : SealBudget C bb xs) :
    ∃ pre mid, xs = pre ++ mid ∧ (∀ x ∈ mid.tail, ¬x.IsTimers) ∧
      sealCount (bbRun C bb pre) ≤ sealCount (bbRun C bb xs) ∧
      SealInv (sealCount (bbRun C bb xs) - sealCount (bbRun C bb pre)) (bbRun C bb xs) := by
  induction xs using List.reverseRecOn with
  | nil => exact ⟨[], [], rfl, by simp, le_refl _, by simpa [bbRun] using h⟩
  | append_singleton xs x ih =>
    have hstep : bbRun C bb (xs ++ [x]) = bbStep C (bbRun C bb xs) x := Runs.run_concat ..
    obtain ⟨pre, mid, hsplit, hmid, hle, hinv⟩ := ih fun pre mid post hsplit hmid =>
      hbudget pre mid (post ++ [x]) (by rw [hsplit, List.append_assoc]) hmid
    have hquota := hbudget pre mid [x] (by rw [hsplit]) hmid
    rw [← hsplit] at hquota
    have hmove := bbStep_move C (bbRun C bb xs) x
    rw [← hstep] at hmove
    have hgrows := hmove.sealCount_le
    by_cases htimers : x.IsTimers
    · -- the keys are looked at: those too old are forgotten, the others have 2^31 numbers left
      have hlast := hbudget xs [x] [] (by simp) (by simp)
      refine ⟨xs, [x], rfl, by simp, hgrows, ?_⟩
      -- keys from 2^31 on are given up here
      by_cases hold : (bbRun C bb xs).state = .up ∧ 0x80000000 ≤ (bbRun C bb xs).seqOut
      · obtain ⟨p, now, rfl⟩ : ∃ p now, x = .timers p now := by
          cases x <;> simp_all [BbInput.IsTimers]
        have hforgot := serviceTimers_rekey C p now hold.1 hold.2
        rw [show serviceTimers C p (bbRun C bb xs) now = bbRun C bb (xs ++ [.timers p now]) from hstep.symm]
          at hforgot
        have hone := hforgot.seals
        have hended := hinv.ended (k := sealCount (bbRun C bb (xs ++ [.timers p now])) - sealCount (bbRun C bb xs))
          (by omega) (by omega) hforgot.log (by simp [hforgot.state])
        exact ⟨hended.parts, by simp [hforgot.state]⟩
      · have hfresh : SealInv 0 (bbRun C bb xs) := by
          refine ⟨hinv.parts, fun hup => ?_⟩
          obtain ⟨n, rest, hparts, hseq, hn⟩ := hinv.up hup
          refine ⟨n, rest, hparts, hseq, ?_⟩
          have hyoung : (bbRun C bb xs).seqOut < 0x80000000 := by
            by_contra hge
            exact hold ⟨hup, UInt32.not_lt.mp hge⟩
          rw [hseq, UInt32.lt_iff_toNat_lt, UInt32.toNat_ofNat'] at hyoung
          have hconst : (0x80000000 : UInt32).toNat = 2 ^ 31 := rfl
          omega
        have hnext := hfresh.move (k := sealCount (bbRun C bb (xs ++ [x])) - sealCount (bbRun C bb xs))
          (by omega) (by omega) hmove
        exact hnext.mono (by omega)
    -- without a look at the keys the quota goes on growing
    · have hmid' : ∀ y ∈ (mid ++ [x]).tail, ¬y.IsTimers := by
        intro y hy
        cases mid with
        | nil => simp at hy
        | cons z mid =>
          rcases List.mem_append.mp hy with hin | hlast
          · exact hmid y hin
          · rwa [List.mem_singleton.mp hlast]
      have hlast := hbudget pre (mid ++ [x]) [] (by rw [hsplit]; simp) hmid'
      have hrun : pre ++ (mid ++ [x]) = xs ++ [x] := by rw [hsplit, List.append_assoc]
      rw [hrun] at hlast
      refine ⟨pre, mid ++ [x], hrun.symm, hmid', hle.trans hgrows, ?_⟩
      have hnext := hinv.move (k := sealCount (bbRun C bb (xs ++ [x])) - sealCount (bbRun C bb xs))
        (by omega) (by omega) hmove
      exact hnext.mono (by omega)

/-- The client in every state a run from `backbone_init` reaches: with no attempt under
way there is no socket, no key and no session; a session that is up has a socket, an id and
no roles but those asked for, and the secret of its handshake is erased; the wait stays
within 5 to 300 s; and when the client is serviced in time, the datagrams of every session
are sealed under one key with the numbers 1, 2, 3 and so on. -/
theorem session_invariants (C : BbCrypto) (cfg : McConfig) (id : McIdentity) (mesh : Option McMesh)
    (now : Nat) (xs : List BbInput) :
    let bb := bbRun C (backboneInit cfg id mesh now).1 xs
    (bb.state = .off ∨ bb.state = .idle ∨ bb.state = .resolving →
      bb.fd = false ∧ bb.kUp = .zero 32 ∧ bb.kDown = .zero 32 ∧ bb.ephSec = .zero 32 ∧
        bb.sid = 0 ∧ bb.roles = 0 ∧ bb.seqOut = 0) ∧
      (bb.state = .up →
        bb.fd = true ∧ bb.sid ≠ 0 ∧ bb.roles &&& ~~~bb.rolesAsked = 0 ∧ bb.ephSec = .zero 32) ∧
      (5 ≤ bb.backoffS ∧ bb.backoffS ≤ 300) ∧
      (SealBudget C (backboneInit cfg id mesh now).1 xs → ∀ part ∈ sessionSeals bb.log, Numbered part) := by
  intro bb
  have hinv : SessionInv bb := sessionInv_of_reachable ⟨cfg, id, mesh, now, xs, rfl⟩
  refine ⟨fun hrest => ?_, hinv.up, hinv.backoff, fun hbudget => ?_⟩
  · have hclean := hinv.resting hrest
    exact ⟨hclean.fd, hclean.kUp, hclean.kDown, hclean.ephSec, hclean.sid, hclean.roles, hclean.seqOut⟩
  · have hinit : SealInv 0 (backboneInit cfg id mesh now).1 :=
      ⟨by simp [backboneInit_log, sessionSeals], fun hup => absurd hup (backboneInit_state cfg id mesh now).2⟩
    obtain ⟨pre, mid, -, -, -, hseal⟩ := sealInv_run hinit hbudget
    exact hseal.parts

end Meshcore
