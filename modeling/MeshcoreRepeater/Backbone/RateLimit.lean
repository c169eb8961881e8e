import MeshcoreRepeater.Backbone.Handshake
import MeshcoreRepeater.Lib.TokenBucket
import MeshcoreRepeater.Mesh.Hub
import Mathlib.Data.List.Infix

/-! # The rate of the hub

The client's `tokens` and `tokens_ms` are a token bucket (`Spends`), whatever sessions come
and go, so the frames handed to the mesh are bounded in every window
(`bridge_rate_bound`).

* `refill_eq`: the code fills the bucket as a token bucket is filled.
* `Spends.move`: one step.
* `bridge_rate_bound`: every window of every run.
-/

namespace Meshcore

set_option maxRecDepth 8000

open ByteLib TokenBucket

variable {C : BbCrypto} {bb bb' : McBackbone} {x : BbInput} {r : Nat}

/-! ## The bucket of a client -/

/-- When frames were handed to the mesh. -/
def frameTimes (es : List BbEvent) : List Nat :=
  es.filterMap fun
    | .frame now _ => some now
    | _ => none

/-- The capacity: a third of the rate, and 1 at least. -/
def rateCap (r : Nat) : ℚ := (max 1 (r / 3) : Nat)

/-- The bucket: unused while `tokens_ms` is 0. -/
def McBackbone.bucket (bb : McBackbone) : Option (Nat × ℚ) :=
  if bb.tokensMs = 0 then none else some (bb.tokensMs, bb.tokens)

/-- The frames handed on were paid for. -/
structure Spends (r : Nat) (bb : McBackbone) : Prop where
  spent : Spent (rateCap r) (r / 60000 : ℚ) (frameTimes bb.log) bb.bucket
  unused : bb.tokensMs = 0 → bb.tokens = 0

/-- The clock of a run. -/
def clockOf (xs : List BbInput) : List Nat := xs.filterMap BbInput.now

@[simp] theorem frameTimes_append (es es' : List BbEvent) :
    frameTimes (es ++ es') = frameTimes es ++ frameTimes es' := List.filterMap_append

theorem frameTimes_inner {es : List BbEvent} (h : ∀ e ∈ es, e.Inner) : frameTimes es = [] := by
  refine List.filterMap_eq_nil_iff.mpr fun e he => ?_
  have hinner := h e he
  cases e <;> simp_all [BbEvent.Inner]

theorem bucketCap_eq (r : Nat) : bucketCap r = rateCap r := by
  unfold bucketCap rateCap
  split
  · rename_i hpos
    rw [max_eq_right (Nat.one_le_iff_ne_zero.mpr hpos)]
  · rename_i hzero
    rw [not_not] at hzero
    rw [hzero]
    norm_num

theorem rateCap_nonneg (r : Nat) : 0 ≤ rateCap r := Nat.cast_nonneg _

/-- `on_frame` fills the bucket up as a token bucket is. -/
theorem refill_eq {now : Nat} (hrate : bb.cfg.backboneRate.toNat = r) (hr : 1 ≤ r)
    (hnow : NotAfter now bb.bucket) (hlt : now < 2 ^ 64) :
    refill .exact bb now = filled (rateCap r) (r / 60000) now bb.bucket := by
  have hne : bb.cfg.backboneRate ≠ 0 := by
    intro hzero
    rw [hzero] at hrate
    exact absurd hrate.symm (by simp; omega)
  unfold refill McBackbone.bucket
  rw [if_pos hne, hrate]
  simp only [bucketCap_eq]
  by_cases hunused : bb.tokensMs = 0
  · rw [if_pos hunused, if_pos hunused]
    rfl
  · have hle : bb.tokensMs ≤ now := hnow bb.tokensMs bb.tokens (by rw [McBackbone.bucket, if_neg hunused])
    rw [if_neg hunused, if_neg hunused, u64Sub_of_le hle hlt, filled]
    have hgain : ((now - bb.tokensMs : Nat) : ℚ) * r / 60000 = r / 60000 * ((now - bb.tokensMs : Nat) : ℚ) := by
      ring
    rw [Reading.exact_add, Reading.exact_div, Reading.exact_mul, Reading.exact_cast, Reading.exact_cast, hgain]
    split
    · rename_i hover
      rw [min_eq_left hover.le]
    · rename_i hunder
      rw [min_eq_right (not_lt.mp hunder)]

/-! ## One step -/

/-- A step that leaves the bucket alone and hands nothing on. -/
theorem Spends.still (h : Spends r bb) (bb' : McBackbone) (es : List BbEvent) (hlog : bb'.log = bb.log ++ es)
    (hnone : frameTimes es = []) (htokens : bb'.tokens = bb.tokens) (htokensMs : bb'.tokensMs = bb.tokensMs) :
    Spends r bb' := by
  refine ⟨?_, fun hunused => ?_⟩
  · rw [hlog, frameTimes_append, hnone, List.append_nil, McBackbone.bucket, htokens, htokensMs]
    exact h.spent
  · rw [htokens]
    exact h.unused (htokensMs.symm.trans hunused)

theorem Spends.calls (h : Spends r bb) (hcalls : Calls bb bb') : Spends r bb' := by
  obtain ⟨es, k, hlog, hinner, -⟩ := hcalls.log
  exact h.still bb' es hlog (frameTimes_inner hinner) (congrArg BbKept.tokens hcalls.kept)
    (congrArg BbKept.tokensMs hcalls.kept)

/-- One step: the bucket is filled up to the time of the input, and pays for a frame. -/
theorem Spends.move (hexact : C.reading = .exact) (h : Spends r bb) (hrate : bb.cfg.backboneRate.toNat = r) (hr : 1 ≤ r)
    (hclock : ∀ now, x.now = some now → 1 ≤ now ∧ now < 2 ^ 64 ∧ NotAfter now bb.bucket)
    (hmove : Move C bb x bb') : Spends r bb' := by
  cases hmove with
  | calls hcalls => exact h.calls hcalls
  | @heard _ seq rwin now hup hcheck hcalls =>
    exact (h.still (bb.heard seq rwin now) [] (List.append_nil _).symm rfl rfl rfl).calls hcalls
  | @limited _ seq rwin now hx hup hcheck hcalls =>
    obtain ⟨hpos, hlt, hnow⟩ := hclock now hx
    refine Spends.calls ?_ hcalls
    have hspent := Spent.refill h.spent hnow
    rw [← refill_eq hrate hr hnow hlt] at hspent
    have hused : now ≠ 0 := by omega
    have hbucket : ((bb.heard seq rwin now).setTokens (refill .exact bb now) now).bucket =
        some (now, refill .exact bb now) := if_neg hused
    rw [hexact]
    refine ⟨?_, fun hzero => absurd hzero hused⟩
    rw [hbucket]
    exact hspent
  | @frame _ seq rwin now raw hx hup hcheck htoken hcalls =>
    obtain ⟨hpos, hlt, hnow⟩ := hclock now hx
    refine Spends.calls ?_ hcalls
    rw [hexact, refill_eq hrate hr hnow hlt] at htoken
    have hspent := Spent.pay h.spent hnow htoken
    rw [← refill_eq hrate hr hnow hlt] at hspent
    have hused : now ≠ 0 := by omega
    have hbucket : (((bb.heard seq rwin now).setTokens (refill .exact bb now - 1) now).note (.frame now raw)).bucket =
        some (now, refill .exact bb now - 1) := if_neg hused
    have htimes : frameTimes (((bb.heard seq rwin now).setTokens (refill .exact bb now - 1) now).note
        (.frame now raw)).log = frameTimes bb.log ++ [now] := frameTimes_append bb.log [.frame now raw]
    rw [hexact, Reading.exact_sub]
    refine ⟨?_, fun hzero => absurd hzero hused⟩
    rw [hbucket, htimes]
    exact hspent
  | forgotten hforgotten =>
    obtain ⟨es, k, hlog, hinner, -⟩ := hforgotten.log
    exact h.still _ es hlog (frameTimes_inner hinner) hforgotten.tokens hforgotten.tokensMs
  | reset hx hup => exact h.still _ [.reset _] rfl rfl rfl rfl
  | attempt hx hidle hdue hattempt => exact h.still _ _ hattempt.log rfl hattempt.tokens hattempt.tokensMs
  | hello hx hwas hhello =>
    obtain ⟨es, hlog, hinner, -⟩ := hhello.log
    have hnone : frameTimes es = [] := frameTimes_inner hinner
    exact h.still _ _ hlog hnone hhello.tokens hhello.tokensMs
  | @up _ p d now w keys hx hfd hwas hcheck hkeys hcalls =>
    exact (h.still (sessionUp bb now d w keys) [.welcome d] rfl rfl rfl rfl).calls hcalls
  | erased hx hwas hcheck hkeys => exact h.still _ [] (List.append_nil _).symm rfl rfl rfl
  | closed hcalls _ hclosed =>
    obtain ⟨busy, rfl⟩ := hclosed
    exact (h.calls hcalls).still _ [] (List.append_nil _).symm rfl rfl rfl

/-- The bucket was last used at some time of the clock. -/
theorem Move.tokensMs (hmove : Move C bb x bb') : bb'.tokensMs = bb.tokensMs ∨ x.now = some bb'.tokensMs := by
  cases hmove with
  | calls h => exact Or.inl (congrArg BbKept.tokensMs h.kept)
  | heard _ _ h => exact Or.inl (congrArg BbKept.tokensMs h.kept)
  | limited hx _ _ h =>
    right
    rw [hx]
    exact congrArg some (congrArg BbKept.tokensMs h.kept).symm
  | frame hx _ _ _ h =>
    right
    rw [hx]
    exact congrArg some (congrArg BbKept.tokensMs h.kept).symm
  | forgotten h => exact Or.inl h.tokensMs
  | reset _ _ => exact Or.inl rfl
  | attempt _ _ _ h => exact Or.inl h.tokensMs
  | hello _ _ h => exact Or.inl h.tokensMs
  | up _ _ _ _ _ h => exact Or.inl (congrArg BbKept.tokensMs h.kept)
  | erased _ _ _ _ => exact Or.inl rfl
  | closed h _ hclosed =>
    obtain ⟨busy, rfl⟩ := hclosed
    exact Or.inl (congrArg BbKept.tokensMs h.kept)

/-! ## Every run -/

/-- The rate stays `r`, at every moment of the run. -/
def RateStays (C : BbCrypto) (bb : McBackbone) (xs : List BbInput) (r : Nat) : Prop :=
  ∀ pre post, xs = pre ++ post → (bbRun C bb pre).cfg.backboneRate.toNat = r

/-- A clock that starts at 1 ms or later and does not go back, in 64 bits. -/
structure ClockRuns (xs : List BbInput) : Prop where
  sorted : (clockOf xs).Pairwise (· ≤ ·)
  range : ∀ now ∈ clockOf xs, 1 ≤ now ∧ now < 2 ^ 64

theorem spends_run (hexact : C.reading = .exact) (hr : 1 ≤ r) (h : Spends r bb) (hstart : bb.tokensMs = 0) {xs : List BbInput}
    (hrate : RateStays C bb xs r) (hclock : ClockRuns xs) :
    Spends r (bbRun C bb xs) ∧
      ((bbRun C bb xs).tokensMs = 0 ∨ (bbRun C bb xs).tokensMs ∈ clockOf xs) := by
  induction xs using List.reverseRecOn with
  | nil => exact ⟨h, Or.inl hstart⟩
  | append_singleton xs x ih =>
    have hstep : bbRun C bb (xs ++ [x]) = bbStep C (bbRun C bb xs) x := Runs.run_concat ..
    have hsplit : clockOf (xs ++ [x]) = clockOf xs ++ clockOf [x] := List.filterMap_append
    have hsorted := hclock.sorted
    rw [hsplit, List.pairwise_append] at hsorted
    obtain ⟨hspends, hlast⟩ := ih (fun pre post hpre => hrate pre (post ++ [x]) (by rw [hpre, List.append_assoc]))
      ⟨hsorted.1, fun now hnow => hclock.range now (by rw [hsplit]; exact List.mem_append_left _ hnow)⟩
    have hmove := bbStep_move C (bbRun C bb xs) x
    rw [← hstep] at hmove
    have hmem : ∀ now, x.now = some now → now ∈ clockOf [x] := by
      intro now hx
      simp [clockOf, hx]
    constructor
    · refine hspends.move hexact (hrate xs [x] rfl) hr (fun now hx => ?_) hmove
      obtain ⟨hpos, hlt⟩ := hclock.range now (by rw [hsplit]; exact List.mem_append_right _ (hmem now hx))
      refine ⟨hpos, hlt, fun last level hbucket => ?_⟩
      unfold McBackbone.bucket at hbucket
      split at hbucket
      · cases hbucket
      · rename_i hused
        cases hbucket
        exact hsorted.2.2 _ (hlast.resolve_left hused) now (hmem now hx)
    · rw [hsplit]
      rcases hmove.tokensMs with hsame | hx
      · rw [hsame]
        exact hlast.imp_right (List.mem_append_left _)
      · exact Or.inr (List.mem_append_right _ (hmem _ hx))

/-- With `tokens` read as an exact rational, the rate `r` and a clock that does not go back, in
every run from `backbone_init`: the frames that are handed to the mesh in any `span` ms are `max 1 (r / 3) + r * span / 60000`
at most, and the bucket holds between 0 and `max 1 (r / 3)` tokens. -/
theorem bridge_rate_bound (C : BbCrypto) (hexact : C.reading = .exact) (cfg : McConfig) (id : McIdentity)
    (mesh : Option McMesh) (now : Nat) (xs : List BbInput) (r : Nat) (hr : 1 ≤ r)
    (hrate : RateStays C (backboneInit cfg id mesh now).1 xs r) (hclock : ClockRuns xs) :
    let bb := bbRun C (backboneInit cfg id mesh now).1 xs
    (∀ start span : Nat,
      (((frameTimes bb.log).filter fun t => decide (start ≤ t ∧ t ≤ start + span)).length : ℚ) ≤
        (max 1 (r / 3) : Nat) + r * span / 60000) ∧
      0 ≤ bb.tokens ∧ bb.tokens ≤ (max 1 (r / 3) : Nat) := by
  intro bb
  have hstart : (backboneInit cfg id mesh now).1.tokensMs = 0 ∧ (backboneInit cfg id mesh now).1.tokens = 0 := by
    unfold backboneInit
    simp only
    repeat' split
    all_goals exact ⟨rfl, rfl⟩
  have hinit : Spends r (backboneInit cfg id mesh now).1 := by
    refine ⟨?_, fun _ => hstart.2⟩
    rw [McBackbone.bucket, if_pos hstart.1, backboneInit_log]
    exact .unused
  have hspends := (spends_run hexact hr hinit hstart.1 hrate hclock).1
  have hfill : (0 : ℚ) ≤ r / 60000 := div_nonneg (Nat.cast_nonneg _) (by norm_num)
  refine ⟨fun start span => ?_, ?_⟩
  · have hwindow := hspends.spent.window (rateCap_nonneg r) hfill start span
    have hsame : (r / 60000 * span : ℚ) = r * span / 60000 := by ring
    rwa [hsame] at hwindow
  · by_cases hunused : bb.tokensMs = 0
    · rw [show bb.tokens = 0 from hspends.unused hunused]
      exact ⟨le_refl _, rateCap_nonneg r⟩
    · exact hspends.spent.bounds (rateCap_nonneg r) hfill bb.tokensMs bb.tokens (if_neg hunused)

/-! ## A frame in bytes -/

/-- The two digests of an HMAC. -/
def macDigests (key msg inner outer : Bytes) : List (Bytes × Bytes) :=
  [((Buf.ofBytes 64 key).bytes.map (· ^^^ 0x36) ++ msg, inner),
   ((Buf.ofBytes 64 key).bytes.map (· ^^^ 0x5c) ++ inner, outer)]

/-- The node with the bridge role instead. -/
def bridgeConfig : McConfig :=
  { pairConfig with backboneObserve := false, backboneBridge := true, publicChannels := [meshChannel] }

def bridgeHelloHead : Bytes := helloHead nodeIdentity bbRoleBridge 1760000000 nodeEph (lit "ON0R")

def bridgeHelloSig : Bytes :=
  bytesBE 32 0x951335357c68b7c6287624fb2c74e152e6bca008efb3ab6849800ec39d5fc557 ++
    bytesBE 32 0xb9be49ae19df1e0202f2bcc28abc4023c86cd7a6ec36f80ec39d8796a8cc9007

def bridgeHello : Bytes := bridgeHelloHead ++ bridgeHelloSig

def bridgeHelloHash : Buf 32 :=
  .ofBytes 32 (bytesBE 32 0x12d3ca3986dc96abbb37d15d872ce9a076bbc5126a512adf3853e34d52c4b1bd)

def bridgeWelcomeHead : Bytes :=
  welcomeHead ⟨bbRoleBridge, 1760000000, 7, hubEph, 0, 0, 0⟩ bridgeHelloHash

def bridgeWelcomeSig : Bytes :=
  bytesBE 32 0x4180bc181f5c8258b24f3a14876ab6d1f090194a6a702a6ffccba52d918dffa2 ++
    bytesBE 32 0x07f968e447ce131ebe60f4849d2c9d75d75f4c4814479ced70314f22de5d9806

def bridgeWelcome : Bytes := bridgeWelcomeHead ++ bridgeWelcomeSig

def bridgeTh : Bytes := bytesBE 32 0x37789777fadbfb73cecdde96ae9043357354ae3a900c3d21dcd05a36afe729a1

def bridgeKDown : Bytes := bytesBE 32 0xfd693bbe175d15203b94b6ff6eb1740e44753db502ee2f8eb5ce9ed1f6725de5

/-- The hub's FRAME with the message of `nearFrame`. -/
def bridgeFrameHead : Bytes :=
  sessionHead bbTFrame 7 1 ([0, 21] ++ bytesBE 8 0xf8f86599db960f42 ++ nearFrame)

def bridgeFrame : Bytes := bridgeFrameHead ++ bytesBE 16 0x4c4e885f87b88fc9da44fb7d9c8aaa48

def bridgeDigests : List (Bytes × Bytes) :=
  [(bridgeHello, bridgeHelloHash.bytes), (bridgeHello ++ bridgeWelcome, bridgeTh)] ++
    macDigests pairSecret.bytes (bbLblUp ++ bridgeTh)
      (bytesBE 32 0xdbc6d9a630603abb495244863d1849a930f45b581fd6cae3051a27f9943b233b)
      (bytesBE 32 0xac70a83cba905baafe6f11007e1ccf32903e1d0be1726a6376916c4ecd59e32b) ++
    macDigests pairSecret.bytes (bbLblDown ++ bridgeTh)
      (bytesBE 32 0xf1740b275f81416bf3e510759584f2e27103554bd3eeccb5d5d146e02b6951b8) bridgeKDown ++
    macDigests bridgeKDown bridgeFrameHead
      (bytesBE 32 0xf85999586122462fb4484aa16252751537de6a91d7ffdb4f9e2c646e71c306c1)
      (bytesBE 32 0x4c4e885f87b88fc9da44fb7d9c8aaa4891ae81de2783de350f5317f63daaec10)

/-- The values of the primitives on these datagrams, and on that message. -/
def bridgeCrypto : BbCrypto :=
  { pairCrypto with
    toCrypto := { Crypto.ofTable [] [(hubPub, bridgeWelcomeSig, bbCtxWelcome ++ bridgeWelcomeHead)] with
      sha256 := fun msg =>
        match bridgeDigests.lookup msg with
        | some digest => .ofBytes 32 digest
        | none => farCrypto.sha256 msg
      cryptoSign := fun _ _ => .ofBytes 64 bridgeHelloSig } }

def bridgeNode : McBackbone :=
  (backboneInit bridgeConfig nodeIdentity (some (meshInit (.still 0) nodeIdentity bridgeConfig false none true))
    1000).1

/-- A handshake, and the frame. -/
def bridgeRun : List BbInput :=
  pairAttempt ++ [.datagram (.calm 1100) 1100 bridgeWelcome, .datagram (.calm 1200) 1200 bridgeFrame]

/-- The same, with rational tokens. -/
def exactCrypto : BbCrypto := { bridgeCrypto with reading := .exact }

/-- One frame in the first second, with 30 a minute: the bucket of 10 is asked for one. -/
theorem bridge_rate_bound_one :
    frameTimes (bbRun exactCrypto bridgeNode bridgeRun).log = [1200] ∧
      (((frameTimes (bbRun exactCrypto bridgeNode bridgeRun).log).filter fun t =>
          decide (1000 ≤ t ∧ t ≤ 1000 + 1000)).length : ℚ) ≤
        (max 1 (30 / 3) : Nat) + (30 : Nat) * (1000 : Nat) / 60000 := by
  have hclock : clockOf bridgeRun = [1000, 1050, 1100, 1200] := rfl
  have hrate : RateStays exactCrypto bridgeNode bridgeRun 30 := by
    have hall : bridgeRun.inits.all fun pre =>
        decide ((bbRun exactCrypto bridgeNode pre).cfg.backboneRate.toNat = 30) := by decide
    intro pre post hsplit
    exact of_decide_eq_true (List.all_eq_true.mp hall pre ((List.mem_inits _ _).mpr ⟨post, hsplit.symm⟩))
  refine ⟨by decide, ?_⟩
  exact (bridge_rate_bound exactCrypto rfl bridgeConfig nodeIdentity _ 1000 bridgeRun 30 (by decide) hrate
    ⟨by rw [hclock]; decide, by rw [hclock]; decide⟩).1 1000 1000

end Meshcore
