import MeshcoreRepeater.Mesh.Silence
import MeshcoreRepeater.Mesh.Neighbors

/-! # The scope of a hotspot

A hotspot bridges its household to the affinity repeaters: what the household sends
goes out at the high power, what comes from the mesh at the low one, and nothing else
is relayed. The direction of a group packet is read off its path, against the key bytes
of the affinity repeaters heard so far.

* `accepted_inScope`: what a hotspot accepts is in its scope.
* `run_affinityHash`: what has been learnt, a frame of the run taught.
* `hotspot_scope`: every run with constant settings.
-/

namespace Meshcore

open ByteLib

/-! ## Whose packet it is -/

/-- A good advert: signed, and blocked by neither name nor key. -/
structure AdvertBy (C : Crypto) (cfg : McConfig) (pkt : McPacket) (pub name : Bytes) : Prop where
  type : pktPayloadType pkt = payloadTypeAdvert
  signed : mcAdvertVerify C pkt = some pub
  named : ∃ atype, mcAdvertExtract pkt 32 = some (atype, name)
  allowed : configIsBlacklisted cfg name = false
  keyAllowed : configIsKeyBlocked cfg pub = false

/-- A group text that has the MAC of a channel the node holds, and that names `who` as
its sender when decrypted. -/
structure TextBy (C : Crypto) (cfg : McConfig) (pkt : McPacket) (who : Bytes) : Prop where
  type : pktPayloadType pkt = payloadTypeGrpTxt
  opens : ∃ ch ∈ cfg.publicChannels, pkt.payload.head? = some ch.hash ∧
    (pkt.payload.drop 1).take 2 = (hmacSha256 C ch.secret.bytes (pkt.payload.drop 3)).take 2 ∧
    ∃ plain, channelDecrypt C ch pkt mcMaxPacketPayload = some plain ∧
      who = grpSenderName plain mcBlacklistNameLen

/-- The first byte of each path hash. -/
def hopBytes (pkt : McPacket) : List UInt8 :=
  (List.range (pktPathHashCount pkt)).map fun h =>
    pkt.path.bytes.getD (h * pktPathHashSize pkt) 0

/-- `path_has_affinity` looks for a learnt byte among the hops. -/
theorem pathHasAffinity_iff {m : McMesh} {pkt : McPacket} :
    pathHasAffinity m pkt = true ↔ ∃ b ∈ hopBytes pkt, b ∈ m.affinityHash := by
  simp [pathHasAffinity, hopBytes]

/-! ## The two directions -/

/-- From the household to the mesh. -/
inductive Uplink (C : Crypto) (cfg : McConfig) (learned : List UInt8) (pkt : McPacket) : Prop where
  | advert (pub name : Bytes) : AdvertBy C cfg pkt pub name → configIsHome cfg name = true →
      configIsAffinity cfg name = false → Uplink C cfg learned pkt
  | text (who : Bytes) : TextBy C cfg pkt who → (∀ b ∈ hopBytes pkt, b ∉ learned) →
      configIsHome cfg who = true → configIsAffinity cfg who = false → Uplink C cfg learned pkt

/-- From the mesh to the household. -/
inductive Downlink (C : Crypto) (cfg : McConfig) (src : MeshSrc) (learned : List UInt8)
    (pkt : McPacket) : Prop where
  | advert (pub name : Bytes) : AdvertBy C cfg pkt pub name → configIsAffinity cfg name = true →
      Downlink C cfg src learned pkt
  | hub : src = .backbone → isGroupType (pktPayloadType pkt) = true → Licensed C cfg pkt →
      Downlink C cfg src learned pkt
  | path : src = .rf → isGroupType (pktPayloadType pkt) = true →
      (∃ b ∈ hopBytes pkt, b ∈ learned) → Downlink C cfg src learned pkt
  | text (who : Bytes) : src = .rf → TextBy C cfg pkt who → configIsAffinity cfg who = true →
      Downlink C cfg src learned pkt

/-- The power tells the direction: high for what the household sent over RF, low for
what comes from the mesh. -/
def InScope (C : Crypto) (cfg : McConfig) (src : MeshSrc) (learned : List UInt8) (pkt : McPacket)
    (power : Int) : Prop :=
  (power = cfg.hotspotPowerHigh ∧ src = .rf ∧ Uplink C cfg learned pkt) ∨
    (power = cfg.hotspotPowerLow ∧ Downlink C cfg src learned pkt)

section
variable {C : Crypto} {cfg : McConfig} {src : MeshSrc} {learned : List UInt8} {pkt : McPacket}
  {rssiDbm snrQ : Int}

/-- The signal is no part of it. -/
theorem AdvertBy.of_heardAt {pub name : Bytes} (h : AdvertBy C cfg (pkt.heardAt rssiDbm snrQ) pub name) :
    AdvertBy C cfg pkt pub name :=
  ⟨h.type, h.signed, h.named, h.allowed, h.keyAllowed⟩

/-- Nor of a text. -/
theorem TextBy.of_heardAt {who : Bytes} (h : TextBy C cfg (pkt.heardAt rssiDbm snrQ) who) :
    TextBy C cfg pkt who :=
  ⟨h.type, h.opens⟩

/-- The scope does not depend on the signal. -/
theorem InScope.of_heardAt {power : Int}
    (h : InScope C cfg src learned (pkt.heardAt rssiDbm snrQ) power) :
    InScope C cfg src learned pkt power := by
  rcases h with ⟨hpower, hsrc, hup⟩ | ⟨hpower, hdown⟩
  · refine .inl ⟨hpower, hsrc, ?_⟩
    cases hup with
    | advert pub name hby hhome haff => exact .advert pub name hby.of_heardAt hhome haff
    | text who hby hpath hhome haff => exact .text who hby.of_heardAt hpath hhome haff
  · refine .inr ⟨hpower, ?_⟩
    cases hdown with
    | advert pub name hby haff => exact .advert pub name hby.of_heardAt haff
    | hub hsrc hgroup hlic => exact .hub hsrc hgroup hlic.of_heardAt
    | path hsrc hgroup hpath => exact .path hsrc hgroup hpath
    | text who hsrc hby haff => exact .text who hsrc hby.of_heardAt haff

/-! ## What is decided -/

/-- No list matches an empty name. -/
theorem nameListed_ne_nil {patterns : List Bytes} {name : Bytes} (h : nameListed patterns name = true) :
    name ≠ [] := by
  rintro rfl
  simp [nameListed] at h

/-- A name is read from an advert that passed its checks. -/
theorem advertBy_of_verdict {name : Bytes} (h : advertVerdict C cfg pkt = some name)
    (hname : name ≠ []) : ∃ pub, AdvertBy C cfg pkt pub name := by
  unfold advertVerdict at h
  split at h
  · cases h
  rename_i pub hsig
  split at h
  · cases h
  rename_i hblocked
  cases h
  simp only [advertBlocked, Bool.not_eq_true, Bool.or_eq_false_iff] at hblocked
  refine ⟨pub, (mcAdvertVerify_some hsig).1, hsig, ?_, hblocked.1, hblocked.2⟩
  -- data that cannot be extracted have no name
  unfold advertTypeName at hname ⊢
  cases hx : mcAdvertExtract pkt 32 with
  | none =>
    rw [hx] at hname
    exact absurd rfl hname
  | some info => exact ⟨info.1, rfl⟩

/-- A sender's name is read from a text on a channel the node holds. -/
theorem textBy_of_verdict {who : Bytes} (h : policyVerdict C cfg src pkt = .ok who)
    (hwho : who ≠ []) : TextBy C cfg pkt who := by
  unfold policyVerdict at h
  split at h
  · rename_i ch hclass
    -- the channel is one that authenticates the packet
    rcases classifyForward_okGrpPublic hclass with ⟨-, -, hch, hproves⟩
    simp only [channelProves, channelMac, Bool.and_eq_true, beq_iff_eq] at hproves
    have hforward : publicVerdict C cfg src pkt ch = (.forward, who) := by
      split at h
      · cases h
      · cases h
      · rename_i heq
        cases h
        exact heq
    unfold publicVerdict at hforward
    cases hplain : groupPlain C pkt ch with
    | none =>
      -- what cannot be read has no sender
      rw [hplain] at hforward
      cases hforward
      exact absurd rfl hwho
    | some plain =>
      -- each way that forwards takes the sender of the same text
      have hsender : who = grpSenderName plain mcBlacklistNameLen := by
        rw [hplain] at hforward
        simp only at hforward
        split at hforward
        · cases hforward
        split at hforward
        · cases hforward
          rfl
        split at hforward
        · cases hforward
          rfl
        · exact (congrArg Prod.snd hforward).symm
      unfold groupPlain at hplain
      split at hplain
      · cases hplain
      rename_i htype
      have hdec := (Option.filter_eq_some_iff.mp hplain).1
      exact ⟨by simpa using htype, ch, hch, hproves.1, hproves.2.symm, plain, hdec, hsender⟩
  · cases h
    exact absurd rfl hwho
  · cases h
    exact absurd rfl hwho
  · cases h

/-- Whatever a hotspot accepts is in its scope, at the power of its direction. -/
theorem accepted_inScope {m : McMesh} {power : Int} (hrole : m.cfg.role = .hotspot)
    (hpay : pkt.payload.length ≤ mcMaxPacketPayload) (h : accepted C m pkt = some power) :
    InScope C m.cfg m.rxSrc m.affinityHash pkt power := by
  have hlic := licensed_of_accepted hpay h
  unfold accepted at h
  split at h
  · cases h
  rename_i aname sender hverdict
  rcases recvVerdict_ok hverdict with ⟨-, -, hpol, hadv⟩
  -- a hotspot accepts what `hotspot_decide` does
  have hdecide : hotspotDecide m pkt aname sender = (true, power) := by
    unfold recvScope at h
    rw [if_pos hrole] at h
    split at h
    · cases h
    · rename_i heq
      cases h
      exact heq
  -- whoever is on a list has a name, so the packet says who sent it
  have hadvert : ∀ {list : List Bytes}, pktPayloadType pkt = payloadTypeAdvert →
      nameListed list aname = true → ∃ pub, AdvertBy C m.cfg pkt pub aname := fun ht hl =>
    advertBy_of_verdict (hadv ht) (nameListed_ne_nil hl)
  have htext : ∀ {list : List Bytes}, nameListed list sender = true → TextBy C m.cfg pkt sender :=
    fun hl => textBy_of_verdict hpol (nameListed_ne_nil hl)
  -- the policy lets adverts and group packets through only
  have hgroup : pktPayloadType pkt ≠ payloadTypeAdvert → isGroupType (pktPayloadType pkt) = true := by
    intro hne
    rcases hlic.type with ht | ht | ht
    · exact absurd ht hne
    · rw [ht]
      rfl
    · rw [ht]
      rfl
  unfold hotspotDecide at hdecide
  simp only at hdecide
  split at hdecide
  · -- the hub stands in for the repeater
    rename_i hsrc
    simp only [Prod.mk.injEq, Bool.or_eq_true, bne_iff_ne, ne_eq] at hdecide
    refine .inr ⟨hdecide.2.symm, ?_⟩
    by_cases ht : pktPayloadType pkt = payloadTypeAdvert
    · have haff := hdecide.1.resolve_left fun hne => hne ht
      rcases hadvert ht haff with ⟨pub, hby⟩
      exact .advert pub aname hby haff
    · exact .hub hsrc (hgroup ht) hlic
  rename_i hsrc
  have hrf : m.rxSrc = .rf := by
    cases hs : m.rxSrc with
    | rf => rfl
    | backbone => exact absurd hs hsrc
  split at hdecide
  · -- adverts go by the advertiser
    rename_i ht
    split at hdecide
    · rename_i haff
      rcases hadvert ht haff with ⟨pub, hby⟩
      cases hdecide
      exact .inr ⟨rfl, .advert pub aname hby haff⟩
    rename_i haff
    split at hdecide
    · rename_i hhome
      rcases hadvert ht hhome with ⟨pub, hby⟩
      cases hdecide
      exact .inl ⟨rfl, hrf, .advert pub aname hby hhome (by simpa using haff)⟩
    · cases hdecide
  rename_i ht
  split at hdecide
  · rename_i hpath
    cases hdecide
    exact .inr ⟨rfl, .path hrf (hgroup ht) (pathHasAffinity_iff.mp hpath)⟩
  rename_i hpath
  -- no hop is an affinity repeater
  have hfar : ∀ b ∈ hopBytes pkt, b ∉ m.affinityHash := by
    intro b hb hl
    exact hpath (pathHasAffinity_iff.mpr ⟨b, hb, hl⟩)
  split at hdecide
  · rename_i hown
    cases hdecide
    exact .inr ⟨rfl, .text sender hrf (htext hown.2) hown.2⟩
  rename_i hown
  split at hdecide
  · -- heard locally: the sender must be of the household
    rename_i htxt
    simp only [Prod.mk.injEq] at hdecide
    have haff : configIsAffinity m.cfg sender = false := by
      simpa [htxt] using hown
    exact .inl ⟨hdecide.2.symm, hrf, .text sender (htext hdecide.1) hfar hdecide.1 haff⟩
  · cases hdecide

end

/-! ## What is learnt -/

/-- The frame teaches the key byte `b`: it is a good advert of an affinity repeater. -/
def Teaches (C : Crypto) (cfg : McConfig) (raw : Bytes) (b : UInt8) : Prop :=
  ∃ pkt pub name, pktParse raw = .ok pkt ∧ AdvertBy C cfg pkt pub name ∧
    configIsAffinity cfg name = true ∧ b = pub.headD 0

section
variable (C : Crypto) (hal : Hal) (m : McMesh) (pkt : McPacket)

/-- The learnt bytes belong to the part that most calls leave alone. -/
theorem affinityHash_of_fixed {m m' : McMesh} (h : m'.fixed = m.fixed) :
    m'.affinityHash = m.affinityHash :=
  congrArg MeshFixed.affinityHash h

/-- One byte is learnt at most. -/
theorem mem_learnAffinity {pub : Bytes} {b : UInt8} (h : b ∈ (learnAffinity m pub).affinityHash) :
    b ∈ m.affinityHash ∨ b = pub.headD 0 := by
  unfold learnAffinity at h
  simp only at h
  -- known already, or no place for it
  split at h
  · exact .inl h
  split at h
  · rcases List.mem_append.mp h with hold | hnew
    · exact .inl hold
    · exact .inr (List.mem_singleton.mp hnew)
  · exact .inl h

/-- Hearing an advert teaches the key byte of an affinity repeater at most. -/
theorem advertHeard_affinityHash {pub : Bytes} {atype : UInt8} {aname : Bytes} {b : UInt8}
    (h : b ∈ (advertHeard C hal m pkt pub atype aname).affinityHash) :
    b ∈ m.affinityHash ∨ (configIsAffinity m.cfg aname = true ∧ b = pub.headD 0) := by
  -- waking up learns nothing
  have hwake : ∀ m' : McMesh, (hotspotWake C hal m' pkt aname).affinityHash = m'.affinityHash := by
    intro m'
    rcases hotspotWake_fixed C hal m' pkt aname with ⟨t, ht⟩
    exact congrArg MeshFixed.affinityHash ht
  rcases neighborUpdate_eq hal pkt (m.bump fun s => { s with rxAdvert := s.rxAdvert + 1 }) pub
    pkt.rssiDbm pkt.snrQ with ⟨t, ht⟩
  unfold advertHeard at h
  simp only [ht] at h
  have hmem : b ∈ (if m.cfg.role = .hotspot ∧ configIsAffinity m.cfg aname = true then
      learnAffinity { m.bump (fun s => { s with rxAdvert := s.rxAdvert + 1 }) with neighbors := t } pub
      else { m.bump (fun s => { s with rxAdvert := s.rxAdvert + 1 }) with neighbors := t }).affinityHash := by
    split at h
    · rwa [hwake] at h
    · exact h
  split at hmem
  · rename_i hlearn
    rcases mem_learnAffinity _ hmem with hold | hnew
    · exact .inl hold
    · exact .inr ⟨hlearn.2, hnew⟩
  · exact .inl hmem

/-- A refused advert teaches nothing, a good one only when it was heard on RF. -/
theorem recvAdvert_affinityHash {b : UInt8} (h : b ∈ (recvAdvert C hal m pkt).1.affinityHash) :
    b ∈ m.affinityHash ∨ (m.rxSrc = .rf ∧ ∃ pub name, AdvertBy C m.cfg pkt pub name ∧
      configIsAffinity m.cfg name = true ∧ b = pub.headD 0) := by
  unfold recvAdvert at h
  split at h
  · have hn := Noted.bumpIfDrop m m.heardOnRf pkt "advert: bad signature"
      (f := fun s => { s with rxAdvertBad := s.rxAdvertBad + 1 }) fun _ => rfl
    simp only [affinityHash_of_fixed hn.fixed] at h
    exact .inl h
  rename_i pub hsig
  simp only at h
  split at h
  · have hn := Noted.bumpDrop m pkt "advert: blacklisted sender"
      (f := fun s => { s with blacklisted := s.blacklisted + 1 }) fun _ => rfl
    simp only [affinityHash_of_fixed hn.fixed] at h
    exact .inl h
  rename_i hblocked
  have hreport := advertReported_noted hal (if m.heardOnRf then
    advertHeard C hal m pkt pub (advertTypeName pkt).1 (advertTypeName pkt).2 else m) pkt pub
    (advertTypeName pkt).1 (advertTypeName pkt).2
  simp only [affinityHash_of_fixed hreport.fixed] at h
  split at h
  · rename_i hrf
    rcases advertHeard_affinityHash C hal m pkt h with hold | ⟨haff, hb⟩
    · exact .inl hold
    -- the name that is looked up is the one the advert was accepted with
    · have hname : advertVerdict C m.cfg pkt = some (advertTypeName pkt).2 := by
        simp [advertVerdict, hsig, hblocked]
      rcases advertBy_of_verdict hname (nameListed_ne_nil haff) with ⟨pub', hby⟩
      have hpub : pub' = pub := Option.some.inj (hby.signed.symm.trans hsig)
      exact .inr ⟨(heardOnRf_iff m).mp hrf, pub, _, hpub ▸ hby, haff, hb⟩
  · exact .inl h

/-- A call learns from a good advert heard on RF only. -/
theorem meshOnRecv_affinityHash {raw : Bytes} {rssiDbm snrQ : Int} {b : UInt8}
    (h : b ∈ (meshOnRecv C hal m raw rssiDbm snrQ).1.affinityHash) :
    b ∈ m.affinityHash ∨ (m.rxSrc = .rf ∧ Teaches C m.cfg raw b) := by
  cases hparse : pktParse raw with
  | error e =>
    rw [affinityHash_of_fixed (meshOnRecv_of_error C hal m raw rssiDbm snrQ hparse).2.fixed] at h
    exact .inl h
  | ok pkt =>
  -- a packet seen before is dropped before it could teach
  by_cases hseen : pktCalcHash C pkt ∈ m.seen
  · rw [affinityHash_of_fixed (meshOnRecv_of_mem C hal m raw rssiDbm snrQ hparse hseen).2.fixed] at h
    exact .inl h
  rcases meshOnRecv_of_not_mem C hal m raw rssiDbm snrQ hparse hseen with ⟨m₀, hrec, heq⟩
  have hcfg : m₀.cfg = m.cfg := congrArg MeshFixed.cfg hrec.fixed
  have hsrc : m₀.rxSrc = m.rxSrc := congrArg MeshFixed.rxSrc hrec.fixed
  rw [heq] at h
  by_cases ht : pktPayloadType (pkt.heardAt rssiDbm snrQ) = payloadTypeAdvert
  · -- an advert teaches in its own stage, and nothing after it does
    have hstage : b ∈ (recvAdvert C hal m₀ (pkt.heardAt rssiDbm snrQ)).1.affinityHash := by
      cases hname : (recvAdvert C hal m₀ (pkt.heardAt rssiDbm snrQ)).2 with
      | some aname =>
        rwa [affinityHash_of_fixed (recvFresh_advert_fixed C hal m₀ _ ht hname)] at h
      | none =>
        unfold recvFresh at h
        simp only [ht, if_true] at h
        split at h
        · rename_i hres
          rwa [hres]
        · rename_i hres
          rw [hres] at hname
          cases hname
    rcases recvAdvert_affinityHash C hal m₀ _ hstage with hold | ⟨hrf, pub, name, hby, haff, hb⟩
    · rw [affinityHash_of_fixed hrec.fixed] at hold
      exact .inl hold
    · rw [hcfg] at hby haff
      exact .inr ⟨hsrc ▸ hrf, pkt, pub, name, hparse, hby.of_heardAt, haff, hb⟩
  · -- nothing else teaches
    rcases recvFresh_spec C hal m₀ (pkt.heardAt rssiDbm snrQ) with ⟨m₁, hheard, hfresh⟩
    have hend : (recvFresh C hal m₀ (pkt.heardAt rssiDbm snrQ)).1.affinityHash = m₁.affinityHash := by
      rw [hfresh]
      split
      · rfl
      · exact affinityHash_of_fixed (recvRelay_frame hal m₁ _ _ _).1
    rw [hend, hheard.affinityHash.resolve_right ht, affinityHash_of_fixed hrec.fixed] at h
    exact .inl h

end

/-! ## Whole runs -/

/-- The settings of a run whose inputs all leave them as they are. -/
theorem run_cfg {C : Crypto} {m : McMesh} {xs : List Input}
    (hxs : ∀ x ∈ xs, x.cfgAfter m.cfg = m.cfg) : (run C m xs).cfg = m.cfg := by
  -- each input is one that leaves the settings
  refine Runs.run_invariant_of (fun _ x => Input.cfgAfter x m.cfg = m.cfg)
    (fun s => McMesh.cfg s = m.cfg) ?_ (Runs.every_of_forall_mem hxs) rfl
  intro s x hx hs
  have hcfg : (step C s x).cfg = x.cfgAfter s.cfg := x.run_cfg C s.clearEvents
  rw [hcfg, hs, hx]

/-- A step learns from a frame heard on RF only. -/
theorem step_affinityHash {C : Crypto} {m : McMesh} {x : Input} {b : UInt8}
    (h : b ∈ (step C m x).affinityHash) :
    b ∈ m.affinityHash ∨
      ∃ hal raw rssiDbm snrQ, x = .recv hal raw rssiDbm snrQ ∧ Teaches C m.cfg raw b := by
  have hserv : ∀ {h : Hal} {k : Nat} {m' : McMesh}, Services h k m.clearEvents m' →
      b ∈ m'.affinityHash → b ∈ m.affinityHash := by
    intro h k m' hs hb
    rwa [affinityHash_of_fixed hs.fixed] at hb
  cases x with
  | recv hal raw rssiDbm snrQ =>
    rcases meshOnRecv_affinityHash C hal m.clearEvents h with hold | ⟨-, hteach⟩
    · exact .inl hold
    · exact .inr ⟨hal, raw, rssiDbm, snrQ, rfl, hteach⟩
  | backbone hal raw =>
    -- the hub teaches nothing
    rcases meshOnRecv_affinityHash C hal { m.clearEvents with rxSrc := .backbone } h with
      hold | ⟨hrf, -⟩
    · exact .inl hold
    · cases hrf
  | rxError crc rssiDbm snrQ =>
    exact .inl (hserv (h := .still 0) (k := 0)
      (.of_noted (meshOnRxError_noted m.clearEvents crc rssiDbm snrQ)) h)
  | sendAdvert hal => exact .inl (hserv (meshSendAdvert_services C hal _) h)
  | startProbe hal ch secs count =>
    exact .inl (hserv (h := hal) (k := 0) (.of_noted (meshStartProbe_noted hal _ ch secs count)) h)
  | serviceProbe hal nowMs => exact .inl (hserv (meshServiceProbe_services C hal _ nowMs) h)
  | serviceTimeofday hal => exact .inl (hserv (meshServiceTimeofday_services C hal _) h)
  | serviceTx hal nowMs =>
    have hfixed := (meshServiceTx_transmitted C hal m.clearEvents nowMs).fixed
    exact .inl (affinityHash_of_fixed hfixed ▸ h)
  | reload cfg => cases h
  | configure _ | advertTick _ | watchers _ => exact .inl h

/-- What a run has learnt, some frame heard during the run taught. -/
theorem run_affinityHash {C : Crypto} {m : McMesh} {xs : List Input} {b : UInt8}
    (hxs : ∀ x ∈ xs, x.cfgAfter m.cfg = m.cfg) (h : b ∈ (run C m xs).affinityHash) :
    b ∈ m.affinityHash ∨ ∃ pre hal raw rssiDbm snrQ post,
      xs = pre ++ .recv hal raw rssiDbm snrQ :: post ∧ Teaches C m.cfg raw b := by
  induction xs using List.reverseRecOn with
  | nil => exact .inl h
  | append_singleton xs x ih =>
    have hearlier : ∀ y ∈ xs, y.cfgAfter m.cfg = m.cfg := by
      intro y hy
      exact hxs y (List.mem_append_left [x] hy)
    -- the last step taught it, or it was there before
    have hcat : run C m (xs ++ [x]) = step C (run C m xs) x := Runs.run_concat ..
    rw [hcat] at h
    rcases step_affinityHash h with hold | ⟨hal, raw, rssiDbm, snrQ, rfl, hteach⟩
    · rcases ih hearlier hold with hinit | ⟨pre, hal, raw, rssiDbm, snrQ, post, rfl, hteach⟩
      · exact .inl hinit
      · exact .inr ⟨pre, hal, raw, rssiDbm, snrQ, post ++ [x], by simp, hteach⟩
    · rw [run_cfg hearlier] at hteach
      exact .inr ⟨xs, hal, raw, rssiDbm, snrQ, [], rfl, hteach⟩

/-- The source of the frames of an entry point. -/
def Entry.src : Entry → MeshSrc
  | .rf _ _ => .rf
  | .hub => .backbone

/-- Over any run with constant settings, a hotspot relays within its scope, at the power
of the direction; the key bytes that tell the directions apart were all learnt from good
adverts of affinity repeaters heard on RF. -/
theorem hotspot_scope (C : Crypto) (hal₀ : Hal) (id : McIdentity) {cfg : McConfig} (aprs : Bool)
    (mon : Option Nat) (bb : Bool) (hrole : cfg.role = .hotspot)
    (hpower : cfg.hotspotPowerHigh ≠ cfg.hotspotPowerLow) {xs : List Input}
    (hxs : ∀ x ∈ xs, x.cfgAfter cfg = cfg) {m : McMesh}
    (hm : m = run C (meshInit hal₀ id cfg aprs mon bb) xs) :
    (∀ hal raw entry i, AddsRelay m (receive C hal m raw entry).1 i →
      ∃ pkt, pktParse raw = .ok pkt ∧
        relayCopy id (pkt.heardAt entry.rssiDbm entry.snrQ) =
          some ((receive C hal m raw entry).1.txq i).pkt ∧
        InScope C cfg entry.src m.affinityHash pkt ((receive C hal m raw entry).1.txq i).powerDbm ∧
        (entry = .hub →
          ((receive C hal m raw entry).1.txq i).powerDbm ≠ cfg.hotspotPowerHigh)) ∧
    ∀ b ∈ m.affinityHash, ∃ pre hal raw rssiDbm snrQ post,
      xs = pre ++ .recv hal raw rssiDbm snrQ :: post ∧ Teaches C cfg raw b := by
  subst hm
  constructor
  · intro hal raw entry i hadd
    have hcfg : (run C (meshInit hal₀ id cfg aprs mon bb) xs).cfg = cfg :=
      run_cfg (m := meshInit hal₀ id cfg aprs mon bb) hxs
    -- identity and source are the same in every state
    have hsame : (run C (meshInit hal₀ id cfg aprs mon bb) xs).id = id ∧
        (run C (meshInit hal₀ id cfg aprs mon bb) xs).rxSrc = .rf := by
      refine Runs.run_invariant (fun s : McMesh => s.id = id ∧ s.rxSrc = .rf) ?_ ⟨rfl, rfl⟩ xs
      intro s x hs
      have hstep := x.run_same C s.clearEvents
      exact ⟨hstep.1.trans hs.1, hstep.2.trans hs.2⟩
    generalize run C (meshInit hal₀ id cfg aprs mon bb) xs = m at hadd hcfg hsame ⊢
    rcases receive_outcome C hal m raw entry with ⟨m', houtcome, src, heq⟩
    -- the frame is handled as one of its source
    have henter : (m.enter entry).cfg = cfg ∧ (m.enter entry).id = id ∧
        (m.enter entry).rxSrc = entry.src ∧ (m.enter entry).affinityHash = m.affinityHash ∧
        (m.enter entry).txq = m.txq := by
      cases entry with
      | rf _ _ => exact ⟨hcfg, hsame.1, hsame.2, rfl, rfl⟩
      | hub => exact ⟨hcfg, hsame.1, rfl, rfl, rfl⟩
    rcases henter with ⟨hcfg', hid', hsrc', haff', htxq'⟩
    rw [heq] at hadd ⊢
    have hadd' : AddsRelay (m.enter entry) m' i := by
      rw [AddsRelay, htxq']
      exact hadd
    rcases houtcome.relayQueued hadd' with ⟨pkt, hparse, hacc, hcopy⟩
    have hscope := (accepted_inScope (hcfg' ▸ hrole) (pktParse_wellFormed hparse).payload_le
      hacc).of_heardAt
    rw [hcfg', hsrc', haff'] at hscope
    rw [hid'] at hcopy
    refine ⟨pkt, hparse, hcopy, hscope, ?_⟩
    -- a frame of the hub is in scope as a downlink only
    rintro rfl hhigh
    rcases hscope with ⟨-, hrf, -⟩ | ⟨hlow, -⟩
    · cases hrf
    · exact hpower (hhigh.symm.trans hlow)
  · intro b hb
    rcases run_affinityHash (m := meshInit hal₀ id cfg aprs mon bb) hxs hb with hinit | hteach
    · cases hinit
    · exact hteach

/-- The companion's advert goes out at the high power. -/
theorem hotspot_scope_hill :
    AddsRelay hillHotspot (receive hillCrypto (.still 1000) hillHotspot hillFrame (.rf (-60) 40)).1 0 ∧
    ∃ pkt, pktParse hillFrame = .ok pkt ∧
      relayCopy farIdentity (pkt.heardAt (-60) 40) = some ((receive hillCrypto (.still 1000)
        hillHotspot hillFrame (.rf (-60) 40)).1.txq 0).pkt ∧
      InScope hillCrypto hillHotspot.cfg .rf hillHotspot.affinityHash pkt
        ((receive hillCrypto (.still 1000) hillHotspot hillFrame (.rf (-60) 40)).1.txq 0).powerDbm := by
  have hadd : AddsRelay hillHotspot
      (receive hillCrypto (.still 1000) hillHotspot hillFrame (.rf (-60) 40)).1 0 := by decide +kernel
  have hpower : hillHotspot.cfg.hotspotPowerHigh ≠ hillHotspot.cfg.hotspotPowerLow := by decide
  have hxs : ∀ x ∈ ([] : List Input), x.cfgAfter hillHotspot.cfg = hillHotspot.cfg := by simp
  have hrole : hillHotspot.cfg.role = .hotspot := rfl
  have hm : hillHotspot = run hillCrypto (meshInit (.still 0) farIdentity hillHotspot.cfg false none
      true) [] := rfl
  rcases (hotspot_scope hillCrypto (.still 0) farIdentity false none true hrole hpower hxs hm).1
    (.still 1000) hillFrame (.rf (-60) 40) 0 hadd with ⟨pkt, hparse, hcopy, hscope, -⟩
  exact ⟨hadd, pkt, hparse, hcopy, hscope⟩

end Meshcore
