import MeshcoreRepeater.Backbone.Client

/-! # What is done inside a session

Most of what a client does seals a few datagrams and counts them. `Calls` says so: the
handshake, the keys and the token bucket stay (`McBackbone.kept`), and the log grows by
what was sealed and sent, numbered on from `seq_out`.

* `sendSession_calls`: sealing numbers one datagram more.
* `meshRan_calls`: a run of the mesh inside a session.
* `backboneObserve_sends`, `backboneOffer_sends`: what the mesh calls back.
-/

namespace Meshcore

open ByteLib

/-! ## Parts of the state -/

/-- What a call inside a session leaves alone. -/
structure BbKept where
  id : McIdentity
  hubPub : Bytes
  rolesAsked : UInt8
  state : BbState
  fd : Bool
  nextTryMs : Nat
  backoffS : Nat
  ephSec : Buf 32
  hello : Bytes
  helloHash : Buf 32
  lastHelloTs : UInt32
  sid : UInt32
  roles : UInt8
  kUp : Buf 32
  kDown : Buf 32
  rwin : BbReplay
  taken : List UInt32
  lastResetMs : Nat
  tokens : ℚ
  tokensMs : Nat

/-- That part of a client. -/
def McBackbone.kept (bb : McBackbone) : BbKept where
  id := bb.id
  hubPub := bb.hubPub
  rolesAsked := bb.rolesAsked
  state := bb.state
  fd := bb.fd
  nextTryMs := bb.nextTryMs
  backoffS := bb.backoffS
  ephSec := bb.ephSec
  hello := bb.hello
  helloHash := bb.helloHash
  lastHelloTs := bb.lastHelloTs
  sid := bb.sid
  roles := bb.roles
  kUp := bb.kUp
  kDown := bb.kDown
  rwin := bb.rwin
  taken := bb.taken
  lastResetMs := bb.lastResetMs
  tokens := bb.tokens
  tokensMs := bb.tokensMs

/-- What a call inside a session may note. -/
def BbEvent.Inner : BbEvent → Prop
  | .send _ => True
  | .seal _ _ => True
  | .policy _ => True
  | _ => False

/-- The sealed datagrams among the events: key and number. -/
def sealsOf (es : List BbEvent) : List (Buf 32 × UInt32) :=
  es.filterMap fun
    | .seal key seq => some (key, seq)
    | _ => none

@[simp] theorem sealsOf_append (es es' : List BbEvent) : sealsOf (es ++ es') = sealsOf es ++ sealsOf es' :=
  List.filterMap_append

/-- `k` datagrams sealed under one key, numbered on from `seq`. -/
def sealed (key : Buf 32) (seq : UInt32) (k : Nat) : List (Buf 32 × UInt32) :=
  (List.range k).map fun i => (key, seq + UInt32.ofNat (i + 1))

@[simp] theorem sealed_zero (key : Buf 32) (seq : UInt32) : sealed key seq 0 = [] := rfl

@[simp] theorem length_sealed (key : Buf 32) (seq : UInt32) (k : Nat) : (sealed key seq k).length = k := by
  simp [sealed]

/-- Numbering goes on where it stopped. -/
theorem sealed_add (key : Buf 32) (seq : UInt32) (k k' : Nat) :
    sealed key seq k ++ sealed key (seq + UInt32.ofNat k) k' = sealed key seq (k + k') := by
  simp only [sealed, List.range_add, List.map_append, List.map_map]
  congr 1
  refine List.map_congr_left fun i _ => ?_
  simp only [Function.comp_apply, Prod.mk.injEq, true_and]
  rw [UInt32.add_assoc, ← UInt32.ofNat_add, Nat.add_assoc]

/-! ## The relation -/

/-- `bb'` comes from `bb` by calls inside a session. Only a session seals. -/
structure Calls (bb bb' : McBackbone) : Prop where
  kept : bb'.kept = bb.kept
  log : ∃ es k, bb'.log = bb.log ++ es ∧ (∀ e ∈ es, e.Inner) ∧ sealsOf es = sealed bb.kUp bb.seqOut k ∧
    bb'.seqOut = bb.seqOut + UInt32.ofNat k ∧ (k ≠ 0 → bb.state = .up)

namespace Calls

variable {bb bb' bb'' : McBackbone}

theorem state (h : Calls bb bb') : bb'.state = bb.state := congrArg BbKept.state h.kept
theorem fd (h : Calls bb bb') : bb'.fd = bb.fd := congrArg BbKept.fd h.kept
theorem kUp (h : Calls bb bb') : bb'.kUp = bb.kUp := congrArg BbKept.kUp h.kept
theorem ephSec (h : Calls bb bb') : bb'.ephSec = bb.ephSec := congrArg BbKept.ephSec h.kept
theorem hello (h : Calls bb bb') : bb'.hello = bb.hello := congrArg BbKept.hello h.kept

/-- Doing nothing. -/
theorem refl (bb : McBackbone) : Calls bb bb := ⟨rfl, [], 0, by simp, by simp, rfl, by simp, by simp⟩

/-- What was sealed second is numbered on from what was sealed first. -/
theorem trans (h : Calls bb bb') (h' : Calls bb' bb'') : Calls bb bb'' where
  kept := h'.kept.trans h.kept
  log := by
    obtain ⟨es, k, hlog, hinner, hseals, hseq, hup⟩ := h.log
    obtain ⟨es', k', hlog', hinner', hseals', hseq', hup'⟩ := h'.log
    refine ⟨es ++ es', k + k', by rw [hlog', hlog, List.append_assoc], ?_, ?_, ?_, ?_⟩
    · intro e he
      rcases List.mem_append.mp he with hl | hr
      · exact hinner e hl
      · exact hinner' e hr
    · rw [sealsOf_append, hseals, hseals', h.kUp, hseq, sealed_add]
    · rw [hseq', hseq, UInt32.ofNat_add, UInt32.add_assoc]
    · intro hk
      by_cases hzero : k = 0
      · rw [← h.state]
        exact hup' (by omega)
      · exact hup hzero

/-- A change of what is counted, timed or collected. -/
theorem of_eq (hkept : bb'.kept = bb.kept) (hlog : bb'.log = bb.log) (hseq : bb'.seqOut = bb.seqOut) :
    Calls bb bb' :=
  ⟨hkept, [], 0, by simp [hlog], by simp, rfl, by simp [hseq], by simp⟩

/-- An event that seals nothing. -/
theorem note (bb : McBackbone) {e : BbEvent} (hinner : e.Inner) (hseal : sealsOf [e] = []) :
    Calls bb (bb.note e) where
  kept := rfl
  log := ⟨[e], 0, rfl, by simpa using hinner, by simp [hseal], by simp [McBackbone.note], by simp⟩

/-- A counter. -/
theorem reject (bb : McBackbone) : Calls bb bb.reject := of_eq rfl rfl rfl

theorem setCfg (bb : McBackbone) (cfg : McConfig) : Calls bb (bb.setCfg cfg) := of_eq rfl rfl rfl

theorem setMesh (bb : McBackbone) (m : McMesh) : Calls bb (bb.setMesh m) := of_eq rfl rfl rfl

end Calls

/-! ## One lemma for each function -/

variable (C : Crypto) (p : BbHal)

/-- Sending notes the datagram, when there is a socket, and counts it. -/
theorem sendRaw_eq (bb : McBackbone) (d : Bytes) : ∃ es n,
    sendRaw p bb d = { bb with log := bb.log ++ es, dgramsOut := n } ∧ ∀ e ∈ es, e = .send d := by
  unfold sendRaw
  split
  · simp only
    split
    · exact ⟨[.send d], _, rfl, by simp⟩
    · exact ⟨[.send d], bb.dgramsOut, rfl, by simp⟩
  · exact ⟨[], bb.dgramsOut, by rw [List.append_nil], by simp⟩

/-- What is only sent seals nothing. -/
theorem sealsOf_sends {es : List BbEvent} {d : Bytes} (h : ∀ e ∈ es, e = .send d) :
    (∀ e ∈ es, e.Inner) ∧ sealsOf es = [] := by
  refine ⟨fun e he => by rw [h e he]; trivial, List.filterMap_eq_nil_iff.mpr fun e he => ?_⟩
  rw [h e he]

/-- Sending, whether there is a socket or not. -/
theorem sendRaw_calls (bb : McBackbone) (d : Bytes) : Calls bb (sendRaw p bb d) := by
  obtain ⟨es, n, heq, hsends⟩ := sendRaw_eq p bb d
  obtain ⟨hinner, hseals⟩ := sealsOf_sends hsends
  rw [heq]
  exact ⟨rfl, es, 0, rfl, hinner, hseals, by simp, by simp⟩

/-- A body that leaves room for the header and the tag is sealed. -/
theorem bbSeal_isSome {type : UInt8} {sid seq : UInt32} {body key : Bytes} (hlen : body.length ≤ 1172) :
    (bbSeal C bbMaxDgram type sid seq body key).isSome := by
  unfold bbSeal
  simp only
  rw [if_neg]
  · rfl
  · simp only [bbHdr, bbMac, bbMaxDgram]
    omega

/-- Sealing numbers one datagram more, unless it is too long for a datagram. -/
theorem sendSession_calls {bb : McBackbone} (hup : bb.state = .up) {type : UInt8} {body : Bytes}
    (hlen : body.length ≤ 1172) : Calls bb (sendSession C p bb type body) := by
  unfold sendSession
  simp only
  split
  · rename_i d hd
    refine Calls.trans ?_ (sendRaw_calls p _ d)
    exact ⟨rfl, [.seal bb.kUp (bb.seqOut + 1)], 1, rfl, by simp [BbEvent.Inner], rfl, rfl, fun _ => hup⟩
  · rename_i hnone
    have hsome : (bbSeal C bbMaxDgram type bb.sid (bb.seqOut + 1) body bb.kUp.bytes).isSome := bbSeal_isSome C hlen
    rw [hnone] at hsome
    cases hsome

/-- The session datagrams sealed so far. -/
def sealCount (bb : McBackbone) : Nat := (sealsOf bb.log).length

/-- One more at most. -/
theorem sendSession_sealCount (bb : McBackbone) (type : UInt8) (body : Bytes) :
    sealCount (sendSession C p bb type body) ≤ sealCount bb + 1 := by
  unfold sendSession
  simp only
  split
  · rename_i d hd
    obtain ⟨es, n, heq, hsends⟩ := sendRaw_eq p
      (({ bb with seqOut := bb.seqOut + 1 } : McBackbone).note (.seal bb.kUp (bb.seqOut + 1))) d
    rw [heq]
    simp only [sealCount, McBackbone.note, sealsOf_append, (sealsOf_sends hsends).2, List.length_append,
      List.length_nil]
    exact le_refl _
  · exact Nat.le_succ _

/-- A timer. -/
theorem backboneStatusSoon_calls (bb : McBackbone) : Calls bb (backboneStatusSoon bb) := by
  unfold backboneStatusSoon
  split
  · exact .of_eq rfl rfl rfl
  · exact .refl bb

/-- The hash of a packet is eight bytes. -/
theorem length_pktCalcHash_le (C : Crypto) (pkt : McPacket) : (pktCalcHash C pkt).length ≤ 8 := by
  rw [pktCalcHash, List.length_take]
  exact Nat.min_le_left _ _

/-- `backbone_observe` does nothing, or seals one OBSERVE and counts it. -/
theorem backboneObserve_sends (bb : McBackbone) (frame : Bytes) (rssi snrQ : Int) (flags : UInt8) (disposition : Int) :
    backboneObserve C p bb frame rssi snrQ flags disposition = bb ∨
      bb.state = .up ∧ ∃ body : Bytes, body.length ≤ 1172 ∧
        backboneObserve C p bb frame rssi snrQ flags disposition =
          { sendSession C p bb bbTObserve body with
            observed := (sendSession C p bb bbTObserve body).observed + 1 } := by
  unfold backboneObserve
  split
  · exact .inl rfl
  rename_i hup
  split
  · exact .inl rfl
  rename_i hlen
  split
  · exact .inl rfl
  rename_i pkt hpkt
  have hstate : bb.state = .up := by
    by_contra hne
    exact hup (Or.inl hne)
  refine .inr ⟨hstate, _, ?_, rfl⟩
  have hhash := length_pktCalcHash_le C pkt
  simp only [not_or, Nat.not_lt, bbMaxFrame] at hlen
  simp only [List.length_append, List.length_cons, List.length_nil, length_wrU16le]
  omega

/-- `backbone_offer` does nothing, or seals one BRIDGE and counts it. -/
theorem backboneOffer_sends (bb : McBackbone) (frame : Bytes) (own : Bool) :
    backboneOffer C p bb frame own = bb ∨
      bb.state = .up ∧ ∃ body : Bytes, body.length ≤ 1172 ∧
        backboneOffer C p bb frame own =
          { sendSession C p bb bbTBridge body with offered := (sendSession C p bb bbTBridge body).offered + 1 } := by
  unfold backboneOffer
  split
  · exact .inl rfl
  rename_i hup
  split
  · exact .inl rfl
  rename_i hlen
  split
  · exact .inl rfl
  rename_i pkt hpkt
  split
  · exact .inl rfl
  have hstate : bb.state = .up := by
    by_contra hne
    exact hup (Or.inl hne)
  refine .inr ⟨hstate, _, ?_, rfl⟩
  have hhash := length_pktCalcHash_le C pkt
  simp only [not_or, Nat.not_lt, bbMaxFrame] at hlen
  simp only [List.length_append, List.length_cons, List.length_nil]
  omega

theorem backboneObserve_calls (bb : McBackbone) (frame : Bytes) (rssi snrQ : Int) (flags : UInt8)
    (disposition : Int) : Calls bb (backboneObserve C p bb frame rssi snrQ flags disposition) := by
  rcases backboneObserve_sends C p bb frame rssi snrQ flags disposition with h | ⟨hup, body, hlen, h⟩
  · rw [h]
    exact .refl bb
  · rw [h]
    exact (sendSession_calls C p hup hlen).trans (.of_eq rfl rfl rfl)

theorem backboneOffer_calls (bb : McBackbone) (frame : Bytes) (own : Bool) :
    Calls bb (backboneOffer C p bb frame own) := by
  rcases backboneOffer_sends C p bb frame own with h | ⟨hup, body, hlen, h⟩
  · rw [h]
    exact .refl bb
  · rw [h]
    exact (sendSession_calls C p hup hlen).trans (.of_eq rfl rfl rfl)

theorem meshRan_calls (bb : McBackbone) (m : McMesh) : Calls bb (meshRan C p bb m) := by
  have hcalls := meshRan_induct Calls.refl Calls.trans (backboneOffer_calls C p) backboneStatusSoon_calls bb m
  exact (Calls.setMesh bb m).trans hcalls

/-! ## Reports -/

/-- A buffer of `cap` bytes with its text and a terminator in it. -/
structure JBuf.Holds (cap : Nat) (j : JBuf) : Prop where
  size : j.cap = cap
  room : j.text.length < cap

namespace JBuf.Holds

variable {cap : Nat} {j : JBuf}

theorem new (h : 0 < cap) : (JBuf.new cap).Holds cap := ⟨rfl, h⟩

theorem emptied (h : j.Holds cap) : { j with text := [] }.Holds cap :=
  ⟨h.size, Nat.lt_of_le_of_lt (Nat.zero_le _) h.room⟩

theorem add (h : j.Holds cap) (s : Bytes) : (jbAdd j s).Holds cap := by
  unfold jbAdd
  split
  · exact h
  split
  · exact ⟨h.size, h.room⟩
  · rename_i hroom
    have hcap := h.size
    refine ⟨hcap, ?_⟩
    simp only [List.length_append]
    omega

theorem addIf {c : Prop} [Decidable c] (h : j.Holds cap) (s : Bytes) :
    (if c then jbAdd j s else j).Holds cap := by
  split
  · exact h.add s
  · exact h

theorem str (h : j.Holds cap) (s : Bytes) : (jbStr j s).Holds cap := by
  have hloop : ∀ (fuel : Nat) (j : JBuf) (s : Bytes), j.Holds cap → (jbStrLoop fuel j s).Holds cap := by
    intro fuel
    induction fuel with
    | zero => exact fun _ _ h => h
    | succ fuel ih =>
      intro j s h
      unfold jbStrLoop
      split
      · exact h
      simp only
      split
      · exact ih _ _ (h.add _)
      · exact ih _ _ (h.add _)
  exact (hloop _ _ _ (h.add _)).add _

end JBuf.Holds

theorem statusJson_holds (bb : McBackbone) (m : McMesh) (now : Nat) :
    (statusJson p bb m now).Holds (bbStatusJson + 1) := by
  have hnode : (statusNode (.new (bbStatusJson + 1)) p bb m now).Holds (bbStatusJson + 1) := by
    have hnew : (JBuf.new (bbStatusJson + 1)).Holds (bbStatusJson + 1) := .new (Nat.succ_pos _)
    exact ((((((hnew.add _).str _).add _).str _).add _).addIf _ |>.addIf _).add _
  have hmesh : (statusMesh (statusNode (.new (bbStatusJson + 1)) p bb m now) m.stats
      (meshNeighborCount m)).Holds (bbStatusJson + 1) := ((((hnode.add _).add _).add _).add _).add _
  exact ((hmesh.add _).addIf _).add _

theorem sendStatus_calls {bb : McBackbone} (hup : bb.state = .up) (now : Nat) :
    Calls bb (sendStatus C p bb now) := by
  unfold sendStatus
  split
  · exact .refl bb
  rename_i m _
  simp only
  split
  · exact .refl bb
  · have hlen := (statusJson_holds p bb m now).room
    simp only [bbStatusJson] at hlen
    exact sendSession_calls C p hup (by omega)

theorem sendPages_calls (pages : Nat) (es : List Bytes) {bb : McBackbone} (hup : bb.state = .up) {j : JBuf}
    (hj : j.Holds (bbStatusJson + 1)) (page used : Nat) :
    Calls bb (sendPages C p pages es bb j page used).1 ∧
      (sendPages C p pages es bb j page used).2.Holds (bbStatusJson + 1) := by
  induction es generalizing bb j page used with
  | nil => exact ⟨.refl bb, hj⟩
  | cons e es ih =>
    unfold sendPages
    split
    · have hclosed := hj.add (lit "]\x7d")
      have hlen := hclosed.room
      simp only [bbStatusJson] at hlen
      have hsend : Calls bb (sendSession C p bb bbTNeighbours (jbAdd j (lit "]\x7d")).text) :=
        sendSession_calls C p hup (by omega)
      obtain ⟨hrest, hbuf⟩ := ih (hsend.state.trans hup) ((hclosed.emptied.add _).add e) (page + 1)
        (usedAfter 0 e)
      exact ⟨hsend.trans hrest, hbuf⟩
    · exact ih hup (hj.add _) page _

theorem sendNeighbours_calls {bb : McBackbone} (hup : bb.state = .up) : Calls bb (sendNeighbours C p bb) := by
  unfold sendNeighbours
  split
  · exact .refl bb
  rename_i m _
  simp only
  generalize countPages (neighbourEntries m p.time32) 1 0 = pages
  have hfirst : (jbAdd (.new (bbStatusJson + 1)) (pageHead 1 pages)).Holds (bbStatusJson + 1) :=
    .add (.new (Nat.succ_pos _)) _
  obtain ⟨hpages, hbuf⟩ := sendPages_calls C p pages (neighbourEntries m p.time32) hup hfirst 1 0
  split
  · exact hpages
  · have hlen := (hbuf.add (lit "]\x7d")).room
    have hmax : bbStatusJson = 1100 := rfl
    exact hpages.trans (sendSession_calls C p (hpages.state.trans hup) (by omega))

end Meshcore
