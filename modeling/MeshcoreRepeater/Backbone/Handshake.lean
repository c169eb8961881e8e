import MeshcoreRepeater.Backbone.Datagram
import MeshcoreRepeater.Backbone.Session
import Mathlib.Data.List.Chain

/-! # Handshakes

What a client that waits for a WELCOME knows about the HELLO it sent (`HelloInv`), and
exactly when its ephemeral secret is still the one of that HELLO
(`ephMatches_throughout_iff`).

* `HelloInv.move`: one step keeps what is known of the last HELLO.
* `bbStep_lowOrder`: a WELCOME with a point of low order.
* `ephMatches_step_iff`, `ephMatches_throughout_iff`: the step lemma and the run lemma.
-/

namespace Meshcore

set_option maxRecDepth 8000

open ByteLib

variable {C : BbCrypto} {bb bb' : McBackbone} {x : BbInput}

/-! ## HELLOs and the log -/

/-- The HELLOs sent, in order. -/
def hellosOf (es : List BbEvent) : List Bytes :=
  es.filterMap fun
    | .hello _ d => some d
    | _ => none

/-- The HELLO that no WELCOME has answered yet. -/
def unanswered (es : List BbEvent) : Option Bytes :=
  es.foldl (fun h e =>
    match e with
    | .hello _ d => some d
    | .welcome _ => none
    | _ => h) none

/-- The timestamp of a HELLO. -/
def helloTs (d : Bytes) : UInt32 := rdU32le (d.drop 6)

/-- The ephemeral key of a HELLO. -/
def helloEph (d : Bytes) : Bytes := (d.drop 42).take 32

/-- In order. -/
@[simp] theorem hellosOf_append (es es' : List BbEvent) : hellosOf (es ++ es') = hellosOf es ++ hellosOf es' :=
  List.filterMap_append

/-- An event that has no part in a handshake. -/
def BbEvent.Aside : BbEvent → Prop
  | .hello _ _ => False
  | .welcome _ => False
  | _ => True

/-- What a session notes has no part in it. -/
theorem BbEvent.Inner.aside {e : BbEvent} (h : e.Inner) : e.Aside := by
  cases e <;> simp_all [BbEvent.Inner, BbEvent.Aside]

/-- Such events send no HELLO. -/
theorem hellosOf_aside {es : List BbEvent} (h : ∀ e ∈ es, e.Aside) : hellosOf es = [] := by
  refine List.filterMap_eq_nil_iff.mpr fun e he => ?_
  have haside := h e he
  cases e <;> simp_all [BbEvent.Aside]

/-- Nor do they answer one. -/
theorem unanswered_append_aside (es : List BbEvent) {es' : List BbEvent} (h : ∀ e ∈ es', e.Aside) :
    unanswered (es ++ es') = unanswered es := by
  induction es' generalizing es with
  | nil => rw [List.append_nil]
  | cons e es' ih =>
    have hrest := ih (es ++ [e]) fun e he => h e (List.mem_cons_of_mem _ he)
    have hfirst := h e List.mem_cons_self
    rw [List.append_assoc, List.singleton_append] at hrest
    rw [hrest]
    cases e <;> simp_all [unanswered, BbEvent.Aside]

/-- A HELLO just sent waits. -/
theorem unanswered_hello (es : List BbEvent) (now : Nat) (d : Bytes) :
    unanswered (es ++ [.hello now d]) = some d := by
  simp [unanswered]

/-- A HELLO that waits for its answer was the last one sent. -/
theorem unanswered_getLast? {es : List BbEvent} {d : Bytes} (h : unanswered es = some d) :
    (hellosOf es).getLast? = some d := by
  induction es using List.reverseRecOn with
  | nil => cases h
  | append_singleton es e ih =>
    rw [unanswered, List.foldl_append, ← unanswered] at h
    rw [hellosOf_append]
    cases e with
    | hello now d' =>
      cases h
      simp [hellosOf]
    | welcome d' => cases h
    | _ => simpa [hellosOf] using ih h

/-! ## The fields of a HELLO -/

section Fields

variable (id : McIdentity) (roles : UInt8) (ts : UInt32) (ephPub : Buf 32) (name sig : Bytes)

/-- Read where it was written. -/
theorem helloTs_helloHead : helloTs (helloHead id roles ts ephPub name ++ sig) = ts := by
  have hsplit : (helloHead id roles ts ephPub name ++ sig).drop 6 =
      wrU32le ts ++ (id.pub.bytes ++ (ephPub.bytes ++ (UInt8.ofNat name.length :: name ++ sig))) := by
    simp [helloHead, putHdr]
  rw [helloTs, hsplit, rdU32le_wrU32le]

/-- So is the ephemeral key. -/
theorem helloEph_helloHead : helloEph (helloHead id roles ts ephPub name ++ sig) = ephPub.bytes := by
  have hsplit : helloHead id roles ts ephPub name ++ sig =
      (putHdr bbTHello ++ [roles, 0] ++ wrU32le ts ++ id.pub.bytes) ++
        (ephPub.bytes ++ (UInt8.ofNat name.length :: name ++ sig)) := by
    simp [helloHead]
  have hlen : (putHdr bbTHello ++ [roles, 0] ++ wrU32le ts ++ id.pub.bytes).length = 42 := by
    have hpub := id.pub.length_eq
    simp [putHdr, hpub]
  rw [helloEph, hsplit, List.drop_left' hlen, List.take_left' ephPub.length_eq]

end Fields

/-! ## The client that waits for a WELCOME -/

/-- A HELLO that is followed by a later one, or by any when time has run out. -/
def Follows (ts ts' : UInt32) : Prop := ts < ts' ∨ ts = 0xFFFFFFFF

/-- What is known of the HELLOs sent, and of the one that waits for its WELCOME. -/
structure HelloInv (C : BbCrypto) (bb : McBackbone) : Prop where
  hash : bb.state = .helloSent → bb.helloHash = C.sha256 bb.hello
  last : bb.state = .helloSent → unanswered bb.log = some bb.hello
  chain : ((hellosOf bb.log).map helloTs).IsChain Follows
  lastTs : bb.id.hasSecret = true → ∀ d ∈ (hellosOf bb.log).getLast?, helloTs d = bb.lastHelloTs
  silent : bb.id.hasSecret = false → hellosOf bb.log = []

/-- The next timestamp is later. -/
theorem follows_nextHelloTs (p : BbHal) (bb : McBackbone) : Follows bb.lastHelloTs (nextHelloTs p bb) := by
  unfold Follows nextHelloTs
  split
  · by_cases hmax : bb.lastHelloTs = 0xFFFFFFFF
    · exact Or.inr hmax
    · left
      rw [UInt32.lt_iff_toNat_lt, UInt32.toNat_add]
      have hne : bb.lastHelloTs.toNat ≠ 4294967295 := fun h => hmax (UInt32.toNat_inj.mp h)
      have hlt := bb.lastHelloTs.toNat_lt
      simp only [UInt32.toNat_one]
      omega
  · rename_i hlater
    exact Or.inl (UInt32.not_le.mp hlater)

/-- A step that sends no HELLO and waits for none it did not wait for before. -/
theorem HelloInv.aside (h : HelloInv C bb) (bb' : McBackbone) (es : List BbEvent)
    (hlog : bb'.log = bb.log ++ es) (haside : ∀ e ∈ es, e.Aside) (hid : bb'.id = bb.id)
    (hts : bb'.lastHelloTs = bb.lastHelloTs ∨ bb.id.hasSecret = false)
    (hsent : bb'.state = .helloSent →
      bb.state = .helloSent ∧ bb'.hello = bb.hello ∧ bb'.helloHash = bb.helloHash) :
    HelloInv C bb' := by
  have hsame : hellosOf bb'.log = hellosOf bb.log := by
    rw [hlog, hellosOf_append, hellosOf_aside haside, List.append_nil]
  refine ⟨fun hstate => ?_, fun hstate => ?_, ?_, fun hsecret d hd => ?_, fun hnone => ?_⟩
  · obtain ⟨hwas, hhello, hhash⟩ := hsent hstate
    rw [hhash, hhello]
    exact h.hash hwas
  · obtain ⟨hwas, hhello, -⟩ := hsent hstate
    rw [hlog, unanswered_append_aside _ haside, hhello]
    exact h.last hwas
  · rw [hsame]
    exact h.chain
  · rw [hsame] at hd
    rw [hid] at hsecret
    rcases hts with hts | hnone
    · rw [hts]
      exact h.lastTs hsecret d hd
    · rw [hsecret] at hnone
      cases hnone
  · rw [hsame]
    rw [hid] at hnone
    exact h.silent hnone

/-- Calls inside a session. -/
theorem HelloInv.calls (h : HelloInv C bb) (hcalls : Calls bb bb') : HelloInv C bb' := by
  obtain ⟨es, k, hlog, hinner, -⟩ := hcalls.log
  refine h.aside bb' es hlog (fun e he => (hinner e he).aside) (congrArg BbKept.id hcalls.kept)
    (Or.inl (congrArg BbKept.lastHelloTs hcalls.kept)) fun hstate => ?_
  exact ⟨hcalls.state.symm.trans hstate, hcalls.hello,
    congrArg BbKept.helloHash hcalls.kept⟩

/-- A HELLO goes out. -/
theorem HelloInv.hello (h : HelloInv C bb) {now : Nat} (hhello : HelloMove C now bb bb') : HelloInv C bb' := by
  obtain ⟨es, hlog, hinner, -⟩ := hhello.log
  obtain ⟨p, hts⟩ := hhello.lastHelloTs
  obtain ⟨name, sig, hbytes⟩ := hhello.hello
  have haside : ∀ e ∈ es, e.Aside := fun e he => (hinner e he).aside
  have hsplit : bb'.log = bb.log ++ [.hello now bb'.hello] ++ es := by rw [hlog, List.append_assoc]; rfl
  -- one HELLO more
  have hsent : hellosOf bb'.log = hellosOf bb.log ++ [bb'.hello] := by
    rw [hsplit, hellosOf_append, hellosOf_aside haside, List.append_nil, hellosOf_append]
    rfl
  -- it carries the timestamp that is kept
  have hnewTs : helloTs bb'.hello = bb'.lastHelloTs := by
    rw [hbytes]
    exact helloTs_helloHead _ _ _ _ _ _
  refine ⟨fun _ => hhello.helloHash, fun _ => ?_, ?_, fun _ d hd => ?_, fun hnone => ?_⟩
  · rw [hsplit, unanswered_append_aside _ haside, unanswered_hello]
  · rw [hsent, List.map_append, List.map_singleton]
    refine List.isChain_append.mpr ⟨h.chain, List.isChain_singleton _, ?_⟩
    intro ts hlast ts' hfirst
    cases hfirst
    rw [List.getLast?_map, Option.mem_def, Option.map_eq_some_iff] at hlast
    obtain ⟨d, hd, rfl⟩ := hlast
    rw [h.lastTs hhello.secret d hd, hnewTs, hts]
    exact follows_nextHelloTs p bb
  · rw [hsent, List.getLast?_concat] at hd
    cases hd
    exact hnewTs
  · rw [hhello.id, hhello.secret] at hnone
    cases hnone

/-- One step keeps it. -/
theorem HelloInv.move (h : HelloInv C bb) (hmove : Move C bb x bb') : HelloInv C bb' := by
  cases hmove with
  | calls hcalls => exact h.calls hcalls
  | heard hup hcheck hcalls =>
    refine HelloInv.calls ?_ hcalls
    exact h.aside _ [] (List.append_nil _).symm (by simp) rfl (Or.inl rfl) fun hstate => ⟨hstate, rfl, rfl⟩
  | limited hx hup hcheck hcalls =>
    refine HelloInv.calls ?_ hcalls
    exact h.aside _ [] (List.append_nil _).symm (by simp) rfl (Or.inl rfl) fun hstate => ⟨hstate, rfl, rfl⟩
  | frame hx hup hcheck htoken hcalls =>
    refine HelloInv.calls ?_ hcalls
    exact h.aside _ [.frame _ _] rfl (by simp [BbEvent.Aside]) rfl (Or.inl rfl)
      fun hstate => ⟨hstate, rfl, rfl⟩
  | forgotten hforgotten =>
    obtain ⟨es, k, hlog, hinner, -⟩ := hforgotten.log
    refine h.aside _ es hlog (fun e he => (hinner e he).aside) hforgotten.id hforgotten.lastHelloTs ?_
    rw [hforgotten.state]
    nofun
  | reset hx hup =>
    exact h.aside _ [.reset _] rfl (by simp [BbEvent.Aside]) rfl (Or.inl rfl) fun hstate => by cases hstate
  | attempt hx hidle hdue hattempt =>
    refine h.aside _ _ hattempt.log (by simp [BbEvent.Aside]) hattempt.id (Or.inl hattempt.lastHelloTs) ?_
    rcases hattempt.state with hstate | hstate <;>
    · rw [hstate]
      nofun
  | hello hx hwas hhello => exact h.hello hhello
  | up hx hfd hwas hcheck hkeys hcalls =>
    rename_i p d now w keys
    -- the WELCOME answers the HELLO; none is waited for any more
    have hsame : hellosOf (sessionUp bb now d w keys).log = hellosOf bb.log := by
      rw [sessionUp, hellosOf_append]
      exact List.append_nil _
    refine HelloInv.calls ⟨fun hstate => (by cases hstate), fun hstate => (by cases hstate), ?_, ?_, ?_⟩ hcalls
    · rw [hsame]
      exact h.chain
    · rw [hsame]
      exact h.lastTs
    · rw [hsame]
      exact h.silent
  | erased hx hwas hcheck hkeys =>
    exact h.aside _ [] (List.append_nil _).symm (by simp) rfl (Or.inl rfl) fun hstate => ⟨hstate, rfl, rfl⟩
  | closed hcalls _ hclosed =>
    obtain ⟨busy, rfl⟩ := hclosed
    refine (h.calls hcalls).aside _ [] (List.append_nil _).symm (by simp) rfl (Or.inl rfl) fun hstate => ?_
    cases hstate

/-- At the start nothing has been sent. -/
theorem helloInv_backboneInit (C : BbCrypto) (cfg : McConfig) (id : McIdentity) (mesh : Option McMesh)
    (now : Nat) : HelloInv C (backboneInit cfg id mesh now).1 := by
  have hlog := backboneInit_log cfg id mesh now
  have hstate := (backboneInit_state cfg id mesh now).1
  refine ⟨fun h => absurd h hstate, fun h => absurd h hstate, ?_, fun _ d hd => ?_, fun _ => ?_⟩
  · rw [hlog]
    exact List.isChain_nil
  · rw [hlog] at hd
    cases hd
  · rw [hlog]
    rfl

/-- It holds in every run. -/
theorem helloInv_of_reachable (h : BbReachable C bb) : HelloInv C bb := by
  obtain ⟨cfg, id, mesh, now, xs, rfl⟩ := h
  exact Runs.run_invariant (HelloInv C) (fun s x hs => hs.move (bbStep_move C s x))
    (helloInv_backboneInit C cfg id mesh now) xs

/-! ## The ephemeral secret -/

/-- The secret is the one of the HELLO that waits for its WELCOME. -/
def EphMatches (C : BbCrypto) (bb : McBackbone) : Prop :=
  bb.state = .helloSent → (C.scalarmultBase bb.ephSec.bytes).bytes = helloEph bb.hello

/-- A WELCOME the hub signed for the HELLO, with a point whose shared secret is zero. -/
def LowOrderWelcome (C : BbCrypto) (bb : McBackbone) (d : Bytes) : Prop :=
  bb.state = .helloSent ∧ ∃ w,
    bbCheckWelcome C.toCrypto d bb.hubPub bb.helloHash bb.rolesAsked = .ok w ∧
      (C.scalarmult bb.ephSec.bytes w.ephPub.bytes).bytes = (Buf.zero 32).bytes

/-- The input does not bring such a WELCOME; or the erased secret happens to be that of
the HELLO too. -/
def KeepsSecret (C : BbCrypto) (bb : McBackbone) (x : BbInput) : Prop :=
  ∀ p now d, x = .datagram p now d → LowOrderWelcome C bb d →
    (C.scalarmultBase (Buf.zero 32).bytes).bytes = helloEph bb.hello

/-- No keys come from the zero secret alone. -/
theorem bbDeriveKeys_eq_none {C : Crypto} {shared : Buf 32} {hello welcome : Bytes} :
    bbDeriveKeys C shared hello welcome = none ↔ shared.bytes = (Buf.zero 32).bytes := by
  -- the disjunction of 32 bytes is zero if all are
  have hzero : orBytes shared.bytes = 0 ↔ shared.bytes = (Buf.zero 32).bytes := by
    rw [orBytes_eq_zero]
    constructor
    · intro h
      exact List.eq_replicate_iff.mpr ⟨shared.length_eq, h⟩
    · intro h c hc
      rw [h] at hc
      exact List.eq_of_mem_replicate hc
  unfold bbDeriveKeys
  split
  · rename_i h
    simpa using hzero.mp h
  · rename_i h
    simpa using fun hcontra => h (hzero.mpr hcontra)

/-- Reading such a WELCOME erases the secret, and nothing but the count changes. -/
theorem bbStep_lowOrder {p : BbHal} {now : Nat} {d : Bytes} (hfd : bb.fd = true)
    (h : LowOrderWelcome C bb d) :
    bbStep C bb (.datagram p now d) = { bb with ephSec := .zero 32 }.reject := by
  obtain ⟨hstate, w, hcheck, hzero⟩ := h
  obtain ⟨-, hlen, hhdr, -⟩ := bbCheckWelcome_ok hcheck
  have hkeys : bbDeriveKeys C.toCrypto (C.scalarmult bb.ephSec.bytes w.ephPub.bytes) bb.hello d = none :=
    bbDeriveKeys_eq_none.mpr hzero
  -- a WELCOME is received whole
  have hwhole : recvd d = d := recvd_eq (by
    rw [recvd, List.length_take, hlen]
    exact (Nat.min_le_right _ _).trans (Nat.le_of_ble_eq_true rfl))
  simp only [hdrOk, Bool.and_eq_true, decide_eq_true_eq, beq_iff_eq] at hhdr
  obtain ⟨⟨hfour, hmagic⟩, htype⟩ := hhdr
  -- and goes to `on_welcome`
  have hread : readDatagram C p bb now d = onWelcome C p bb now d := by
    unfold readDatagram
    rw [if_neg, if_pos htype]
    rw [hlen, hmagic]
    simp [bbMaxDgram, bbWelcomeLen]
  have hopen : bb.state ≠ .off ∧ bb.fd = true := ⟨by simp [hstate], hfd⟩
  show readTurn C p now bb d = _
  rw [readTurn, if_pos hopen, hwhole, hread, onWelcome, if_neg (not_not.mpr hstate), hcheck]
  simp only [hkeys]

/-- The step lemma: a secret that matches is lost to such a WELCOME alone. -/
theorem ephMatches_step_iff (hfd : bb.state = .helloSent → bb.fd = true) (h : EphMatches C bb) (x : BbInput) :
    EphMatches C (bbStep C bb x) ↔ KeepsSecret C bb x := by
  by_cases hlow : ∃ p now d, x = .datagram p now d ∧ LowOrderWelcome C bb d
  · obtain ⟨p, now, d, rfl, hlow⟩ := hlow
    rw [bbStep_lowOrder (hfd hlow.1) hlow]
    constructor
    · intro hmatch p' now' d' _ _
      exact hmatch hlow.1
    · intro hkeeps _
      exact hkeeps p now d rfl hlow
  · have hkeeps : KeepsSecret C bb x := fun p now d hx hcontra => absurd ⟨p, now, d, hx, hcontra⟩ hlow
    refine iff_of_true ?_ hkeeps
    have hmove := bbStep_move C bb x
    generalize bbStep C bb x = bb' at hmove
    -- calls inside a session leave state, secret and HELLO alone
    have hcalls : ∀ {b : McBackbone}, Calls b bb' → EphMatches C b → EphMatches C bb' := by
      intro b hcalls hmatch hstate
      rw [hcalls.ephSec, hcalls.hello]
      exact hmatch (hcalls.state.symm.trans hstate)
    cases hmove with
    | calls h' => exact hcalls h' h
    | heard _ _ h' => exact hcalls h' h
    | limited _ _ _ h' => exact hcalls h' h
    | frame _ _ _ _ h' => exact hcalls h' h
    | forgotten h' =>
      intro hstate
      rw [h'.state] at hstate
      cases hstate
    | reset _ _ => exact fun hstate => by cases hstate
    | attempt _ _ _ h' =>
      intro hstate
      rcases h'.state with hwas | hwas <;>
      · rw [hwas] at hstate
        cases hstate
    | hello _ _ h' =>
      intro _
      obtain ⟨name, sig, hbytes⟩ := h'.hello
      rw [hbytes, helloEph_helloHead]
    | up _ _ _ _ _ h' => exact hcalls h' fun hstate => by cases hstate
    | erased hx hwas hcheck hkeys =>
      exact absurd ⟨_, _, _, hx, hwas, _, hcheck, bbDeriveKeys_eq_none.mp hkeys⟩ hlow
    | closed _ _ hclosed =>
      obtain ⟨busy, rfl⟩ := hclosed
      exact fun hstate => by cases hstate

/-- In every run from `backbone_init`, the secret is that of the HELLO whenever the client
waits for a WELCOME, exactly if no WELCOME the hub signed for the HELLO of the moment comes
with a point whose shared secret is zero (where the zero secret is not that of the HELLO). -/
theorem ephMatches_throughout_iff (C : BbCrypto) (cfg : McConfig) (id : McIdentity)
    (mesh : Option McMesh) (now : Nat) (xs : List BbInput) :
    (∀ pre post, xs = pre ++ post → EphMatches C (bbRun C (backboneInit cfg id mesh now).1 pre)) ↔
      Runs.Every (bbStep C) (KeepsSecret C) (backboneInit cfg id mesh now).1 xs := by
  refine Runs.inv_throughout_iff SessionInv (fun s x hs => hs.move (bbStep_move C s x)) ?_
    (sessionInv_backboneInit cfg id mesh now) ?_ xs
  · exact fun s x hs h => ephMatches_step_iff hs.waiting h x
  · intro hstate
    exact absurd hstate (backboneInit_state cfg id mesh now).1

/-! ## A low-order point in bytes -/

def nodePub : Bytes := bytesBE 32 0xbc7cbcb5636375fa1d82434d466724d92377f53b980695dd49d26d0ce12205a5

def hubPub : Bytes := bytesBE 32 0x55154f42065ea5a1bea05463826be2684eb92df92c100027aabaae57ca554207

def nodeIdentity : McIdentity where
  pub := .ofBytes 32 nodePub
  sec := .ofBytes 64 (List.replicate 32 0xA1 ++ nodePub)
  hasSecret := true

/-- The ephemeral secrets of the node and of the hub, their keys, and the secret they share. -/
def nodeEphSec : Buf 32 := .ofBytes 32 (List.replicate 32 0xC3)

def nodeEph : Buf 32 :=
  .ofBytes 32 (bytesBE 32 0xbfda3768f927db529fe9f0f6ee4ba469e432c93bb6fbb8ed5d04e87ed0a45d7b)

def hubEphSec : Buf 32 := .ofBytes 32 (List.replicate 32 0xD4)

def hubEph : Buf 32 :=
  .ofBytes 32 (bytesBE 32 0xc687135f1e118c6f85eaefea7e4a840fc1f73614d16a39b2b02674ab022cc131)

def pairSecret : Buf 32 :=
  .ofBytes 32 (bytesBE 32 0x11bb85015af2f6788f8c6a271858e28f2dbef774047a8522e10ce1f2e8ee3364)

/-- The node's HELLO, and its digest. -/
def pairHelloHead : Bytes := helloHead nodeIdentity bbRoleObserve 1760000000 nodeEph (lit "ON0R")

def pairHelloSig : Bytes :=
  bytesBE 32 0xa4f534cda239bee583f1af070d5fac35e15abf14366e1431854d0e41b77daabf ++
    bytesBE 32 0x09a13c407f5e1feb095d7441b489dd2d1e4339343a25b7f81750856e2ac7e902

def pairHello : Bytes := pairHelloHead ++ pairHelloSig

def pairHelloHash : Buf 32 :=
  .ofBytes 32 (bytesBE 32 0x105324c7d2102cf771022efd86b8f0828b23f1c3a8f784fa0cd75cead84eed6c)

/-- A WELCOME for it with the key `eph`. -/
def pairWelcomeHead (eph : Buf 32) : Bytes := welcomeHead ⟨bbRoleObserve, 1760000000, 7, eph, 0, 0, 0⟩ pairHelloHash

def pairWelcomeSig : Bytes :=
  bytesBE 32 0xc7878e18019e00a49ce3214823b05387ad858e3f60ea101583bde64dba72e1a7 ++
    bytesBE 32 0x527266b8faec808afdb701604de44d1a47cc90da08b519ba86f62ea472653a06

def pairWelcome : Bytes := pairWelcomeHead hubEph ++ pairWelcomeSig

/-- The hub's signature of one with the point 0. -/
def lowWelcomeSig : Bytes :=
  bytesBE 32 0xd435005505b526536f45fa6739d1cd893cbfe716cf98c87f77d0ec7c0b4cb3ed ++
    bytesBE 32 0xcc275c9769bb3af4788711c30f32b2693bb51fc82aba6bf27cf55e8e398b3906

def lowWelcome : Bytes := pairWelcomeHead (.zero 32) ++ lowWelcomeSig

/-- The values of the primitives on these datagrams and keys. -/
def pairCrypto : BbCrypto where
  toCrypto := { Crypto.ofTable
      [(pairHello, pairHelloHash.bytes),
       (pairHello ++ pairWelcome,
        bytesBE 32 0x84ab9b48418e6aff1bb319725d8220e492ffd9db442b907e2cf9b18317ad6d4e)]
      [(hubPub, pairWelcomeSig, bbCtxWelcome ++ pairWelcomeHead hubEph),
       (hubPub, lowWelcomeSig, bbCtxWelcome ++ pairWelcomeHead (.zero 32))] with
    cryptoSign := fun _ msg =>
      if msg = bbCtxHello ++ pairHelloHead then .ofBytes 64 pairHelloSig else .ofBytes 64 pairWelcomeSig }
  scalarmult _ point := if point = (Buf.zero 32).bytes then .zero 32 else pairSecret
  scalarmultBase sec :=
    if sec = nodeEphSec.bytes then nodeEph
    else if sec = hubEphSec.bytes then hubEph
    else .ofBytes 32 (bytesBE 32 0x2fe57da347cd62431528daac5fbb290730fff684afc4cfc2ed90995f58cb3b74)

def pairConfig : McConfig :=
  { configDefaults with
    name := lit "ON0R"
    backboneEnable := true
    backboneHubKey := hubPub
    backboneHaveHubKey := true }

/-- A platform where everything succeeds. -/
def BbHal.calm (now : Nat) : BbHal where
  toHal := { Hal.still now with time := 1760000000 }
  jitter := 0
  random := nodeEphSec
  sendOk := fun _ => true
  lookupOk := true
  connectOk := true
  cancelOk := true
  mcVersion := lit "1.0"

/-- An attempt, up to its HELLO. -/
def pairAttempt : List BbInput := [.state (.calm 1000) 1000 .inProgress, .state (.calm 1050) 1050 .resolved]

def pairNode : McBackbone := (backboneInit pairConfig nodeIdentity none 1000).1

/-- The WELCOME with the point 0 leaves a client that waits on, with a secret that is not
the one of its HELLO. -/
theorem pairNode_not_ephMatches :
    ¬EphMatches pairCrypto (bbRun pairCrypto pairNode (pairAttempt ++ [.datagram (.calm 1100) 1100 lowWelcome])) := by
  intro h
  have hstate : (bbRun pairCrypto pairNode
      (pairAttempt ++ [.datagram (.calm 1100) 1100 lowWelcome])).state = .helloSent := by decide
  have hmatch := h hstate
  revert hmatch
  decide

end Meshcore
