import MeshcoreRepeater.Backbone.PolicyRuns

/-! # Agreement of client and hub

The client against a network that drops, delays, repeats, reorders and makes up datagrams,
and a hub whose signatures alone cannot be made up (`Unforged`). Every session that comes up
is one the hub answered the last HELLO for, with the keys the hub derives
(`handshake_agreement`).

* `NetInv.step`: what one step of the network keeps.
* `ComesUp.agrees`, `ComesUp.once`: a session that comes up, and two of them.
* `handshake_agreement`: every run against the network.
-/

namespace Meshcore

set_option maxRecDepth 8000

open ByteLib

/-! ## The hub and the network -/

/-- The hub's answer to a HELLO, with an ephemeral secret of its own. -/
structure HubAnswer (C : BbCrypto) where
  hello : Bytes
  ephSec : Buf 32
  welcome : BbWelcome
  ephPub : welcome.ephPub = C.scalarmultBase ephSec.bytes

/-- What the hub signs. -/
inductive HubMessage (C : BbCrypto) where
  | welcome (a : HubAnswer C)
  | reset (sid seq ts : UInt32)

/-- The 84 bytes of an answer in front of its signature. -/
def HubAnswer.head {C : BbCrypto} (a : HubAnswer C) : Bytes := welcomeHead a.welcome (C.sha256 a.hello)

def HubMessage.signed {C : BbCrypto} : HubMessage C → Bytes
  | .welcome a => bbCtxWelcome ++ a.head
  | .reset sid seq ts => bbCtxReset ++ resetHead sid seq ts

/-- The keys the hub derives from a HELLO and a WELCOME for it. -/
def HubAnswer.keys {C : BbCrypto} (a : HubAnswer C) (d : Bytes) : Option (Buf 32 × Buf 32) :=
  bbDeriveKeys C.toCrypto (C.scalarmult a.ephSec.bytes (helloEph a.hello)) a.hello d

/-- The client, and what the hub has signed so far. -/
structure Net (C : BbCrypto) where
  client : McBackbone
  said : List (HubMessage C)

/-- The network brings the client any datagram; the hub answers whatever it received. -/
inductive NetInput (C : BbCrypto) where
  | client (x : BbInput)
  | hub (m : HubMessage C)

def netStep (C : BbCrypto) (s : Net C) : NetInput C → Net C
  | .client x => { s with client := bbStep C s.client x }
  | .hub m => { s with said := s.said ++ [m] }

def netRun (C : BbCrypto) (s : Net C) (zs : List (NetInput C)) : Net C := Runs.run (netStep C) s zs

def netInit (C : BbCrypto) (cfg : McConfig) (id : McIdentity) (mesh : Option McMesh) (now : Nat) : Net C :=
  ⟨(backboneInit cfg id mesh now).1, []⟩

/-- What verifies under the pinned key was signed by the hub. -/
def Unforged (C : BbCrypto) (s : Net C) : NetInput C → Prop
  | .client (.datagram _ _ d) => ∀ ctx n,
      verifyCtx C.toCrypto s.client.hubPub ctx (d.take n) (d.drop n) = true →
        ctx ++ d.take n ∈ s.said.map HubMessage.signed
  | _ => True

/-- The primitives on what was sent and signed in a run. -/
structure Ideal (C : BbCrypto) (s : Net C) : Prop where
  /-- no HELLO of the client collides with one the hub answered -/
  collisionFree : ∀ h ∈ hellosOf s.client.log, ∀ a, .welcome a ∈ s.said →
    C.sha256 h = C.sha256 a.hello → h = a.hello
  commutes : ∀ a b : Buf 32, C.scalarmult a.bytes (C.scalarmultBase b.bytes).bytes =
    C.scalarmult b.bytes (C.scalarmultBase a.bytes).bytes
  nonzero : ∀ a, .welcome a ∈ s.said → ∀ sec : Buf 32,
    (C.scalarmult sec.bytes a.welcome.ephPub.bytes).bytes ≠ (Buf.zero 32).bytes

variable {C : BbCrypto} {s : Net C}

theorem netRun_append (s : Net C) (zs zs' : List (NetInput C)) :
    netRun C s (zs ++ zs') = netRun C (netRun C s zs) zs' := Runs.run_append ..

/-- Log and signatures only grow. -/
theorem netStep_grows (s : Net C) (z : NetInput C) :
    (∃ es, (netStep C s z).client.log = s.client.log ++ es) ∧ ∀ m ∈ s.said, m ∈ (netStep C s z).said := by
  cases z with
  | client x => exact ⟨(bbStep_move C s.client x).log, fun m hm => hm⟩
  | hub m => exact ⟨⟨[], (List.append_nil _).symm⟩, fun m hm => List.mem_append_left _ hm⟩

theorem netRun_grows (s : Net C) (zs : List (NetInput C)) :
    (∃ es, (netRun C s zs).client.log = s.client.log ++ es) ∧ ∀ m ∈ s.said, m ∈ (netRun C s zs).said := by
  induction zs generalizing s with
  | nil => exact ⟨⟨[], (List.append_nil _).symm⟩, fun m hm => hm⟩
  | cons z zs ih =>
    rcases netStep_grows s z with ⟨⟨es, hlog⟩, hsaid⟩
    rcases ih (netStep C s z) with ⟨⟨es', hlog'⟩, hsaid'⟩
    refine ⟨⟨es ++ es', ?_⟩, fun m hm => hsaid' m (hsaid m hm)⟩
    rw [← List.append_assoc, ← hlog]
    exact hlog'

/-- What is ideal in the end was ideal before. -/
theorem Ideal.earlier {zs : List (NetInput C)} (h : Ideal C (netRun C s zs)) : Ideal C s := by
  rcases netRun_grows s zs with ⟨⟨es, hlog⟩, hsaid⟩
  refine ⟨?_, h.commutes, fun a ha => h.nonzero a (hsaid _ ha)⟩
  intro d hd a ha
  refine h.collisionFree d ?_ a (hsaid _ ha)
  rw [hlog, hellosOf_append]
  exact List.mem_append_left _ hd

/-! ## One WELCOME -/

/-- The contexts keep WELCOMEs and RESETs apart: only a WELCOME has 97 signed bytes. -/
theorem said_welcome {msg : Bytes} (hlen : msg.length = 84)
    (h : bbCtxWelcome ++ msg ∈ s.said.map HubMessage.signed) : ∃ a, .welcome a ∈ s.said ∧ msg = a.head := by
  rcases List.mem_map.mp h with ⟨m, hm, heq⟩
  cases m with
  | welcome a => exact ⟨a, hm, (List.append_cancel_left heq).symm⟩
  | reset sid seq ts =>
    have hshort := congrArg List.length heq
    have hctx : bbCtxWelcome.length = 13 ∧ bbCtxReset.length = 11 := ⟨rfl, rfl⟩
    have hreset : (resetHead sid seq ts).length = 16 := rfl
    simp only [HubMessage.signed, List.length_append, hctx, hreset, hlen] at hshort
    omega

theorem take_hash {w : BbWelcome} {hash : Buf 32} {d : Bytes} (h : d.take 84 = welcomeHead w hash) :
    (d.drop 46).take 32 = hash.bytes := by
  have hsplit : welcomeHead w hash = (putHdr bbTWelcome ++ [w.roles, 0] ++ wrU32le w.ts ++ wrU32le w.sid ++
      w.ephPub.bytes) ++ (hash.bytes ++ (wrU16le w.keepaliveS ++ wrU16le w.statusS ++
      wrU16le w.neighboursS)) := by
    simp [welcomeHead]
  have hlen : (putHdr bbTWelcome ++ [w.roles, 0] ++ wrU32le w.ts ++ wrU32le w.sid ++
      w.ephPub.bytes).length = 46 := by
    have heph := w.ephPub.length_eq
    simp [putHdr, heph]
  have htake : (d.drop 46).take 32 = ((d.take 84).drop 46).take 32 := by
    rw [List.drop_take, List.take_take]
    rfl
  rw [htake, h, hsplit, List.drop_left' hlen, List.take_left' hash.length_eq]

/-- A WELCOME is read back field by field. -/
theorem readWelcome_welcomeHead (w : BbWelcome) (hash : Buf 32) (sig : Bytes) :
    readWelcome (welcomeHead w hash ++ sig) = w := by
  generalize hrest : wrU16le w.keepaliveS ++ (wrU16le w.statusS ++ (wrU16le w.neighboursS ++ sig)) = rest
  have hall : welcomeHead w hash ++ sig = putHdr bbTWelcome ++ [w.roles, 0] ++ wrU32le w.ts ++
      wrU32le w.sid ++ (w.ephPub.bytes ++ (hash.bytes ++ rest)) := by
    simp [welcomeHead, ← hrest]
  have hts : (welcomeHead w hash ++ sig).drop 6 =
      wrU32le w.ts ++ (wrU32le w.sid ++ (w.ephPub.bytes ++ (hash.bytes ++ rest))) := by
    rw [hall]
    rfl
  have hsid : (welcomeHead w hash ++ sig).drop 10 =
      wrU32le w.sid ++ (w.ephPub.bytes ++ (hash.bytes ++ rest)) := by
    rw [hall]
    rfl
  have heph : (welcomeHead w hash ++ sig).drop 14 = w.ephPub.bytes ++ (hash.bytes ++ rest) := by
    rw [hall]
    rfl
  -- behind the key and the hash stand the three intervals
  have hrest' : (welcomeHead w hash ++ sig).drop 78 = rest := by
    have hdrop : (welcomeHead w hash ++ sig).drop 78 =
        (((welcomeHead w hash ++ sig).drop 14).drop 32).drop 32 := by
      rw [List.drop_drop, List.drop_drop]
    rw [hdrop, heph, List.drop_left' w.ephPub.length_eq, List.drop_left' hash.length_eq]
  have hstatus : (welcomeHead w hash ++ sig).drop 80 = wrU16le w.statusS ++ (wrU16le w.neighboursS ++ sig) := by
    have hdrop : (welcomeHead w hash ++ sig).drop 80 = ((welcomeHead w hash ++ sig).drop 78).drop 2 := by
      rw [List.drop_drop]
    rw [hdrop, hrest', ← hrest]
    rfl
  have hneighbours : (welcomeHead w hash ++ sig).drop 82 = wrU16le w.neighboursS ++ sig := by
    have hdrop : (welcomeHead w hash ++ sig).drop 82 = ((welcomeHead w hash ++ sig).drop 80).drop 2 := by
      rw [List.drop_drop]
    rw [hdrop, hstatus]
    rfl
  have hroles : (welcomeHead w hash ++ sig).getD 4 0 = w.roles := by
    rw [hall]
    rfl
  rw [readWelcome, hroles, hts, rdU32le_wrU32le, hsid, rdU32le_wrU32le, heph,
    List.take_left' w.ephPub.length_eq, Buf.ofBytes_bytes, hrest', ← hrest, rdU16le_wrU16le, hstatus,
    rdU16le_wrU16le, hneighbours, rdU16le_wrU16le]

/-- A WELCOME that passes every check was signed for the HELLO sent last. -/
theorem welcome_said {p : BbHal} {now : Nat} {d : Bytes} {w : BbWelcome} (hreach : BbReachable C s.client)
    (hunforged : Unforged C s (.client (.datagram p now d))) (hideal : Ideal C s)
    (hwas : s.client.state = .helloSent)
    (hcheck : bbCheckWelcome C.toCrypto d s.client.hubPub s.client.helloHash s.client.rolesAsked = .ok w) :
    ∃ a, .welcome a ∈ s.said ∧ d.take 84 = a.head ∧ w = a.welcome ∧
      s.client.hello = a.hello ∧ unanswered s.client.log = some a.hello := by
  have hhello := helloInv_of_reachable hreach
  rcases bbCheckWelcome_ok hcheck with ⟨hread, hlen, -, hhash, hverified, -, -⟩
  have hshort : (d.take 84).length = 84 := by
    rw [List.length_take, hlen]
    rfl
  rcases said_welcome hshort (hunforged bbCtxWelcome 84 hverified) with ⟨a, ha, hhead⟩
  have hlast := hhello.last hwas
  -- the hash in the WELCOME is that of both HELLOs
  have hsame : C.sha256 s.client.hello = C.sha256 a.hello := by
    rw [← hhello.hash hwas]
    have hbytes : s.client.helloHash.bytes = (C.sha256 a.hello).bytes := hhash.symm.trans (take_hash hhead)
    rw [← Buf.ofBytes_bytes s.client.helloHash, hbytes, Buf.ofBytes_bytes]
  have hsent : s.client.hello ∈ hellosOf s.client.log :=
    List.mem_of_getLast? (unanswered_getLast? hlast)
  have heq := hideal.collisionFree s.client.hello hsent a ha hsame
  refine ⟨a, ha, hhead, ?_, heq, heq ▸ hlast⟩
  rw [hread, ← List.take_append_drop 84 d, hhead]
  exact readWelcome_welcomeHead _ _ _

/-! ## Runs -/

/-- What the runs of the network keep. -/
structure NetInv (C : BbCrypto) (s : Net C) : Prop where
  reachable : BbReachable C s.client
  secret : EphMatches C s.client

theorem BbReachable.step {bb : McBackbone} (h : BbReachable C bb) (x : BbInput) :
    BbReachable C (bbStep C bb x) := by
  rcases h with ⟨cfg, id, mesh, now, xs, rfl⟩
  exact ⟨cfg, id, mesh, now, xs ++ [x], (Runs.run_concat (bbStep C) _ xs x).symm⟩

theorem sessionInv_waiting {bb : McBackbone} (h : BbReachable C bb) : bb.state = .helloSent → bb.fd = true :=
  (sessionInv_of_reachable h).waiting

/-- The hub's points keep the secret: no WELCOME of it erases one. -/
theorem NetInv.step (h : NetInv C s) {z : NetInput C} (hunforged : Unforged C s z) (hideal : Ideal C s) :
    NetInv C (netStep C s z) := by
  cases z with
  | hub m => exact ⟨h.reachable, h.secret⟩
  | client x =>
    refine ⟨h.reachable.step x, ?_⟩
    refine (ephMatches_step_iff (sessionInv_waiting h.reachable) h.secret x).mpr ?_
    rintro p now d rfl ⟨hwas, w, hcheck, hzero⟩
    rcases welcome_said h.reachable hunforged hideal hwas hcheck with ⟨a, ha, -, rfl, -⟩
    exact absurd hzero (hideal.nonzero a ha s.client.ephSec)

theorem NetInv.run (h : NetInv C s) {zs : List (NetInput C)} (hunforged : Runs.Every (netStep C) (Unforged C) s zs)
    (hideal : Ideal C (netRun C s zs)) : NetInv C (netRun C s zs) := by
  induction zs generalizing s with
  | nil => exact h
  | cons z zs ih =>
    rcases hunforged with ⟨hfirst, hrest⟩
    have hnow : Ideal C s := hideal.earlier
    exact ih (h.step hfirst hnow) hrest hideal

theorem netInv_init (cfg : McConfig) (id : McIdentity) (mesh : Option McMesh) (now : Nat) :
    NetInv C (netInit C cfg id mesh now) := by
  refine ⟨⟨cfg, id, mesh, now, [], rfl⟩, ?_⟩
  intro hstate
  exact absurd hstate (backboneInit_state cfg id mesh now).1

/-! ## Agreement -/

/-- The session that comes up with the datagram `d` is the hub's answer `a` to the HELLO sent
last, under the keys the hub derives. -/
structure Agrees (C : BbCrypto) (s : Net C) (d : Bytes) (after : McBackbone) (a : HubAnswer C) : Prop where
  said : .welcome a ∈ s.said
  signed : d.take 84 = a.head
  hello : (hellosOf s.client.log).getLast? = some a.hello
  sid : after.sid = a.welcome.sid ∧ after.sid ≠ 0
  roles : after.roles = a.welcome.roles ∧ after.roles &&& ~~~after.rolesAsked = 0
  keys : a.keys d = some (after.kUp, after.kDown)

/-- An input brings a session up. -/
def ComesUp (C : BbCrypto) (s : Net C) (x : BbInput) : Prop :=
  s.client.state ≠ .up ∧ (bbStep C s.client x).state = .up

/-- A session that comes up answers the HELLO that waits, and notes its WELCOME. -/
theorem ComesUp.agrees {x : BbInput} (hx : ComesUp C s x) (h : NetInv C s)
    (hunforged : Unforged C s (.client x)) (hideal : Ideal C s) :
    ∃ p now d a, x = .datagram p now d ∧ Agrees C s d (bbStep C s.client x) a ∧
      unanswered s.client.log = some a.hello ∧
      ∃ es, (bbStep C s.client x).log = s.client.log ++ .welcome d :: es ∧ ∀ e ∈ es, e.Aside := by
  rcases (bbStep_move C s.client x).comesUp hx.1 hx.2 with
    ⟨p, now, d, w, keys, rfl, hwas, hcheck, hkeys, hcalls⟩
  rcases welcome_said h.reachable hunforged hideal hwas hcheck with ⟨a, ha, hhead, rfl, hhello, hlast⟩
  rcases bbCheckWelcome_ok hcheck with ⟨-, -, -, -, -, hsid, hroles⟩
  refine ⟨p, now, d, a, rfl, ?_, hlast, ?_⟩
  · have hafter : ∀ {α : Type} (g : BbKept → α), g (bbStep C s.client (.datagram p now d)).kept =
        g (sessionUp s.client now d a.welcome keys).kept := fun g => congrArg g hcalls.kept
    have hsid' : (bbStep C s.client (.datagram p now d)).sid = a.welcome.sid := hafter BbKept.sid
    have hroles' : (bbStep C s.client (.datagram p now d)).roles = a.welcome.roles := hafter BbKept.roles
    have hasked : (bbStep C s.client (.datagram p now d)).rolesAsked = s.client.rolesAsked :=
      hafter BbKept.rolesAsked
    have hkUp : (bbStep C s.client (.datagram p now d)).kUp = keys.1 := hafter BbKept.kUp
    have hkDown : (bbStep C s.client (.datagram p now d)).kDown = keys.2 := hafter BbKept.kDown
    refine ⟨ha, hhead, unanswered_getLast? hlast, ⟨hsid', by rw [hsid']; exact hsid⟩,
      ⟨hroles', by rw [hroles', hasked]; exact hroles⟩, ?_⟩
    -- both sides multiply to one secret
    have hshared : C.scalarmult s.client.ephSec.bytes a.welcome.ephPub.bytes =
        C.scalarmult a.ephSec.bytes (helloEph a.hello) := by
      rw [a.ephPub, hideal.commutes, h.secret hwas, hhello]
    rw [HubAnswer.keys, ← hshared, ← hhello, hkeys, hkUp, hkDown]
  · rcases hcalls.log with ⟨es, k, hlog, hinner, -⟩
    refine ⟨es, ?_, fun e he => (hinner e he).aside⟩
    rw [hlog]
    exact List.append_assoc _ _ _

/-! ## No WELCOME twice -/

/-- Behind a WELCOME only later HELLOs wait. -/
theorem mem_hellosOf_of_unanswered {es es' : List BbEvent} {d h : Bytes}
    (hwait : unanswered (es ++ .welcome d :: es') = some h) : h ∈ hellosOf es' := by
  have hsplit : unanswered (es ++ .welcome d :: es') = unanswered es' := by
    simp [unanswered, List.foldl_append]
  rw [hsplit] at hwait
  exact List.mem_of_getLast? (unanswered_getLast? hwait)

/-- Two sessions come up by answers to two different HELLOs, where no HELLO was repeated. -/
theorem ComesUp.once {x x' : BbInput} {mid : List (NetInput C)} (h : NetInv C s)
    (hunforged : Runs.Every (netStep C) (Unforged C) s (.client x :: mid ++ [.client x']))
    (hideal : Ideal C (netRun C s (.client x :: mid)))
    (hx : ComesUp C s x) (hx' : ComesUp C (netRun C s (.client x :: mid)) x')
    (hrepeat : (hellosOf (netRun C s (.client x :: mid)).client.log).Nodup) {p p' : BbHal} {now now' : Nat}
    {d d' : Bytes} (hd : x = .datagram p now d) (hd' : x' = .datagram p' now' d') :
    d.take 84 ≠ d'.take 84 := by
  rw [List.cons_append] at hunforged
  rcases hunforged with ⟨hfirst, hrest⟩
  rcases (Runs.every_append _ _ _ _ _).mp hrest with ⟨hmid, hlast, -⟩
  have hbefore := hideal.earlier
  have hinv : NetInv C (netRun C s (.client x :: mid)) := (h.step hfirst hbefore).run hmid hideal
  rcases hx.agrees h hfirst hbefore with ⟨_, _, _, a, heq, hagrees, -, es, hlog, -⟩
  rcases hx'.agrees hinv hlast hideal with ⟨_, _, _, a', heq', hagrees', hwait', -⟩
  rw [hd] at heq
  rw [hd'] at heq'
  cases heq
  cases heq'
  intro hsame
  -- one signature answers one HELLO
  have hhead : a.head = a'.head := hagrees.signed.symm.trans (hsame.trans hagrees'.signed)
  have hhash : C.sha256 a.hello = C.sha256 a'.hello := by
    have hbytes : (C.sha256 a.hello).bytes = (C.sha256 a'.hello).bytes :=
      (take_hash hagrees.signed).symm.trans (take_hash (hagrees.signed.trans hhead))
    rw [← Buf.ofBytes_bytes (C.sha256 a.hello), hbytes, Buf.ofBytes_bytes]
  have hgrows := (netRun_grows (netStep C s (.client x)) mid).1
  rcases hgrows with ⟨es', hlater⟩
  have hall : (netRun C s (.client x :: mid)).client.log = s.client.log ++ .welcome d :: (es ++ es') := by
    show (netRun C (netStep C s (.client x)) mid).client.log = _
    rw [hlater]
    show (bbStep C s.client x).log ++ es' = _
    rw [hlog, List.append_assoc]
    rfl
  have hold : a.hello ∈ hellosOf s.client.log := List.mem_of_getLast? hagrees.hello
  have hnew : a'.hello ∈ hellosOf (es ++ es') := by
    rw [hall] at hwait'
    exact mem_hellosOf_of_unanswered hwait'
  have hsent : a.hello ∈ hellosOf (netRun C s (.client x :: mid)).client.log := by
    rw [hall, hellosOf_append]
    exact List.mem_append_left _ hold
  have heq : a.hello = a'.hello := hideal.collisionFree a.hello hsent a' hagrees'.said hhash
  have hwelcome : hellosOf (.welcome d :: (es ++ es')) = hellosOf (es ++ es') := rfl
  rw [hall, hellosOf_append, hwelcome] at hrepeat
  exact (List.nodup_append.mp hrepeat).2.2 a.hello hold a'.hello hnew heq

/-- No HELLO can come again as a whole: time has not run out for their timestamps, or each
has an ephemeral key of its own. -/
def NeverRepeats (hellos : List Bytes) : Prop :=
  (∀ h ∈ hellos, helloTs h ≠ 0xFFFFFFFF) ∨ (hellos.map helloEph).Nodup

theorem NeverRepeats.nodup {hellos : List Bytes} (h : NeverRepeats hellos)
    (hchain : (hellos.map helloTs).IsChain Follows) : hellos.Nodup := by
  rcases h with hmax | hkeys
  · have hrises : (hellos.map helloTs).IsChain (· < ·) := by
      refine hchain.imp_of_mem_imp ?_
      intro ts ts' hts _ hfollows
      rcases hfollows with hlt | hend
      · exact hlt
      · rcases List.mem_map.mp hts with ⟨h, hh, rfl⟩
        exact absurd hend (hmax h hh)
    have htrans : Trans (fun a b : UInt32 => a < b) (fun a b => a < b) (fun a b => a < b) :=
      ⟨UInt32.lt_trans⟩
    have hpairs := List.isChain_iff_pairwise.mp hrises
    exact List.Nodup.of_map _ (hpairs.imp fun hlt => UInt32.ne_of_lt hlt)
  · exact List.Nodup.of_map _ hkeys

/-- The same in a run from any state that keeps the invariant. -/
theorem NetInv.comesUp_once (h : NetInv C s) {pre mid post : List (NetInput C)} {p p' : BbHal} {t t' : Nat}
    {d d' : Bytes} (hunforged : Runs.Every (netStep C) (Unforged C) s
      (pre ++ .client (.datagram p t d) :: mid ++ .client (.datagram p' t' d') :: post))
    (hideal : Ideal C (netRun C s
      (pre ++ .client (.datagram p t d) :: mid ++ .client (.datagram p' t' d') :: post)))
    (hrepeat : (hellosOf (netRun C s
      (pre ++ .client (.datagram p t d) :: mid ++ .client (.datagram p' t' d') :: post)).client.log).Nodup)
    (hx : ComesUp C (netRun C s pre) (.datagram p t d))
    (hx' : ComesUp C (netRun C s (pre ++ .client (.datagram p t d) :: mid)) (.datagram p' t' d')) :
    d.take 84 ≠ d'.take 84 := by
  have hsplit : pre ++ .client (.datagram p t d) :: mid ++ .client (.datagram p' t' d') :: post =
      pre ++ (.client (.datagram p t d) :: mid ++ [.client (.datagram p' t' d')]) ++ post := by simp
  have hwhole : netRun C s (pre ++ .client (.datagram p t d) :: mid ++ .client (.datagram p' t' d') :: post) =
      netRun C (netRun C (netRun C s pre) (.client (.datagram p t d) :: mid))
        (.client (.datagram p' t' d') :: post) := by
    rw [netRun_append, netRun_append]
  rw [hsplit] at hunforged
  rcases (Runs.every_append _ _ _ _ _).mp ((Runs.every_append _ _ _ _ _).mp hunforged).1 with ⟨hpre, hrest⟩
  rw [hwhole] at hideal hrepeat
  rw [netRun_append] at hx'
  refine ComesUp.once (h.run hpre hideal.earlier.earlier) hrest hideal.earlier hx hx' ?_ rfl rfl
  rcases (netRun_grows (netRun C (netRun C s pre) (.client (.datagram p t d) :: mid))
    (.client (.datagram p' t' d') :: post)).1 with ⟨es, hlog⟩
  rw [hlog, hellosOf_append] at hrepeat
  exact (List.nodup_append.mp hrepeat).1

/-- In every run against the network: a session comes up by the hub's answer to the HELLO sent
last, with a session of its own, no role that was not asked for, and the keys the hub derives;
no answer brings up two sessions, where a HELLO was never repeated as a whole; and each HELLO
is later than the one before, up to the end of time. -/
theorem handshake_agreement (C : BbCrypto) (cfg : McConfig) (id : McIdentity) (mesh : Option McMesh)
    (now : Nat) (zs : List (NetInput C))
    (hunforged : Runs.Every (netStep C) (Unforged C) (netInit C cfg id mesh now) zs)
    (hideal : Ideal C (netRun C (netInit C cfg id mesh now) zs)) :
    (∀ pre x post, zs = pre ++ .client x :: post →
      ComesUp C (netRun C (netInit C cfg id mesh now) pre) x →
        ∃ p t d a, x = .datagram p t d ∧ Agrees C (netRun C (netInit C cfg id mesh now) pre) d
          (bbStep C (netRun C (netInit C cfg id mesh now) pre).client x) a) ∧
      (NeverRepeats (hellosOf (netRun C (netInit C cfg id mesh now) zs).client.log) →
        ∀ pre p t d mid p' t' d' post,
          zs = pre ++ .client (.datagram p t d) :: mid ++ .client (.datagram p' t' d') :: post →
          ComesUp C (netRun C (netInit C cfg id mesh now) pre) (.datagram p t d) →
          ComesUp C (netRun C (netInit C cfg id mesh now) (pre ++ .client (.datagram p t d) :: mid))
            (.datagram p' t' d') → d.take 84 ≠ d'.take 84) ∧
      ((hellosOf (netRun C (netInit C cfg id mesh now) zs).client.log).map helloTs).IsChain Follows := by
  have hstart : NetInv C (netInit C cfg id mesh now) := netInv_init cfg id mesh now
  have hend := hstart.run hunforged hideal
  have hchain := (helloInv_of_reachable hend.reachable).chain
  refine ⟨?_, ?_, hchain⟩
  · rintro pre x post rfl hx
    rcases (Runs.every_append _ _ _ _ _).mp hunforged with ⟨hpre, hfirst, -⟩
    rw [netRun_append] at hideal
    have hbefore := hideal.earlier
    rcases hx.agrees (hstart.run hpre hbefore) hfirst hbefore with ⟨p, t, d, a, hd, hagrees, -⟩
    exact ⟨p, t, d, a, hd, hagrees⟩
  · rintro hrepeat pre p t d mid p' t' d' post rfl hx hx'
    exact hstart.comesUp_once hunforged hideal (hrepeat.nodup hchain) hx hx'

/-! ## A handshake in bytes -/

/-- The hub's answer to the node's HELLO. -/
def pairAnswer : HubAnswer policyCrypto where
  hello := pairHello
  ephSec := hubEphSec
  welcome := ⟨bbRoleObserve, 1760000000, 7, hubEph, 0, 0, 0⟩
  ephPub := by decide +kernel

/-- The HELLO goes out, the hub signs its answer, and the answer comes twice. -/
def pairHandshake : List (NetInput policyCrypto) :=
  pairAttempt.map .client ++ [.hub (.welcome pairAnswer), .client (.datagram (.calm 1100) 1100 pairWelcome),
    .client (.datagram (.calm 1200) 1200 pairWelcome)]

theorem policyCrypto_scalarmultBase (sec : Bytes) :
    (policyCrypto.scalarmultBase sec).bytes ≠ (Buf.zero 32).bytes := by
  show (pairCrypto.scalarmultBase sec).bytes ≠ _
  unfold pairCrypto
  simp only
  split
  · decide
  split
  · decide
  · decide

/-- The digests and products of the two parties are ideal. -/
theorem pairHandshake_ideal :
    Ideal policyCrypto (netRun policyCrypto (netInit policyCrypto pairConfig nodeIdentity none 1000)
      pairHandshake) := by
  have hsaid : ∀ a, .welcome a ∈ (netRun policyCrypto (netInit policyCrypto pairConfig nodeIdentity none 1000)
      pairHandshake).said → a = pairAnswer := by
    intro a ha
    have hone : (netRun policyCrypto (netInit policyCrypto pairConfig nodeIdentity none 1000)
      pairHandshake).said = [.welcome pairAnswer] := rfl
    rw [hone] at ha
    cases List.mem_singleton.mp ha
    rfl
  have hproduct : ∀ a b : Bytes, policyCrypto.scalarmult a (policyCrypto.scalarmultBase b).bytes = pairSecret :=
    fun a b => if_neg (policyCrypto_scalarmultBase b)
  constructor
  · intro h hh a ha _
    have hsent : hellosOf (netRun policyCrypto (netInit policyCrypto pairConfig nodeIdentity none 1000)
        pairHandshake).client.log = [pairHello] := by decide
    rw [hsent] at hh
    rw [hsaid a ha]
    exact List.mem_singleton.mp hh
  · intro a b
    rw [hproduct, hproduct]
  · intro a ha sec
    rw [a.ephPub, hproduct]
    decide

/-- Nothing but the hub's own bytes verifies in what comes. -/
theorem pairHandshake_unforged :
    Runs.Every (netStep policyCrypto) (Unforged policyCrypto)
      (netInit policyCrypto pairConfig nodeIdentity none 1000) pairHandshake := by
  have hread : ∀ {s : Net policyCrypto} {p : BbHal} {t : Nat}, s.client.hubPub = hubPub →
      .welcome pairAnswer ∈ s.said → Unforged policyCrypto s (.client (.datagram p t pairWelcome)) := by
    intro s p t hpub hsaid ctx n hverified
    rw [hpub] at hverified
    unfold verifyCtx at hverified
    split at hverified
    · cases hverified
    have hentry : (hubPub, pairWelcome.drop n, ctx ++ pairWelcome.take n) ∈
        [(hubPub, pairWelcomeSig, bbCtxWelcome ++ pairWelcomeHead hubEph),
         (hubPub, lowWelcomeSig, bbCtxWelcome ++ pairWelcomeHead (.zero 32))] := by
      unfold mcIdentityVerify at hverified
      split at hverified
      · cases hverified
      · exact of_decide_eq_true hverified
    rcases List.mem_cons.mp hentry with hgood | hlow
    · rw [(Prod.mk.inj (Prod.mk.inj hgood).2).2]
      exact List.mem_map.mpr ⟨_, hsaid, by decide⟩
    · -- the other signature is no end of this datagram
      have hlow := (Prod.mk.inj (Prod.mk.inj (List.mem_singleton.mp hlow)).2).1
      have hlen : (pairWelcome.drop n).length = 64 := by
        rw [hlow]
        decide
      rw [List.length_drop] at hlen
      have hn : n = 84 := by
        have hall : pairWelcome.length = 148 := by decide
        omega
      rw [hn] at hlow
      have hother : pairWelcome.drop 84 ≠ lowWelcomeSig := by decide
      exact absurd hlow hother
  have hstate : ∀ {s : Net policyCrypto} {p : BbHal} {t : Nat} {g : GaiState},
      Unforged policyCrypto s (.client (.state p t g)) := trivial
  exact ⟨hstate, hstate, trivial, hread (by decide) List.mem_cons_self,
    hread (by decide) List.mem_cons_self, trivial⟩

/-- The network when the answer is signed. -/
def pairAnswered : Net policyCrypto :=
  netRun policyCrypto (netInit policyCrypto pairConfig nodeIdentity none 1000)
    (pairAttempt.map .client ++ [.hub (.welcome pairAnswer)])

/-- The WELCOME brings up one session, with the keys of both sides. -/
theorem handshake_agreement_pair :
    ∃ p t d a, BbInput.datagram (.calm 1100) 1100 pairWelcome = .datagram p t d ∧
      Agrees policyCrypto pairAnswered d
        (bbStep policyCrypto pairAnswered.client (.datagram (.calm 1100) 1100 pairWelcome)) a := by
  have hup : ComesUp policyCrypto pairAnswered (.datagram (.calm 1100) 1100 pairWelcome) :=
    ⟨by decide, by decide⟩
  unfold pairAnswered at hup ⊢
  exact (handshake_agreement policyCrypto pairConfig nodeIdentity none 1000 pairHandshake
    pairHandshake_unforged pairHandshake_ideal).1 _ _
    [.client (.datagram (.calm 1200) 1200 pairWelcome)] (by rfl) hup

end Meshcore
