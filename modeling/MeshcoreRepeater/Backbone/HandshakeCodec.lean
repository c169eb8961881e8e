import MeshcoreRepeater.AdvertCodec
import MeshcoreRepeater.Backbone.Codec
import MeshcoreRepeater.Wire

/-! # The handshake datagrams are exact

HELLO, WELCOME and RESET are laid out by hand, the first one with a name at its end. What a
builder writes is what the other side reads, field by field, and a reader accepts nothing else
(`handshake_codec_exact`). Of the signatures only one thing is asked: that they verify on the
message they were made for.

* `bbBuildHello_signed`: the HELLO, field by field.
* `bbCheckWelcome_ok_iff`: the WELCOMEs that are accepted.
* `bbCheckReset_resetHead`: the RESET.
* `handshake_codec_exact`: the three of them.
-/

namespace Meshcore

open ByteLib

variable {C : Crypto} {d : Bytes}

/-! ## Words and headers -/

theorem rdU32le_take (b : Bytes) : rdU32le (b.take 4) = rdU32le b := by
  match b with
  | [] => rfl
  | [_] => rfl
  | [_, _] => rfl
  | [_, _, _] => rfl
  | _ :: _ :: _ :: _ :: _ => rfl

/-- The word at an offset, written again. -/
theorem wrU32le_drop {i : Nat} (h : i + 4 ≤ d.length) : wrU32le (rdU32le (d.drop i)) = (d.drop i).take 4 := by
  rw [← rdU32le_take]
  apply wrU32le_rdU32le
  rw [List.length_take, List.length_drop]
  omega

theorem wrU16le_drop {i : Nat} (h : i + 2 ≤ d.length) : wrU16le (rdU16le (d.drop i)) = (d.drop i).take 2 := by
  rw [← rdU16le_take]
  apply wrU16le_rdU16le
  rw [List.length_take, List.length_drop]
  omega

theorem take_one_drop {i : Nat} (h : i < d.length) : (d.drop i).take 1 = [d.getD i 0] := by
  rw [List.take_one_drop_eq_of_lt_length h, List.getD_eq_getElem?_getD, List.getElem?_eq_getElem h]
  rfl

/-- What `hdr_ok` accepts starts like what `put_hdr` writes. -/
theorem hdrOk_iff {type : UInt8} : hdrOk d type = true ↔ d.take 4 = putHdr type := by
  match d with
  | [] => simp [hdrOk, putHdr]
  | [_] => simp [hdrOk, putHdr]
  | [_, _] => simp [hdrOk, putHdr]
  | [_, _, _] => simp [hdrOk, putHdr]
  | a :: b :: c :: e :: rest => simp [hdrOk, putHdr, magicOk, and_assoc]

/-- A part of a datagram behind the parts in front of it. -/
theorem part_append {a b c : Bytes} {i n : Nat} (ha : a.length = i) (hb : b.length = n) :
    ((a ++ (b ++ c)).drop i).take n = b := by
  rw [List.drop_left' ha, List.take_left' hb]

theorem getD_append {a b : Bytes} {c : UInt8} {i : Nat} (ha : a.length = i) : (a ++ c :: b).getD i 0 = c := by
  subst ha
  simp [List.getD_eq_getElem?_getD]

/-! ## Signatures -/

/-- A signature of an identity verifies on the message it was made for. -/
def McIdentity.Signs (id : McIdentity) (C : Crypto) : Prop :=
  id.hasSecret = true ∧ ∀ msg, C.cryptoSignOpen id.pub.bytes (C.cryptoSign id.sec.bytes msg).bytes msg = true

/-- What is short enough for the buffer is signed, and verifies. -/
theorem signCtx_verifies {id : McIdentity} (h : id.Signs C) {ctx msg : Bytes} (hlen : ctx.length + msg.length ≤ 128) :
    signCtx C id ctx msg = some (C.cryptoSign id.sec.bytes (ctx ++ msg)) ∧
      verifyCtx C id.pub.bytes ctx msg (C.cryptoSign id.sec.bytes (ctx ++ msg)).bytes = true := by
  have hbuf : ¬ ctxBuf < ctx.length + msg.length := by
    simp only [ctxBuf]
    omega
  have hscratch : ¬ signScratch < (ctx ++ msg).length + 64 := by
    simp only [signScratch, List.length_append]
    omega
  constructor
  · rw [signCtx, if_neg hbuf, mcIdentitySign, if_neg]
    rw [h.1, decide_eq_false hscratch]
    exact Bool.false_ne_true
  · rw [verifyCtx, if_neg hbuf, mcIdentityVerify, if_neg hscratch]
    exact h.2 (ctx ++ msg)

/-! ## HELLO -/

theorem length_helloHead (id : McIdentity) (roles : UInt8) (ts : UInt32) (ephPub : Buf 32) (name : Bytes) :
    (helloHead id roles ts ephPub name).length = bbHelloFixed + name.length := by
  have hpub := id.pub.length_eq
  have heph := ephPub.length_eq
  simp only [helloHead, putHdr, List.length_append, List.length_cons, List.length_nil, length_wrU32le, hpub, heph,
    bbHelloFixed]
  omega

/-- The parts of a HELLO that is read. -/
structure HelloParts (d : Bytes) (id : McIdentity) (roles : UInt8) (ts : UInt32) (ephPub : Buf 32) (name : Bytes) :
    Prop where
  hdr : hdrOk d bbTHello = true
  roles : d.getD 4 0 = roles
  ts : rdU32le (d.drop 6) = ts
  pub : (d.drop 10).take 32 = id.pub.bytes
  ephPub : (d.drop 42).take 32 = ephPub.bytes
  nameLen : (d.getD 74 0).toNat = name.length
  name : (d.drop 75).take name.length = name

theorem helloHead_parts (id : McIdentity) (roles : UInt8) (ts : UInt32) (ephPub : Buf 32) {name : Bytes}
    (hname : name.length ≤ 32) (sig : Bytes) :
    HelloParts (helloHead id roles ts ephPub name ++ sig) id roles ts ephPub name := by
  have hpub := id.pub.length_eq
  have heph := ephPub.length_eq
  have hwhole : helloHead id roles ts ephPub name ++ sig =
      putHdr bbTHello ++ [roles, 0] ++ (wrU32le ts ++ (id.pub.bytes ++ (ephPub.bytes ++
        (UInt8.ofNat name.length :: (name ++ sig))))) := by
    simp [helloHead]
  rw [hwhole]
  constructor
  · rfl
  · rfl
  · exact rdU32le_wrU32le ts _
  · exact List.take_left' hpub
  · show ((id.pub.bytes ++ (ephPub.bytes ++ _)).drop 32).take 32 = _
    exact part_append hpub heph
  · have hboth : (id.pub.bytes ++ ephPub.bytes).length = 64 := by rw [List.length_append, hpub, heph]
    show ((id.pub.bytes ++ (ephPub.bytes ++ _)).getD 64 0).toNat = _
    rw [← List.append_assoc, getD_append hboth, UInt8.toNat_ofNat', Nat.mod_eq_of_lt (by omega)]
  · have hboth : (id.pub.bytes ++ ephPub.bytes).length = 64 := by rw [List.length_append, hpub, heph]
    show ((id.pub.bytes ++ (ephPub.bytes ++ (UInt8.ofNat name.length :: (name ++ sig)))).drop 65).take name.length = _
    have hone : (id.pub.bytes ++ ephPub.bytes ++ [UInt8.ofNat name.length]).length = 65 := by
      rw [List.length_append, hboth]
      rfl
    rw [← List.append_assoc, ← List.singleton_append, ← List.append_assoc]
    exact part_append hone rfl

/-- With a secret key a HELLO is built, whatever it says, and signed. -/
theorem bbBuildHello_signed {id : McIdentity} (h : id.Signs C) (roles : UInt8) (ts : UInt32) (ephPub : Buf 32)
    (name : Bytes) :
    ∃ d sig : Bytes, bbBuildHello C 171 id roles ts ephPub name = some (d ++ sig) ∧
      d.length = 75 + min 32 name.length ∧ sig.length = 64 ∧
      HelloParts (d ++ sig) id roles ts ephPub (name.take 32) ∧
      sig = (C.cryptoSign id.sec.bytes (bbCtxHello ++ d)).bytes ∧ verifyCtx C id.pub.bytes bbCtxHello d sig = true := by
  have hname : (name.take 32).length = min 32 name.length := List.length_take
  have hhead := length_helloHead id roles ts ephPub (name.take 32)
  have hctx : bbCtxHello.length = 11 := by decide
  simp only [bbHelloFixed, hname] at hhead
  rcases signCtx_verifies h (by omega : bbCtxHello.length + (helloHead id roles ts ephPub (name.take 32)).length ≤ 128)
    with ⟨hsign, hverify⟩
  refine ⟨helloHead id roles ts ephPub (name.take 32), _, ?_, hhead, Buf.length_eq _,
    helloHead_parts id roles ts ephPub (by omega) _, rfl, hverify⟩
  have hcap : ¬ 171 < bbHelloFixed + (name.take bbNameMax).length + 64 := by
    show ¬ 171 < 75 + (name.take 32).length + 64
    omega
  rw [bbBuildHello, if_neg hcap]
  show (signCtx C id bbCtxHello (helloHead id roles ts ephPub (name.take 32))).map _ = _
  rw [hsign]
  rfl

/-! ## WELCOME -/

/-- The signed bytes of a WELCOME, with what stands in its reserved byte. -/
def welcomeBytes (w : BbWelcome) (helloHash : Buf 32) (reserved : UInt8) : Bytes :=
  (welcomeHead w helloHash).set 5 reserved

theorem welcomeBytes_eq (w : BbWelcome) (helloHash : Buf 32) (reserved : UInt8) :
    welcomeBytes w helloHash reserved = putHdr bbTWelcome ++ [w.roles, reserved] ++ (wrU32le w.ts ++ (wrU32le w.sid ++
      (w.ephPub.bytes ++ (helloHash.bytes ++ (wrU16le w.keepaliveS ++ (wrU16le w.statusS ++
        wrU16le w.neighboursS)))))) := by
  simp [welcomeBytes, welcomeHead, putHdr, List.set]

theorem welcomeBytes_zero (w : BbWelcome) (helloHash : Buf 32) : welcomeBytes w helloHash 0 = welcomeHead w helloHash := by
  rw [welcomeBytes_eq]
  simp [welcomeHead]

theorem length_welcomeBytes (w : BbWelcome) (helloHash : Buf 32) (reserved : UInt8) :
    (welcomeBytes w helloHash reserved).length = 84 := by
  have heph := w.ephPub.length_eq
  have hhash := helloHash.length_eq
  simp only [welcomeBytes_eq, putHdr, List.length_append, List.length_cons, List.length_nil, length_wrU32le,
    length_wrU16le, heph, hhash]

/-- A WELCOME is read as the record it was written from. -/
theorem readWelcome_welcomeBytes (w : BbWelcome) (helloHash : Buf 32) (reserved : UInt8) (sig : Bytes) :
    hdrOk (welcomeBytes w helloHash reserved ++ sig) bbTWelcome = true ∧
      ((welcomeBytes w helloHash reserved ++ sig).drop 46).take 32 = helloHash.bytes ∧
      readWelcome (welcomeBytes w helloHash reserved ++ sig) = w := by
  have heph := w.ephPub.length_eq
  have hhash := helloHash.length_eq
  have hboth : (w.ephPub.bytes ++ helloHash.bytes).length = 64 := by rw [List.length_append, heph, hhash]
  have hwhole : welcomeBytes w helloHash reserved ++ sig =
      putHdr bbTWelcome ++ [w.roles, reserved] ++ (wrU32le w.ts ++ (wrU32le w.sid ++ (w.ephPub.bytes ++
        (helloHash.bytes ++ (wrU16le w.keepaliveS ++ (wrU16le w.statusS ++ (wrU16le w.neighboursS ++ sig))))))) := by
    simp [welcomeBytes_eq]
  -- the last three words stand behind the key and the hash
  have htail : ∀ k, (welcomeBytes w helloHash reserved ++ sig).drop (78 + k) =
      (wrU16le w.keepaliveS ++ (wrU16le w.statusS ++ (wrU16le w.neighboursS ++ sig))).drop k := by
    intro k
    rw [hwhole, ← List.drop_drop]
    show ((w.ephPub.bytes ++ (helloHash.bytes ++ _)).drop 64).drop k = _
    rw [← List.append_assoc, List.drop_left' hboth]
  refine ⟨by rw [hwhole]; rfl, ?_, ?_⟩
  · rw [hwhole]
    show ((w.ephPub.bytes ++ (helloHash.bytes ++ _)).drop 32).take 32 = _
    exact part_append heph hhash
  · have hkey : ((welcomeBytes w helloHash reserved ++ sig).drop 14).take 32 = w.ephPub.bytes := by
      rw [hwhole]
      exact List.take_left' heph
    have hts : rdU32le ((welcomeBytes w helloHash reserved ++ sig).drop 6) = w.ts := by
      rw [hwhole]
      exact rdU32le_wrU32le w.ts _
    have hsid : rdU32le ((welcomeBytes w helloHash reserved ++ sig).drop 10) = w.sid := by
      rw [hwhole]
      exact rdU32le_wrU32le w.sid _
    have hroles : (welcomeBytes w helloHash reserved ++ sig).getD 4 0 = w.roles := by
      rw [hwhole]
      rfl
    have hkeepalive : rdU16le ((welcomeBytes w helloHash reserved ++ sig).drop 78) = w.keepaliveS := by
      rw [htail 0]
      exact rdU16le_wrU16le _ _
    have hstatus : rdU16le ((welcomeBytes w helloHash reserved ++ sig).drop 80) = w.statusS := by
      rw [htail 2]
      exact rdU16le_wrU16le _ _
    have hneighbours : rdU16le ((welcomeBytes w helloHash reserved ++ sig).drop 82) = w.neighboursS := by
      rw [htail 4]
      exact rdU16le_wrU16le _ _
    simp only [readWelcome, hkey, hts, hsid, hroles, hkeepalive, hstatus, hneighbours, Buf.ofBytes_bytes]

/-- What is read from a WELCOME, written again, is the datagram. -/
theorem welcomeBytes_readWelcome {helloHash : Buf 32} (hlen : d.length = 148) (hhdr : hdrOk d bbTWelcome = true)
    (hhash : (d.drop 46).take 32 = helloHash.bytes) :
    welcomeBytes (readWelcome d) helloHash (d.getD 5 0) ++ d.drop 84 = d := by
  have hkey : (Buf.ofBytes 32 ((d.drop 14).take 32)).bytes = (d.drop 14).take 32 :=
    Buf.bytes_ofBytes (by rw [List.length_take, List.length_drop]; omega)
  have hpart : ∀ i n, d.take (i + n) = d.take i ++ (d.drop i).take n := fun i n => List.take_add
  have hcut : d.take 84 = putHdr bbTWelcome ++ [d.getD 4 0, d.getD 5 0] ++ (wrU32le (rdU32le (d.drop 6)) ++
      (wrU32le (rdU32le (d.drop 10)) ++ ((d.drop 14).take 32 ++ ((d.drop 46).take 32 ++
        (wrU16le (rdU16le (d.drop 78)) ++ (wrU16le (rdU16le (d.drop 80)) ++ wrU16le (rdU16le (d.drop 82)))))))) := by
    rw [hpart 82 2, hpart 80 2, hpart 78 2, hpart 46 32, hpart 14 32, hpart 10 4, hpart 6 4, hpart 5 1, hpart 4 1,
      hdrOk_iff.mp hhdr, take_one_drop (by omega), take_one_drop (by omega), wrU32le_drop (by omega),
      wrU32le_drop (by omega), wrU16le_drop (by omega), wrU16le_drop (by omega), wrU16le_drop (by omega)]
    simp only [List.append_assoc, List.cons_append, List.nil_append]
  rw [welcomeBytes_eq, ← hhash]
  show putHdr bbTWelcome ++ _ ++ (_ ++ (_ ++ ((Buf.ofBytes 32 ((d.drop 14).take 32)).bytes ++ _))) ++ _ = d
  rw [hkey]
  exact (congrArg (· ++ d.drop 84) hcut.symm).trans (List.take_append_drop 84 d)

/-- `a` has no bit that `b` has not. -/
def RolesWithin (a b : UInt8) : Prop := a &&& b = a

instance (a b : UInt8) : Decidable (RolesWithin a b) := inferInstanceAs (Decidable (_ = _))

theorem and_not_eq_zero_iff (a b : UInt8) : a &&& ~~~b = 0 ↔ RolesWithin a b := by
  unfold RolesWithin
  rw [← UInt8.toBitVec_inj, ← UInt8.toBitVec_inj, UInt8.toBitVec_and, UInt8.toBitVec_and, UInt8.toBitVec_not]
  constructor
  · intro h
    ext i hi
    have hbit := congrArg (fun v : BitVec 8 => v.getLsbD i) h
    simp at hbit ⊢
    grind
  · intro h
    ext i hi
    have hbit := congrArg (fun v : BitVec 8 => v.getLsbD i) h
    simp at hbit ⊢
    grind

/-- What `bb_check_welcome` says to a WELCOME with a good signature. -/
theorem bbCheckWelcome_welcomeBytes {w : BbWelcome} {helloHash : Buf 32} {reserved asked : UInt8} {hubPub sig : Bytes}
    (hsig : sig.length = 64) (hverify : verifyCtx C hubPub bbCtxWelcome (welcomeBytes w helloHash reserved) sig = true) :
    bbCheckWelcome C (welcomeBytes w helloHash reserved ++ sig) hubPub helloHash asked =
      if w.sid ≠ 0 ∧ RolesWithin w.roles asked then .ok w else .error (-4) := by
  have hhead := length_welcomeBytes w helloHash reserved
  rcases readWelcome_welcomeBytes w helloHash reserved sig with ⟨hhdr, hhash, hread⟩
  have hlen : (welcomeBytes w helloHash reserved ++ sig).length = bbWelcomeLen := by
    rw [List.length_append, hhead, hsig]
    rfl
  unfold bbCheckWelcome
  rw [if_neg (by rw [hlen, hhdr]; decide), if_neg (not_not.mpr hhash), List.take_left' hhead, List.drop_left' hhead,
    if_neg (by rw [hverify]; decide)]
  simp only [hread, ne_eq, and_not_eq_zero_iff]
  by_cases hsid : w.sid = 0
  · rw [if_pos (.inl hsid), if_neg fun h => h.1 hsid]
  by_cases hroles : RolesWithin w.roles asked
  · rw [if_neg (by rintro (h | h); exacts [hsid h, h hroles]), if_pos ⟨hsid, hroles⟩]
  · rw [if_pos (.inr hroles), if_neg fun h => hroles h.2]

/-- A WELCOME is accepted exactly when it is a record that is granted, with the hash of the
HELLO, anything in the reserved byte, and the hub's signature over it. -/
theorem bbCheckWelcome_ok_iff {w : BbWelcome} {helloHash : Buf 32} {asked : UInt8} {hubPub : Bytes} :
    bbCheckWelcome C d hubPub helloHash asked = .ok w ↔
      (w.sid ≠ 0 ∧ RolesWithin w.roles asked) ∧
        ∃ reserved sig, d = welcomeBytes w helloHash reserved ++ sig ∧ sig.length = 64 ∧
          verifyCtx C hubPub bbCtxWelcome (welcomeBytes w helloHash reserved) sig = true := by
  constructor
  · intro h
    -- a datagram that is accepted consists of what is read from it
    have hchecks := h
    unfold bbCheckWelcome at hchecks
    split at hchecks
    · cases hchecks
    rename_i hshape
    split at hchecks
    · cases hchecks
    rename_i hhash
    split at hchecks
    · cases hchecks
    rename_i hverify
    rw [not_or, not_not, Bool.not_eq_false] at hshape
    rw [not_not] at hhash
    rw [Bool.not_eq_false] at hverify
    have hd := welcomeBytes_readWelcome hshape.1 hshape.2 hhash
    have hsig : (d.drop 84).length = 64 := by
      rw [List.length_drop, hshape.1]
      rfl
    have htake : d.take 84 = welcomeBytes (readWelcome d) helloHash (d.getD 5 0) :=
      (congrArg (List.take 84) hd.symm).trans (List.take_left' (length_welcomeBytes _ _ _))
    rw [htake] at hverify
    have hcheck : bbCheckWelcome C _ hubPub helloHash asked = _ := bbCheckWelcome_welcomeBytes hsig hverify
    rw [hd, h] at hcheck
    split at hcheck
    · rename_i hgranted
      cases hcheck
      exact ⟨hgranted, _, _, hd.symm, hsig, hverify⟩
    · cases hcheck
  · rintro ⟨hgranted, reserved, sig, rfl, hsig, hverify⟩
    rw [bbCheckWelcome_welcomeBytes hsig hverify, if_pos hgranted]

/-- The hub's WELCOME is built, and read as far as it is granted. -/
theorem bbBuildWelcome_checked {id : McIdentity} (h : id.Signs C) (w : BbWelcome) (helloHash : Buf 32) (asked : UInt8) :
    ∃ d, bbBuildWelcome C 148 id w helloHash = some d ∧ d.length = 148 ∧
      bbCheckWelcome C d id.pub.bytes helloHash asked =
        if w.sid ≠ 0 ∧ RolesWithin w.roles asked then .ok w else .error (-4) := by
  have hhead := length_welcomeBytes w helloHash 0
  have hctx : bbCtxWelcome.length = 13 := by decide
  rcases signCtx_verifies h (by omega : bbCtxWelcome.length + (welcomeBytes w helloHash 0).length ≤ 128) with
    ⟨hsign, hverify⟩
  have hsig : (C.cryptoSign id.sec.bytes (bbCtxWelcome ++ welcomeBytes w helloHash 0)).bytes.length = 64 :=
    Buf.length_eq _
  refine ⟨_, ?_, ?_, bbCheckWelcome_welcomeBytes hsig hverify⟩
  · rw [bbBuildWelcome, if_neg (by decide), ← welcomeBytes_zero]
    simp only [hsign]
    rfl
  · rw [List.length_append, hhead, hsig]

/-! ## RESET -/

theorem length_resetHead (sid seq ts : UInt32) : (resetHead sid seq ts).length = 16 := rfl

/-- What is read from a RESET is what was written. -/
theorem bbCheckReset_resetHead {sid seq ts : UInt32} {hubPub sig : Bytes} (hsig : sig.length = 64)
    (hverify : verifyCtx C hubPub bbCtxReset (resetHead sid seq ts) sig = true) :
    bbCheckReset C (resetHead sid seq ts ++ sig) hubPub = .ok (sid, seq, ts) := by
  have hhead := length_resetHead sid seq ts
  have hlen : (resetHead sid seq ts ++ sig).length = bbResetLen := by
    rw [List.length_append, hhead, hsig]
    rfl
  have hhdr : hdrOk (resetHead sid seq ts ++ sig) bbTReset = true := hdrOk_iff.mpr rfl
  have hwhole : resetHead sid seq ts ++ sig = putHdr bbTReset ++ (wrU32le sid ++ (wrU32le seq ++ (wrU32le ts ++ sig))) := by
    simp [resetHead]
  have hsid : rdU32le ((resetHead sid seq ts ++ sig).drop 4) = sid := by
    rw [hwhole]
    exact rdU32le_wrU32le sid _
  have hseq : rdU32le ((resetHead sid seq ts ++ sig).drop 8) = seq := by
    rw [hwhole]
    exact rdU32le_wrU32le seq _
  have hts : rdU32le ((resetHead sid seq ts ++ sig).drop 12) = ts := by
    rw [hwhole]
    exact rdU32le_wrU32le ts _
  rw [bbCheckReset, if_neg (by rw [hlen, hhdr]; decide), List.take_left' hhead, List.drop_left' hhead,
    if_neg (by rw [hverify]; decide), hsid, hseq, hts]

theorem bbBuildReset_checked {id : McIdentity} (h : id.Signs C) (sid seq ts : UInt32) :
    ∃ d, bbBuildReset C 80 id sid seq ts = some d ∧ d.length = 80 ∧
      bbCheckReset C d id.pub.bytes = .ok (sid, seq, ts) := by
  have hhead := length_resetHead sid seq ts
  have hctx : bbCtxReset.length = 11 := by decide
  rcases signCtx_verifies h (by omega : bbCtxReset.length + (resetHead sid seq ts).length ≤ 128) with ⟨hsign, hverify⟩
  have hsig : (C.cryptoSign id.sec.bytes (bbCtxReset ++ resetHead sid seq ts)).bytes.length = 64 := Buf.length_eq _
  refine ⟨_, ?_, ?_, bbCheckReset_resetHead hsig hverify⟩
  · rw [bbBuildReset, if_neg (by decide)]
    simp only [hsign]
    rfl
  · rw [List.length_append, hhead, hsig]

/-! ## The handshake -/

/-- With a secret key every HELLO is built and signed, field by field; a WELCOME is read as the
record it was built from when it grants a session and no more than was asked, and nothing else
is accepted but such a record under the hub's signature, whatever the reserved byte; a RESET
is read as it was built. -/
theorem handshake_codec_exact {C : Crypto} {id : McIdentity} (h : id.Signs C) :
    (∀ roles ts ephPub name, ∃ d sig : Bytes, bbBuildHello C 171 id roles ts ephPub name = some (d ++ sig) ∧
      d.length = 75 + min 32 name.length ∧ sig.length = 64 ∧
      HelloParts (d ++ sig) id roles ts ephPub (name.take 32) ∧
      sig = (C.cryptoSign id.sec.bytes (bbCtxHello ++ d)).bytes ∧ verifyCtx C id.pub.bytes bbCtxHello d sig = true) ∧
    (∀ w helloHash asked, ∃ d, bbBuildWelcome C 148 id w helloHash = some d ∧ d.length = 148 ∧
      bbCheckWelcome C d id.pub.bytes helloHash asked =
        if w.sid ≠ 0 ∧ RolesWithin w.roles asked then .ok w else .error (-4)) ∧
    (∀ d hubPub helloHash asked w, bbCheckWelcome C d hubPub helloHash asked = .ok w ↔
      (w.sid ≠ 0 ∧ RolesWithin w.roles asked) ∧
        ∃ reserved sig, d = welcomeBytes w helloHash reserved ++ sig ∧ sig.length = 64 ∧
          verifyCtx C hubPub bbCtxWelcome (welcomeBytes w helloHash reserved) sig = true) ∧
    ∀ sid seq ts, ∃ d, bbBuildReset C 80 id sid seq ts = some d ∧ d.length = 80 ∧
      bbCheckReset C d id.pub.bytes = .ok (sid, seq, ts) := by
  refine ⟨?_, ?_, ?_, ?_⟩
  · intro roles ts ephPub name
    exact bbBuildHello_signed h roles ts ephPub name
  · intro w helloHash asked
    exact bbBuildWelcome_checked h w helloHash asked
  · intro d hubPub helloHash asked w
    exact bbCheckWelcome_ok_iff
  · intro sid seq ts
    exact bbBuildReset_checked h sid seq ts

/-- A hub that grants what was asked. -/
theorem handshake_codec_exact_beacon :
    ∃ d, bbBuildWelcome echoCrypto 148 beaconIdentity ⟨3, 1792000001, 0x1A2B3C4D, .zero 32, 25, 60, 300⟩ (.zero 32) =
        some d ∧ d.length = 148 ∧
      bbCheckWelcome echoCrypto d beaconIdentity.pub.bytes (.zero 32) 3 =
        .ok ⟨3, 1792000001, 0x1A2B3C4D, .zero 32, 25, 60, 300⟩ := by
  have hsigns : beaconIdentity.Signs echoCrypto := ⟨rfl, fun msg => beq_self_eq_true _⟩
  rcases (handshake_codec_exact hsigns).2.1 ⟨3, 1792000001, 0x1A2B3C4D, .zero 32, 25, 60, 300⟩ (.zero 32) 3 with
    ⟨d, hbuild, hlen, hcheck⟩
  exact ⟨d, hbuild, hlen, hcheck.trans (if_pos (by decide))⟩

end Meshcore
