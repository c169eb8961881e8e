import MeshcoreRepeater.Lib.Bytes
import Mathlib.Tactic.IntervalCases

/-! # Cryptographic primitives and byte order

The vendored primitives (SHA-256, AES-128, TweetNaCl's Ed25519) are parameters of
the model: everything below holds for any functions of these types. What the
repository builds from them itself, HMAC-SHA256 included, is defined as the code
defines it. The little-endian helpers of `util.h` are here too.

* `rdU16le_wrU16le`, `rdU32le_wrU32le`: words are read back from the bytes written for them.
* `Crypto.AesInverse.decrypt_encrypt`: the buffer functions undo each other when the block
  functions do.
-/

namespace Meshcore

open ByteLib

/-- The vendored primitives. -/
structure Crypto where
  /-- `sha256_init`, `sha256_update` and `sha256_final` over the whole message. -/
  sha256 : Bytes → Buf 32
  /-- `aes128_encrypt_block` under a 16-byte key. -/
  aesEncryptBlock : Bytes → Bytes → Buf 16
  /-- `aes128_decrypt_block` under a 16-byte key. -/
  aesDecryptBlock : Bytes → Bytes → Buf 16
  /-- The detached signature `crypto_sign` puts in front of the message. -/
  cryptoSign : Bytes → Bytes → Buf 64
  /-- `crypto_sign_open(sig || msg, pub)` accepts: key, signature, message. -/
  cryptoSignOpen : Bytes → Bytes → Bytes → Bool

/-- Primitives known on finitely many inputs: digests by message, and the triples
of key, signature and message that verify. -/
def Crypto.ofTable (digests : List (Bytes × Bytes)) (signed : List (Bytes × Bytes × Bytes)) :
    Crypto where
  sha256 msg := Buf.ofBytes 32 ((digests.lookup msg).getD [])
  aesEncryptBlock _ block := Buf.ofBytes 16 block
  aesDecryptBlock _ block := Buf.ofBytes 16 block
  cryptoSign _ _ := Buf.zero 64
  cryptoSignOpen pub sig msg := decide ((pub, sig, msg) ∈ signed)

/-! ## HMAC-SHA256 -/

def hmacBlock : Nat := 64

/-- `hmac_sha256`: keys longer than a block are hashed down, shorter ones
zero-padded. -/
def hmacSha256 (C : Crypto) (key msg : Bytes) : Bytes :=
  let k := (Buf.ofBytes hmacBlock (if key.length > hmacBlock then (C.sha256 key).bytes else key)).bytes
  let ipad := k.map (· ^^^ 0x36)
  let opad := k.map (· ^^^ 0x5c)
  let inner := (C.sha256 (ipad ++ msg)).bytes
  (C.sha256 (opad ++ inner)).bytes

theorem length_hmacSha256 (C : Crypto) (key msg : Bytes) : (hmacSha256 C key msg).length = 32 :=
  (C.sha256 _).length_eq

/-! ## AES-128 in ECB mode -/

/-- The loop of `aes128_ecb_encrypt` and `aes128_ecb_decrypt`: whole blocks in
place, a trailing partial block untouched. `fuel` bounds the blocks. -/
def ecbBlocks (block : Bytes → Buf 16) : Nat → Bytes → Bytes
  | 0, buf => buf
  | fuel + 1, buf =>
    if 16 ≤ buf.length then (block (buf.take 16)).bytes ++ ecbBlocks block fuel (buf.drop 16)
    else buf

def aes128EcbEncrypt (C : Crypto) (key buf : Bytes) : Bytes :=
  ecbBlocks (C.aesEncryptBlock (key.take 16)) buf.length buf

def aes128EcbDecrypt (C : Crypto) (key buf : Bytes) : Bytes :=
  ecbBlocks (C.aesDecryptBlock (key.take 16)) buf.length buf

theorem length_ecbBlocks (block : Bytes → Buf 16) (fuel : Nat) (buf : Bytes) :
    (ecbBlocks block fuel buf).length = buf.length := by
  induction fuel generalizing buf with
  | zero => rfl
  | succ fuel ih =>
    by_cases h : 16 ≤ buf.length
    · simp [ecbBlocks, h, ih, (block (buf.take 16)).length_eq]
    · simp [ecbBlocks, h]

/-- AES decryption undoes encryption, block by block. -/
def Crypto.AesInverse (C : Crypto) : Prop :=
  ∀ key block : Bytes, block.length = 16 →
    (C.aesDecryptBlock key (C.aesEncryptBlock key block).bytes).bytes = block

theorem ecbBlocks_inverse {enc dec : Bytes → Buf 16}
    (h : ∀ block, block.length = 16 → (dec (enc block).bytes).bytes = block) (fuel : Nat)
    (buf : Bytes) : ecbBlocks dec fuel (ecbBlocks enc fuel buf) = buf := by
  induction fuel generalizing buf with
  | zero => rfl
  | succ fuel ih =>
    by_cases hlen : 16 ≤ buf.length
    · have hblock : (buf.take 16).length = 16 := by simp [hlen]
      have henc := (enc (buf.take 16)).length_eq
      have hstep : ecbBlocks enc (fuel + 1) buf =
          (enc (buf.take 16)).bytes ++ ecbBlocks enc fuel (buf.drop 16) := if_pos hlen
      rw [hstep, ecbBlocks, if_pos (by simp [henc]), List.take_left' henc, List.drop_left' henc, ih,
        h _ hblock, List.take_append_drop]
    · have hstep : ecbBlocks enc (fuel + 1) buf = buf := if_neg hlen
      rw [hstep, ecbBlocks, if_neg hlen]

theorem Crypto.AesInverse.decrypt_encrypt {C : Crypto} (h : C.AesInverse) (key buf : Bytes) :
    aes128EcbDecrypt C key (aes128EcbEncrypt C key buf) = buf := by
  rw [aes128EcbDecrypt, aes128EcbEncrypt, length_ecbBlocks]
  exact ecbBlocks_inverse (fun block => h (key.take 16) block) buf.length buf

/-! ## Little-endian words -/

def rdU16le (p : Bytes) : UInt16 :=
  (p.getD 0 0).toUInt16 ||| ((p.getD 1 0).toUInt16 <<< 8)

def rdU32le (p : Bytes) : UInt32 :=
  (p.getD 0 0).toUInt32 ||| ((p.getD 1 0).toUInt32 <<< 8) |||
    ((p.getD 2 0).toUInt32 <<< 16) ||| ((p.getD 3 0).toUInt32 <<< 24)

/-- `(int32_t)rd_u32le(p)`. -/
def rdI32le (p : Bytes) : Int := (rdU32le p).toBitVec.toInt

def wrU16le (v : UInt16) : Bytes := [(v &&& 0xFF).toUInt8, ((v >>> 8) &&& 0xFF).toUInt8]

def wrU32le (v : UInt32) : Bytes :=
  [(v &&& 0xFF).toUInt8, ((v >>> 8) &&& 0xFF).toUInt8, ((v >>> 16) &&& 0xFF).toUInt8,
    ((v >>> 24) &&& 0xFF).toUInt8]

@[simp] theorem length_wrU16le (v : UInt16) : (wrU16le v).length = 2 := rfl

@[simp] theorem length_wrU32le (v : UInt32) : (wrU32le v).length = 4 := rfl

/-- A 16-bit word is read back from the two bytes written for it. -/
theorem rdU16le_wrU16le (v : UInt16) (rest : Bytes) : rdU16le (wrU16le v ++ rest) = v := by
  apply UInt16.toNat_inj.mp
  have hv := v.toNat_lt
  simp only [rdU16le, wrU16le, List.cons_append, List.nil_append, List.getD_cons_zero,
    List.getD_cons_succ, UInt16.toNat_or, UInt16.toNat_shiftLeft, UInt8.toNat_toUInt16,
    UInt16.toNat_toUInt8, UInt16.toNat_and, UInt16.toNat_shiftRight]
  have hlo : v.toNat &&& 255 = v.toNat % 256 := Nat.and_two_pow_sub_one_eq_mod v.toNat 8
  have hhi : v.toNat >>> 8 &&& 255 = v.toNat / 256 % 256 := by
    rw [Nat.shiftRight_eq_div_pow]
    exact Nat.and_two_pow_sub_one_eq_mod _ 8
  simp only [UInt16.reduceToNat, Nat.reduceMod, hlo, hhi]
  rw [Nat.or_comm, Nat.shiftLeft_eq, Nat.mod_eq_of_lt (a := _ * 2 ^ 8) (by omega)]
  rw [← Nat.shiftLeft_eq, ← Nat.shiftLeft_add_eq_or_of_lt (by omega), Nat.shiftLeft_eq]
  omega

/-- A 32-bit word is read back from the four bytes written for it. -/
theorem rdU32le_wrU32le (v : UInt32) (rest : Bytes) : rdU32le (wrU32le v ++ rest) = v := by
  apply UInt32.toBitVec_inj.mp
  ext i hi
  simp only [rdU32le, wrU32le, List.cons_append, List.nil_append, List.getD_cons_zero,
    List.getD_cons_succ, UInt32.toBitVec_or, UInt32.toBitVec_shiftLeft, UInt8.toBitVec_toUInt32,
    UInt32.toBitVec_toUInt8, UInt32.toBitVec_and, UInt32.toBitVec_shiftRight, UInt32.toBitVec_ofNat]
  interval_cases i <;> simp

/-- Four bytes are read back from the word they are read as. -/
theorem wrU32le_rdU32le {b : Bytes} (h : b.length = 4) : wrU32le (rdU32le b) = b := by
  obtain ⟨b0, b1, b2, b3, rfl⟩ : ∃ b0 b1 b2 b3, b = [b0, b1, b2, b3] := by
    match b, h with
    | [b0, b1, b2, b3], _ => exact ⟨b0, b1, b2, b3, rfl⟩
  simp only [rdU32le, wrU32le, List.getD_cons_zero, List.getD_cons_succ, List.cons.injEq, and_true]
  refine ⟨?_, ?_, ?_, ?_⟩ <;>
  · apply UInt8.toBitVec_inj.mp
    ext i hi
    simp only [UInt32.toBitVec_toUInt8, UInt32.toBitVec_and, UInt32.toBitVec_or,
      UInt32.toBitVec_shiftLeft, UInt32.toBitVec_shiftRight, UInt8.toBitVec_toUInt32,
      UInt32.toBitVec_ofNat]
    interval_cases i <;> simp

end Meshcore
