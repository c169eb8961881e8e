import MeshcoreRepeater.Crypto.Aes128
import MeshcoreRepeater.Crypto.Sha256

/-! # The vendored primitives at work

`Crypto.vendored` is a `Crypto` whose hash and cipher are the ones the repository
carries. What the rest of the development assumes of the cipher
(`Crypto.AesInverse`) holds of it, for whole buffers in both directions, and its
one-shot HMAC is what `hmac_sha256` computes through the streaming calls.

* `vendored_ecb`: the cipher on buffers.
* `hmacSha256Calls_eq`: the HMAC through the streaming calls.
-/

namespace Meshcore

open ByteLib Sha256 Aes128

/-- The vendored hash and cipher beside a signature scheme. -/
def Crypto.vendored (cryptoSign : Bytes → Bytes → Buf 64)
    (cryptoSignOpen : Bytes → Bytes → Bytes → Bool) : Crypto where
  sha256 := sha256Digest
  aesEncryptBlock key block := aes128EncryptBlock (aes128Init key) block
  aesDecryptBlock key block := aes128DecryptBlock (aes128Init key) block
  cryptoSign := cryptoSign
  cryptoSignOpen := cryptoSignOpen

section Vendored

variable (cryptoSign : Bytes → Bytes → Buf 64) (cryptoSignOpen : Bytes → Bytes → Bytes → Bool)

theorem Crypto.vendored_aesInverse : (Crypto.vendored cryptoSign cryptoSignOpen).AesInverse :=
  fun key _ hlen => aes128DecryptBlock_encryptBlock (aes128Init key) hlen

/-! ## Whole buffers -/

theorem ecbBlocks_succ (block : Bytes → Buf 16) (fuel : Nat) {buf : Bytes} (h : 16 ≤ buf.length) :
    ecbBlocks block (fuel + 1) buf =
      (block (buf.take 16)).bytes ++ ecbBlocks block fuel (buf.drop 16) := if_pos h

/-- Block `i` of the result is block `i` of the buffer, put through the block function. -/
theorem ecbBlocks_block (block : Bytes → Buf 16) {fuel i : Nat} {buf : Bytes}
    (hi : i * 16 + 16 ≤ buf.length) (hfuel : i < fuel) :
    ((ecbBlocks block fuel buf).drop (i * 16)).take 16 =
      (block ((buf.drop (i * 16)).take 16)).bytes := by
  induction i generalizing fuel buf with
  | zero =>
    cases fuel with
    | zero => cases hfuel
    | succ fuel =>
      rw [ecbBlocks_succ block fuel (by omega), Nat.zero_mul, List.drop_zero, List.drop_zero,
        List.take_left' (block _).length_eq]
  | succ i ih =>
    cases fuel with
    | zero => cases hfuel
    | succ fuel =>
      have hdrop : ∀ l : Bytes, l.drop ((i + 1) * 16) = (l.drop 16).drop (i * 16) := by
        intro l
        rw [List.drop_drop, Nat.succ_mul, Nat.add_comm]
      rw [Nat.succ_mul] at hi
      have hlen : (buf.drop 16).length = buf.length - 16 := List.length_drop
      rw [ecbBlocks_succ block fuel (by omega), hdrop, List.drop_left' (block _).length_eq, hdrop buf]
      exact ih (by omega) (by omega)

/-- Bytes after the last whole block stay as they are. -/
theorem ecbBlocks_rest (block : Bytes → Buf 16) {fuel : Nat} {buf : Bytes}
    (hfuel : buf.length / 16 ≤ fuel) :
    (ecbBlocks block fuel buf).drop (buf.length / 16 * 16) = buf.drop (buf.length / 16 * 16) := by
  induction fuel generalizing buf with
  | zero => rfl
  | succ fuel ih =>
    by_cases h : 16 ≤ buf.length
    · have hlen : (buf.drop 16).length / 16 = buf.length / 16 - 1 := by
        rw [List.length_drop]
        omega
      have hdrop : ∀ l : Bytes, l.drop (buf.length / 16 * 16) =
          (l.drop 16).drop ((buf.drop 16).length / 16 * 16) := by
        intro l
        rw [List.drop_drop, hlen]
        congr 1
        omega
      rw [ecbBlocks_succ block fuel h, hdrop, List.drop_left' (block _).length_eq, hdrop buf]
      apply ih
      omega
    · rw [ecbBlocks, if_neg h]

/-- The buffer functions of the vendored cipher are inverse to each other on buffers of
any length, work on each block alone, and leave a trailing partial block untouched. -/
theorem vendored_ecb (key buf : Bytes) :
    let C := Crypto.vendored cryptoSign cryptoSignOpen
    aes128EcbDecrypt C key (aes128EcbEncrypt C key buf) = buf ∧
      aes128EcbEncrypt C key (aes128EcbDecrypt C key buf) = buf ∧
      (∀ i, i * 16 + 16 ≤ buf.length →
        ((aes128EcbEncrypt C key buf).drop (i * 16)).take 16 =
          (aes128EncryptBlock (aes128Init (key.take 16)) ((buf.drop (i * 16)).take 16)).bytes) ∧
      (aes128EcbEncrypt C key buf).drop (buf.length / 16 * 16) = buf.drop (buf.length / 16 * 16) := by
  intro C
  refine ⟨?_, ?_, ?_, ?_⟩
  · exact (Crypto.vendored_aesInverse cryptoSign cryptoSignOpen).decrypt_encrypt key buf
  · rw [aes128EcbEncrypt, aes128EcbDecrypt, length_ecbBlocks]
    apply ecbBlocks_inverse
    intro block hlen
    exact aes128EncryptBlock_decryptBlock (aes128Init (key.take 16)) hlen
  · intro i hi
    exact ecbBlocks_block (C.aesEncryptBlock (key.take 16)) hi (by omega)
  · exact ecbBlocks_rest (C.aesEncryptBlock (key.take 16)) (Nat.div_le_self ..)

/-! ## HMAC through the streaming calls -/

/-- `sha256_init`, `sha256_update` over each of the parts, `sha256_final`: the context
that leaves, and the digest. -/
def hashParts (ctx : Sha256.Ctx) (parts : List Bytes) : Option (Sha256.Ctx × Buf 32) :=
  (parts.foldlM sha256Update (sha256Init ctx)).map sha256Final

/-- The key buffer `k` of `hmac_sha256`, and the context its hashing leaves. -/
def hmacKey (ctx : Sha256.Ctx) (key : Bytes) : Option (Sha256.Ctx × Buf hmacBlock) :=
  let k := Buf.zero hmacBlock
  if key.length > hmacBlock then
    (hashParts ctx [key]).map fun hashed => (hashed.1, k.blit 0 hashed.2.bytes)
  else some (ctx, k.blit 0 key)

/-- `out = H(opad || H(ipad || msg))` of `hmac_sha256`. -/
def hmacPads (ctx : Sha256.Ctx) (k : Buf hmacBlock) (msg : Bytes) : Option Bytes :=
  let ipad := k.bytes.map (· ^^^ 0x36)
  let opad := k.bytes.map (· ^^^ 0x5c)
  (hashParts ctx [ipad, msg]).bind fun inner =>
    (hashParts inner.1 [opad, inner.2.bytes]).map fun out => out.2.bytes

/-- `hmac_sha256` as it calls the hash, with one context for its hashes; `ctx` is what
the context holds on entry. -/
def hmacSha256Calls (ctx : Sha256.Ctx) (key msg : Bytes) : Option Bytes :=
  (hmacKey ctx key).bind fun keyed => hmacPads keyed.1 keyed.2 msg

/-- Parts hash as their concatenation. -/
theorem hashParts_eq (ctx : Sha256.Ctx) {parts : List Bytes}
    (hlen : ∀ part ∈ parts, part.length < 2 ^ 32) :
    ∃ ctx', hashParts ctx parts = some (ctx', sha256Digest parts.flatten) := by
  rcases absorbed_updates (absorbed_init ctx) hlen with ⟨c, hrun, habs⟩
  refine ⟨(sha256Final c).1, ?_⟩
  rw [hashParts, hrun, Option.map_some, ← List.nil_append parts.flatten, ← sha256Final_digest habs]

theorem hmacPads_eq (ctx : Sha256.Ctx) (k : Buf hmacBlock) {msg : Bytes}
    (hmsg : msg.length < 2 ^ 32) :
    hmacPads ctx k msg = some (sha256Digest (k.bytes.map (· ^^^ 0x5c) ++
      (sha256Digest (k.bytes.map (· ^^^ 0x36) ++ msg)).bytes)).bytes := by
  have hpad : ∀ x : UInt8, (k.bytes.map (· ^^^ x)).length < 2 ^ 32 := by
    intro x
    rw [List.length_map, k.length_eq, hmacBlock]
    omega
  have hpair : ∀ (x : UInt8) {b : Bytes}, b.length < 2 ^ 32 →
      ∀ part ∈ [k.bytes.map (· ^^^ x), b], part.length < 2 ^ 32 := by
    intro x b hb part hpart
    rcases List.mem_pair.mp hpart with rfl | rfl
    · exact hpad x
    · exact hb
  rcases hashParts_eq ctx (hpair 0x36 hmsg) with ⟨c, hinner⟩
  have hdigest : (sha256Digest (k.bytes.map (· ^^^ 0x36) ++ msg)).bytes.length < 2 ^ 32 := by
    rw [Buf.length_eq]
    omega
  rcases hashParts_eq c (hpair 0x5c hdigest) with ⟨c', houter⟩
  simp only [List.flatten_cons, List.flatten_nil, List.append_nil] at hinner houter
  rw [hmacPads, hinner, Option.bind_some, houter, Option.map_some]

/-- Long keys are hashed down, short ones zero-padded. -/
theorem hmacKey_eq (ctx : Sha256.Ctx) {key : Bytes} (hkey : key.length < 2 ^ 32) :
    ∃ ctx', hmacKey ctx key = some (ctx', Buf.ofBytes hmacBlock
      (if key.length > hmacBlock then (sha256Digest key).bytes else key)) := by
  by_cases hlong : key.length > hmacBlock
  · rcases hashParts_eq ctx (List.forall_mem_singleton.mpr hkey) with ⟨c, hhash⟩
    rw [List.flatten_singleton] at hhash
    refine ⟨c, ?_⟩
    rw [hmacKey, if_pos hlong, if_pos hlong, hhash, Option.map_some]
    rfl
  · refine ⟨ctx, ?_⟩
    rw [hmacKey, if_neg hlong, if_neg hlong]
    rfl

/-- `hmac_sha256` through the streaming calls is the one-shot definition, whatever is
in the context it finds on the stack. -/
theorem hmacSha256Calls_eq (ctx : Sha256.Ctx) {key msg : Bytes} (hkey : key.length < 2 ^ 32)
    (hmsg : msg.length < 2 ^ 32) :
    hmacSha256Calls ctx key msg =
      some (hmacSha256 (Crypto.vendored cryptoSign cryptoSignOpen) key msg) := by
  rcases hmacKey_eq ctx hkey with ⟨c, hk⟩
  rw [hmacSha256Calls, hk, Option.bind_some]
  exact hmacPads_eq c _ hmsg

end Vendored

theorem hmacSha256Calls_eq_ping :
    let unsigned := Crypto.vendored (fun _ msg => .ofBytes 64 msg) (fun _ _ _ => false)
    ∀ ctx, hmacSha256Calls ctx (lit "key") (lit "ping") =
      some (hmacSha256 unsigned (lit "key") (lit "ping")) := by
  intro unsigned ctx
  exact hmacSha256Calls_eq _ _ ctx (by decide) (by decide)

end Meshcore
