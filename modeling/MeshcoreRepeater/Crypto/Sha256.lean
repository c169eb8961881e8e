import MeshcoreRepeater.Crypto
import MeshcoreRepeater.Lib.BlockHash

/-! # SHA-256

The streaming hash of `crypto/sha256.c`: the compression function, and the context
that buffers up to a block between calls. However a message is cut into calls of
`sha256_update`, and whatever the context's buffer held before, the digest is that
of the padded message compressed block by block (`sha256Digest`).

* `absorbed_updates`: any cut into calls.
* `sha256Final_digest`: the padding.
* `sha256_of_chunks`: both.
-/

namespace Meshcore.Sha256

open ByteLib BlockHash

/-- Eight words: the chaining value `ctx->state`, or the registers of a round. -/
structure Regs where
  a : UInt32
  b : UInt32
  c : UInt32
  d : UInt32
  e : UInt32
  f : UInt32
  g : UInt32
  h : UInt32
deriving DecidableEq, Repr

def rotRight (a b : UInt32) : UInt32 := (a >>> b) ||| (a <<< (32 - b))

def ch (x y z : UInt32) : UInt32 := (x &&& y) ^^^ (~~~x &&& z)

def maj (x y z : UInt32) : UInt32 := (x &&& y) ^^^ (x &&& z) ^^^ (y &&& z)

def ep0 (x : UInt32) : UInt32 := rotRight x 2 ^^^ rotRight x 13 ^^^ rotRight x 22

def ep1 (x : UInt32) : UInt32 := rotRight x 6 ^^^ rotRight x 11 ^^^ rotRight x 25

def sig0 (x : UInt32) : UInt32 := rotRight x 7 ^^^ rotRight x 18 ^^^ (x >>> 3)

def sig1 (x : UInt32) : UInt32 := rotRight x 17 ^^^ rotRight x 19 ^^^ (x >>> 10)

def k : List UInt32 :=
  [0x428a2f98, 0x71374491, 0xb5c0fbcf, 0xe9b5dba5, 0x3956c25b, 0x59f111f1, 0x923f82a4, 0xab1c5ed5,
   0xd807aa98, 0x12835b01, 0x243185be, 0x550c7dc3, 0x72be5d74, 0x80deb1fe, 0x9bdc06a7, 0xc19bf174,
   0xe49b69c1, 0xefbe4786, 0x0fc19dc6, 0x240ca1cc, 0x2de92c6f, 0x4a7484aa, 0x5cb0a9dc, 0x76f988da,
   0x983e5152, 0xa831c66d, 0xb00327c8, 0xbf597fc7, 0xc6e00bf3, 0xd5a79147, 0x06ca6351, 0x14292967,
   0x27b70a85, 0x2e1b2138, 0x4d2c6dfc, 0x53380d13, 0x650a7354, 0x766a0abb, 0x81c2c92e, 0x92722c85,
   0xa2bfe8a1, 0xa81a664b, 0xc24b8b70, 0xc76c51a3, 0xd192e819, 0xd6990624, 0xf40e3585, 0x106aa070,
   0x19a4c116, 0x1e376c08, 0x2748774c, 0x34b0bcb5, 0x391c0cb3, 0x4ed8aa4a, 0x5b9cca4f, 0x682e6ff3,
   0x748f82ee, 0x78a5636f, 0x84c87814, 0x8cc70208, 0x90befffa, 0xa4506ceb, 0xbef9a3f7, 0xc67178f2]

/-! ## The compression function -/

/-- `m[i]` for `i < 16`: a big-endian word of the block. -/
def blockWord (data : Bytes) (i : Nat) : UInt32 :=
  ((data.getD (i * 4) 0).toUInt32 <<< 24) ||| ((data.getD (i * 4 + 1) 0).toUInt32 <<< 16) |||
    ((data.getD (i * 4 + 2) 0).toUInt32 <<< 8) ||| (data.getD (i * 4 + 3) 0).toUInt32

/-- `m[64]`. -/
def schedule (data : Bytes) : List UInt32 :=
  (List.range' 16 48).foldl
    (fun m i => m ++ [sig1 (m.getD (i - 2) 0) + m.getD (i - 7) 0 + sig0 (m.getD (i - 15) 0) +
      m.getD (i - 16) 0])
    ((List.range 16).map (blockWord data))

/-- One round. -/
def round (m : List UInt32) (r : Regs) (i : Nat) : Regs :=
  let t1 := r.h + ep1 r.e + ch r.e r.f r.g + k.getD i 0 + m.getD i 0
  let t2 := ep0 r.a + maj r.a r.b r.c
  { a := t1 + t2, b := r.a, c := r.b, d := r.c, e := r.d + t1, f := r.e, g := r.f, h := r.g }

def Regs.add (s r : Regs) : Regs :=
  ⟨s.a + r.a, s.b + r.b, s.c + r.c, s.d + r.d, s.e + r.e, s.f + r.f, s.g + r.g, s.h + r.h⟩

/-- `sha256_transform` on the chaining value. -/
def sha256Transform (state : Regs) (data : Bytes) : Regs :=
  state.add ((List.range 64).foldl (round (schedule data)) state)

/-! ## The context -/

/-- `SHA256_CTX`. -/
structure Ctx where
  data : Buf 64
  datalen : UInt32
  bitlen : UInt64
  state : Regs
deriving DecidableEq

/-- The chaining value `sha256_init` sets. -/
def initState : Regs where
  a := 0x6a09e667
  b := 0xbb67ae85
  c := 0x3c6ef372
  d := 0xa54ff53a
  e := 0x510e527f
  f := 0x9b05688c
  g := 0x1f83d9ab
  h := 0x5be0cd19

/-- `sha256_init`: the buffer keeps what it held. -/
def sha256Init (ctx : Ctx) : Ctx := { ctx with datalen := 0, bitlen := 0, state := initState }

/-- The body of the loop of `sha256_update`. -/
def sha256Byte (ctx : Ctx) (c : UInt8) : Ctx :=
  let ctx := { ctx with data := ctx.data.blit ctx.datalen.toNat [c], datalen := ctx.datalen + 1 }
  if ctx.datalen = 64 then
    { ctx with
      state := sha256Transform ctx.state ctx.data.bytes
      bitlen := ctx.bitlen + 512
      datalen := 0 }
  else ctx

/-- `sha256_update`. The loop counts in a 32-bit `WORD` and never ends for a longer
input. -/
def sha256Update (ctx : Ctx) (data : Bytes) : Option Ctx :=
  if data.length < 2 ^ 32 then some (data.foldl sha256Byte ctx) else none

/-- `ctx->data[i++] = 0x80`, then zeros up to `limit`. -/
def padTo (data : Buf 64) (i limit : Nat) : Buf 64 :=
  data.blit i (0x80 :: List.replicate (limit - (i + 1)) 0)

/-- `ctx->data[63] = ctx->bitlen` down to `ctx->data[56] = ctx->bitlen >> 56`. -/
def lengthBytes (bitlen : UInt64) : Bytes :=
  [(bitlen >>> 56).toUInt8, (bitlen >>> 48).toUInt8, (bitlen >>> 40).toUInt8,
    (bitlen >>> 32).toUInt8, (bitlen >>> 24).toUInt8, (bitlen >>> 16).toUInt8,
    (bitlen >>> 8).toUInt8, bitlen.toUInt8]

/-- A word, most significant byte first. -/
def wordBytes (w : UInt32) : Bytes :=
  (List.range 4).map fun i => ((w >>> UInt32.ofNat (24 - i * 8)) &&& 0xff).toUInt8

/-- The last loop of `sha256_final`. -/
def Regs.hash (r : Regs) : Buf 32 where
  bytes := wordBytes r.a ++ wordBytes r.b ++ wordBytes r.c ++ wordBytes r.d ++ wordBytes r.e ++
    wordBytes r.f ++ wordBytes r.g ++ wordBytes r.h
  length_eq := by simp [wordBytes]

/-- `sha256_final`: the context it leaves, and the digest. -/
def sha256Final (ctx : Ctx) : Ctx × Buf 32 :=
  let i := ctx.datalen.toNat
  let ctx :=
    if i < 56 then { ctx with data := padTo ctx.data i 56 }
    else
      let data := padTo ctx.data i 64
      { ctx with
        state := sha256Transform ctx.state data.bytes
        data := data.blit 0 (List.replicate 56 0) }
  let bitlen := ctx.bitlen + (ctx.datalen * 8).toUInt64
  let data := ctx.data.blit 56 (lengthBytes bitlen)
  let state := sha256Transform ctx.state data.bytes
  ({ ctx with data, bitlen, state }, state.hash)

/-! ## The digest of a message -/

/-- The message, a one bit, zeros up to eight bytes before a block's end, and the
length in bits. -/
def padded (m : Bytes) : Bytes :=
  m ++ 0x80 :: List.replicate ((119 - m.length % 64) % 64) 0 ++ bytesBE 8 (8 * m.length)

/-- The padded message compressed block by block. -/
def sha256Digest (m : Bytes) : Buf 32 := (foldBlocks 64 sha256Transform initState (padded m)).hash

example : (sha256Digest (lit "abc")).bytes.take 4 = [0xba, 0x78, 0x16, 0xbf] := by decide +kernel

/-! ## What the context has taken in -/

/-- The context after the bytes of `m`: its whole blocks compressed, the rest at the
front of the buffer. -/
structure Absorbed (ctx : Ctx) (m : Bytes) : Prop where
  state : ctx.state = foldBlocks 64 sha256Transform initState m
  datalen : ctx.datalen.toNat = m.length % 64
  buffered : ctx.data.read 0 (m.length % 64) = rest 64 m
  bitlen : ctx.bitlen = UInt64.ofNat (512 * (m.length / 64))

theorem absorbed_init (ctx : Ctx) : Absorbed (sha256Init ctx) [] where
  state := (foldBlocks_nil initState).symm
  datalen := rfl
  buffered := by simp [Buf.read, rest]
  bitlen := rfl

theorem read_full (b : Buf 64) : b.read 0 64 = b.bytes := by
  rw [Buf.read, List.drop_zero, List.take_of_length_le (by rw [b.length_eq])]

theorem absorbed_byte {ctx : Ctx} {m : Bytes} (h : Absorbed ctx m) (c : UInt8) :
    Absorbed (sha256Byte ctx c) (m ++ [c]) := by
  have hr : m.length % 64 < 64 := Nat.mod_lt _ (by decide)
  have hlen : (m ++ [c]).length = m.length + 1 := by simp
  have hnext : (ctx.datalen + 1).toNat = m.length % 64 + 1 := by
    rw [UInt32.toNat_add, h.datalen]
    exact Nat.mod_eq_of_lt (show m.length % 64 + 1 < 2 ^ 32 by omega)
  have hread : (ctx.data.blit ctx.datalen.toNat [c]).read 0 (m.length % 64 + 1) = rest 64 m ++ [c] := by
    have happ := Buf.read_blit_append ctx.data ctx.datalen.toNat [c]
      (by rw [h.datalen, List.length_singleton]; omega)
    rw [h.datalen, h.buffered, List.length_singleton] at happ
    rw [h.datalen, happ]
  by_cases hfull : m.length % 64 + 1 = 64
  · have heq : ctx.datalen + 1 = 64 := UInt32.toNat_inj.mp (by rw [hnext, hfull]; rfl)
    obtain ⟨hfold, hrest⟩ :=
      foldBlocks_concat_full sha256Transform initState c hfull
    rw [sha256Byte, if_pos heq]
    constructor
    · rw [hfold, ← h.state, ← hread, hfull, read_full]
    · show (0 : UInt32).toNat = _
      rw [hlen, UInt32.toNat_zero]
      omega
    · rw [hrest, show (m ++ [c]).length % 64 = 0 by rw [hlen]; omega]
      simp [Buf.read]
    · show ctx.bitlen + 512 = _
      rw [h.bitlen, show (m ++ [c]).length / 64 = m.length / 64 + 1 by rw [hlen]; omega, Nat.mul_add,
        UInt64.ofNat_add]
      rfl
  · have hne : ctx.datalen + 1 ≠ 64 := by
      intro heq
      rw [heq] at hnext
      exact hfull hnext.symm
    obtain ⟨hfold, hrest⟩ := foldBlocks_concat sha256Transform initState c
      (show m.length % 64 + 1 < 64 by omega)
    have hmod : (m ++ [c]).length % 64 = m.length % 64 + 1 := by rw [hlen]; omega
    rw [sha256Byte, if_neg hne]
    constructor
    · exact h.state.trans hfold.symm
    · rw [hmod]
      exact hnext
    · rw [hmod, hrest]
      exact hread
    · rw [show (m ++ [c]).length / 64 = m.length / 64 by rw [hlen]; omega]
      exact h.bitlen

theorem absorbed_bytes {ctx : Ctx} {m : Bytes} (h : Absorbed ctx m) (data : Bytes) :
    Absorbed (data.foldl sha256Byte ctx) (m ++ data) := by
  induction data generalizing ctx m with
  | nil => simpa using h
  | cons c data ih =>
    have hstep := ih (absorbed_byte h c)
    rwa [List.append_assoc, List.singleton_append] at hstep

/-- Every cut of the input into calls. -/
theorem absorbed_updates {ctx : Ctx} {m : Bytes} (h : Absorbed ctx m) {chunks : List Bytes}
    (hlen : ∀ chunk ∈ chunks, chunk.length < 2 ^ 32) :
    ∃ ctx', chunks.foldlM sha256Update ctx = some ctx' ∧ Absorbed ctx' (m ++ chunks.flatten) := by
  induction chunks generalizing ctx m with
  | nil => exact ⟨ctx, rfl, by simpa using h⟩
  | cons chunk chunks ih =>
    rcases ih (absorbed_bytes h chunk) fun x hx => hlen x (List.mem_cons_of_mem _ hx)
      with ⟨ctx', hrun, habs⟩
    refine ⟨ctx', ?_, by simpa using habs⟩
    rw [List.foldlM_cons, sha256Update, if_pos (hlen chunk List.mem_cons_self)]
    exact hrun

/-! ## The last blocks -/

theorem lengthBytes_ofNat (n : Nat) : lengthBytes (UInt64.ofNat n) = bytesBE 8 n := by
  have hbyte : ∀ k : UInt64, k.toNat < 64 → k.toNat % 8 = 0 →
      (UInt64.ofNat n >>> k).toUInt8 = UInt8.ofNat (n / 256 ^ (k.toNat / 8)) := by
    intro k hk hk8
    apply UInt8.toNat_inj.mp
    have hpow : 256 ^ (k.toNat / 8) = 2 ^ k.toNat := by
      rw [show (256 : Nat) = 2 ^ 8 from rfl, ← Nat.pow_mul, Nat.mul_div_cancel' (Nat.dvd_of_mod_eq_zero hk8)]
    rw [UInt64.toNat_toUInt8, UInt64.toNat_shiftRight, Nat.mod_eq_of_lt hk, UInt64.toNat_ofNat',
      Nat.shiftRight_eq_div_pow, UInt8.toNat_ofNat', hpow]
    have hsplit : (2 : Nat) ^ 64 = 2 ^ k.toNat * 2 ^ (64 - k.toNat) := by
      rw [← Nat.pow_add]
      congr 1
      omega
    rw [hsplit, Nat.mod_mul_right_div_self]
    exact Nat.mod_mod_of_dvd _ (pow_dvd_pow 2 (by omega))
  have hlast : (UInt64.ofNat n).toUInt8 = UInt8.ofNat n := by
    apply UInt8.toNat_inj.mp
    rw [UInt64.toNat_toUInt8, UInt64.toNat_ofNat', UInt8.toNat_ofNat']
    omega
  rw [lengthBytes, hbyte 56 (by decide) rfl, hbyte 48 (by decide) rfl, hbyte 40 (by decide) rfl,
    hbyte 32 (by decide) rfl, hbyte 24 (by decide) rfl, hbyte 16 (by decide) rfl,
    hbyte 8 (by decide) rfl, hlast]
  simp [bytesBE, List.range_succ]

/-- The bit length `sha256_final` writes, the wrap at `2 ^ 64` included. -/
theorem Absorbed.bits {ctx : Ctx} {m : Bytes} (h : Absorbed ctx m) :
    ctx.bitlen + (ctx.datalen * 8).toUInt64 = UInt64.ofNat (8 * m.length) := by
  have hr : m.length % 64 < 64 := Nat.mod_lt _ (by decide)
  have hdl : (ctx.datalen * 8).toUInt64 = UInt64.ofNat (8 * (m.length % 64)) := by
    apply UInt64.toNat_inj.mp
    rw [UInt32.toNat_toUInt64, UInt32.toNat_mul, h.datalen, UInt64.toNat_ofNat']
    show m.length % 64 * 8 % 2 ^ 32 = _
    omega
  rw [h.bitlen, hdl, ← UInt64.ofNat_add]
  congr 1
  omega

theorem read_padTo (data : Buf 64) {i limit : Nat} (hi : i < limit) (hlimit : limit ≤ 64) :
    (padTo data i limit).read 0 limit =
      data.read 0 i ++ 0x80 :: List.replicate (limit - (i + 1)) 0 := by
  have happ := Buf.read_blit_append data i (0x80 :: List.replicate (limit - (i + 1)) 0)
    (by simp; omega)
  rwa [show i + (0x80 :: List.replicate (limit - (i + 1)) (0 : UInt8)).length = limit by
    simp; omega] at happ

/-- The buffer once the length is written after its first 56 bytes. -/
theorem bytes_blit_length (data : Buf 64) (bitlen : UInt64) :
    (data.blit 56 (lengthBytes bitlen)).bytes = data.read 0 56 ++ lengthBytes bitlen := by
  rw [← read_full]
  exact Buf.read_blit_append data 56 (lengthBytes bitlen) (by simp [lengthBytes])

theorem sha256Final_digest {ctx : Ctx} {m : Bytes} (h : Absorbed ctx m) :
    (sha256Final ctx).2 = sha256Digest m := by
  have hr : m.length % 64 < 64 := Nat.mod_lt _ (by decide)
  have hlenb : (lengthBytes (UInt64.ofNat (8 * m.length))).length = 8 := rfl
  have hrest : (rest 64 m).length = m.length % 64 := length_rest m
  rw [sha256Digest, padded, List.append_assoc, foldBlocks_append_rest (by decide), ← h.state,
    ← lengthBytes_ofNat, ← h.bits, sha256Final, h.datalen]
  by_cases hshort : m.length % 64 < 56
  · -- the length still fits behind the padding
    simp only [if_pos hshort, bytes_blit_length, read_padTo ctx.data hshort (by decide), h.buffered]
    rw [show (119 - m.length % 64) % 64 = 56 - (m.length % 64 + 1) by omega, foldBlocks_block _ (by decide)]
    · simp
    · simp [hrest, lengthBytes]
      omega
  · -- the padding fills the block, and a block of zeros carries the length
    simp only [if_neg hshort, bytes_blit_length]
    have hfull := read_padTo ctx.data hr (Nat.le_refl 64)
    rw [read_full, h.buffered] at hfull
    have hzero : ((padTo ctx.data (m.length % 64) 64).blit 0 (List.replicate 56 0)).read 0 56 =
        List.replicate 56 0 := by
      have hz := Buf.read_blit_same (padTo ctx.data (m.length % 64) 64) 0 (List.replicate 56 0) (by decide)
      rwa [List.length_replicate] at hz
    rw [hzero, hfull, show (119 - m.length % 64) % 64 = 64 - (m.length % 64 + 1) + 56 by omega,
      List.replicate_add]
    have hblock : (rest 64 m ++ 0x80 :: List.replicate (64 - (m.length % 64 + 1)) 0).length = 64 := by
      simp [hrest]
      omega
    have hcut : ∀ tail : Bytes, rest 64 m ++ (0x80 :: (List.replicate (64 - (m.length % 64 + 1)) 0 ++
        List.replicate 56 0) ++ tail) =
        (rest 64 m ++ 0x80 :: List.replicate (64 - (m.length % 64 + 1)) 0) ++
          (List.replicate 56 0 ++ tail) := by simp
    rw [hcut, foldBlocks_append (by decide) _ (by rw [hblock]), foldBlocks_block _ (by decide) hblock,
      foldBlocks_block _ (by decide) (by simp [lengthBytes])]

/-- Any cut of a message into calls of `sha256_update`, from a context whose buffer
holds anything, gives the digest of the whole message. -/
theorem sha256_of_chunks (ctx : Ctx) (chunks : List Bytes)
    (hlen : ∀ chunk ∈ chunks, chunk.length < 2 ^ 32) :
    (chunks.foldlM sha256Update (sha256Init ctx)).map (fun ctx => (sha256Final ctx).2) =
      some (sha256Digest chunks.flatten) := by
  obtain ⟨ctx', hrun, habs⟩ := absorbed_updates (absorbed_init ctx) hlen
  rw [hrun, Option.map_some, sha256Final_digest habs, List.nil_append]

/-- A context left behind in the middle of a block. -/
def leftBehind : Ctx := ⟨Buf.zero 64, 63, 512, initState⟩

theorem sha256_of_chunks_abc :
    ([lit "a", lit "bc"].foldlM sha256Update (sha256Init leftBehind)).map
        (fun ctx => (sha256Final ctx).2) =
      some (sha256Digest (lit "abc")) := by
  refine sha256_of_chunks leftBehind [lit "a", lit "bc"] ?_
  intro chunk hchunk
  rcases List.mem_cons.mp hchunk with rfl | hchunk
  · decide
  · rcases List.mem_singleton.mp hchunk with rfl
    decide

end Meshcore.Sha256
