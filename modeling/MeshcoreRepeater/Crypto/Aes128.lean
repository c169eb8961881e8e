import MeshcoreRepeater.Crypto

/-! # AES-128

The block cipher of `crypto/aes128.c`: the tables, the key schedule and the layers
of a round as the code computes them, and the block and buffer functions built
from them. Decryption undoes encryption under every key, and the other way round:
each layer has an inverse, and the mixing layers are inverse to each other because
`xtime` is additive for exclusive or.

* `invMixColumn_mixColumn`, `invShiftRows_shiftRows`, `invSubBytes_subBytes`: each layer is
  undone.
* `decryptRounds_encryptRounds`: so are the rounds.
* `aes128DecryptBlock_encryptBlock`, `aes128EncryptBlock_decryptBlock`: so is the cipher.
-/

namespace Meshcore.Aes128

open ByteLib

/-- Columns of the state. -/
def nb : Nat := 4

/-- Words of the key. -/
def nk : Nat := 4

/-- Rounds. -/
def nr : Nat := 10

def sboxTable : Bytes :=
  [0x63, 0x7c, 0x77, 0x7b, 0xf2, 0x6b, 0x6f, 0xc5, 0x30, 0x01, 0x67, 0x2b, 0xfe, 0xd7, 0xab, 0x76,
   0xca, 0x82, 0xc9, 0x7d, 0xfa, 0x59, 0x47, 0xf0, 0xad, 0xd4, 0xa2, 0xaf, 0x9c, 0xa4, 0x72, 0xc0,
   0xb7, 0xfd, 0x93, 0x26, 0x36, 0x3f, 0xf7, 0xcc, 0x34, 0xa5, 0xe5, 0xf1, 0x71, 0xd8, 0x31, 0x15,
   0x04, 0xc7, 0x23, 0xc3, 0x18, 0x96, 0x05, 0x9a, 0x07, 0x12, 0x80, 0xe2, 0xeb, 0x27, 0xb2, 0x75,
   0x09, 0x83, 0x2c, 0x1a, 0x1b, 0x6e, 0x5a, 0xa0, 0x52, 0x3b, 0xd6, 0xb3, 0x29, 0xe3, 0x2f, 0x84,
   0x53, 0xd1, 0x00, 0xed, 0x20, 0xfc, 0xb1, 0x5b, 0x6a, 0xcb, 0xbe, 0x39, 0x4a, 0x4c, 0x58, 0xcf,
   0xd0, 0xef, 0xaa, 0xfb, 0x43, 0x4d, 0x33, 0x85, 0x45, 0xf9, 0x02, 0x7f, 0x50, 0x3c, 0x9f, 0xa8,
   0x51, 0xa3, 0x40, 0x8f, 0x92, 0x9d, 0x38, 0xf5, 0xbc, 0xb6, 0xda, 0x21, 0x10, 0xff, 0xf3, 0xd2,
   0xcd, 0x0c, 0x13, 0xec, 0x5f, 0x97, 0x44, 0x17, 0xc4, 0xa7, 0x7e, 0x3d, 0x64, 0x5d, 0x19, 0x73,
   0x60, 0x81, 0x4f, 0xdc, 0x22, 0x2a, 0x90, 0x88, 0x46, 0xee, 0xb8, 0x14, 0xde, 0x5e, 0x0b, 0xdb,
   0xe0, 0x32, 0x3a, 0x0a, 0x49, 0x06, 0x24, 0x5c, 0xc2, 0xd3, 0xac, 0x62, 0x91, 0x95, 0xe4, 0x79,
   0xe7, 0xc8, 0x37, 0x6d, 0x8d, 0xd5, 0x4e, 0xa9, 0x6c, 0x56, 0xf4, 0xea, 0x65, 0x7a, 0xae, 0x08,
   0xba, 0x78, 0x25, 0x2e, 0x1c, 0xa6, 0xb4, 0xc6, 0xe8, 0xdd, 0x74, 0x1f, 0x4b, 0xbd, 0x8b, 0x8a,
   0x70, 0x3e, 0xb5, 0x66, 0x48, 0x03, 0xf6, 0x0e, 0x61, 0x35, 0x57, 0xb9, 0x86, 0xc1, 0x1d, 0x9e,
   0xe1, 0xf8, 0x98, 0x11, 0x69, 0xd9, 0x8e, 0x94, 0x9b, 0x1e, 0x87, 0xe9, 0xce, 0x55, 0x28, 0xdf,
   0x8c, 0xa1, 0x89, 0x0d, 0xbf, 0xe6, 0x42, 0x68, 0x41, 0x99, 0x2d, 0x0f, 0xb0, 0x54, 0xbb, 0x16]

def rsboxTable : Bytes :=
  [0x52, 0x09, 0x6a, 0xd5, 0x30, 0x36, 0xa5, 0x38, 0xbf, 0x40, 0xa3, 0x9e, 0x81, 0xf3, 0xd7, 0xfb,
   0x7c, 0xe3, 0x39, 0x82, 0x9b, 0x2f, 0xff, 0x87, 0x34, 0x8e, 0x43, 0x44, 0xc4, 0xde, 0xe9, 0xcb,
   0x54, 0x7b, 0x94, 0x32, 0xa6, 0xc2, 0x23, 0x3d, 0xee, 0x4c, 0x95, 0x0b, 0x42, 0xfa, 0xc3, 0x4e,
   0x08, 0x2e, 0xa1, 0x66, 0x28, 0xd9, 0x24, 0xb2, 0x76, 0x5b, 0xa2, 0x49, 0x6d, 0x8b, 0xd1, 0x25,
   0x72, 0xf8, 0xf6, 0x64, 0x86, 0x68, 0x98, 0x16, 0xd4, 0xa4, 0x5c, 0xcc, 0x5d, 0x65, 0xb6, 0x92,
   0x6c, 0x70, 0x48, 0x50, 0xfd, 0xed, 0xb9, 0xda, 0x5e, 0x15, 0x46, 0x57, 0xa7, 0x8d, 0x9d, 0x84,
   0x90, 0xd8, 0xab, 0x00, 0x8c, 0xbc, 0xd3, 0x0a, 0xf7, 0xe4, 0x58, 0x05, 0xb8, 0xb3, 0x45, 0x06,
   0xd0, 0x2c, 0x1e, 0x8f, 0xca, 0x3f, 0x0f, 0x02, 0xc1, 0xaf, 0xbd, 0x03, 0x01, 0x13, 0x8a, 0x6b,
   0x3a, 0x91, 0x11, 0x41, 0x4f, 0x67, 0xdc, 0xea, 0x97, 0xf2, 0xcf, 0xce, 0xf0, 0xb4, 0xe6, 0x73,
   0x96, 0xac, 0x74, 0x22, 0xe7, 0xad, 0x35, 0x85, 0xe2, 0xf9, 0x37, 0xe8, 0x1c, 0x75, 0xdf, 0x6e,
   0x47, 0xf1, 0x1a, 0x71, 0x1d, 0x29, 0xc5, 0x89, 0x6f, 0xb7, 0x62, 0x0e, 0xaa, 0x18, 0xbe, 0x1b,
   0xfc, 0x56, 0x3e, 0x4b, 0xc6, 0xd2, 0x79, 0x20, 0x9a, 0xdb, 0xc0, 0xfe, 0x78, 0xcd, 0x5a, 0xf4,
   0x1f, 0xdd, 0xa8, 0x33, 0x88, 0x07, 0xc7, 0x31, 0xb1, 0x12, 0x10, 0x59, 0x27, 0x80, 0xec, 0x5f,
   0x60, 0x51, 0x7f, 0xa9, 0x19, 0xb5, 0x4a, 0x0d, 0x2d, 0xe5, 0x7a, 0x9f, 0x93, 0xc9, 0x9c, 0xef,
   0xa0, 0xe0, 0x3b, 0x4d, 0xae, 0x2a, 0xf5, 0xb0, 0xc8, 0xeb, 0xbb, 0x3c, 0x83, 0x53, 0x99, 0x61,
   0x17, 0x2b, 0x04, 0x7e, 0xba, 0x77, 0xd6, 0x26, 0xe1, 0x69, 0x14, 0x63, 0x55, 0x21, 0x0c, 0x7d]

def rconTable : Bytes :=
  [0x8d, 0x01, 0x02, 0x04, 0x08, 0x10, 0x20, 0x40, 0x80, 0x1b, 0x36]

def sbox (x : UInt8) : UInt8 := sboxTable.getD x.toNat 0

def rsbox (x : UInt8) : UInt8 := rsboxTable.getD x.toNat 0

def rcon (i : Nat) : UInt8 := rconTable.getD i 0

/-- Four bytes: a column `(*state)[i]`, or a word of the key schedule. -/
structure Column where
  b0 : UInt8
  b1 : UInt8
  b2 : UInt8
  b3 : UInt8
deriving DecidableEq, Repr

/-- `state_t`: the sixteen bytes of a block, four columns of four. -/
structure State where
  c0 : Column
  c1 : Column
  c2 : Column
  c3 : Column
deriving DecidableEq, Repr

namespace Column

def bytes (c : Column) : Bytes := [c.b0, c.b1, c.b2, c.b3]

/-- The four bytes at `off`. -/
def ofBytes (p : Bytes) (off : Nat) : Column :=
  ⟨p.getD off 0, p.getD (off + 1) 0, p.getD (off + 2) 0, p.getD (off + 3) 0⟩

def map (f : UInt8 → UInt8) (c : Column) : Column := ⟨f c.b0, f c.b1, f c.b2, f c.b3⟩

def xor (c d : Column) : Column := ⟨c.b0 ^^^ d.b0, c.b1 ^^^ d.b1, c.b2 ^^^ d.b2, c.b3 ^^^ d.b3⟩

@[simp] theorem length_bytes (c : Column) : c.bytes.length = 4 := rfl

/-- Adding the same word twice gives the column back. -/
@[simp] theorem xor_xor (c d : Column) : (c.xor d).xor d = c := by
  cases c
  simp [xor, UInt8.xor_assoc]

theorem map_map_of_leftInverse {f g : UInt8 → UInt8} (h : Function.LeftInverse g f) (c : Column) :
    (c.map f).map g = c := by
  cases c
  simp [map, h _]

end Column

namespace State

/-- `(state_t *)block`. -/
def ofBlock (block : Bytes) : State :=
  ⟨Column.ofBytes block 0, Column.ofBytes block 4, Column.ofBytes block 8, Column.ofBytes block 12⟩

def map (f : Column → Column) (s : State) : State := ⟨f s.c0, f s.c1, f s.c2, f s.c3⟩

/-- The state read back as the block it lies over. -/
def block (s : State) : Buf 16 where
  bytes := s.c0.bytes ++ s.c1.bytes ++ s.c2.bytes ++ s.c3.bytes
  length_eq := rfl

theorem ofBlock_block (s : State) : ofBlock s.block.bytes = s := rfl

theorem block_ofBlock {p : Bytes} (h : p.length = 16) : (ofBlock p).block.bytes = p := by
  match p, h with
  | [_, _, _, _, _, _, _, _, _, _, _, _, _, _, _, _], _ => rfl

theorem map_map_of_leftInverse {f g : Column → Column} (h : Function.LeftInverse g f) (s : State) :
    (s.map f).map g = s := by
  cases s
  simp [map, h _]

end State

/-! ## The key schedule -/

/-- `aes128_ctx_t`. -/
structure Ctx where
  roundKey : Buf 176

/-- One turn of the second loop of `KeyExpansion`: word `i` from words `i - 1`
and `i - Nk`. -/
def expandWord (roundKey : Buf 176) (i : Nat) : Buf 176 :=
  let tempa := Column.ofBytes roundKey.bytes ((i - 1) * 4)
  let tempa : Column :=
    if i % nk = 0 then
      let t : Column := ⟨tempa.b1, tempa.b2, tempa.b3, tempa.b0⟩
      let t := t.map sbox
      { t with b0 := t.b0 ^^^ rcon (i / nk) }
    else tempa
  roundKey.blit (i * 4) ((Column.ofBytes roundKey.bytes ((i - nk) * 4)).xor tempa).bytes

def keyExpansion (key : Bytes) : Buf 176 :=
  (List.range' nk (nb * (nr + 1) - nk)).foldl expandWord (Buf.ofBytes 176 (key.take 16))

def aes128Init (key : Bytes) : Ctx := ⟨keyExpansion key⟩

/-! ## The layers of a round -/

def addRoundKey (round : Nat) (roundKey : Buf 176) (s : State) : State :=
  let word (i : Nat) := Column.ofBytes roundKey.bytes (round * nb * 4 + i * nb)
  ⟨s.c0.xor (word 0), s.c1.xor (word 1), s.c2.xor (word 2), s.c3.xor (word 3)⟩

def subBytes (s : State) : State := s.map (Column.map sbox)

def invSubBytes (s : State) : State := s.map (Column.map rsbox)

/-- Row `j` moves `j` columns to the left. -/
def shiftRows (s : State) : State where
  c0 := ⟨s.c0.b0, s.c1.b1, s.c2.b2, s.c3.b3⟩
  c1 := ⟨s.c1.b0, s.c2.b1, s.c3.b2, s.c0.b3⟩
  c2 := ⟨s.c2.b0, s.c3.b1, s.c0.b2, s.c1.b3⟩
  c3 := ⟨s.c3.b0, s.c0.b1, s.c1.b2, s.c2.b3⟩

/-- Row `j` moves `j` columns to the right. -/
def invShiftRows (s : State) : State where
  c0 := ⟨s.c0.b0, s.c3.b1, s.c2.b2, s.c1.b3⟩
  c1 := ⟨s.c1.b0, s.c0.b1, s.c3.b2, s.c2.b3⟩
  c2 := ⟨s.c2.b0, s.c1.b1, s.c0.b2, s.c3.b3⟩
  c3 := ⟨s.c3.b0, s.c2.b1, s.c1.b2, s.c0.b3⟩

def xtime (x : UInt8) : UInt8 := (x <<< 1) ^^^ (((x >>> 7) &&& 1) * 0x1b)

/-- The body of the loop of `MixColumns`. -/
def mixColumn (c : Column) : Column :=
  let t := c.b0
  let tmp := c.b0 ^^^ c.b1 ^^^ c.b2 ^^^ c.b3
  { b0 := c.b0 ^^^ (xtime (c.b0 ^^^ c.b1) ^^^ tmp)
    b1 := c.b1 ^^^ (xtime (c.b1 ^^^ c.b2) ^^^ tmp)
    b2 := c.b2 ^^^ (xtime (c.b2 ^^^ c.b3) ^^^ tmp)
    b3 := c.b3 ^^^ (xtime (c.b3 ^^^ t) ^^^ tmp) }

def mixColumns (s : State) : State := s.map mixColumn

def multiply (x y : UInt8) : UInt8 :=
  ((y &&& 1) * x) ^^^
    (((y >>> (1 : UInt8)) &&& 1) * xtime x) ^^^
    (((y >>> (2 : UInt8)) &&& 1) * xtime (xtime x)) ^^^
    (((y >>> (3 : UInt8)) &&& 1) * xtime (xtime (xtime x))) ^^^
    (((y >>> (4 : UInt8)) &&& 1) * xtime (xtime (xtime (xtime x))))

/-- The body of the loop of `InvMixColumns`. -/
def invMixColumn (s : Column) : Column :=
  let ⟨a, b, c, d⟩ := s
  { b0 := multiply a 0x0e ^^^ multiply b 0x0b ^^^ multiply c 0x0d ^^^ multiply d 0x09
    b1 := multiply a 0x09 ^^^ multiply b 0x0e ^^^ multiply c 0x0b ^^^ multiply d 0x0d
    b2 := multiply a 0x0d ^^^ multiply b 0x09 ^^^ multiply c 0x0e ^^^ multiply d 0x0b
    b3 := multiply a 0x0b ^^^ multiply b 0x0d ^^^ multiply c 0x09 ^^^ multiply d 0x0e }

def invMixColumns (s : State) : State := s.map invMixColumn

/-! ## Blocks and buffers -/

/-- The loop of `aes128_encrypt_block`, its first `n` rounds. -/
def encryptRounds (roundKey : Buf 176) (n : Nat) (s : State) : State :=
  (List.range' 1 n).foldl
    (fun s round => addRoundKey round roundKey (mixColumns (shiftRows (subBytes s)))) s

def aes128EncryptBlock (ctx : Ctx) (block : Bytes) : Buf 16 :=
  let state := addRoundKey 0 ctx.roundKey (State.ofBlock block)
  let state := encryptRounds ctx.roundKey (nr - 1) state
  (addRoundKey nr ctx.roundKey (shiftRows (subBytes state))).block

/-- The loop of `aes128_decrypt_block`, from `round` down to its `break`. -/
def decryptRounds (roundKey : Buf 176) : Nat → State → State
  | 0, s => addRoundKey 0 roundKey (invSubBytes (invShiftRows s))
  | round + 1, s =>
    decryptRounds roundKey round
      (invMixColumns (addRoundKey (round + 1) roundKey (invSubBytes (invShiftRows s))))

def aes128DecryptBlock (ctx : Ctx) (block : Bytes) : Buf 16 :=
  let state := addRoundKey nr ctx.roundKey (State.ofBlock block)
  (decryptRounds ctx.roundKey (nr - 1) state).block

/-! ## Every layer has an inverse -/

theorem xor_left_comm (x y z : UInt8) : x ^^^ (y ^^^ z) = y ^^^ (x ^^^ z) := by
  rw [← UInt8.xor_assoc, UInt8.xor_comm x, UInt8.xor_assoc]

theorem xor_cancel_left (x y : UInt8) : x ^^^ (x ^^^ y) = y := by
  rw [← UInt8.xor_assoc, UInt8.xor_self, UInt8.zero_xor]

theorem addRoundKey_addRoundKey (round : Nat) (roundKey : Buf 176) (s : State) :
    addRoundKey round roundKey (addRoundKey round roundKey s) = s := by
  cases s
  simp [addRoundKey]

theorem rsbox_sbox (x : UInt8) : rsbox (sbox x) = x := by
  have hall : ∀ n : Fin 256, rsbox (sbox (UInt8.ofNat n)) = UInt8.ofNat n := by decide +kernel
  simpa using hall ⟨x.toNat, x.toNat_lt⟩

theorem sbox_rsbox (x : UInt8) : sbox (rsbox x) = x := by
  have hall : ∀ n : Fin 256, sbox (rsbox (UInt8.ofNat n)) = UInt8.ofNat n := by decide +kernel
  simpa using hall ⟨x.toNat, x.toNat_lt⟩

theorem invSubBytes_subBytes (s : State) : invSubBytes (subBytes s) = s :=
  State.map_map_of_leftInverse (Column.map_map_of_leftInverse rsbox_sbox) s

theorem subBytes_invSubBytes (s : State) : subBytes (invSubBytes s) = s :=
  State.map_map_of_leftInverse (Column.map_map_of_leftInverse sbox_rsbox) s

theorem invShiftRows_shiftRows (s : State) : invShiftRows (shiftRows s) = s := rfl

theorem shiftRows_invShiftRows (s : State) : shiftRows (invShiftRows s) = s := rfl

/-- The doubling of the field, its reduction written as a condition on the top bit. -/
theorem xtime_eq (x : UInt8) : xtime x = (x <<< 1) ^^^ (if x.toBitVec.msb then 0x1b else 0) := by
  have hall : ∀ n : Fin 256, xtime (UInt8.ofNat n) =
      (UInt8.ofNat n <<< 1) ^^^ (if (UInt8.ofNat n).toBitVec.msb then 0x1b else 0) := by
    decide +kernel
  simpa using hall ⟨x.toNat, x.toNat_lt⟩

theorem xtime_xor (x y : UInt8) : xtime (x ^^^ y) = xtime x ^^^ xtime y := by
  rw [xtime_eq, xtime_eq x, xtime_eq y, UInt8.shiftLeft_xor, UInt8.toBitVec_xor, BitVec.msb_xor]
  cases x.toBitVec.msb <;> cases y.toBitVec.msb <;>
    simp [UInt8.xor_assoc, UInt8.xor_comm, xor_left_comm]

/-- `mixColumn` applied twice: the even bytes and the odd bytes are mixed apart. -/
def mixTwice (c : Column) : Column :=
  let u := xtime (xtime (c.b0 ^^^ c.b2))
  let v := xtime (xtime (c.b1 ^^^ c.b3))
  ⟨c.b0 ^^^ u, c.b1 ^^^ v, c.b2 ^^^ u, c.b3 ^^^ v⟩

theorem mixColumn_mixColumn (c : Column) : mixColumn (mixColumn c) = mixTwice c := by
  rcases c with ⟨a, b, c, d⟩
  simp only [mixColumn, mixTwice, xtime_xor, Column.mk.injEq]
  -- `xtime a` and its iterates are unknowns of their own from here
  generalize xtime (xtime a) = a2, xtime (xtime b) = b2, xtime (xtime c) = c2, xtime (xtime d) = d2
  generalize xtime a = a1, xtime b = b1, xtime c = c1, xtime d = d1
  simp [UInt8.xor_comm, xor_left_comm, xor_cancel_left]

theorem mixTwice_mixTwice (c : Column) : mixTwice (mixTwice c) = c := by
  rcases c with ⟨a, b, c, d⟩
  simp only [mixTwice, xtime_xor, Column.mk.injEq]
  generalize xtime (xtime (xtime (xtime a))) = a4, xtime (xtime (xtime (xtime b))) = b4,
    xtime (xtime (xtime (xtime c))) = c4, xtime (xtime (xtime (xtime d))) = d4
  generalize xtime (xtime a) = a2, xtime (xtime b) = b2, xtime (xtime c) = c2, xtime (xtime d) = d2
  simp [UInt8.xor_comm, xor_left_comm, xor_cancel_left]

/-- The products by the entries of the inverse matrix. -/
theorem multiply_entries (x : UInt8) :
    multiply x 0x09 = x ^^^ xtime (xtime (xtime x)) ∧
      multiply x 0x0b = x ^^^ xtime x ^^^ xtime (xtime (xtime x)) ∧
      multiply x 0x0d = x ^^^ xtime (xtime x) ^^^ xtime (xtime (xtime x)) ∧
      multiply x 0x0e = xtime x ^^^ xtime (xtime x) ^^^ xtime (xtime (xtime x)) := by
  have hbits : ∀ y0 y1 y2 y3 y4 y : UInt8, (y &&& 1 = y0 ∧ (y >>> 1) &&& 1 = y1 ∧
      (y >>> 2) &&& 1 = y2 ∧ (y >>> 3) &&& 1 = y3 ∧ (y >>> 4) &&& 1 = y4) →
      multiply x y = (y0 * x) ^^^ (y1 * xtime x) ^^^ (y2 * xtime (xtime x)) ^^^
        (y3 * xtime (xtime (xtime x))) ^^^ (y4 * xtime (xtime (xtime (xtime x)))) := by
    rintro _ _ _ _ _ y ⟨rfl, rfl, rfl, rfl, rfl⟩
    rfl
  refine ⟨?_, ?_, ?_, ?_⟩
  · rw [hbits 1 0 0 1 0 0x09 (by decide)]
    simp
  · rw [hbits 1 1 0 1 0 0x0b (by decide)]
    simp
  · rw [hbits 1 0 1 1 0 0x0d (by decide)]
    simp
  · rw [hbits 0 1 1 1 0 0x0e (by decide)]
    simp

theorem invMixColumn_eq (c : Column) : invMixColumn c = mixColumn (mixTwice c) := by
  rcases c with ⟨a, b, c, d⟩
  simp only [invMixColumn, multiply_entries, mixColumn, mixTwice, xtime_xor, Column.mk.injEq]
  generalize xtime (xtime (xtime a)) = a3, xtime (xtime (xtime b)) = b3,
    xtime (xtime (xtime c)) = c3, xtime (xtime (xtime d)) = d3
  generalize xtime (xtime a) = a2, xtime (xtime b) = b2, xtime (xtime c) = c2, xtime (xtime d) = d2
  generalize xtime a = a1, xtime b = b1, xtime c = c1, xtime d = d1
  simp only [UInt8.xor_comm, xor_left_comm, xor_cancel_left, and_self]

theorem mixColumn_mixTwice (c : Column) : mixColumn (mixTwice c) = mixTwice (mixColumn c) := by
  rw [← mixColumn_mixColumn, ← mixColumn_mixColumn]

theorem invMixColumn_mixColumn (c : Column) : invMixColumn (mixColumn c) = c := by
  rw [invMixColumn_eq, ← mixColumn_mixTwice, mixColumn_mixColumn, mixTwice_mixTwice]

theorem mixColumn_invMixColumn (c : Column) : mixColumn (invMixColumn c) = c := by
  rw [invMixColumn_eq, mixColumn_mixColumn, mixTwice_mixTwice]

theorem invMixColumns_mixColumns (s : State) : invMixColumns (mixColumns s) = s :=
  State.map_map_of_leftInverse invMixColumn_mixColumn s

theorem mixColumns_invMixColumns (s : State) : mixColumns (invMixColumns s) = s :=
  State.map_map_of_leftInverse mixColumn_invMixColumn s

/-! ## Blocks -/

theorem encryptRounds_succ (roundKey : Buf 176) (n : Nat) (s : State) :
    encryptRounds roundKey (n + 1) s =
      addRoundKey (n + 1) roundKey (mixColumns (shiftRows (subBytes (encryptRounds roundKey n s)))) := by
  rw [encryptRounds, List.range'_concat, List.foldl_append, Nat.one_mul, Nat.add_comm 1 n]
  rfl

/-- The rounds of decryption, run after the last layers of encryption, peel the rounds
of encryption off from the last to the first. -/
theorem decryptRounds_encryptRounds (roundKey : Buf 176) (n : Nat) (s : State) :
    decryptRounds roundKey n (shiftRows (subBytes (encryptRounds roundKey n s))) =
      addRoundKey 0 roundKey s := by
  induction n with
  | zero =>
    simp only [decryptRounds, encryptRounds, List.range'_zero, List.foldl_nil,
      invShiftRows_shiftRows, invSubBytes_subBytes]
  | succ n ih =>
    rw [decryptRounds, invShiftRows_shiftRows, invSubBytes_subBytes, encryptRounds_succ,
      addRoundKey_addRoundKey, invMixColumns_mixColumns, ih]

/-- The same from the other side: what the rounds of decryption leave is encrypted back
into the state they started from. -/
theorem encryptRounds_decryptRounds (roundKey : Buf 176) (n : Nat) (s : State) :
    shiftRows (subBytes (encryptRounds roundKey n
      (addRoundKey 0 roundKey (decryptRounds roundKey n s)))) = s := by
  induction n generalizing s with
  | zero =>
    simp only [decryptRounds, encryptRounds, List.range'_zero, List.foldl_nil,
      addRoundKey_addRoundKey, subBytes_invSubBytes, shiftRows_invShiftRows]
  | succ n ih =>
    rw [decryptRounds, encryptRounds_succ, ih, mixColumns_invMixColumns, addRoundKey_addRoundKey,
      subBytes_invSubBytes, shiftRows_invShiftRows]

theorem aes128DecryptBlock_encryptBlock (ctx : Ctx) {block : Bytes} (hlen : block.length = 16) :
    (aes128DecryptBlock ctx (aes128EncryptBlock ctx block).bytes).bytes = block := by
  simp only [aes128DecryptBlock, aes128EncryptBlock, State.ofBlock_block, addRoundKey_addRoundKey,
    decryptRounds_encryptRounds]
  exact State.block_ofBlock hlen

theorem aes128EncryptBlock_decryptBlock (ctx : Ctx) {block : Bytes} (hlen : block.length = 16) :
    (aes128EncryptBlock ctx (aes128DecryptBlock ctx block).bytes).bytes = block := by
  simp only [aes128DecryptBlock, aes128EncryptBlock, State.ofBlock_block, encryptRounds_decryptRounds,
    addRoundKey_addRoundKey]
  exact State.block_ofBlock hlen

end Meshcore.Aes128
