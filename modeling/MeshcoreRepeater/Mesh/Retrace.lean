import MeshcoreRepeater.Mesh.Path

/-! # Routed replies

A command collects the hash of every hop at the back of its path; the reply
carries them in reverse order, and every hop strips its own from the front. Over
any chain of repeaters the reply therefore goes back the way the command came.

* `HasPath.grown`: a hop more on the way out.
* `HasPath.routeBack`: the reply names the hops in reverse.
* `HasPath.stripped`: a hop less on the way back.
-/

namespace Meshcore

open ByteLib

/-! ## Paths as lists of hashes -/

/-- The path of the packet, and the size of its hashes. -/
structure HasPath (pkt : McPacket) (hashes : List Bytes) (hs : Nat) : Prop where
  size : pktPathHashSize pkt = hs
  count : pktPathHashCount pkt = hashes.length
  widths : ∀ x ∈ hashes, x.length = hs
  bytes : pkt.pathBytes = hashes.flatten

theorem HasPath.byteLen {pkt : McPacket} {hashes : List Bytes} {hs : Nat} (h : HasPath pkt hashes hs) :
    pktPathByteLen pkt = hashes.length * hs := by rw [pktPathByteLen, h.count, h.size]

/-- The wire and the signal leave the path alone. -/
theorem HasPath.heard {pkt : McPacket} {hashes : List Bytes} {hs : Nat} (h : HasPath pkt hashes hs)
    (hfits : pktPathByteLen pkt ≤ 64) (rssiDbm snrQ : Int) :
    HasPath (pkt.onWire.heardAt rssiDbm snrQ) hashes hs where
  size := h.size
  count := h.count
  widths := h.widths
  bytes := by
    have hlen := length_pathBytes hfits
    show (Buf.ofBytes 64 pkt.pathBytes).read 0 (pktPathByteLen pkt) = _
    rw [← hlen, Buf.read_ofBytes _ (by omega), h.bytes]

/-- A relayed FLOOD packet has one hash more. -/
theorem HasPath.grown {id : McIdentity} {pkt out : McPacket} {hashes : List Bytes} {hs : Nat}
    (h : HasPath pkt hashes hs) (hgrown : PathGrown id pkt out) (hs3 : hs ≤ 3) :
    HasPath out (hashes ++ [mcIdentityCopyHash id hs]) hs where
  size := hgrown.size.trans h.size
  count := by rw [hgrown.count, h.count, List.length_append, List.length_singleton]
  widths := by
    intro x hx
    rcases List.mem_append.mp hx with hx | hx
    · exact h.widths x hx
    · rw [List.mem_singleton.mp hx]
      exact length_mcIdentityCopyHash id (by omega)
  bytes := by rw [hgrown.bytes, h.bytes, h.size, List.flatten_append, List.flatten_singleton]

/-- The reply's path, read off the packet it answers. -/
theorem HasPath.reversedPath {rx : McPacket} {hashes : List Bytes} {hs : Nat}
    (h : HasPath rx hashes hs) : reversedPath rx = hashes.reverse.flatten := by
  rw [← flatMap_take_drop_reverse h.widths, Meshcore.reversedPath, h.count, h.size]
  refine List.flatMap_congr fun i hi => ?_
  have hi' : i < hashes.length := List.mem_range.mp hi
  have hslot : (hashes.length - 1 - i) * hs + hs ≤ hashes.length * hs := by
    rw [← Nat.succ_mul]
    exact Nat.mul_le_mul_right hs (by omega)
  rw [← Buf.take_drop_read rx.path hslot, ← h.bytes, McPacket.pathBytes, h.byteLen]

/-- The fields `send_routed_reply` packs into one byte are read back. -/
theorem pathLen_pack {n hs : Nat} (hn : n < 64) (hs1 : 1 ≤ hs) (hs4 : hs ≤ 4) :
    pathHashCount (((UInt8.ofNat (hs - 1) &&& (0x03 : UInt8)) <<< (6 : UInt8)) |||
        (UInt8.ofNat n &&& (0x3F : UInt8))) = n ∧
      pathHashSize (((UInt8.ofNat (hs - 1) &&& (0x03 : UInt8)) <<< (6 : UInt8)) |||
        (UInt8.ofNat n &&& (0x3F : UInt8))) = hs := by
  have hall : ∀ (n : Fin 64) (s : Fin 4),
      pathHashCount (((UInt8.ofNat s &&& (0x03 : UInt8)) <<< (6 : UInt8)) |||
          (UInt8.ofNat n &&& (0x3F : UInt8))) = n ∧
        pathHashSize (((UInt8.ofNat s &&& (0x03 : UInt8)) <<< (6 : UInt8)) |||
          (UInt8.ofNat n &&& (0x3F : UInt8))) = s + 1 := by decide
  have h := hall ⟨n, hn⟩ ⟨hs - 1, by omega⟩
  refine ⟨h.1, h.2.trans ?_⟩
  show hs - 1 + 1 = hs
  omega

/-- The reply names the hops of the command, the last one first. -/
theorem HasPath.routeBack {pkt rx : McPacket} {hashes : List Bytes} {hs : Nat}
    (h : HasPath rx hashes hs) (hne : hashes ≠ []) (hs3 : hs ≤ 3)
    (hfits : hashes.length * hs ≤ 64) : HasPath (routeBack pkt rx) hashes.reverse hs := by
  have hpos : 0 < hashes.length := List.length_pos_iff.mpr hne
  have hlt : hashes.length < 64 := by
    rw [← h.count]
    exact pktPathHashCount_lt rx
  have hs1 : 1 ≤ hs := by
    rw [← h.size]
    exact pathHashSize_pos _
  have hif : 0 < hashes.length ∧ hashes.length * hs ≤ mcMaxPathSize := ⟨hpos, hfits⟩
  obtain ⟨hcount, hsize⟩ := pathLen_pack hlt hs1 (by omega)
  have hwidths : ∀ x ∈ hashes.reverse, x.length = hs := fun x hx => h.widths x (List.mem_reverse.mp hx)
  have hlen : hashes.reverse.flatten.length = hashes.length * hs := by
    rw [length_flatten_of_forall hwidths, List.length_reverse]
  simp only [Meshcore.routeBack, h.reversedPath, h.count, h.size, if_pos hif]
  refine ⟨hsize, by rw [List.length_reverse]; exact hcount, hwidths, ?_⟩
  rw [McPacket.pathBytes, pktPathByteLen, pktPathHashCount, pktPathHashSize]
  simp only [hcount, hsize]
  rw [← hlen]
  exact Buf.read_blit_same pkt.path 0 _ (by omega)

/-- A command heard directly gets a zero-hop reply. -/
theorem HasPath.routeBack_nil {pkt rx : McPacket} {hs : Nat} (h : HasPath rx [] hs) :
    Meshcore.routeBack pkt rx = pkt := by
  rw [Meshcore.routeBack]
  exact if_neg fun hpos => absurd h.count (by simpa using Nat.pos_iff_ne_zero.mp hpos.1)

/-- The first hop strips itself from the front. -/
theorem HasPath.stripped {pkt : McPacket} {x : Bytes} {hashes : List Bytes} {hs : Nat}
    (h : HasPath pkt (x :: hashes) hs) (hfits : (x :: hashes).length * hs ≤ 64) :
    HasPath (stripFirstHash pkt) hashes hs := by
  have hlt : hashes.length + 1 < 64 := by
    have := h.count ▸ pktPathHashCount_lt pkt
    simpa using this
  have hrest : pkt.path.read hs (hashes.length * hs) = hashes.flatten := by
    have hx : x.length = hs := h.widths x List.mem_cons_self
    have hbytes := h.bytes
    rw [McPacket.pathBytes, h.byteLen, List.length_cons, Nat.succ_mul, Nat.add_comm] at hbytes
    rw [← Buf.take_drop_read pkt.path (le_refl (hs + hashes.length * hs)), hbytes,
      List.flatten_cons, ← hx, List.drop_left, hx]
    have hlen := length_flatten_of_forall fun y hy => h.widths y (List.mem_cons_of_mem x hy)
    rw [← hlen, List.take_length]
  have hcount : pktPathHashCount (stripFirstHash pkt) = hashes.length := by
    show pathHashCount (setPathHashCount pkt.pathLen (UInt8.ofNat (pktPathHashCount pkt - 1))) = _
    rw [pathHashCount_set, h.count, List.length_cons, Nat.add_sub_cancel,
      toNat_ofNat_count (by omega), Nat.mod_eq_of_lt (by omega)]
  have hsize : pktPathHashSize (stripFirstHash pkt) = hs := (pathHashSize_set _ _).trans h.size
  refine ⟨hsize, hcount, fun y hy => h.widths y (List.mem_cons_of_mem x hy), ?_⟩
  have hlen := length_flatten_of_forall fun y hy => h.widths y (List.mem_cons_of_mem x hy)
  have hpath : (stripFirstHash pkt).path = pkt.path.blit 0 hashes.flatten := by
    show pkt.path.blit 0 (pkt.path.read (pktPathHashSize pkt)
      ((pktPathHashCount pkt - 1) * pktPathHashSize pkt)) = _
    rw [h.size, h.count, List.length_cons, Nat.add_sub_cancel, hrest]
  rw [McPacket.pathBytes, pktPathByteLen, hcount, hsize, hpath, ← hlen]
  refine Buf.read_blit_same pkt.path 0 _ ?_
  rw [hlen]
  rw [List.length_cons, Nat.succ_mul] at hfits
  omega

/-- The node whose hash comes first is the next hop. -/
theorem HasPath.isNextHop {id : McIdentity} {pkt : McPacket} {hashes : List Bytes} {hs : Nat}
    (h : HasPath pkt (mcIdentityCopyHash id hs :: hashes) hs) (hs3 : hs ≤ 3) :
    isNextHop id pkt = true := by
  have hlen : (mcIdentityCopyHash id hs).length = hs := length_mcIdentityCopyHash id (by omega)
  have hread : pkt.path.read 0 hs = mcIdentityCopyHash id hs := by
    have hle : 0 + hs ≤ pktPathByteLen pkt := by
      rw [h.byteLen, List.length_cons, Nat.succ_mul]
      omega
    rw [← Buf.take_drop_read pkt.path hle, List.drop_zero, ← McPacket.pathBytes, h.bytes,
      List.flatten_cons]
    exact List.take_left' hlen
  have hcount : 1 ≤ pktPathHashCount pkt := by
    rw [h.count, List.length_cons]
    omega
  rw [Meshcore.isNextHop, mcIdentityHashMatch, h.size, hread]
  simp [hcount, mcIdentityCopyHash]

end Meshcore
