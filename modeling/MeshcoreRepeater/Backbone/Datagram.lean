import MeshcoreRepeater.Backbone.Codec

/-! # Session datagrams are exact

`bb_open` accepts what `bb_seal` makes and nothing else, and gives back what was put in
(`session_codec_exact`). Nothing is asked of the HMAC but its length.

* `bbOpen_bbSeal`, `bbSeal_of_bbOpen`: the two directions.
* `session_codec_exact`: a datagram is opened exactly when it was sealed from what is read.
-/

namespace Meshcore

open ByteLib

variable {C : Crypto} {d key body : Bytes} {s : BbSession}

/-! ## Comparing without a branch -/

/-- The disjunction of bytes is zero if all of them are. -/
theorem orBytes_eq_zero {b : Bytes} : orBytes b = 0 ↔ ∀ c ∈ b, c = 0 := by
  -- from any start of the loop
  have hfold : ∀ (b : Bytes) (acc : UInt8), b.foldl (· ||| ·) acc = 0 ↔ acc = 0 ∧ ∀ c ∈ b, c = 0 := by
    intro b
    induction b with
    | nil => simp
    | cons c b ih =>
      intro acc
      have hor : acc ||| c = 0 ↔ acc = 0 ∧ c = 0 := by simp [← UInt8.toBitVec_inj]
      simp [ih, hor, and_assoc]
  simpa [orBytes] using hfold b 0

/-- So strings of one length differ nowhere. -/
theorem diffBytes_eq_zero {a b : Bytes} (h : a.length = b.length) : diffBytes a b = 0 ↔ a = b := by
  rw [diffBytes, orBytes_eq_zero]
  induction a generalizing b with
  | nil =>
    cases b with
    | nil => simp
    | cons => cases h
  | cons x a ih =>
    cases b with
    | nil => cases h
    | cons y b => simp [ih (Nat.succ.inj h)]

/-! ## Headers -/

/-- The header has twelve bytes, then comes the body. -/
theorem length_sessionHead (type : UInt8) (sid seq : UInt32) (body : Bytes) :
    (sessionHead type sid seq body).length = bbHdr + body.length := by
  simp only [sessionHead, putHdr, List.length_append, length_wrU32le, List.length_cons, List.length_nil]
  rfl

/-- The tag is cut to its length. -/
theorem length_sessionMac (C : Crypto) (key head : Bytes) : (sessionMac C key head).length = bbMac := by
  rw [sessionMac, List.length_take, length_hmacSha256]
  rfl

/-- What is read from a header that was written. -/
theorem sessionHead_fields (type : UInt8) (sid seq : UInt32) (body mac : Bytes) :
    magicOk (sessionHead type sid seq body ++ mac) = true ∧
      (sessionHead type sid seq body ++ mac).getD 3 0 = type ∧
      rdU32le ((sessionHead type sid seq body ++ mac).drop 4) = sid ∧
      rdU32le ((sessionHead type sid seq body ++ mac).drop 8) = seq ∧
      (sessionHead type sid seq body).drop bbHdr = body := by
  have hshape : sessionHead type sid seq body ++ mac =
      77 :: 66 :: 1 :: type :: (wrU32le sid ++ (wrU32le seq ++ (body ++ mac))) := by
    simp [sessionHead, putHdr, bbVersion]
  rw [hshape]
  refine ⟨rfl, rfl, ?_, ?_, ?_⟩
  · exact rdU32le_wrU32le sid _
  · have hdrop : (77 :: 66 :: 1 :: type :: (wrU32le sid ++ (wrU32le seq ++ (body ++ mac)))).drop 8 =
        wrU32le seq ++ (body ++ mac) := rfl
    rw [hdrop]
    exact rdU32le_wrU32le seq _
  · rfl

/-- The fields of a header written again give the header. -/
theorem sessionHead_read (hlen : bbHdr ≤ d.length) (hmagic : magicOk d = true) :
    sessionHead (d.getD 3 0) (rdU32le (d.drop 4)) (rdU32le (d.drop 8)) (d.drop bbHdr) = d := by
  -- four bytes, read and written
  have hword : ∀ i : Nat, i + 4 ≤ d.length → wrU32le (rdU32le (d.drop i)) = (d.drop i).take 4 := by
    intro i hi
    have hfour : ((d.drop i).take 4).length = 4 := by simp; omega
    have hsame : rdU32le (d.drop i) = rdU32le ((d.drop i).take 4) := by
      obtain ⟨a, b, c, e, rest, hrest⟩ : ∃ a b c e rest, d.drop i = a :: b :: c :: e :: rest := by
        match h : d.drop i with
        | a :: b :: c :: e :: rest => exact ⟨a, b, c, e, rest, rfl⟩
        | [] | [_] | [_, _] | [_, _, _] =>
          have := congrArg List.length h
          simp only [List.length_drop, List.length_cons, List.length_nil] at this
          omega
      rw [hrest]
      rfl
    rw [hsame, wrU32le_rdU32le hfour]
  simp only [bbHdr] at hlen
  rw [sessionHead, hword 4 (by omega), hword 8 (by omega)]
  match d, hlen, hmagic with
  | m :: b :: v :: t :: rest, hlen, hmagic =>
    simp only [magicOk, List.getD_cons_zero, List.getD_cons_succ, Bool.and_eq_true, beq_iff_eq] at hmagic
    obtain ⟨⟨rfl, rfl⟩, rfl⟩ := hmagic
    have hjoin : rest.take 4 ++ ((rest.drop 4).take 4 ++ rest.drop 8) = rest := by
      rw [show rest.drop 8 = (rest.drop 4).drop 4 by rw [List.drop_drop],
        List.take_append_drop, List.take_append_drop]
    simpa [putHdr, bbHdr] using hjoin

/-! ## Both directions -/

/-- What was sealed is opened, and nothing of it is lost. -/
theorem bbOpen_bbSeal {cap : Nat} {type : UInt8} {sid seq : UInt32}
    (h : bbSeal C cap type sid seq body key = some d) : bbOpen C d key = .ok ⟨type, sid, seq, body⟩ := by
  unfold bbSeal at h
  simp only at h
  split at h
  · cases h
  cases h
  have hhead := length_sessionHead type sid seq body
  have hmac := length_sessionMac C key (sessionHead type sid seq body)
  obtain ⟨hmagic, htype, hsid, hseq, hbody⟩ :=
    sessionHead_fields type sid seq body (sessionMac C key (sessionHead type sid seq body))
  -- the tag is the end of the datagram
  have hcut : (sessionHead type sid seq body ++ sessionMac C key (sessionHead type sid seq body)).length -
      bbMac = (sessionHead type sid seq body).length := by
    rw [List.length_append, hmac, Nat.add_sub_cancel]
  unfold bbOpen
  rw [if_neg]
  · simp only [hcut, List.take_left, List.drop_left]
    rw [if_neg (not_not.mpr ((diffBytes_eq_zero rfl).mpr rfl)), htype, hsid, hseq, hbody]
  · rw [hmagic, List.length_append, hhead, hmac]
    simp

/-- What is opened is what sealing its fields gives. -/
theorem bbSeal_of_bbOpen (hlen : d.length ≤ bbMaxDgram) (h : bbOpen C d key = .ok s) :
    bbSeal C bbMaxDgram s.type s.sid s.seq s.body key = some d := by
  unfold bbOpen at h
  split at h
  · cases h
  rename_i hshape
  simp only at h
  split at h
  · cases h
  rename_i hdiff
  cases h
  simp only [not_or, Nat.not_lt, bbHdr, bbMac, Bool.not_eq_false] at hshape
  obtain ⟨hshort, hmagic⟩ := hshape
  -- the bytes in front of the MAC carry the same header
  generalize hhead : d.take (d.length - bbMac) = head at hdiff ⊢
  have hheadLen : head.length = d.length - 16 := by
    rw [← hhead]
    simp [bbMac]
  have hlong : bbHdr ≤ head.length := by
    simp only [bbHdr]
    omega
  have hsame : ∀ i, i < 12 → d.getD i 0 = head.getD i 0 := by
    intro i hi
    rw [← hhead]
    simp only [List.getD_eq_getElem?_getD, List.getElem?_take, bbMac]
    rw [if_pos (by omega)]
  have hword : ∀ i, i + 4 ≤ 12 → rdU32le (d.drop i) = rdU32le (head.drop i) := by
    intro i hi
    have hgetD : ∀ (l : Bytes) j, (l.drop i).getD j 0 = l.getD (i + j) 0 := by
      intro l j
      simp [List.getD_eq_getElem?_getD]
    simp only [rdU32le, hgetD]
    rw [hsame (i + 0) (by omega), hsame (i + 1) (by omega), hsame (i + 2) (by omega),
      hsame (i + 3) (by omega)]
  have hmagic' : magicOk head = true := by
    rw [← hmagic, magicOk, magicOk, hsame 0 (by omega), hsame 1 (by omega), hsame 2 (by omega)]
  have hread := sessionHead_read hlong hmagic'
  rw [hsame 3 (by omega), hword 4 (by omega), hword 8 (by omega)]
  -- the comparison went through, so the tag is the one that sealing gives
  have hmac : sessionMac C key head = d.drop (d.length - bbMac) := by
    refine (diffBytes_eq_zero ?_).mp (not_not.mp hdiff)
    rw [length_sessionMac, List.length_drop, bbMac]
    omega
  unfold bbSeal
  simp only [hread]
  rw [if_neg, hmac, ← hhead, List.take_append_drop]
  rw [List.length_drop, hheadLen, bbHdr, bbMac]
  simp only [bbMaxDgram] at hlen ⊢
  omega

/-- In a buffer that has room, the bound on a datagram is one on its body. -/
theorem bbSeal_isSome_iff {cap : Nat} {type : UInt8} {sid seq : UInt32}
    (hcap : bbHdr + body.length + bbMac ≤ cap) :
    (bbSeal C cap type sid seq body key).isSome ↔ body.length ≤ 1172 := by
  unfold bbSeal
  by_cases hlong : cap < bbHdr + body.length + bbMac ∨ bbMaxDgram < bbHdr + body.length + bbMac
  · rw [if_pos hlong]
    simp only [bbHdr, bbMac, bbMaxDgram] at hcap hlong
    simp only [Option.isSome_none, Bool.false_eq_true, false_iff]
    omega
  · rw [if_neg hlong]
    simp only [bbHdr, bbMac, bbMaxDgram] at hlong
    simp only [Option.isSome_some, true_iff]
    omega

/-- A datagram is opened exactly when it was sealed from the fields it gives, bodies of
up to 1172 bytes can be sealed, and no two datagrams carry the same fields. -/
theorem session_codec_exact (C : Crypto) (key : Bytes) :
    (∀ d s, d.length ≤ bbMaxDgram →
      (bbOpen C d key = .ok s ↔ bbSeal C bbMaxDgram s.type s.sid s.seq s.body key = some d)) ∧
    (∀ cap type sid seq body, bbHdr + body.length + bbMac ≤ cap →
      ((bbSeal C cap type sid seq body key).isSome ↔ body.length ≤ 1172)) ∧
    ∀ d d' s, d.length ≤ bbMaxDgram → d'.length ≤ bbMaxDgram →
      bbOpen C d key = .ok s → bbOpen C d' key = .ok s → d = d' := by
  refine ⟨fun d s hd => ⟨bbSeal_of_bbOpen hd, bbOpen_bbSeal⟩,
    fun cap type sid seq body hcap => bbSeal_isSome_iff hcap, ?_⟩
  intro d d' s hd hd' h h'
  have hseal := bbSeal_of_bbOpen hd h
  rw [bbSeal_of_bbOpen hd' h'] at hseal
  exact (Option.some.inj hseal).symm

end Meshcore
