import MeshcoreRepeater.Backbone.JsonText
import MeshcoreRepeater.Backbone.RateLimit
import MeshcoreRepeater.Lib.Packing

/-! # The pages of the neighbour table

`send_neighbours` packs twice: once to count the pages, once to send them. Both are the same
packing (`countPages_eq`, `sendPages_eq`), and the buffer never overflows, so that the pages
are numbered through and hold the table, and each is sealed and sent under the next number of
the session (`sendBodies_sealed`, `sendNeighbours_pages`).

* `begun_add`, `begun_close`: the buffer has room for the packing.
* `sendBodies_sealed`: pages are sealed under the numbers that follow.
* `sendNeighbours_pages`: the pages, their numbers and what they hold.
-/

namespace Meshcore

set_option maxRecDepth 8000

open ByteLib

/-! ## Entries -/

/-- What the C types of a neighbour hold. -/
structure MeshNeighbor.Fits (n : MeshNeighbor) : Prop where
  pub : n.pub.length = 32
  name : n.name.length < 32
  hops : n.hops < 256
  rssi : -32768 ≤ n.rssi ∧ n.rssi < 32768
  snrQ : -128 ≤ n.snrQ ∧ n.snrQ < 128

/-- The digits of a number below a power of ten. -/
theorem length_decimal_le {n k : Nat} (hk : 0 < k) (h : n < 10 ^ k) : (decimal n).length ≤ k :=
  length_numeral_le (by omega) hk h

/-- One more for the sign. -/
theorem length_intDecimal_le {n : Int} {k : Nat} (hk : 0 < k) (h : n.natAbs < 10 ^ k) :
    (intDecimal n).length ≤ k + 1 := by
  have hdigits := length_decimal_le hk h
  unfold intDecimal
  split
  · rw [List.length_cons]
    omega
  · omega

/-- The text of an SNR is at most `-32.00`. -/
theorem length_snr {k : Int} (h : -128 ≤ k ∧ k < 128) : (fmtF 2 (.fin ((k : ℚ) / 4))).length ≤ 6 := by
  -- a quarter of an `int8_t`
  have habs : |(k : ℚ) / 4| ≤ 32 := by
    have hlow : (-128 : ℚ) ≤ k := by exact_mod_cast h.1
    have hhigh : (k : ℚ) < 128 := by exact_mod_cast h.2
    rw [abs_le]
    constructor
    · linarith
    · linarith
  -- rounded to hundredths it has at most four digits
  have hround : roundEven (|(k : ℚ) / 4| * 10 ^ 2) < 10000 := by
    have hnear := (abs_le.mp (roundEven_near (mul_nonneg (abs_nonneg ((k : ℚ) / 4)) (by norm_num : (0 : ℚ) ≤ 10 ^ 2)))).2
    have hsquare : (10 : ℚ) ^ 2 = 100 := by norm_num
    have hlt : (roundEven (|(k : ℚ) / 4| * 10 ^ 2) : ℚ) < 10000 := by
      rw [hsquare] at hnear ⊢
      linarith
    exact_mod_cast hlt
  show (signText _ ++ fixedDigits 2 (roundEven (|(k : ℚ) / 4| * 10 ^ 2))).length ≤ 6
  generalize roundEven (|(k : ℚ) / 4| * 10 ^ 2) = n at hround
  -- two in front of the point, two behind it
  have hwhole : (decimal (n / 100)).length ≤ 2 := length_decimal_le (by omega) (by omega)
  have hpart : (decimal (n % 100)).length ≤ 2 := length_decimal_le (by omega) (by omega)
  have hsign : (signText (decide ((k : ℚ) / 4 < 0))).length ≤ 1 := by
    unfold signText
    split
    · exact le_refl _
    · exact Nat.zero_le _
  rw [fixedDigits, if_neg (by decide)]
  simp only [padLeft, List.length_append, List.length_cons, List.length_replicate, Nat.reducePow]
  omega

/-- The part of an object behind the name. -/
def neighbourTail (n : MeshNeighbor) (nowS : UInt32) : Bytes :=
  jsonNat ",\"type\":" n.type.toNat ++ jsonNat ",\"hops\":" n.hops ++
    lit ",\"rssi\":" ++ intDecimal n.rssi ++ lit ",\"snr\":" ++ fmtF 2 (.fin (n.snrQ / 4)) ++
    jsonNat ",\"age\":" (if n.lastSeen < nowS then nowS - n.lastSeen else 0).toNat ++
    jsonNat ",\"count\":" n.count.toNat ++ lit "\x7d"

/-- The numbers are bounded by their C types, so the part behind the name is. -/
theorem length_neighbourTail {n : MeshNeighbor} (h : n.Fits) (nowS : UInt32) :
    (neighbourTail n nowS).length ≤ 90 := by
  have htype : (decimal n.type.toNat).length ≤ 3 :=
    length_decimal_le (by omega) (by have := n.type.toNat_lt; omega)
  have hhops : (decimal n.hops).length ≤ 3 := length_decimal_le (by omega) (by have := h.hops; omega)
  have hrssi : (intDecimal n.rssi).length ≤ 5 + 1 := length_intDecimal_le (by omega) (by have := h.rssi; omega)
  have hsnr := length_snr h.snrQ
  have hcount : (decimal n.count.toNat).length ≤ 10 :=
    length_decimal_le (by omega) (by have := n.count.toNat_lt; omega)
  have hage := length_decimal_le (n := (if n.lastSeen < nowS then nowS - n.lastSeen else 0).toNat) (k := 10)
    (by omega) (by have := (if n.lastSeen < nowS then nowS - n.lastSeen else 0).toNat_lt; omega)
  -- the labels in between
  have hlits : (lit ",\"type\":").length = 8 ∧ (lit ",\"hops\":").length = 8 ∧ (lit ",\"rssi\":").length = 8 ∧
      (lit ",\"snr\":").length = 7 ∧ (lit ",\"age\":").length = 7 ∧ (lit ",\"count\":").length = 9 ∧
      (lit "\x7d").length = 1 := by decide
  rcases hlits with ⟨h₁, h₂, h₃, h₄, h₅, h₆, h₇⟩
  simp only [neighbourTail, jsonNat, List.length_append, h₁, h₂, h₃, h₄, h₅, h₆, h₇]
  omega

/-- Every neighbour has its object. -/
theorem neighbourJson_length {n : MeshNeighbor} (h : n.Fits) (nowS : UInt32) :
    0 < (neighbourJson n nowS).length ∧ (neighbourJson n nowS).length ≤ 400 := by
  rcases scan_exists n.name with ⟨value, hscan⟩
  -- a name of 31 bytes, each escaped to six at most
  have hname := length_jsonText hscan
  have htail := length_neighbourTail h nowS
  -- the key in hex
  have hpub : (lit "\x7b\"pub\":\"" ++ hexText n.pub ++ lit "\",\"name\":").length = 81 := by
    have hlits : (lit "\x7b\"pub\":\"").length = 8 ∧ (lit "\",\"name\":").length = 9 := by decide
    rw [List.length_append, List.length_append, length_hexText, h.pub, hlits.1, hlits.2]
  have hlt := h.name
  have hhead : jbAdd (.new neighbourBuf) (lit "\x7b\"pub\":\"" ++ hexText n.pub ++ lit "\",\"name\":") =
      ⟨neighbourBuf, lit "\x7b\"pub\":\"" ++ hexText n.pub ++ lit "\",\"name\":", false⟩ :=
    jbAdd_fits rfl (by rw [hpub]; decide)
  have htext : neighbourJson n nowS = lit "\x7b\"pub\":\"" ++ hexText n.pub ++ lit "\",\"name\":" ++
      Utf8.encode (jsonText value) ++ neighbourTail n nowS := by
    unfold neighbourJson
    rw [hhead]
    simp only
    rw [jbStr_adds hscan rfl, ← neighbourTail, jbAdd_fits rfl]
    · exact if_neg Bool.false_ne_true
    · show (_ ++ _ : Bytes).length + _ < 512
      rw [List.length_append, hpub]
      omega
    · show (_ : Bytes).length + _ < 512
      rw [hpub]
      omega
  rw [htext, List.length_append, List.length_append, hpub]
  omega

/-! ## Pages -/

/-- A page as it is sent. -/
def pageBody (page pages : Nat) (list : List Bytes) : Bytes :=
  pageHead page pages ++ [44].intercalate list ++ lit "]\x7d"

/-- The pages of a table, numbered on from `page`. -/
def pageBodies (page pages : Nat) (lists : List (List Bytes)) : List Bytes :=
  (lists.zipIdx page).map fun x => pageBody x.2 pages x.1

/-- The entries of a page, with the commas between them. -/
theorem length_intercalate (list : List Bytes) :
    ([44].intercalate list : Bytes).length = Packing.width List.length list := by
  induction list using Packing.width.induct with
  | case1 => rfl
  | case2 x => rw [List.intercalate_singleton, Packing.width_singleton]
  | case3 x y rest ih =>
    rw [List.intercalate_cons_cons, List.length_append, List.length_append, ih]
    rfl

/-- A comma goes before every entry but the first. -/
theorem intercalate_concat (list : List Bytes) (e : Bytes) :
    ([44].intercalate (list ++ [e]) : Bytes) = [44].intercalate list ++ ((if list = [] then [] else [44]) ++ e) := by
  induction list using Packing.width.induct with
  | case1 => simp
  | case2 x => simp
  | case3 x y rest ih =>
    rw [if_neg (List.cons_ne_nil _ _)] at ih ⊢
    rw [List.cons_append, List.cons_append, List.intercalate_cons_cons, List.intercalate_cons_cons, ← List.cons_append,
      ih, List.append_assoc, List.append_assoc, List.append_assoc]

/-- The head of a page leaves the room `BB_PAGE_WRAP` stands for. -/
theorem length_pageHead {page pages : Nat} (hpage : page < 100) (hpages : pages < 100) :
    (pageHead page pages).length ≤ 30 := by
  have hnum := length_decimal_le (by omega : 0 < 2) hpage
  have hcount := length_decimal_le (by omega : 0 < 2) hpages
  have hlits : (lit "\x7b\"page\":").length = 8 ∧ (lit ",\"pages\":").length = 9 ∧
      (lit ",\"list\":[").length = 9 := by decide
  simp only [pageHead, jsonNat, List.length_append, hlits.1, hlits.2.1, hlits.2.2]
  omega

variable {l : List Bytes} {e : Bytes}

/-- The first pass starts a page where the packing does. -/
theorem startsPage_iff (hpos : ∀ x ∈ l, 0 < x.length) :
    startsPage (Packing.width List.length l) e = true ↔
      l ≠ [] ∧ neighbourBudget < Packing.width List.length l + 1 + e.length := by
  rw [startsPage, Bool.and_eq_true, bne_iff_ne, decide_eq_true_eq, ne_eq, Packing.width_eq_zero_iff _ hpos]

/-- Both count the bytes of the page so far. -/
theorem usedAfter_eq (hpos : ∀ x ∈ l, 0 < x.length) :
    usedAfter (Packing.width List.length l) e = Packing.width List.length (l ++ [e]) := by
  rw [usedAfter, Packing.width_concat]
  simp only [Packing.width_eq_zero_iff _ hpos]

/-- The first pass counts the pages of the packing. -/
theorem countPages_eq {es : List Bytes} (hpos : ∀ x ∈ l ++ es, 0 < x.length) (n : Nat) :
    countPages es n (Packing.width List.length l) + 1 =
      n + (Packing.pack List.length neighbourBudget l es).length := by
  induction es generalizing l n with
  | nil => rfl
  | cons e es ih =>
    have hl : ∀ x ∈ l, 0 < x.length := fun x hx => hpos x (by simp [hx])
    unfold countPages Packing.pack
    by_cases hstart : l ≠ [] ∧ neighbourBudget < Packing.width List.length l + 1 + e.length
    · rw [if_pos ((startsPage_iff hl).mpr hstart), if_pos hstart, List.length_cons]
      -- a page more, begun with this entry
      have hrest := ih (l := [e]) (fun x hx => hpos x (by simp at hx ⊢; tauto)) (n + 1)
      have hused : usedAfter 0 e = Packing.width List.length [e] := usedAfter_eq (l := []) (by simp)
      rw [hused, hrest]
      omega
    · rw [if_neg fun h => hstart ((startsPage_iff hl).mp h), if_neg hstart, usedAfter_eq hl]
      exact ih (fun x hx => hpos x (by simp at hx ⊢; tauto)) n

/-- Bodies that go out one after the other. -/
def sendBodies (C : Crypto) (p : BbHal) (bb : McBackbone) (bodies : List Bytes) : McBackbone :=
  bodies.foldl (fun bb body => sendSession C p bb bbTNeighbours body) bb

/-- A page begun, in the buffer of `send_neighbours`. -/
def begun (k pages : Nat) (l : List Bytes) : JBuf :=
  ⟨bbStatusJson + 1, pageHead k pages ++ [44].intercalate l, false⟩

/-- A page begins with its head. -/
theorem begun_head {k pages : Nat} (hk : k < 100) (hpages : pages < 100) :
    jbAdd (.new (bbStatusJson + 1)) (pageHead k pages) = begun k pages [] := by
  have hlen := length_pageHead hk hpages
  rw [JBuf.new, jbAdd_fits rfl]
  · rw [begun, List.intercalate_nil, List.append_nil, List.nil_append]
  · simp only [List.length_nil, bbStatusJson]
    omega

/-- A page of the packing and its end fit the buffer. -/
theorem begun_close {k pages : Nat} (hk : k < 100) (hpages : pages < 100)
    (hwidth : Packing.width List.length l ≤ neighbourBudget) :
    jbAdd (begun k pages l) (lit "]\x7d") = ⟨bbStatusJson + 1, pageBody k pages l, false⟩ ∧
      (pageBody k pages l).length ≤ bbStatusJson := by
  have hhead := length_pageHead hk hpages
  -- the head leaves what `BB_PAGE_WRAP` sets aside
  have hbody : (pageBody k pages l).length ≤ bbStatusJson := by
    have hend : (lit "]\x7d").length = 2 := by decide
    simp only [pageBody, List.length_append, length_intercalate, hend]
    simp only [neighbourBudget, bbPageWrap, bbStatusJson] at hwidth ⊢
    omega
  refine ⟨jbAdd_fits rfl ?_, hbody⟩
  rw [pageBody, List.length_append] at hbody
  show (pageHead k pages ++ [44].intercalate l).length + _ < bbStatusJson + 1
  omega

/-- An entry of the packing fits the buffer behind the others. -/
theorem begun_add {k pages : Nat} (hk : k < 100) (hpages : pages < 100)
    (hwidth : Packing.width List.length (l ++ [e]) ≤ neighbourBudget) :
    jbAdd (begun k pages l) ((if l = [] then [] else lit ",") ++ e) = begun k pages (l ++ [e]) := by
  have hcomma : lit "," = [44] := by decide
  rw [hcomma]
  have hhead := length_pageHead hk hpages
  -- the comma and the entry go behind the others
  have htext : pageHead k pages ++ [44].intercalate (l ++ [e]) =
      pageHead k pages ++ [44].intercalate l ++ ((if l = [] then [] else [44]) ++ e) := by
    rw [intercalate_concat, List.append_assoc]
  rw [begun, begun, htext]
  refine jbAdd_fits rfl ?_
  have hlen := congrArg List.length (intercalate_concat l e)
  rw [length_intercalate, List.length_append, length_intercalate] at hlen
  show (pageHead k pages ++ [44].intercalate l).length + _ < bbStatusJson + 1
  rw [List.length_append, length_intercalate]
  simp only [neighbourBudget, bbPageWrap, bbStatusJson] at hwidth ⊢
  omega

/-- The second pass sends the packing. -/
theorem sendPages_eq (C : Crypto) (p : BbHal) {k pages : Nat} {es : List Bytes}
    (hpos : ∀ x ∈ l ++ es, 0 < x.length) (hwidth : Packing.width List.length l ≤ neighbourBudget)
    (hes : ∀ x ∈ es, x.length ≤ neighbourBudget) (hpages : pages < 100) (hk : k + es.length < 100)
    (bb : McBackbone) :
    (jbAdd (sendPages C p pages es bb (begun k pages l) k (Packing.width List.length l)).2
      (lit "]\x7d")).full = false ∧
    sendSession C p (sendPages C p pages es bb (begun k pages l) k (Packing.width List.length l)).1
        bbTNeighbours
        (jbAdd (sendPages C p pages es bb (begun k pages l) k (Packing.width List.length l)).2
          (lit "]\x7d")).text =
      sendBodies C p bb (pageBodies k pages (Packing.pack List.length neighbourBudget l es)) := by
  induction es generalizing l k bb with
  | nil =>
    rw [List.length_nil] at hk
    have hclose := (begun_close (by omega : k < 100) hpages hwidth).1
    simp only [sendPages, hclose, Packing.pack]
    exact ⟨trivial, rfl⟩
  | cons e es ih =>
    rw [List.length_cons] at hk
    have hl : ∀ x ∈ l, 0 < x.length := fun x hx => hpos x (by simp [hx])
    have he : 0 < e.length ∧ e.length ≤ neighbourBudget := ⟨hpos e (by simp), hes e (by simp)⟩
    have hrest : ∀ x ∈ es, x.length ≤ neighbourBudget := fun x hx => hes x (by simp [hx])
    unfold sendPages Packing.pack
    by_cases hstart : l ≠ [] ∧ neighbourBudget < Packing.width List.length l + 1 + e.length
    · -- the page is closed and sent, the entry begins the next one
      have hclose := (begun_close (by omega : k < 100) hpages hwidth).1
      have hhead : jbAdd ⟨bbStatusJson + 1, [], false⟩ (pageHead (k + 1) pages) = begun (k + 1) pages [] :=
        begun_head (by omega) hpages
      have hone : Packing.width List.length [e] ≤ neighbourBudget := he.2
      have hadd := begun_add (l := []) (by omega : k + 1 < 100) hpages hone
      have hused : usedAfter 0 e = Packing.width List.length [e] := usedAfter_eq (l := []) (by simp)
      rw [if_pos rfl, List.nil_append, List.nil_append] at hadd
      rw [if_pos ((startsPage_iff hl).mpr hstart), if_pos hstart, hused]
      simp only [hclose, hhead, hadd]
      exact ih (l := [e]) (fun x hx => hpos x (by simp at hx ⊢; tauto)) hone hrest (by omega) _
    -- the entry still fits the page
    · have hroom : Packing.width List.length (l ++ [e]) ≤ neighbourBudget := by
        rw [Packing.width_concat]
        split
        · rename_i hnil
          rw [hnil, Packing.width_nil]
          omega
        · rename_i hne
          by_contra hover
          exact hstart ⟨hne, by omega⟩
      have hadd := begun_add (by omega : k < 100) hpages hroom
      rw [if_neg fun h => hstart ((startsPage_iff hl).mp h), if_neg hstart, usedAfter_eq hl]
      simp only [Packing.width_eq_zero_iff _ hl]
      rw [hadd]
      exact ih (fun x hx => hpos x (by simp at hx ⊢; tauto)) hroom hrest (by omega) bb

/-! ## What is sealed -/

/-- What is noted when the datagrams `ds` are sealed and sent, the first under the number `seq`. -/
def sealEvents (key : Buf 32) (fd : Bool) (seq : UInt32) : List Bytes → List BbEvent
  | [] => []
  | d :: ds => .seal key seq :: ((if fd then [.send d] else []) ++ sealEvents key fd (seq + 1) ds)

/-- A body that fits a datagram takes the next number; it is sealed, and sent if there is a socket. -/
theorem sendSession_sealed (C : Crypto) (p : BbHal) (bb : McBackbone) {type : UInt8} {body : Bytes}
    (hlen : body.length ≤ bbStatusJson) :
    ∃ d, bbSeal C bbMaxDgram type bb.sid (bb.seqOut + 1) body bb.kUp.bytes = some d ∧
      (sendSession C p bb type body).log = bb.log ++ sealEvents bb.kUp bb.fd (bb.seqOut + 1) [d] ∧
      (sendSession C p bb type body).seqOut = bb.seqOut + 1 ∧ (sendSession C p bb type body).sid = bb.sid ∧
      (sendSession C p bb type body).kUp = bb.kUp ∧ (sendSession C p bb type body).fd = bb.fd := by
  -- a page is well below the size of a datagram
  have hfits : body.length ≤ 1172 := hlen.trans (by decide)
  have hsome : (bbSeal C bbMaxDgram type bb.sid (bb.seqOut + 1) body bb.kUp.bytes).isSome := bbSeal_isSome C hfits
  obtain ⟨d, hd⟩ := Option.isSome_iff_exists.mp hsome
  refine ⟨d, hd, ?_⟩
  unfold sendSession
  simp only [hd]
  unfold sendRaw
  cases hfd : bb.fd with
  | false => simp [McBackbone.note, sealEvents]
  | true =>
    simp only [McBackbone.note, if_true]
    split
    · simp [sealEvents]
    · simp [sealEvents]

/-- Bodies that go out one after the other are sealed under the numbers that follow. -/
theorem sendBodies_sealed (C : Crypto) (p : BbHal) {bodies : List Bytes} (hlen : ∀ body ∈ bodies, body.length ≤ bbStatusJson)
    (bb : McBackbone) :
    ∃ ds, ds.length = bodies.length ∧
      (∀ k body d, bodies[k]? = some body → ds[k]? = some d →
        bbSeal C bbMaxDgram bbTNeighbours bb.sid (bb.seqOut + UInt32.ofNat (k + 1)) body bb.kUp.bytes = some d) ∧
      (sendBodies C p bb bodies).log = bb.log ++ sealEvents bb.kUp bb.fd (bb.seqOut + 1) ds ∧
      (sendBodies C p bb bodies).seqOut = bb.seqOut + UInt32.ofNat bodies.length := by
  induction bodies generalizing bb with
  | nil => exact ⟨[], rfl, nofun, by simp [sendBodies, sealEvents], by simp [sendBodies]⟩
  | cons body bodies ih =>
    obtain ⟨d, hd, hlog, hseq, hsid, hkey, hfd⟩ :=
      @sendSession_sealed C p bb bbTNeighbours body (hlen body List.mem_cons_self)
    obtain ⟨ds, hcount, hseal, hlogs, hseqs⟩ := ih (fun b hb => hlen b (List.mem_cons_of_mem body hb))
      (sendSession C p bb bbTNeighbours body)
    -- the first one, then the others
    have hfirst : sendBodies C p bb (body :: bodies) = sendBodies C p (sendSession C p bb bbTNeighbours body) bodies := rfl
    rw [hseq, hsid, hkey] at hseal
    rw [hlog, hseq, hkey, hfd] at hlogs
    rw [hseq] at hseqs
    refine ⟨d :: ds, by rw [List.length_cons, List.length_cons, hcount], ?_, ?_, ?_⟩
    · intro k body' d' hbody hdgram
      cases k with
      | zero =>
        cases hbody
        cases hdgram
        exact hd
      | succ k =>
        -- the numbers go on behind the first
        have hnext : bb.seqOut + 1 + UInt32.ofNat (k + 1) = bb.seqOut + UInt32.ofNat (k + 1 + 1) := by
          rw [UInt32.add_assoc, UInt32.ofNat_add (k + 1) 1, UInt32.add_comm 1]
          rfl
        rw [← hnext]
        exact hseal k body' d' hbody hdgram
    · rw [hfirst, hlogs]
      simp [sealEvents]
    · rw [hfirst, hseqs, List.length_cons, UInt32.ofNat_add, UInt32.add_assoc, UInt32.add_comm 1]
      rfl

/-! ## The table -/

/-- The used neighbours, in table order. -/
def usedNeighbours (m : McMesh) : List MeshNeighbor := ((List.finRange meshMaxNeighbors).map m.neighbors).filter fun n => n.used

/-- The body of a page with these neighbours. -/
def neighbourPage (nowS : UInt32) (page pages : Nat) (list : List MeshNeighbor) : Bytes :=
  pageBody page pages (list.map (neighbourJson · nowS))

/-- The pages are those of a packing of the used neighbours, and go out one after the other. -/
theorem sendNeighbours_eq (C : Crypto) (p : BbHal) {bb : McBackbone} {m : McMesh} (hmesh : bb.mesh = some m)
    (hfits : ∀ n ∈ usedNeighbours m, n.Fits) :
    ∃ lists : List (List MeshNeighbor), lists.flatten = usedNeighbours m ∧
      (usedNeighbours m = [] → lists = [[]]) ∧ (usedNeighbours m ≠ [] → lists ≠ [] ∧ [] ∉ lists) ∧
      (∀ n ∈ usedNeighbours m, neighbourJson n p.time32 ≠ []) ∧
      (∀ body ∈ pageBodies 1 lists.length (lists.map (List.map (neighbourJson · p.time32))),
        body.length ≤ bbStatusJson) ∧
      sendNeighbours C p bb =
        sendBodies C p bb (pageBodies 1 lists.length (lists.map (List.map (neighbourJson · p.time32)))) := by
  generalize hused : usedNeighbours m = used at hfits ⊢
  have hlength : ∀ n ∈ used, 0 < (neighbourJson n p.time32).length ∧ (neighbourJson n p.time32).length ≤ 400 :=
    fun n hn => neighbourJson_length (hfits n hn) p.time32
  -- the table has 96 slots
  have hcount : used.length ≤ 96 := by
    rw [← hused]
    refine (List.length_filter_le _ _).trans ?_
    rw [List.length_map, List.length_finRange]
  -- no entry is left out
  have hentries : neighbourEntries m p.time32 = used.map (neighbourJson · p.time32) := by
    have hall : ∀ e ∈ used.map (neighbourJson · p.time32), (e.length != 0) = true := by
      intro e he
      rcases List.mem_map.mp he with ⟨n, hn, rfl⟩
      have := hlength n hn
      rw [bne_iff_ne]
      omega
    rw [← List.filter_eq_self.mpr hall, ← hused]
    rfl
  have hpos : ∀ x ∈ [] ++ used.map (neighbourJson · p.time32), 0 < x.length := by
    intro x hx
    rcases List.mem_map.mp hx with ⟨n, hn, rfl⟩
    exact (hlength n hn).1
  -- every entry fits a page of its own
  have hbudget : ∀ x ∈ used.map (neighbourJson · p.time32), x.length ≤ neighbourBudget := by
    intro x hx
    rcases List.mem_map.mp hx with ⟨n, hn, rfl⟩
    exact (hlength n hn).2.trans (by decide)
  generalize hlists : Packing.pack (List.length ∘ (neighbourJson · p.time32)) neighbourBudget [] used = lists
  -- packing objects is packing neighbours
  have hpack : Packing.pack List.length neighbourBudget [] (used.map (neighbourJson · p.time32)) =
      lists.map (List.map (neighbourJson · p.time32)) := by
    rw [← hlists]
    exact Packing.pack_map neighbourBudget List.length (neighbourJson · p.time32) [] used
  -- what the first pass has counted
  have hpages : countPages (used.map (neighbourJson · p.time32)) 1 0 = lists.length := by
    have h := countPages_eq (l := []) hpos 1
    rw [hpack, List.length_map, Packing.width_nil] at h
    omega
  -- so the page numbers have two digits
  have hfew : lists.length < 100 := by
    have h := Packing.length_pack (List.length ∘ (neighbourJson · p.time32)) neighbourBudget [] used
    rw [hlists] at h
    omega
  refine ⟨lists, ?_, ?_, ?_, ?_, ?_, ?_⟩
  · rw [← hlists, Packing.flatten_pack, List.nil_append]
  · intro hnil
    rw [← hlists, hnil]
    rfl
  · intro hne
    rw [← hlists]
    refine ⟨Packing.pack_ne_nil _ _ _ _, ?_⟩
    intro hmem
    exact Packing.ne_nil_of_mem_pack _ _ (.inr hne) [] hmem rfl
  · intro n hn
    exact List.length_pos_iff.mp (hlength n hn).1
  · intro body hbody
    rcases List.mem_map.mp hbody with ⟨⟨l, k⟩, hmem, rfl⟩
    have hk := List.snd_lt_of_mem_zipIdx hmem
    have hin := List.fst_mem_of_mem_zipIdx hmem
    rw [List.length_map] at hk
    rw [← hpack] at hin
    have hwidth := Packing.width_pack List.length neighbourBudget (Nat.zero_le _) hbudget l hin
    exact (begun_close (by omega : k < 100) hfew hwidth).2
  · rcases sendPages_eq C p (l := []) (k := 1) hpos (Nat.zero_le _) hbudget hfew
      (by rw [List.length_map]; omega) bb with ⟨hfull, hsend⟩
    have hbegun := begun_head (by omega : 1 < 100) hfew
    unfold sendNeighbours
    rw [hmesh]
    simp only [hentries, hpages, hbegun]
    rw [Packing.width_nil] at hfull hsend
    rw [if_neg (by rw [hfull]; exact Bool.false_ne_true), hsend, hpack]

/-- The page at a place of the numbered lists. -/
theorem getElem?_pageBodies {nowS : UInt32} {lists : List (List MeshNeighbor)} {k : Nat} {list : List MeshNeighbor}
    (h : lists[k]? = some list) :
    (pageBodies 1 lists.length (lists.map (List.map (neighbourJson · nowS))))[k]? =
      some (neighbourPage nowS (k + 1) lists.length list) := by
  rw [pageBodies, List.getElem?_map, List.getElem?_zipIdx, List.getElem?_map, h, Nat.add_comm k 1]
  rfl

/-- `send_neighbours` seals a page for each list of a division of the used neighbours, in table
order: numbered from 1, each with the number of pages and no longer than 1100 bytes, and under
the numbers of the session that follow. The datagrams are what is sealed and sent, in this order,
and nothing else. An empty table is one page with an empty list. -/
theorem sendNeighbours_pages (C : Crypto) (p : BbHal) {bb : McBackbone} {m : McMesh} (hmesh : bb.mesh = some m)
    (hfits : ∀ n ∈ usedNeighbours m, n.Fits) :
    ∃ (lists : List (List MeshNeighbor)) (ds : List Bytes), lists.flatten = usedNeighbours m ∧
      (usedNeighbours m = [] → lists = [[]]) ∧ (usedNeighbours m ≠ [] → lists ≠ [] ∧ [] ∉ lists) ∧
      (∀ n ∈ usedNeighbours m, neighbourJson n p.time32 ≠ []) ∧ ds.length = lists.length ∧
      (∀ k list d, lists[k]? = some list → ds[k]? = some d →
        (neighbourPage p.time32 (k + 1) lists.length list).length ≤ 1100 ∧
          bbSeal C bbMaxDgram bbTNeighbours bb.sid (bb.seqOut + UInt32.ofNat (k + 1))
            (neighbourPage p.time32 (k + 1) lists.length list) bb.kUp.bytes = some d) ∧
      (sendNeighbours C p bb).log = bb.log ++ sealEvents bb.kUp bb.fd (bb.seqOut + 1) ds ∧
      (sendNeighbours C p bb).seqOut = bb.seqOut + UInt32.ofNat lists.length := by
  obtain ⟨lists, hflat, hempty, hfull, hobjects, hlen, hsend⟩ := sendNeighbours_eq C p hmesh hfits
  obtain ⟨ds, hcount, hseal, hlog, hseq⟩ := sendBodies_sealed C p hlen bb
  -- a page for each list
  have hpages : (pageBodies 1 lists.length (lists.map (List.map (neighbourJson · p.time32)))).length = lists.length := by
    rw [pageBodies, List.length_map, List.length_zipIdx, List.length_map]
  rw [hpages] at hcount hseq
  refine ⟨lists, ds, hflat, hempty, hfull, hobjects, hcount, ?_, by rw [hsend, hlog], by rw [hsend, hseq]⟩
  intro k list d hlist hd
  have hbody := @getElem?_pageBodies p.time32 lists k list hlist
  exact ⟨hlen _ (List.mem_of_getElem? hbody), hseal k _ d hbody hd⟩

/-- A neighbour with a name to escape. -/
def hillNeighbour : MeshNeighbor := ⟨true, List.replicate 32 7, lit "ON0H \"hill\"", 2, -80, -30, 1760000000, 1, 0⟩

/-- A node with that neighbour in its table. -/
def hillMesh : McMesh :=
  { meshInit (.still 0) nodeIdentity bridgeConfig false none true with
    neighbors := fun i => if i.val = 40 then hillNeighbour else .zero }

/-- The client of `bridgeNode` in its session, with that node. -/
def hillUp : McBackbone :=
  (bbRun bridgeCrypto bridgeNode (pairAttempt ++ [.datagram (.calm 1100) 1100 bridgeWelcome])).setMesh hillMesh

/-- The neighbour goes out on one page, sealed and sent under the next number. -/
theorem sendNeighbours_pages_hill :
    ∃ d, bbSeal bridgeCrypto.toCrypto bbMaxDgram bbTNeighbours hillUp.sid (hillUp.seqOut + 1)
        (neighbourPage (BbHal.calm 1200).time32 1 1 [hillNeighbour]) hillUp.kUp.bytes = some d ∧
      (sendNeighbours bridgeCrypto.toCrypto (.calm 1200) hillUp).log =
        hillUp.log ++ [.seal hillUp.kUp (hillUp.seqOut + 1), .send d] := by
  have hused : usedNeighbours hillMesh = [hillNeighbour] := by decide
  have hfits : ∀ n ∈ usedNeighbours hillMesh, n.Fits := by
    intro n hn
    rw [hused, List.mem_singleton] at hn
    subst hn
    exact ⟨by decide, by decide, by decide, by decide, by decide⟩
  have hmesh : hillUp.mesh = some hillMesh := rfl
  have hfd : hillUp.fd = true := by decide
  rcases sendNeighbours_pages bridgeCrypto.toCrypto (.calm 1200) hmesh hfits with
    ⟨lists, ds, hflat, -, hfull, -, hcount, hpages, hlog, -⟩
  rw [hused] at hflat hfull
  -- one neighbour is one page
  have hone : lists = [[hillNeighbour]] := by
    rcases hfull (List.cons_ne_nil _ _) with ⟨hne, hnil⟩
    rcases lists with _ | ⟨l, lists⟩
    · exact absurd rfl hne
    rcases l with _ | ⟨n, l⟩
    · exact absurd List.mem_cons_self hnil
    rw [List.flatten_cons, List.cons_append, List.cons.injEq, List.append_eq_nil_iff] at hflat
    rcases hflat with ⟨rfl, rfl, hrest⟩
    rcases lists with _ | ⟨l, lists⟩
    · rfl
    rw [List.flatten_cons, List.append_eq_nil_iff] at hrest
    exact absurd (by rw [hrest.1]; simp) hnil
  subst hone
  rcases ds with _ | ⟨d, ds⟩
  · cases hcount
  rcases ds with _ | ⟨d', ds⟩
  · refine ⟨d, (hpages 0 _ d rfl rfl).2, ?_⟩
    rw [hlog, hfd]
    rfl
  · cases hcount

end Meshcore
