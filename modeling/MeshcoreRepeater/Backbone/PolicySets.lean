import MeshcoreRepeater.Backbone.Moves
import MeshcoreRepeater.Lib.Collector

/-! # POLICY sets, whole or not at all

A POLICY datagram is a part of a set in the sense of `Collector`, and `on_policy` is the
receiver there: the bit mask of the pages held, the lowest and the highest number and the
set collected so far show the parts it holds (`Shows`, `onPolicy_shows`).

* `shows_fresh`, `shows_next`: the first part of a set, and a further one.
* `applySet_shows`: a complete set is installed.
* `onPolicy_shows`: a POLICY datagram is one step of the receiver.
-/

namespace Meshcore

open ByteLib Collector

/-! ## The values on a page -/

/-- A kind of entries: the form of its values, how many there may be, and where they go. -/
structure PageKind where
  kind : UInt8
  ok : Bytes → Bool
  max : Nat
  list : McPolicy → List Bytes
  add : ∀ p k v, list (policyAdd p k v) =
    if k = kind ∧ ok v = true ∧ (list p).length < max then list p ++ [v] else list p

/-- Rooms. -/
def PageKind.rooms : PageKind where
  kind := bbPolRoom
  ok := isRoomValue
  max := mcPolicyMaxRooms
  list := McPolicy.rooms
  add := by
    intro p k v
    unfold policyAdd McPolicy.skip
    grind

/-- Names that are blocked. -/
def PageKind.names : PageKind where
  kind := bbPolBlockName
  ok := isNameValue
  max := mcPolicyMaxBlocks
  list := McPolicy.names
  add := by
    intro p k v
    unfold policyAdd McPolicy.skip
    have hroom : bbPolBlockName ≠ bbPolRoom := by decide
    grind

/-- Keys that are blocked. -/
def PageKind.keys : PageKind where
  kind := bbPolBlockKey
  ok := isKeyValue
  max := mcPolicyMaxBlocks
  list := McPolicy.keys
  add := by
    intro p k v
    unfold policyAdd McPolicy.skip
    have hroom : bbPolBlockKey ≠ bbPolRoom := by decide
    have hname : bbPolBlockKey ≠ bbPolBlockName := by decide
    grind

/-- The well-formed values of a kind among entries. -/
def PageKind.among (k : PageKind) (es : List PageEntry) : List Bytes :=
  (es.filter fun x => x.1 == k.kind && k.ok x.2).map Prod.snd

/-- Those on a page. -/
def PageKind.onPage (k : PageKind) (e : Bytes) : List Bytes := k.among ((pageEntries e).getD [])

/-- What entries put into a set: the well-formed values in their order, up to the limit. -/
theorem PageKind.addAll (k : PageKind) (p : McPolicy) (es : List PageEntry)
    (h : (k.list p).length ≤ k.max) : k.list (p.addAll es) = (k.list p ++ k.among es).take k.max := by
  induction es generalizing p with
  | nil =>
    have hall : k.among [] = [] := rfl
    rw [hall, List.append_nil, List.take_of_length_le h]
    rfl
  | cons x es ih =>
    have hstep := k.add p x.1 x.2
    have hcons : p.addAll (x :: es) = (policyAdd p x.1 x.2).addAll es := rfl
    rw [hcons]
    -- the entry is of the kind and well-formed, or skipped
    by_cases hx : x.1 = k.kind ∧ k.ok x.2 = true
    · have hamong : k.among (x :: es) = x.2 :: k.among es := by
        simp [among, hx.1, hx.2]
      by_cases hroom : (k.list p).length < k.max
      · rw [if_pos ⟨hx.1, hx.2, hroom⟩] at hstep
        rw [ih _ (by rw [hstep, List.length_append]; exact hroom), hstep, hamong]
        simp
      · -- no room for the value, nor for any other
        have hfull : (k.list p).length = k.max := le_antisymm h (not_lt.mp hroom)
        rw [if_neg (fun hc => hroom hc.2.2)] at hstep
        rw [ih _ (by rw [hstep]; exact h), hstep, ← hfull, List.take_left, List.take_left]
    · have hamong : k.among (x :: es) = k.among es := by
        rw [among, List.filter_cons_of_neg]
        · rfl
        · simpa using hx
      rw [if_neg (fun hc => hx ⟨hc.1, hc.2.1⟩)] at hstep
      rw [ih _ (by rw [hstep]; exact h), hstep, hamong]

/-- What pages put into a set: the values in order of arrival, up to the limit. -/
theorem PageKind.addPages (k : PageKind) (p : McPolicy) {pages : List Bytes}
    (hpages : ∀ e ∈ pages, (pageEntries e).isSome) (h : (k.list p).length ≤ k.max) :
    k.list (pages.foldl McPolicy.addPage p) = (k.list p ++ pages.flatMap k.onPage).take k.max := by
  induction pages generalizing p with
  | nil =>
    rw [List.flatMap_nil, List.append_nil, List.take_of_length_le h]
    rfl
  | cons e pages ih =>
    rcases Option.isSome_iff_exists.mp (hpages e List.mem_cons_self) with ⟨es, hes⟩
    have hpage : k.onPage e = k.among es := by rw [onPage, hes, Option.getD_some]
    have hadd : k.list (p.addPage e) = (k.list p ++ k.onPage e).take k.max := by
      rw [p.addPage_eq hes, k.addAll p es h, hpage]
    have hlen : (k.list (p.addPage e)).length ≤ k.max := by
      rw [hadd, List.length_take]
      exact min_le_left _ _
    have htake : ∀ a b : List Bytes, (a.take k.max ++ b).take k.max = (a ++ b).take k.max := by
      intro a b
      rw [List.take_append, List.take_append, List.take_take, Nat.min_self, List.length_take]
      congr 2
      omega
    rw [List.foldl_cons, ih _ (fun e' he' => hpages e' (List.mem_cons_of_mem _ he')) hlen, hadd, htake,
      List.flatMap_cons, List.append_assoc]

/-! ## Pages in a bit mask -/

/-- Page `n` has bit `n - 1`. -/
theorem toNat_pageBit {page : UInt8} (h : page ≠ 0) (hmax : page.toNat ≤ bbPolMaxPages) :
    (pageBit page).toNat = 2 ^ (page.toNat - 1) := by
  have hall : ∀ n : Fin 17, n.val ≠ 0 →
      (pageBit (UInt8.ofNat n)).toNat = 2 ^ ((UInt8.ofNat n).toNat - 1) := by decide
  have hpage := hall ⟨page.toNat, Nat.lt_succ_of_le hmax⟩
  simp only [UInt8.ofNat_toNat] at hpage
  exact hpage fun heq => h (UInt8.toNat_inj.mp heq)

/-- All bits up to the last page. -/
theorem toNat_allPages {pages : UInt8} (hmax : pages.toNat ≤ bbPolMaxPages) :
    (allPages pages).toNat = 2 ^ pages.toNat - 1 := by
  have hall : ∀ n : Fin 17,
      (allPages (UInt8.ofNat n)).toNat = 2 ^ (UInt8.ofNat n).toNat - 1 := by decide
  have hpages := hall ⟨pages.toNat, Nat.lt_succ_of_le hmax⟩
  simp only [UInt8.ofNat_toNat] at hpages
  exact hpages

/-- Bit `i` of the mask stands for the part `i`. -/
def MaskOf (mask : UInt16) (held : List (Part UInt32 Bytes)) : Prop :=
  ∀ i, mask.toNat.testBit i = true ↔ ∃ p ∈ held, p.index = i

/-- No part held, no bit set. -/
theorem maskOf_nil : MaskOf 0 [] := by
  intro i
  simp

namespace MaskOf

variable {mask : UInt16} {held : List (Part UInt32 Bytes)} {page : UInt8}

/-- The bit of a page is set if its part is held. -/
theorem held_iff (h : MaskOf mask held) (hpage : page ≠ 0) (hmax : page.toNat ≤ bbPolMaxPages) :
    mask &&& pageBit page ≠ 0 ↔ ∃ p ∈ held, p.index = page.toNat - 1 := by
  rw [← h, ne_eq, ← UInt16.toNat_inj, UInt16.toNat_and, toNat_pageBit hpage hmax]
  constructor
  · intro hne
    by_contra hbit
    apply hne
    refine Nat.eq_of_testBit_eq ?_
    intro i
    rw [Nat.testBit_and, Nat.testBit_two_pow]
    by_cases hi : page.toNat - 1 = i
    · rw [← hi, Bool.eq_false_iff.mpr hbit]
      simp
    · simp [hi]
  · intro hbit heq
    have hand := congrArg (Nat.testBit · (page.toNat - 1)) heq
    simp [Nat.testBit_and, hbit] at hand

/-- Setting the bit of a page holds its part. -/
theorem concat (h : MaskOf mask held) (hpage : page ≠ 0) (hmax : page.toNat ≤ bbPolMaxPages)
    {p : Part UInt32 Bytes} (hp : p.index = page.toNat - 1) :
    MaskOf (mask ||| pageBit page) (held ++ [p]) := by
  intro i
  rw [UInt16.toNat_or, toNat_pageBit hpage hmax, Nat.testBit_or, Nat.testBit_two_pow, Bool.or_eq_true, h i,
    decide_eq_true_eq, ← hp]
  constructor
  · rintro (⟨q, hq, hi⟩ | hi)
    · exact ⟨q, List.mem_append_left _ hq, hi⟩
    · exact ⟨p, by simp, hi⟩
  · rintro ⟨q, hq, hi⟩
    rcases List.mem_append.mp hq with hold | hlast
    · exact .inl ⟨q, hold, hi⟩
    · rw [List.mem_singleton.mp hlast] at hi
      exact .inr hi

/-- The mask is full when every part is held. -/
theorem full_iff (h : MaskOf mask held) {pages : UInt8} (hmax : pages.toNat ≤ bbPolMaxPages)
    (hindex : ∀ p ∈ held, p.index < pages.toNat) :
    mask = allPages pages ↔ ∀ i < pages.toNat, ∃ p ∈ held, p.index = i := by
  constructor
  · intro heq i hi
    rw [← h i, heq, toNat_allPages hmax, Nat.testBit_two_pow_sub_one]
    exact decide_eq_true hi
  · intro hall
    rw [← UInt16.toNat_inj, toNat_allPages hmax]
    refine Nat.eq_of_testBit_eq ?_
    intro i
    rw [Nat.testBit_two_pow_sub_one]
    by_cases hi : i < pages.toNat
    · rw [(h i).mpr (hall i hi), decide_eq_true hi]
    · rw [decide_eq_false hi, Bool.eq_false_iff]
      intro hbit
      rcases (h i).mp hbit with ⟨p, hp, rfl⟩
      exact hi (hindex p hp)

end MaskOf

/-! ## The collection as a receiver -/

/-- What POLICY datagrams are read against and change. -/
structure PolicyPart where
  cfg : McConfig
  meshCfg : Option McConfig
  pol : McPolicy
  polPages : UInt8
  polHave : UInt16
  polMinSeq : UInt32
  polMaxSeq : UInt32
  polAppliedSeq : UInt32
  sets : List McPolicy

/-- The sets `config_set_policy` was called with. -/
def policiesOf (es : List BbEvent) : List McPolicy :=
  es.filterMap fun
    | .policy p => some p
    | _ => none

/-- The part of the client that POLICY datagrams are about. -/
def McBackbone.policyPart (bb : McBackbone) : PolicyPart where
  cfg := bb.cfg
  meshCfg := bb.mesh.map McMesh.cfg
  pol := bb.pol
  polPages := bb.polPages
  polHave := bb.polHave
  polMinSeq := bb.polMinSeq
  polMaxSeq := bb.polMaxSeq
  polAppliedSeq := bb.polAppliedSeq
  sets := policiesOf bb.log

/-- A POLICY body that `on_policy` does not count as rejected, as a part of a set. -/
def partOf (seq : UInt32) (body : Bytes) : Option (Part UInt32 Bytes) :=
  let page := body.getD 4 0
  let pages := body.getD 5 0
  if body.length < 6 then none
  else if rdU32le body = 0 ∨ pages = 0 ∨ bbPolMaxPages < pages.toNat ∨ page = 0 ∨ pages < page ∨
      (policyWalk (body.drop 6) none).1 = false then none
  else some ⟨seq.toNat, rdU32le body, pages.toNat, page.toNat - 1, body.drop 6⟩

/-- The set that pages make, in the order they were taken. -/
def policyOf (version : UInt32) (pages : List Bytes) : McPolicy :=
  pages.foldl McPolicy.addPage { McPolicy.empty with version := version }

/-- The parts held, of which `q` is one. -/
structure Collecting (b : PolicyPart) (q : Part UInt32 Bytes) (held : List (Part UInt32 Bytes)) : Prop where
  version : b.pol.version = q.version
  pages : b.polPages.toNat = q.count
  some : b.polPages ≠ 0
  pagesLe : b.polPages.toNat ≤ bbPolMaxPages
  index : ∀ p ∈ held, p.index < q.count
  pol : b.pol = policyOf q.version (held.map Part.content)
  mask : MaskOf b.polHave held
  lowest : b.polMinSeq.toNat = lowest held
  highest : b.polMaxSeq.toNat = highest held

/-- The client shows a receiver, after the sets called before it. -/
structure Shows (before : List McPolicy) (b : PolicyPart) (r : Receiver UInt32 Bytes) : Prop where
  inForce : b.cfg.policy.version = r.inForce
  floor : b.polAppliedSeq.toNat = r.floor
  sets : b.sets = before ++ r.installed.map fun c => policyOf c.version c.contents
  none : r.held = [] → b.polPages = 0
  collecting : ∀ q ∈ r.held.head?, Collecting b q r.held

/-- An entry does not change the version. -/
theorem policyAdd_version (p : McPolicy) (kind : UInt8) (v : Bytes) :
    (policyAdd p kind v).version = p.version := by
  unfold policyAdd McPolicy.skip
  grind

/-- Nor does a page of entries. -/
theorem addPage_version {e : Bytes} (he : (pageEntries e).isSome) (p : McPolicy) :
    (p.addPage e).version = p.version := by
  rcases Option.isSome_iff_exists.mp he with ⟨es, hes⟩
  rw [p.addPage_eq hes]
  have hall : ∀ (es : List PageEntry) (p : McPolicy), (p.addAll es).version = p.version := by
    intro es
    induction es with
    | nil => intro p; rfl
    | cons x es ih =>
      intro p
      exact (ih _).trans (policyAdd_version p x.1 x.2)
  exact hall es p

/-- Pages are added one after the other. -/
theorem policyOf_concat (version : UInt32) (pages : List Bytes) (e : Bytes) :
    policyOf version (pages ++ [e]) = (policyOf version pages).addPage e := by
  rw [policyOf, List.foldl_append]
  rfl

/-! ## `on_policy` is the receiver -/

section
variable {C : Crypto} {bb : McBackbone} {before : List McPolicy} {r : Receiver UInt32 Bytes}
  {p : Part UInt32 Bytes} {held : List (Part UInt32 Bytes)}

@[simp] theorem policiesOf_append (es es' : List BbEvent) :
    policiesOf (es ++ es') = policiesOf es ++ policiesOf es' := List.filterMap_append

/-- A set in force has the version it was sent under. -/
theorem configSetPolicy_version (C : Crypto) (cfg : McConfig) (p : McPolicy) (own : Option Bytes) :
    (configSetPolicy C cfg p own).policy.version = p.version := by
  rcases configPolicyMerge_tables C { cfg with policy := guardedPolicy cfg.name own p } with
    ⟨rooms, chans, served, skipped, hmerge⟩
  rw [configSetPolicy, hmerge]
  rfl

@[simp] theorem backboneStatusSoon_policyPart (bb : McBackbone) :
    (backboneStatusSoon bb).policyPart = bb.policyPart := by
  unfold backboneStatusSoon
  split <;> rfl

/-- A complete set is installed, unless its version is in force. -/
theorem applySet_shows (hinForce : bb.cfg.policy.version = r.inForce)
    (hsets : policiesOf bb.log = before ++ r.installed.map fun c => policyOf c.version c.contents)
    (hheld : Collecting bb.policyPart p (held ++ [p]))
    (hall : ∀ i < p.count, ∃ q ∈ held ++ [p], q.index = i) :
    Shows before (applySet C bb).policyPart (r.add held p) := by
  have hpol : bb.pol = policyOf p.version ((held ++ [p]).map Part.content) := hheld.pol
  have hversion : bb.pol.version = p.version := hheld.version
  unfold Receiver.add
  rw [if_pos hall]
  unfold applySet
  simp only [backboneStatusSoon_policyPart]
  by_cases hsame : bb.pol.version = bb.cfg.policy.version
  · rw [if_neg (not_not.mpr hsame), if_pos (by rw [← hversion, hsame, hinForce])]
    exact ⟨hsame.symm.trans hversion, hheld.lowest, hsets, fun _ => rfl, by nofun⟩
  · rw [if_pos hsame, if_neg (by rw [← hversion, ← hinForce]; exact hsame)]
    refine ⟨(configSetPolicy_version C _ _ _).trans hversion, hheld.lowest, ?_, fun _ => rfl, by nofun⟩
    have hlog : (bb.setCfg (configSetPolicy C bb.cfg bb.pol (some bb.id.pub.bytes))).log = bb.log := rfl
    show policiesOf (bb.log ++ [.policy bb.pol]) = _
    rw [policiesOf_append, hsets, List.map_append, List.append_assoc, hpol]
    rfl

/-- One more part: the set may be complete now. -/
theorem shows_add (hinForce : bb.cfg.policy.version = r.inForce) (hfloor : bb.polAppliedSeq.toNat = r.floor)
    (hsets : policiesOf bb.log = before ++ r.installed.map fun c => policyOf c.version c.contents)
    (hheld : Collecting bb.policyPart p (held ++ [p]))
    (hhead : ∀ q ∈ held.head?, q.version = p.version ∧ q.count = p.count) :
    Shows before (if bb.polHave ≠ allPages bb.polPages then bb else applySet C bb).policyPart
      (r.add held p) := by
  have hfull := hheld.mask.full_iff hheld.pagesLe (by rw [hheld.pages]; exact hheld.index)
  rw [hheld.pages] at hfull
  by_cases hmask : bb.polHave = allPages bb.polPages
  · rw [if_neg (not_not.mpr hmask)]
    exact applySet_shows hinForce hsets hheld (hfull.mp hmask)
  · rw [if_pos hmask]
    unfold Receiver.add
    rw [if_neg (fun hall => hmask (hfull.mpr hall))]
    refine ⟨hinForce, hfloor, hsets, by simp, ?_⟩
    intro q hq
    have hsame : q.version = p.version ∧ q.count = p.count := by
      cases held with
      | nil =>
        cases hq
        exact ⟨rfl, rfl⟩
      | cons x held => exact hhead q hq
    exact { hheld with
      version := hheld.version.trans hsame.1.symm
      pages := hheld.pages.trans hsame.2.symm
      index := fun x hx => hsame.2 ▸ hheld.index x hx
      pol := hsame.1 ▸ hheld.pol }

/-- The first part of a set. -/
theorem collecting_fresh {seq version : UInt32} {page pages : UInt8} {entries : Bytes}
    (hpage : page ≠ 0) (hle : page ≤ pages) (hmax : pages.toNat ≤ bbPolMaxPages)
    (hwalk : (pageEntries entries).isSome) :
    let fresh : McBackbone := { bb with
      pol := { McPolicy.empty with version := version }
      polPages := pages
      polHave := 0
      polMinSeq := seq
      polMaxSeq := seq }
    let p : Part UInt32 Bytes := ⟨seq.toNat, version, pages.toNat, page.toNat - 1, entries⟩
    Collecting (takePage fresh seq (pageBit page) entries).policyPart p [p] := by
  intro fresh p
  have hpos : 0 < page.toNat := Nat.pos_of_ne_zero fun hzero => hpage (UInt8.toNat_inj.mp hzero)
  have hnat : page.toNat ≤ pages.toNat := hle
  constructor
  · exact addPage_version hwalk _
  · rfl
  · intro hzero
    rw [show pages = 0 from hzero] at hnat
    exact absurd hnat (not_le.mpr hpos)
  · exact hmax
  · intro q hq
    rw [List.mem_singleton.mp hq]
    show page.toNat - 1 < pages.toNat
    omega
  · rfl
  · have hmask := maskOf_nil.concat hpage (hnat.trans hmax) (p := p) rfl
    exact hmask
  · show (if seq < seq then seq else seq).toNat = _
    rw [if_neg (UInt32.lt_irrefl seq)]
    rfl
  · show (if seq < seq then seq else seq).toNat = _
    rw [if_neg (UInt32.lt_irrefl seq)]
    rfl

/-- A further part. -/
theorem collecting_next {seq : UInt32} {page : UInt8} {entries : Bytes} (h : Collecting bb.policyPart p held)
    (hne : held ≠ []) (hpage : page ≠ 0) (hle : page ≤ bb.polPages) (hwalk : (pageEntries entries).isSome) :
    let q : Part UInt32 Bytes := ⟨seq.toNat, p.version, p.count, page.toNat - 1, entries⟩
    Collecting (takePage bb seq (pageBit page) entries).policyPart q (held ++ [q]) := by
  intro q
  have hpos : 0 < page.toNat := Nat.pos_of_ne_zero fun hzero => hpage (UInt8.toNat_inj.mp hzero)
  have hnat : page.toNat ≤ bb.polPages.toNat := hle
  have hcount : bb.polPages.toNat = p.count := h.pages
  constructor
  · exact (addPage_version hwalk _).trans h.version
  · exact h.pages
  · exact h.some
  · exact h.pagesLe
  · intro x hx
    rcases List.mem_append.mp hx with hold | hlast
    · exact h.index x hold
    · rw [List.mem_singleton.mp hlast]
      show page.toNat - 1 < p.count
      omega
  · have hpol : bb.pol = policyOf p.version (held.map Part.content) := h.pol
    show bb.pol.addPage entries = _
    rw [List.map_append, List.map_singleton, policyOf_concat, hpol]
  · exact h.mask.concat hpage (hnat.trans h.pagesLe) rfl
  -- the lowest and the highest number
  · have hlow : bb.polMinSeq.toNat = lowest held := h.lowest
    show (if seq < bb.polMinSeq then seq else bb.polMinSeq).toNat = _
    rw [lowest_concat hne, ← hlow]
    split
    · rename_i hlt
      exact (min_eq_right (Nat.le_of_lt hlt)).symm
    · rename_i hge
      exact (min_eq_left (not_lt.mp hge)).symm
  · have hhigh : bb.polMaxSeq.toNat = highest held := h.highest
    show (if bb.polMaxSeq < seq then seq else bb.polMaxSeq).toNat = _
    rw [highest_concat hne, ← hhigh]
    split
    · rename_i hlt
      exact (max_eq_right (Nat.le_of_lt hlt)).symm
    · rename_i hge
      exact (max_eq_left (not_lt.mp hge)).symm

/-- A set is begun with its first part. -/
theorem shows_fresh (h : Shows before bb.policyPart r) {seq version : UInt32} {page pages : UInt8} {entries : Bytes}
    (hpage : page ≠ 0) (hle : page ≤ pages) (hmax : pages.toNat ≤ bbPolMaxPages)
    (hwalk : (pageEntries entries).isSome) {b : McBackbone}
    (hb : b = { bb with
      pol := { McPolicy.empty with version := version }
      polPages := pages
      polHave := 0
      polMinSeq := seq
      polMaxSeq := seq }) :
    Shows before (if b.polHave &&& pageBit page ≠ 0 then b
      else if (takePage b seq (pageBit page) entries).polHave ≠ allPages pages then
        takePage b seq (pageBit page) entries
      else applySet C (takePage b seq (pageBit page) entries)).policyPart
      (r.add [] ⟨seq.toNat, version, pages.toNat, page.toNat - 1, entries⟩) := by
  subst hb
  have hcollect := @collecting_fresh bb seq version page pages entries hpage hle hmax hwalk
  rw [if_neg (by simp)]
  exact shows_add (C := C) h.inForce h.floor h.sets hcollect (by nofun)

/-- A part of the set that is being collected: one that is held already changes nothing. -/
theorem shows_next (h : Shows before bb.policyPart r) {seq : UInt32} {page : UInt8} {entries : Bytes}
    {q : Part UInt32 Bytes} {rest : List (Part UInt32 Bytes)} (hheld : r.held = q :: rest) (hpage : page ≠ 0)
    (hle : page ≤ bb.polPages) (hmax : bb.polPages.toNat ≤ bbPolMaxPages) (hwalk : (pageEntries entries).isSome) :
    Shows before (if bb.polHave &&& pageBit page ≠ 0 then bb
      else if (takePage bb seq (pageBit page) entries).polHave ≠ allPages bb.polPages then
        takePage bb seq (pageBit page) entries
      else applySet C (takePage bb seq (pageBit page) entries)).policyPart
      (if ∃ x ∈ r.held, x.index = page.toNat - 1 then r
        else r.add r.held ⟨seq.toNat, q.version, q.count, page.toNat - 1, entries⟩) := by
  have hq := h.collecting q (by rw [hheld]; rfl)
  have hmask : MaskOf bb.polHave r.held := hq.mask
  have hheldIff := hmask.held_iff hpage (le_trans hle hmax)
  by_cases hdup : ∃ x ∈ r.held, x.index = page.toNat - 1
  · rw [if_pos hdup, if_pos (hheldIff.mpr hdup)]
    exact h
  · rw [if_neg hdup, if_neg (fun hne => hdup (hheldIff.mp hne))]
    have hne : r.held ≠ [] := by simp [hheld]
    refine shows_add (C := C) h.inForce h.floor h.sets (@collecting_next _ _ _ seq _ _ hq hne hpage hle hwalk) ?_
    intro x hx
    rw [hheld] at hx
    cases hx
    exact ⟨rfl, rfl⟩

/-- A part is older than the last set completed. -/
theorem Shows.old_iff (h : Shows before bb.policyPart r) (seq : UInt32) :
    bb.polAppliedSeq ≠ 0 ∧ seq < bb.polAppliedSeq ↔ seq.toNat < r.floor := by
  rw [← h.floor]
  constructor
  · exact fun hold => hold.2
  · intro hlt
    refine ⟨?_, hlt⟩
    intro hzero
    rw [show bb.policyPart.polAppliedSeq = 0 from hzero] at hlt
    exact absurd hlt (Nat.not_lt_zero _)

/-- A POLICY datagram does to the client what its part does to the receiver. -/
theorem onPolicy_shows (h : Shows before bb.policyPart r) (hon : bb.cfg.backbonePolicy = true)
    (seq : UInt32) (body : Bytes) :
    Shows before (onPolicy C bb seq body).policyPart ((partOf seq body).elim r r.take) := by
  unfold onPolicy partOf
  rw [if_neg (by rw [hon]; decide)]
  simp only
  split
  · exact h
  split
  · exact h
  rename_i hbody hfields
  simp only [not_or, Bool.not_eq_false] at hfields
  -- the checks a datagram has to pass to be a part at all
  rcases hfields with ⟨-, -, hmax, hpage, hle, hwalk⟩
  rw [policyWalk_check] at hwalk
  have hmax := not_lt.mp hmax
  have hle := UInt8.not_lt.mp hle
  generalize hversion : rdU32le body = version
  generalize body.getD 4 0 = page at hpage hle ⊢
  generalize body.getD 5 0 = pages at hmax hle ⊢
  generalize body.drop 6 = entries at hwalk ⊢
  rw [Option.elim_some]
  -- older than the set completed last
  by_cases hold : seq.toNat < r.floor
  · rw [if_pos ((h.old_iff seq).mpr hold), Receiver.take_old hold]
    exact h
  rw [if_neg (fun hc => hold ((h.old_iff seq).mp hc))]
  unfold collectFor
  simp only
  -- nothing held: the part begins a set
  cases hheld : r.held with
  | nil =>
    have hnone : bb.polPages = 0 := h.none hheld
    rw [if_pos hnone, Receiver.take_first hold hheld]
    exact shows_fresh h hpage hle hmax hwalk rfl
  | cons q rest =>
    have hq := h.collecting q (by rw [hheld]; rfl)
    have hpages : bb.polPages.toNat = q.count := hq.pages
    have hcollected : bb.pol.version = q.version := hq.version
    have hhighest : bb.polMaxSeq.toNat = highest r.held := hq.highest
    have hsome : bb.polPages ≠ 0 := hq.some
    rw [if_neg hsome, Receiver.take_held hold hheld]
    -- version and number of pages say which set it is of
    have hother : version ≠ bb.pol.version ∨ pages ≠ bb.polPages ↔
        version ≠ q.version ∨ pages.toNat ≠ q.count := by
      rw [hcollected, ← hpages, ne_eq pages, ← UInt8.toNat_inj]
    by_cases hc : version ≠ q.version ∨ pages.toNat ≠ q.count
    · -- another set, which counts if the part is newer than those held
      rw [if_pos (hother.mpr hc), if_pos hc, ← hhighest]
      by_cases hseq : seq ≤ bb.polMaxSeq
      · have hnat : seq.toNat ≤ bb.polMaxSeq.toNat := hseq
        rw [if_pos hseq, if_pos hnat]
        exact h
      · have hnat : ¬ seq.toNat ≤ bb.polMaxSeq.toNat := hseq
        rw [if_neg hseq, if_neg hnat]
        exact shows_fresh h hpage hle hmax hwalk rfl
    -- the set that is being collected
    · rw [if_neg (fun hne => hc (hother.mp hne)), if_neg hc]
      simp only [not_or, not_not] at hc
      rcases hc with ⟨rfl, hcount⟩
      have heq : pages = bb.polPages := UInt8.toNat_inj.mp (hcount.trans hpages.symm)
      subst heq
      rw [hcount]
      exact shows_next h hheld hpage hle hmax hwalk

end

end Meshcore
