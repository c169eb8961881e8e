import MeshcoreRepeater.Config.Basic
import MeshcoreRepeater.Lib.Run

/-! # The split-RX link

`link.c`: a remote ear (`link_relay`) stamps every frame it hears with its clock and an
HMAC, the transmitting node (`link_recv`) takes the datagrams whose tag is right and whose
stamp lies within a minute of its own clock. The network between them may delay, duplicate
and reorder.

The clock is the only thing `link_recv` keeps against a replay: within the minute a second
copy is taken like the first (`link_replaySafe_iff`).

* `linkRecv_relayed`: a relayed datagram comes through exactly when it is admitted.
* `LinkNet.Inv.grow`, `LinkNet.Inv.arrive`: the two steps of a link over the network.
* `link_replaySafe_iff`: the runs without a replay.
-/

namespace Meshcore

open ByteLib

inductive LinkMode where
  | off | rx | tx
deriving DecidableEq, Repr

def linkVer : UInt8 := 1
/-- ver(1) + ts(4) + rssi(2) + snr(1) + len(2) -/
def linkHdr : Nat := 10
def linkMac : Nat := 8
def linkMaxFrame : Nat := 512
/-- seconds -/
def linkTsWindow : UInt32 := 60

/-- `mc_link`. -/
structure McLink where
  mode : LinkMode
  /-- `fd >= 0` -/
  fd : Bool
  key : Buf 32
  framesOut : UInt64
  framesIn : UInt64
  framesBad : UInt64
deriving DecidableEq

/-- The link after `memset`, with no socket. -/
def McLink.closed : McLink where
  mode := .off
  fd := false
  key := Buf.zero 32
  framesOut := 0
  framesIn := 0
  framesBad := 0

def parseLinkMode (s : Bytes) : LinkMode :=
  if strcaseEq s (lit "rx") then .rx
  else if strcaseEq s (lit "tx") then .tx
  else .off

/-- What the socket calls of `link_init` return. -/
structure LinkHal where
  socketOk : Bool
  bindOk : Bool
  peerResolves : Bool

/-- `link_init`: the link and the return code. -/
def linkInit (C : Crypto) (hal : LinkHal) (cfg : McConfig) : McLink × Int :=
  let mode := parseLinkMode cfg.linkMode
  let key := C.sha256 cfg.linkKey
  let up : McLink := { McLink.closed with mode := mode, fd := true, key := key }
  if mode = .off then (McLink.closed, 0)
  else if cfg.linkKey = [] then (McLink.closed, -1)
  else if hal.socketOk = false then ({ McLink.closed with key := key }, -1)
  else if mode = .tx then
    if hal.bindOk then (up, 0) else ({ McLink.closed with key := key }, -1)
  else if cfg.linkPeer = [] then ({ McLink.closed with key := key }, -1)
  else if hal.peerResolves then (up, 0) else ({ McLink.closed with key := key }, -1)

/-! ## Sending -/

/-- The bytes the tag covers: the header and the frame. -/
def linkHead (now : Nat) (frame : Bytes) (rssi : Int16) (snr : Int8) : Bytes :=
  linkVer :: (wrU32le (UInt32.ofNat now) ++ (wrU16le rssi.toUInt16 ++ (snr.toUInt8 ::
    (wrU16le (UInt16.ofNat frame.length) ++ frame))))

/-- The truncated HMAC. -/
def linkTag (C : Crypto) (key : Buf 32) (head : Bytes) : Bytes :=
  (hmacSha256 C key.bytes head).take linkMac

/-- `link_relay`: the datagram, if `sendto` took one. -/
def linkRelay (C : Crypto) (lk : McLink) (now : Nat) (frame : Bytes) (rssi : Int16) (snr : Int8)
    (sendOk : Bool) : McLink × Option Bytes :=
  if lk.mode ≠ .rx ∨ lk.fd = false ∨ frame.length = 0 ∨ linkMaxFrame < frame.length then (lk, none)
  else
    let head := linkHead now frame rssi snr
    if sendOk then
      ({ lk with framesOut := lk.framesOut + 1 }, some (head ++ linkTag C lk.key head))
    else (lk, none)

/-! ## Receiving -/

/-- What `recvfrom` finds. -/
inductive Recvfrom where
  | again
  | failed
  | datagram (d : Bytes)

/-- What `link_recv` returns: 0, -1, or 1 with the frame and its measurements. -/
inductive LinkRecv where
  | none
  | failed
  | frame (frame : Bytes) (rssi : Int16) (snr : Int8)
deriving DecidableEq

def McLink.refused (lk : McLink) : McLink := { lk with framesBad := lk.framesBad + 1 }

def McLink.received (lk : McLink) : McLink := { lk with framesIn := lk.framesIn + 1 }

/-- The distance of the two clocks, both cut to 32 bits. -/
def linkDiff (now ts : UInt32) : UInt32 := if ts < now then now - ts else ts - now

/-- `link_recv` for a caller with `cap` bytes of room. The buffer of `recvfrom` cuts off
what is longer than the longest datagram. -/
def linkRecv (C : Crypto) (lk : McLink) (now cap : Nat) (r : Recvfrom) : McLink × LinkRecv :=
  if lk.mode ≠ .tx ∨ lk.fd = false then (lk, .none)
  else
    match r with
    | .again => (lk, .none)
    | .failed => (lk, .failed)
    | .datagram sent =>
      let d := sent.take (linkHdr + linkMaxFrame + linkMac)
      let flen := (rdU16le (d.drop 8)).toNat
      if d.length < linkHdr + linkMac ∨ d.getD 0 0 ≠ linkVer then (lk.refused, .none)
      else if d.length ≠ linkHdr + flen + linkMac ∨ cap < flen then (lk.refused, .none)
      else if linkTag C lk.key (d.take (linkHdr + flen)) ≠ (d.drop (linkHdr + flen)).take linkMac then
        (lk.refused, .none)
      else if linkTsWindow < linkDiff (UInt32.ofNat now) (rdU32le (d.drop 1)) then (lk.refused, .none)
      else
        (lk.received, .frame ((d.drop linkHdr).take flen) (rdU16le (d.drop 5)).toInt16
          (d.getD 7 0).toInt8)

/-! ## Relayed datagrams -/

/-- A datagram on the wire, and the call of `link_relay` that sent it. -/
structure Relayed where
  datagram : Bytes
  key : Buf 32
  time : Nat
  frame : Bytes
  rssi : Int16
  snr : Int8

def Relayed.head (s : Relayed) : Bytes := linkHead s.time s.frame s.rssi s.snr

/-- The datagram is the one `link_relay` makes of its arguments. -/
structure Relayed.Genuine (C : Crypto) (s : Relayed) : Prop where
  bytes : s.datagram = s.head ++ linkTag C s.key s.head
  frame_le : s.frame.length ≤ linkMaxFrame

/-- The clocks are within the window of one another, as far as their low 32 bits tell. -/
def InWindow (now time : Nat) : Prop :=
  now % 2 ^ 32 ≤ time % 2 ^ 32 + 60 ∧ time % 2 ^ 32 ≤ now % 2 ^ 32 + 60

/-- A link that listens, with room for the frame, a key that makes the same tag and a clock
within the window. -/
structure Relayed.Admitted (C : Crypto) (lk : McLink) (now cap : Nat) (s : Relayed) : Prop where
  listening : lk.mode = .tx ∧ lk.fd = true
  fits : s.frame.length ≤ cap
  tag : linkTag C lk.key s.head = linkTag C s.key s.head
  window : InWindow now s.time

/-! ### One datagram -/

theorem linkDiff_le_iff (now time : Nat) :
    ¬ linkTsWindow < linkDiff (UInt32.ofNat now) (UInt32.ofNat time) ↔ InWindow now time := by
  have hnow : (UInt32.ofNat now).toNat = now % 2 ^ 32 := UInt32.toNat_ofNat
  have htime : (UInt32.ofNat time).toNat = time % 2 ^ 32 := UInt32.toNat_ofNat
  have hlt := (UInt32.ofNat now).toNat_lt
  have hlt' := (UInt32.ofNat time).toNat_lt
  unfold linkDiff InWindow
  rw [UInt32.lt_iff_toNat_lt, ← hnow, ← htime]
  show ¬ 60 < UInt32.toNat _ ↔ _
  split
  · rename_i h
    rw [UInt32.lt_iff_toNat_lt] at h
    rw [UInt32.toNat_sub_of_le _ _ (UInt32.le_iff_toNat_le.mpr h.le)]
    omega
  · rename_i h
    rw [UInt32.lt_iff_toNat_lt, Nat.not_lt] at h
    rw [UInt32.toNat_sub_of_le _ _ (UInt32.le_iff_toNat_le.mpr h)]
    omega

theorem length_linkHead (now : Nat) (frame : Bytes) (rssi : Int16) (snr : Int8) :
    (linkHead now frame rssi snr).length = linkHdr + frame.length := by
  simp only [linkHead, List.length_cons, List.length_append, length_wrU32le, length_wrU16le, linkHdr]
  omega

theorem length_linkTag (C : Crypto) (key : Buf 32) (head : Bytes) : (linkTag C key head).length = linkMac := by
  rw [linkTag, List.length_take, length_hmacSha256]
  rfl

/-- What is read from a header that was written. -/
theorem linkHead_fields (now : Nat) (frame mac : Bytes) (rssi : Int16) (snr : Int8) :
    (linkHead now frame rssi snr ++ mac).getD 0 0 = linkVer ∧
      rdU32le ((linkHead now frame rssi snr ++ mac).drop 1) = UInt32.ofNat now ∧
      rdU16le ((linkHead now frame rssi snr ++ mac).drop 5) = rssi.toUInt16 ∧
      (linkHead now frame rssi snr ++ mac).getD 7 0 = snr.toUInt8 ∧
      rdU16le ((linkHead now frame rssi snr ++ mac).drop 8) = UInt16.ofNat frame.length ∧
      (linkHead now frame rssi snr ++ mac).drop linkHdr = frame ++ mac := by
  have hshape : linkHead now frame rssi snr ++ mac =
      linkVer :: (wrU32le (UInt32.ofNat now) ++ (wrU16le rssi.toUInt16 ++ (snr.toUInt8 ::
        (wrU16le (UInt16.ofNat frame.length) ++ (frame ++ mac))))) := by
    simp [linkHead]
  rw [hshape]
  exact ⟨rfl, rdU32le_wrU32le _ _, rdU16le_wrU16le _ _, rfl, rdU16le_wrU16le _ _, rfl⟩

/-- A relayed datagram comes through exactly when it is admitted, and then with the frame
and the measurements that went in. -/
theorem linkRecv_relayed {C : Crypto} {s : Relayed} (hs : s.Genuine C) (lk : McLink) (now cap : Nat) :
    (s.Admitted C lk now cap →
      linkRecv C lk now cap (.datagram s.datagram) = (lk.received, .frame s.frame s.rssi s.snr)) ∧
    (¬ s.Admitted C lk now cap →
      (linkRecv C lk now cap (.datagram s.datagram)).2 = .none) := by
  have hhead : s.head.length = linkHdr + s.frame.length := length_linkHead _ _ _ _
  have hlen : s.datagram.length = linkHdr + s.frame.length + linkMac := by
    rw [hs.bytes, List.length_append, length_linkTag, hhead]
  have hmax := hs.frame_le
  have hwhole : s.datagram.take (linkHdr + linkMaxFrame + linkMac) = s.datagram := by
    apply List.take_of_length_le
    omega
  obtain ⟨hver, hts, hrssi, hsnr, hflen, hbody⟩ :=
    linkHead_fields s.time s.frame (linkTag C s.key s.head) s.rssi s.snr
  have hsize : (UInt16.ofNat s.frame.length).toNat = s.frame.length :=
    UInt16.toNat_ofNat_of_lt' (lt_of_le_of_lt hmax (by decide))
  have hcover : s.datagram.take (linkHdr + s.frame.length) = s.head := by
    rw [hs.bytes]
    exact List.take_left' hhead
  have htag : (s.datagram.drop (linkHdr + s.frame.length)).take linkMac = linkTag C s.key s.head := by
    rw [hs.bytes, List.drop_left' hhead]
    apply List.take_of_length_le
    exact (length_linkTag _ _ _).le
  rw [← Relayed.head, ← hs.bytes] at hver hts hrssi hsnr hflen hbody
  have hframe : (s.datagram.drop linkHdr).take s.frame.length = s.frame := by
    rw [hbody]
    exact List.take_left
  unfold linkRecv
  simp only [hwhole, hver, hts, hrssi, hsnr, hflen, hsize, hcover, htag, hframe]
  constructor
  · intro h
    rcases h.listening with ⟨hmode, hfd⟩
    have hfits := h.fits
    have hfresh := (linkDiff_le_iff now s.time).mpr h.window
    rw [if_neg (by simp [hmode, hfd]), if_neg (by rw [hlen]; simp), if_neg (by rw [hlen]; omega),
      if_neg (by simp [h.tag]), if_neg hfresh]
    rfl
  · intro h
    split
    · rfl
    rename_i hup
    split
    · rfl
    split
    · rfl
    rename_i hcap
    split
    · rfl
    rename_i hmac
    split
    · rfl
    rename_i hfresh
    -- every guard was passed
    apply absurd _ h
    rw [not_or] at hup hcap
    constructor
    · exact ⟨not_not.mp hup.1, by simpa using hup.2⟩
    · exact Nat.le_of_not_lt hcap.2
    · exact not_not.mp hmac
    · exact (linkDiff_le_iff now s.time).mp hfresh

/-- What of a link never changes while it runs. -/
def McLink.SameLink (lk lk' : McLink) : Prop := lk'.mode = lk.mode ∧ lk'.fd = lk.fd ∧ lk'.key = lk.key

theorem linkRecv_sameLink (C : Crypto) (lk : McLink) (now cap : Nat) (r : Recvfrom) :
    lk.SameLink (linkRecv C lk now cap r).1 := by
  have hsame : lk.SameLink lk := ⟨rfl, rfl, rfl⟩
  unfold linkRecv
  split
  · exact hsame
  cases r with
  | again => exact hsame
  | failed => exact hsame
  | datagram d =>
    simp only
    split
    · exact hsame
    split
    · exact hsame
    split
    · exact hsame
    split
    · exact hsame
    · exact hsame

theorem Relayed.Admitted.congr {C : Crypto} {lk lk' : McLink} (h : lk.SameLink lk') {now cap : Nat} {s : Relayed} :
    s.Admitted C lk' now cap ↔ s.Admitted C lk now cap := by
  rcases h with ⟨hmode, hfd, hkey⟩
  constructor
  · rintro ⟨⟨h₁, h₂⟩, h₃, h₄, h₅⟩
    exact ⟨⟨hmode ▸ h₁, hfd ▸ h₂⟩, h₃, hkey ▸ h₄, h₅⟩
  · rintro ⟨⟨h₁, h₂⟩, h₃, h₄, h₅⟩
    exact ⟨⟨hmode ▸ h₁, hfd ▸ h₂⟩, h₃, hkey ▸ h₄, h₅⟩

/-! ## The network between -/

/-- A datagram reaches the transmitting node: which, at what clock, and the room the caller
of `link_recv` has. -/
structure Arrival where
  index : Nat
  now : Nat
  cap : Nat
deriving DecidableEq

/-- The transmitting node, its remote ears, every datagram they sent, and what has arrived
and has been accepted of them so far. -/
structure LinkNet where
  tx : McLink
  ears : List McLink
  sent : List Relayed
  arrived : List Arrival
  accepted : List Arrival

def LinkNet.start (tx : McLink) (ears : List McLink) : LinkNet where
  tx := tx
  ears := ears
  sent := []
  arrived := []
  accepted := []

inductive LinkInput where
  /-- an ear calls `link_relay` -/
  | relay (ear now : Nat) (frame : Bytes) (rssi : Int16) (snr : Int8) (sendOk : Bool)
  /-- the network delivers a copy of a datagram -/
  | deliver (a : Arrival)
  /-- `link_recv` finds nothing, or an error -/
  | idle (now cap : Nat) (error : Bool)

/-- An ear relays a frame. -/
def LinkNet.relay (C : Crypto) (net : LinkNet) (ear now : Nat) (frame : Bytes) (rssi : Int16) (snr : Int8)
    (sendOk : Bool) : LinkNet :=
  match net.ears[ear]? with
  | none => net
  | some lk =>
    match linkRelay C lk now frame rssi snr sendOk with
    | (_, none) => net
    | (lk', some d) =>
      { net with
        ears := net.ears.set ear lk'
        sent := net.sent ++ [⟨d, lk.key, now, frame, rssi, snr⟩] }

/-- A copy of a datagram that has been sent arrives. -/
def LinkNet.deliver (C : Crypto) (net : LinkNet) (a : Arrival) : LinkNet :=
  match net.sent[a.index]? with
  | none => net
  | some s =>
    let r := linkRecv C net.tx a.now a.cap (.datagram s.datagram)
    { net with
      tx := r.1
      arrived := net.arrived ++ [a]
      accepted := if r.2 = .none then net.accepted else net.accepted ++ [a] }

def linkStep (C : Crypto) (net : LinkNet) : LinkInput → LinkNet
  | .relay ear now frame rssi snr sendOk => net.relay C ear now frame rssi snr sendOk
  | .deliver a => net.deliver C a
  | .idle now cap error =>
    { net with tx := (linkRecv C net.tx now cap (if error then .failed else .again)).1 }

def linkRun (C : Crypto) (net : LinkNet) (xs : List LinkInput) : LinkNet := Runs.run (linkStep C) net xs

/-- Each datagram is accepted at most once, and within a minute of its timestamp. -/
structure LinkNet.ReplaySafe (net : LinkNet) : Prop where
  once : (net.accepted.map Arrival.index).Nodup
  timely : ∀ a ∈ net.accepted, ∀ s, net.sent[a.index]? = some s →
    a.now ≤ s.time + 60 ∧ s.time ≤ a.now + 60

/-- An arrival that the transmitting node has no reason to refuse. -/
def LinkNet.Admits (C : Crypto) (net : LinkNet) (a : Arrival) : Prop :=
  ∃ s, net.sent[a.index]? = some s ∧ s.Admitted C net.tx a.now a.cap

/-- The network delivers no datagram a second time while it is still admitted, and holds
none back until the 32-bit clock has come round. -/
structure LinkNet.Unrepeated (C : Crypto) (net : LinkNet) : Prop where
  apart : net.arrived.Pairwise fun a b => a.index = b.index → ¬ (net.Admits C a ∧ net.Admits C b)
  soon : ∀ a ∈ net.arrived, net.Admits C a → ∀ s, net.sent[a.index]? = some s →
    a.now + 60 < s.time + 2 ^ 32 ∧ s.time + 60 < a.now + 2 ^ 32

/-! ### What holds in every run -/

open scoped Classical in
/-- What has been accepted is what has arrived and was admitted. -/
structure LinkNet.Inv (C : Crypto) (tx : McLink) (net : LinkNet) : Prop where
  same : tx.SameLink net.tx
  genuine : ∀ s ∈ net.sent, s.Genuine C
  known : ∀ a ∈ net.arrived, a.index < net.sent.length
  accepted : net.accepted = net.arrived.filter fun a => net.Admits C a

theorem linkRelay_genuine {C : Crypto} {lk lk' : McLink} {now : Nat} {frame d : Bytes} {rssi : Int16} {snr : Int8}
    {sendOk : Bool} (h : linkRelay C lk now frame rssi snr sendOk = (lk', some d)) :
    (Relayed.mk d lk.key now frame rssi snr).Genuine C := by
  unfold linkRelay at h
  split at h
  · cases h
  rename_i hready
  split at h
  · cases h
    constructor
    · rfl
    · have hle : ¬ linkMaxFrame < frame.length := fun hlong => hready (.inr (.inr (.inr hlong)))
      exact Nat.le_of_not_lt hle
  · cases h

/-- A link that goes on as before and further datagrams change nothing for those already sent. -/
theorem LinkNet.admits_grow {C : Crypto} {net net' : LinkNet} (htx : net.tx.SameLink net'.tx) {more : List Relayed}
    (hsent : net'.sent = net.sent ++ more) {a : Arrival} (ha : a.index < net.sent.length) :
    net'.Admits C a ↔ net.Admits C a := by
  have hget : net'.sent[a.index]? = net.sent[a.index]? := by
    rw [hsent]
    exact List.getElem?_append_left ha
  unfold Admits
  rw [hget]
  constructor
  · rintro ⟨s, hs, h⟩
    exact ⟨s, hs, (Relayed.Admitted.congr htx).mp h⟩
  · rintro ⟨s, hs, h⟩
    exact ⟨s, hs, (Relayed.Admitted.congr htx).mpr h⟩

theorem McLink.SameLink.trans {lk lk' lk'' : McLink} (h : lk.SameLink lk') (h' : lk'.SameLink lk'') :
    lk.SameLink lk'' := by
  rcases h with ⟨h₁, h₂, h₃⟩
  rcases h' with ⟨h₁', h₂', h₃'⟩
  exact ⟨h₁'.trans h₁, h₂'.trans h₂, h₃'.trans h₃⟩

open scoped Classical in
/-- The arrivals so far are judged as they were. -/
theorem LinkNet.Inv.filter_grow {C : Crypto} {tx : McLink} {net net' : LinkNet} (h : net.Inv C tx)
    (htx : net.tx.SameLink net'.tx) {more : List Relayed} (hsent : net'.sent = net.sent ++ more) :
    (net.arrived.filter fun a => net'.Admits C a) = net.accepted := by
  rw [h.accepted]
  apply List.filter_congr
  intro a ha
  rw [LinkNet.admits_grow htx hsent (h.known a ha)]

/-- Nothing has arrived. -/
theorem LinkNet.Inv.grow {C : Crypto} {tx : McLink} {net net' : LinkNet} (h : net.Inv C tx)
    (htx : net.tx.SameLink net'.tx) {more : List Relayed} (hsent : net'.sent = net.sent ++ more)
    (hmore : ∀ s ∈ more, s.Genuine C) (harrived : net'.arrived = net.arrived)
    (haccepted : net'.accepted = net.accepted) : net'.Inv C tx := by
  constructor
  · exact h.same.trans htx
  · intro s hs
    rw [hsent] at hs
    rcases List.mem_append.mp hs with hs | hs
    · exact h.genuine s hs
    · exact hmore s hs
  · intro a ha
    rw [harrived] at ha
    have hlt := h.known a ha
    rw [hsent, List.length_append]
    omega
  · rw [haccepted, harrived]
    exact (h.filter_grow htx hsent).symm

/-- One datagram has arrived, and been accepted if it was admitted. -/
theorem LinkNet.Inv.arrive {C : Crypto} {tx : McLink} {net net' : LinkNet} (h : net.Inv C tx)
    (htx : net.tx.SameLink net'.tx) (hsent : net'.sent = net.sent) {a : Arrival} {s : Relayed}
    (hs : net.sent[a.index]? = some s) (harrived : net'.arrived = net.arrived ++ [a])
    (hadmitted : s.Admitted C net.tx a.now a.cap → net'.accepted = net.accepted ++ [a])
    (hrefused : ¬ s.Admitted C net.tx a.now a.cap → net'.accepted = net.accepted) : net'.Inv C tx := by
  have hadmits : net'.Admits C a ↔ s.Admitted C net.tx a.now a.cap := by
    constructor
    · rintro ⟨s', hs', hadm⟩
      rw [hsent, hs] at hs'
      cases hs'
      exact (Relayed.Admitted.congr htx).mp hadm
    · intro hadm
      exact ⟨s, hsent ▸ hs, (Relayed.Admitted.congr htx).mpr hadm⟩
  constructor
  · exact h.same.trans htx
  · rw [hsent]
    exact h.genuine
  · intro b hb
    rw [harrived] at hb
    rw [hsent]
    rcases List.mem_append.mp hb with hb | hb
    · exact h.known b hb
    · rw [List.mem_singleton.mp hb]
      exact (List.getElem?_eq_some_iff.mp hs).choose
  · have hold := h.filter_grow htx (hsent.trans (List.append_nil _).symm)
    rw [harrived, List.filter_append, hold]
    by_cases hadm : s.Admitted C net.tx a.now a.cap
    · rw [hadmitted hadm, List.filter_cons_of_pos (by simpa using hadmits.mpr hadm)]
      rfl
    · rw [hrefused hadm, List.filter_cons_of_neg (by simpa using fun hx => hadm (hadmits.mp hx))]
      exact (List.append_nil _).symm

theorem linkStep_inv {C : Crypto} {tx : McLink} {net : LinkNet} (h : net.Inv C tx) (x : LinkInput) :
    (linkStep C net x).Inv C tx := by
  cases x with
  | relay ear now frame rssi snr sendOk =>
    show (net.relay C ear now frame rssi snr sendOk).Inv C tx
    unfold LinkNet.relay
    split
    · exact h
    split
    · exact h
    -- one more datagram on the wire
    rename_i lk hear lk' d hrelay
    refine h.grow ⟨rfl, rfl, rfl⟩ rfl ?_ rfl rfl
    intro s hs
    rw [List.mem_singleton.mp hs]
    exact linkRelay_genuine hrelay
  | deliver a =>
    show (net.deliver C a).Inv C tx
    unfold LinkNet.deliver
    split
    · exact h
    rename_i s hs
    have hrecv := linkRecv_relayed (h.genuine s (List.mem_of_getElem? hs)) net.tx a.now a.cap
    have hsame := linkRecv_sameLink C net.tx a.now a.cap (.datagram s.datagram)
    refine h.arrive ?_ ?_ hs ?_ ?_ ?_
    · exact hsame
    · rfl
    · rfl
    · intro hadm
      exact if_neg (by rw [hrecv.1 hadm]; nofun)
    · intro hrefused
      exact if_pos (hrecv.2 hrefused)
  | idle now cap error =>
    exact h.grow (linkRecv_sameLink C net.tx now cap _) (List.append_nil _).symm (by nofun) rfl rfl

theorem linkRun_inv (C : Crypto) (tx : McLink) (ears : List McLink) (xs : List LinkInput) :
    (linkRun C (.start tx ears) xs).Inv C tx := by
  apply Runs.run_invariant
  · intro net x h
    exact linkStep_inv h x
  · exact ⟨⟨rfl, rfl, rfl⟩, by nofun, by nofun, rfl⟩

/-! ### Replays -/

/-- Clocks that agree to the minute on their low 32 bits agree to the minute, unless they
are a whole turn apart. -/
theorem inWindow_soon {now time : Nat} (h : InWindow now time) :
    now ≤ time + 60 ∧ time ≤ now + 60 ↔ now + 60 < time + 2 ^ 32 ∧ time + 60 < now + 2 ^ 32 := by
  rcases h with ⟨h₁, h₂⟩
  constructor <;> omega

open scoped Classical in
/-- The link is safe against replays in exactly the runs in which the network replays
nothing within the window. -/
theorem link_replaySafe_iff (C : Crypto) (tx : McLink) (ears : List McLink) (xs : List LinkInput) :
    (linkRun C (.start tx ears) xs).ReplaySafe ↔ (linkRun C (.start tx ears) xs).Unrepeated C := by
  have h := linkRun_inv C tx ears xs
  generalize linkRun C (.start tx ears) xs = net at h
  have hmem : ∀ a, a ∈ net.accepted ↔ a ∈ net.arrived ∧ net.Admits C a := by
    intro a
    rw [h.accepted, List.mem_filter, decide_eq_true_iff]
  have hsoon : ∀ a, net.Admits C a → ∀ s, net.sent[a.index]? = some s →
      (a.now ≤ s.time + 60 ∧ s.time ≤ a.now + 60 ↔
        a.now + 60 < s.time + 2 ^ 32 ∧ s.time + 60 < a.now + 2 ^ 32) := by
    rintro a ⟨s', hs', hadm⟩ s hs
    rw [Option.some.inj (hs.symm.trans hs')]
    exact inWindow_soon hadm.window
  have hnodup : (net.accepted.map Arrival.index).Nodup ↔
      net.arrived.Pairwise fun a b => a.index = b.index → ¬ (net.Admits C a ∧ net.Admits C b) := by
    rw [List.Nodup, List.pairwise_map, h.accepted, List.pairwise_filter]
    apply List.Pairwise.iff
    intro a b
    simp only [decide_eq_true_iff]
    tauto
  constructor
  · rintro ⟨honce, htimely⟩
    constructor
    · exact hnodup.mp honce
    · intro a ha hadm s hs
      exact (hsoon a hadm s hs).mp (htimely a ((hmem a).mpr ⟨ha, hadm⟩) s hs)
  · rintro ⟨hapart, hsoon'⟩
    constructor
    · exact hnodup.mpr hapart
    · intro a ha s hs
      rcases (hmem a).mp ha with ⟨harrived, hadm⟩
      exact (hsoon a hadm s hs).mpr (hsoon' a harrived hadm s hs)

/-- A frame of 19 bytes, as an ear hears it. -/
def linkFrame : Bytes := bytesBE 19 0xa0a1a2a3a4a5a6a7a8a9aaabacadaeafb0b1b2

/-- The digests of the key, and of the two passes of the HMAC over the relayed frame. -/
def linkCrypto : Crypto :=
  let key := bytesBE 32 0x1ec1c26b50d5d3c58d9583181af8076655fe00756bf7285940ba3670f99fcba0
  let inner := bytesBE 32 0xcd9977e84b3fe4d6261d42ea6a2fb507075fc9a27ba418edbdd8950a77d73c1c
  Crypto.ofTable
    [(lit "s3cret", key),
     ((key ++ List.replicate 32 0).map (· ^^^ 0x36) ++ linkHead 1760000000 linkFrame (-73) 28, inner),
     ((key ++ List.replicate 32 0).map (· ^^^ 0x5c) ++ inner,
      bytesBE 32 0x18b34b584e0ace0fa37ad7784c119f2db0643ee5d5e9b9dde623c481194f636f)]
    []

/-- A transmitting node and one ear, both configured with the key "s3cret". -/
def linkPair : LinkNet :=
  let hal : LinkHal := ⟨true, true, true⟩
  let tx := { configDefaults with linkMode := lit "tx", linkKey := lit "s3cret" }
  let ear :=
    { configDefaults with linkMode := lit "rx", linkKey := lit "s3cret", linkPeer := lit "127.0.0.1" }
  .start (linkInit linkCrypto hal tx).1 [(linkInit linkCrypto hal ear).1]

/-- One frame is relayed; its datagram arrives at once, and again a second later. -/
def linkReplay : List LinkInput :=
  [.relay 0 1760000000 linkFrame (-73) 28 true, .deliver ⟨0, 1760000000, 255⟩, .deliver ⟨0, 1760000001, 255⟩]

/-- Both copies are accepted. -/
theorem linkReplay_acceptedTwice :
    (linkRun linkCrypto linkPair linkReplay).accepted.map Arrival.index = [0, 0] ∧
      ¬ (linkRun linkCrypto linkPair linkReplay).ReplaySafe := by
  have htwice : (linkRun linkCrypto linkPair linkReplay).accepted.map Arrival.index = [0, 0] := by
    decide +kernel
  refine ⟨htwice, ?_⟩
  rintro ⟨honce, -⟩
  rw [htwice] at honce
  exact absurd honce (by decide)

end Meshcore
