import MeshcoreRepeater.Backbone.Json
import MeshcoreRepeater.Backbone.State
import MeshcoreRepeater.Config.Set

/-! # What the client reports

`send_status` and `send_neighbours`: the STATUS object, and the neighbour table in pages
that fit a datagram.

* `sendStatus`, `sendNeighbours`: the two reports, and `neighbourJson` for a row of the table.
-/

namespace Meshcore

open ByteLib

/-- `BB_STATUS_JSON`. -/
def bbStatusJson : Nat := 1100

/-- `"key":n`, with what stands in front of the key. -/
def jsonNat (key : String) (n : Nat) : Bytes := lit key ++ decimal n

/-! ## STATUS -/

/-- The first part of the object: who and where this node is. -/
def statusNode (j : JBuf) (p : BbHal) (bb : McBackbone) (m : McMesh) (now : Nat) : JBuf :=
  let c := bb.cfg
  let j := jbAdd j (lit "\x7b\"name\":")
  let j := jbStr j c.name
  let j := jbAdd j (lit ",\"fw\":")
  let j := jbStr j p.mcVersion
  let j := jbAdd j (jsonNat ",\"uptime\":" (u64Sub now m.startMs / 1000) ++ lit ",\"role\":\"" ++
    (if c.role = .hotspot then lit "hotspot" else lit "repeater") ++ lit "\"")
  let j := if c.role = .hotspot then
      jbAdd j (lit ",\"rf_silent\":" ++ if meshRfSilent m now then lit "true" else lit "false")
    else j
  let j := if c.hasLocation then
      jbAdd j (lit ",\"lat\":" ++ fmtF 6 c.latitude ++ lit ",\"lon\":" ++ fmtF 6 c.longitude)
    else j
  jbAdd j (lit ",\"radio\":\x7b\"freq\":" ++ fmtF 3 c.frequency ++ lit ",\"bw\":" ++ fmtG c.bandwidth ++
    jsonNat ",\"sf\":" c.spreadingFactor.toNat ++ jsonNat ",\"cr\":" c.codingRate.toNat ++
    lit ",\"tx_power\":" ++ intDecimal c.txPower ++ lit "\x7d")

/-- The second part: the counters of the mesh. -/
def statusMesh (j : JBuf) (s : MeshStats) (neighbours : Nat) : JBuf :=
  let j := jbAdd j (jsonNat ",\"rx\":\x7b\"total\":" s.rxTotal ++ jsonNat ",\"dup\":" s.rxDup ++
    jsonNat ",\"bad\":" s.rxBadParse ++ jsonNat ",\"crc_err\":" s.rxCrcErr ++
    jsonNat ",\"hdr_err\":" s.rxHdrErr ++ jsonNat ",\"adverts\":" s.rxAdvert ++
    jsonNat ",\"adverts_bad\":" s.rxAdvertBad ++ lit "\x7d")
  let j := jbAdd j (jsonNat ",\"fwd\":\x7b\"flood\":" s.fwdFlood ++ jsonNat ",\"direct\":" s.fwdDirect ++
    jsonNat ",\"dropped\":" s.fwdDropped ++ jsonNat ",\"denied\":" s.fwdDenied ++
    jsonNat ",\"grp_public\":" s.fwdGrpPublic ++ jsonNat ",\"region\":" s.fwdRegion ++ lit "\x7d")
  let j := jbAdd j (jsonNat ",\"tx\":\x7b\"total\":" s.txTotal ++ jsonNat ",\"failed\":" s.txFailed ++
    jsonNat ",\"cad_busy\":" s.txCadBusy ++ jsonNat ",\"queue_full\":" s.txQueueFull ++
    jsonNat ",\"radio_resets\":" s.radioResets ++ jsonNat ",\"adverts\":" s.advertsSent ++ lit "\x7d")
  let j := jbAdd j (jsonNat ",\"airtime_ms\":\x7b\"tx\":" s.txAirtimeMs ++
    jsonNat ",\"rx\":" s.rxAirtimeMs ++ lit "\x7d")
  jbAdd j (jsonNat ",\"neighbours\":" neighbours)

/-- The last part: the counters of the client, and the acknowledgement of a set. -/
def statusBackbone (j : JBuf) (bb : McBackbone) : JBuf :=
  let c := bb.cfg
  let j := jbAdd j (jsonNat ",\"backbone\":\x7b\"observed\":" bb.observed ++
    jsonNat ",\"offered\":" bb.offered ++ jsonNat ",\"injected\":" bb.injected ++
    jsonNat ",\"limited\":" bb.limited ++ jsonNat ",\"rejected\":" bb.rejected ++ lit "\x7d")
  let j := if c.backbonePolicy then
      jbAdd j (jsonNat ",\"policy\":\x7b\"version\":" c.policy.version.toNat ++
        lit ",\"rooms\":" ++ intDecimal c.policyRooms ++
        jsonNat ",\"blocks\":" (c.policy.names.length + c.policy.keys.length) ++
        lit ",\"skipped\":" ++ intDecimal c.policySkipped ++ lit "\x7d")
    else j
  jbAdd j (lit "\x7d")

/-- `mesh_neighbor_count`. -/
def meshNeighborCount (m : McMesh) : Nat := (List.finRange meshMaxNeighbors).countP fun i => (m.neighbors i).used

/-- The buffer of `send_status` when it is done. -/
def statusJson (p : BbHal) (bb : McBackbone) (m : McMesh) (now : Nat) : JBuf :=
  statusBackbone (statusMesh (statusNode (.new (bbStatusJson + 1)) p bb m now) m.stats
    (meshNeighborCount m)) bb

/-- `send_status`. -/
def sendStatus (C : Crypto) (p : BbHal) (bb : McBackbone) (now : Nat) : McBackbone :=
  match bb.mesh with
  | none => bb
  | some m =>
    let j := statusJson p bb m now
    if j.full then bb else sendSession C p bb bbTStatus j.text

/-! ## NEIGHBOURS -/

/-- The buffer of one entry. -/
def neighbourBuf : Nat := 512

/-- `neighbour_json`: the object; nothing when it does not fit. -/
def neighbourJson (n : MeshNeighbor) (nowS : UInt32) : Bytes :=
  let j := jbAdd (.new neighbourBuf) (lit "\x7b\"pub\":\"" ++ hexText n.pub ++ lit "\",\"name\":")
  let j := jbStr j n.name
  let j := jbAdd j (jsonNat ",\"type\":" n.type.toNat ++ jsonNat ",\"hops\":" n.hops ++
    lit ",\"rssi\":" ++ intDecimal n.rssi ++ lit ",\"snr\":" ++ fmtF 2 (.fin (n.snrQ / 4)) ++
    jsonNat ",\"age\":" (if n.lastSeen < nowS then nowS - n.lastSeen else 0).toNat ++
    jsonNat ",\"count\":" n.count.toNat ++ lit "\x7d")
  if j.full then [] else j.text

/-- The entries of a table that go into pages, in order. -/
def neighbourEntries (m : McMesh) (nowS : UInt32) : List Bytes :=
  (((List.finRange meshMaxNeighbors).map m.neighbors).filter fun n => n.used).map (neighbourJson · nowS)
    |>.filter fun e => e.length != 0

def bbPageWrap : Nat := 48

def neighbourBudget : Nat := bbStatusJson - bbPageWrap

/-- An entry starts a new page when it does not fit behind the others. -/
def startsPage (used : Nat) (e : Bytes) : Bool := used != 0 && neighbourBudget < used + 1 + e.length

/-- The room an entry takes on its page. -/
def usedAfter (used : Nat) (e : Bytes) : Nat := used + (if used = 0 then 0 else 1) + e.length

/-- The first pass: how many pages there are. -/
def countPages : List Bytes → Nat → Nat → Nat
  | [], pages, _ => pages
  | e :: es, pages, used =>
    if startsPage used e then countPages es (pages + 1) (usedAfter 0 e)
    else countPages es pages (usedAfter used e)

/-- The head of a page. -/
def pageHead (page pages : Nat) : Bytes :=
  jsonNat "\x7b\"page\":" page ++ jsonNat ",\"pages\":" pages ++ lit ",\"list\":["

/-- The second pass: pages go out as they fill. The last buffer is given back. -/
def sendPages (C : Crypto) (p : BbHal) (pages : Nat) :
    List Bytes → McBackbone → JBuf → Nat → Nat → McBackbone × JBuf
  | [], bb, j, _, _ => (bb, j)
  | e :: es, bb, j, page, used =>
    if startsPage used e then
      let j := jbAdd j (lit "]\x7d")
      let bb := sendSession C p bb bbTNeighbours j.text
      let j := jbAdd { j with text := [] } (pageHead (page + 1) pages)
      sendPages C p pages es bb (jbAdd j e) (page + 1) (usedAfter 0 e)
    else
      sendPages C p pages es bb (jbAdd j ((if used = 0 then [] else lit ",") ++ e)) page (usedAfter used e)

/-- `send_neighbours`. -/
def sendNeighbours (C : Crypto) (p : BbHal) (bb : McBackbone) : McBackbone :=
  match bb.mesh with
  | none => bb
  | some m =>
    let es := neighbourEntries m p.time32
    let pages := countPages es 1 0
    let r := sendPages C p pages es bb (jbAdd (.new (bbStatusJson + 1)) (pageHead 1 pages)) 1 0
    let j := jbAdd r.2 (lit "]\x7d")
    if j.full then r.1 else sendSession C p r.1 bbTNeighbours j.text

end Meshcore
