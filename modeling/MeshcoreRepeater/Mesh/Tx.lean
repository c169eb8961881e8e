import MeshcoreRepeater.Mesh.Recv

/-! # Transmitting

`mesh_service_tx` takes the most urgent due entry off the queue, listens before
talking, and transmits it once.

* `pickDue`: the entry that is next.
* `meshServiceTx`: a turn of the transmitter.
-/

namespace Meshcore

open ByteLib

/-- One turn of `pick_due`: lowest priority value, then earliest due. -/
def pickStep (txq : Fin meshTxqSize → MeshTxEntry) (now : Nat) (best : Option (Fin meshTxqSize)) (i : Fin meshTxqSize) :
    Option (Fin meshTxqSize) :=
  if !(txq i).used || now < (txq i).dueMs then best
  else
    match best with
    | none => some i
    | some b =>
      if (txq i).priority < (txq b).priority ∨
          ((txq i).priority = (txq b).priority ∧ (txq i).dueMs < (txq b).dueMs) then some i
      else some b

/-- `pick_due`. -/
def pickDue (txq : Fin meshTxqSize → MeshTxEntry) (now : Nat) : Option (Fin meshTxqSize) :=
  (List.finRange meshTxqSize).foldl (pickStep txq now) none

/-- The text `mon_pkt_tx` shows: a message on a channel we hold, or an
advertiser's name. -/
def txDetail (C : Crypto) (cfg : McConfig) (pkt : McPacket) : Bytes :=
  let size := mcMaxPacketPayload + 48
  if pktPayloadType pkt = payloadTypeGrpTxt then
    match classifyForward C cfg pkt with
    | .okGrpPublic ch =>
      match (channelDecrypt C ch pkt mcMaxPacketPayload).filter fun plain => 5 ≤ plain.length with
      | some plain =>
        let name := if ch.name.isEmpty then [45] else ch.name
        snprintfS size ([91] ++ name ++ lit "] " ++ grpText plain)
      | none => []
    | _ => []
  else if pktPayloadType pkt = payloadTypeAdvert then
    match mcAdvertExtract pkt 32 with
    | some (_, name) => if name.isEmpty then [] else snprintfS size ([39] ++ name ++ [39])
    | none => []
  else []

/-- `mon_pkt_tx`, when somebody watches. -/
def monPktTx (C : Crypto) (m : McMesh) (pkt : McPacket) (lenB : Nat) (power : Int)
    (airtime : Nat) : McMesh :=
  if m.mon.getD 0 = 0 then m
  else m.emit (.monTx (payloadTypeName (pktPayloadType pkt)) (pktIsRouteFlood pkt) lenB
    (pktPathHashCount pkt) power airtime (txDetail C m.cfg pkt))

/-- Silence fell: nothing queued goes out late. -/
def dropQueued (m : McMesh) : McMesh :=
  let n := (List.finRange meshTxqSize).countP fun i => (m.txq i).used
  { m.bump (fun s => { s with txSilent := s.txSilent + n }) with
    txq := fun i => { m.txq i with used := false } }

/-- `sx126x_transmit` and what follows it: a failed transmission resets the
radio. -/
def transmit (C : Crypto) (hal : Hal) (m : McMesh) (e : MeshTxEntry) (raw : Bytes) : McMesh :=
  let airtime := hal.airtimeMs raw.length
  let m := (m.emit (.setTxPower e.powerDbm)).emit (.transmit raw (airtime + 1000))
  if hal.transmitOk then
    let m := m.bump fun s =>
      { s with txTotal := s.txTotal + 1, txAirtimeMs := s.txAirtimeMs + airtime }
    monPktTx C m e.pkt raw.length e.powerDbm airtime
  else
    (m.bump fun s => { s with txFailed := s.txFailed + 1, radioResets := s.radioResets + 1 }).emit
      .radioReinit

/-- `mesh_service_tx`. -/
def meshServiceTx (C : Crypto) (hal : Hal) (m : McMesh) (nowMs : Nat) : McMesh :=
  if meshRfSilent m nowMs then
    let m := if m.hsSilent then m
      else
        let m := { m with hsSilent := true }
        if m.bb then m.emit .statusSoon else m
    dropQueued m
  else
    match pickDue m.txq nowMs with
    | none => m
    | some i =>
      let e := m.txq i
      if m.cfg.useCad && hal.channelBusy then
        -- listen before talk: the entry waits for a random while
        let m := m.bump fun s => { s with txCadBusy := s.txCadBusy + 1 }
        m.putTx i { e with dueMs := nowMs + halRngInt hal .cad 1 4 * 120 }
      else
        let m := match pktSerialize e.pkt mcMaxTransUnit with
          | .ok raw => transmit C hal m e raw
          | .error _ => m
        m.putTx i { e with used := false }

end Meshcore
