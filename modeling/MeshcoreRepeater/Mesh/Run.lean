import MeshcoreRepeater.Lib.Run
import MeshcoreRepeater.Mesh.Tx

/-! # The node as a state machine

Everything the main loop, the backbone and the command line do with a mesh, as
one input alphabet. `step` handles one input and keeps, in `events`, what this
one call asked of the components. Any interleaving is allowed, and each input
brings its own clock: nothing below rests on the order of the main loop or on a
monotonic clock.

* `step`: one input; `run`: a list of them; `Reachable`: the states after a run from `mesh_init`.
-/

namespace Meshcore

open ByteLib

inductive Input where
  /-- a frame heard on RF, or relayed by a remote receiver -/
  | recv (hal : Hal) (raw : Bytes) (rssiDbm snrQ : Int)
  /-- a frame from the hub -/
  | backbone (hal : Hal) (raw : Bytes)
  | rxError (crc : Bool) (rssiDbm snrQ : Int)
  | sendAdvert (hal : Hal)
  /-- the main loop's `last_advert_ms = now` after a periodic advert -/
  | advertTick (nowMs : Nat)
  | startProbe (hal : Hal) (ch : McPubChannel) (secs count : Int)
  | serviceProbe (hal : Hal) (nowMs : Nat)
  | serviceTimeofday (hal : Hal)
  | serviceTx (hal : Hal) (nowMs : Nat)
  /-- a setting changed at run time -/
  | configure (cfg : McConfig)
  /-- the configuration file was read again: affinity is learnt anew -/
  | reload (cfg : McConfig)
  /-- monitor clients came or went -/
  | watchers (n : Nat)

/-- One input, on a state without events. -/
def Input.run (C : Crypto) (m : McMesh) : Input → McMesh
  | .recv hal raw rssiDbm snrQ => (meshOnRecv C hal m raw rssiDbm snrQ).1
  | .backbone hal raw => (meshOnBackbone C hal m raw).1
  | .rxError crc rssiDbm snrQ => meshOnRxError m crc rssiDbm snrQ
  | .sendAdvert hal => (meshSendAdvert C hal m).1
  | .advertTick nowMs => { m with lastAdvertMs := nowMs }
  | .startProbe hal ch secs count => meshStartProbe hal m ch secs count
  | .serviceProbe hal nowMs => meshServiceProbe C hal m nowMs
  | .serviceTimeofday hal => meshServiceTimeofday C hal m
  | .serviceTx hal nowMs => meshServiceTx C hal m nowMs
  | .configure cfg => { m with cfg := cfg }
  | .reload cfg => { m with cfg := cfg, affinityHash := [] }
  | .watchers n => { m with mon := m.mon.map fun _ => n }

/-- Forget the calls of the step before. -/
def McMesh.clearEvents (m : McMesh) : McMesh := { m with events := [] }

def step (C : Crypto) (m : McMesh) (x : Input) : McMesh := x.run C m.clearEvents

/-- The state after a run. -/
def run (C : Crypto) (m : McMesh) (xs : List Input) : McMesh := Runs.run (step C) m xs

/-- A state some run from `mesh_init` ends in. -/
def Reachable (C : Crypto) (m : McMesh) : Prop :=
  ∃ hal id cfg aprs mon bb xs, m = run C (meshInit hal id cfg aprs mon bb) xs

end Meshcore
