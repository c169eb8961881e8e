import MeshcoreRepeater.Mesh.Texts
import MeshcoreRepeater.Crypto.Vendored

/-! # A channel message, there and back

What `channel_build_txt` encodes is what a node with the channel reads: the frame is parsed,
the content policy takes it for the channel's, and sender and text come out again.

* `channelBuildTxt_serialize`: a message fits a frame.
* `Sealed.readsAs`: how a node with the channel takes it.
* `channelMessage_roundTrip`: both, for every sender and text.
-/

namespace Meshcore

open ByteLib

section
variable {C : Crypto} {ch : McPubChannel} {sender text : Bytes} {ts : UInt32} {route : UInt8} {pkt : McPacket}

theorem channelBuildTxt_type (h : channelBuildTxt C ch sender text ts route = some pkt) :
    pktPayloadType pkt = payloadTypeGrpTxt := by
  rw [pktPayloadType, (channelBuildTxt_sealed h).1, payloadType_pktMakeHeader]
  rfl

/-- With its empty path it fits a frame. -/
theorem channelBuildTxt_serialize (h : channelBuildTxt C ch sender text ts route = some pkt) :
    ∃ raw, pktSerialize pkt mcMaxTransUnit = .ok raw := by
  rcases channelBuildTxt_sealed h with ⟨-, hpath, pad, hsealed⟩
  exact pktSerialize_of_empty hpath (hsealed.length.2.trans (by omega))

/-- What a name of up to 31 bytes is read as. -/
theorem grpSenderName_replyPlain {pad : Nat} (hnul : (0 : UInt8) ∉ sender) (hname : ¬ lit ": " <:+: sender)
    (hlen : sender.length ≤ 31) :
    grpSenderName (replyPlain sender text ts ++ List.replicate pad 0) mcBlacklistNameLen = sender := by
  have hmin : min sender.length (mcBlacklistNameLen - 1) = sender.length := Nat.min_eq_left hlen
  rw [grpSenderName, grpText_replyPlain hnul, sepIndex_append hname, Option.getD_some, hmin]
  exact List.take_left

/-- How a packet with a message is taken by a node that has the channel, and read with it. -/
structure ReadsAs (C : Crypto) (cfg : McConfig) (ch : McPubChannel) (sender text : Bytes) (ts : UInt32)
    (pkt : McPacket) : Prop where
  /-- the channel it is taken for may be another one, of the same hash and MAC -/
  accepted : ∃ c ∈ cfg.publicChannels, classifyForward C cfg pkt = .okGrpPublic c ∧ c.hash = ch.hash ∧
    channelMac C c pkt.payload = channelMac C ch pkt.payload
  decrypted : ∃ plain, channelDecrypt C ch pkt mcMaxPacketPayload = some plain ∧
    wrU32le ts ++ [0] <+: plain ∧
    (sender.length ≤ 31 → ¬ lit ": " <:+: sender →
      grpSenderName plain mcBlacklistNameLen = sender ∧ grpMessageBody plain = some text)

theorem Sealed.readsAs {cfg : McConfig} {pad : Nat}
    (h : Sealed C ch (replyPlain sender text ts ++ List.replicate pad 0) pkt) (haes : C.AesInverse)
    (htype : pktPayloadType pkt = payloadTypeGrpTxt) (hch : ch ∈ cfg.publicChannels)
    (hsender : (0 : UInt8) ∉ sender) (htext : (0 : UInt8) ∉ text) : ReadsAs C cfg ch sender text ts pkt := by
  constructor
  · have hgroup : isGroupType (pktPayloadType pkt) = true := by
      rw [htype]
      rfl
    have hproves := h.proves (c := ch) rfl rfl
    rcases classifyForward_of_proves hgroup h.length.1 hch hproves with ⟨c, hc, hclass, hproved⟩
    refine ⟨c, hc, hclass, ?_, ?_⟩
    · -- both have the first byte of the payload
      simp only [channelProves, Bool.and_eq_true, beq_iff_eq] at hproves hproved
      have hhash := hproved.1.symm.trans hproves.1
      exact Option.some.inj hhash
    · simp only [channelProves, Bool.and_eq_true, beq_iff_eq] at hproves hproved
      rw [hproved.2, hproves.2]
  · refine ⟨_, h.channelDecrypt haes rfl, ?_, ?_⟩
    · refine ⟨sender ++ lit ": " ++ text ++ List.replicate pad 0, ?_⟩
      simp [replyPlain]
    · intro hlen hname
      constructor
      · exact grpSenderName_replyPlain hsender hname hlen
      · rw [grpMessageBody_replyPlain hsender hname, cstr_of_not_mem htext]

end

/-- A message is encoded exactly when its plaintext fits eleven blocks. Its frame is parsed again,
and the packet, as built and as parsed, is accepted for the channel and read as it was written. -/
theorem channelMessage_roundTrip {C : Crypto} (haes : C.AesInverse) {cfg : McConfig} {ch : McPubChannel}
    (hch : ch ∈ cfg.publicChannels) {sender text : Bytes} (hsender : (0 : UInt8) ∉ sender)
    (htext : (0 : UInt8) ∉ text) (ts : UInt32) (route : UInt8) :
    ((channelBuildTxt C ch sender text ts route).isSome = true ↔ 5 + sender.length + 2 + text.length ≤ 176) ∧
      ∀ pkt, channelBuildTxt C ch sender text ts route = some pkt →
        ∃ raw received, pktSerialize pkt mcMaxTransUnit = .ok raw ∧ pktParse raw = .ok received ∧
          ReadsAs C cfg ch sender text ts pkt ∧ ReadsAs C cfg ch sender text ts received := by
  constructor
  · exact channelBuildTxt_isSome_iff C ch sender text ts route
  · intro pkt hbuild
    rcases channelBuildTxt_serialize hbuild with ⟨raw, hraw⟩
    rcases channelBuildTxt_sealed hbuild with ⟨-, -, pad, hsealed⟩
    have htype := channelBuildTxt_type hbuild
    have hwire : Sealed C ch (replyPlain sender text ts ++ List.replicate pad 0) pkt.onWire := hsealed.congr rfl
    refine ⟨raw, pkt.onWire, hraw, pktParse_pktSerialize hraw, ?_, ?_⟩
    · exact hsealed.readsAs haes htype hch hsender htext
    · exact hwire.readsAs haes htype hch hsender htext

/-- A channel to write on. -/
def openChannel : McPubChannel where
  name := lit "#open"
  secret := Buf.ofBytes 32 (List.replicate 16 7)
  secretLen := 16
  hash := 0
  derived := false
  hub := false

/-- The hash and the cipher of the repository; a channel message carries no signature. -/
def channelCrypto : Crypto := Crypto.vendored (fun _ msg => .ofBytes 64 msg) fun _ _ _ => false

theorem channelMessage_roundTrip_hi :
    ((channelBuildTxt channelCrypto openChannel (lit "ON6XX") (lit "hi") 9 routeTypeFlood).isSome = true ↔
        5 + (lit "ON6XX").length + 2 + (lit "hi").length ≤ 176) ∧
      ∀ pkt, channelBuildTxt channelCrypto openChannel (lit "ON6XX") (lit "hi") 9 routeTypeFlood = some pkt →
        ∃ raw received, pktSerialize pkt mcMaxTransUnit = .ok raw ∧ pktParse raw = .ok received ∧
          ReadsAs channelCrypto { configDefaults with publicChannels := [openChannel] } openChannel
            (lit "ON6XX") (lit "hi") 9 pkt ∧
          ReadsAs channelCrypto { configDefaults with publicChannels := [openChannel] } openChannel
            (lit "ON6XX") (lit "hi") 9 received :=
  channelMessage_roundTrip (Crypto.vendored_aesInverse _ _) (List.mem_singleton_self openChannel)
    (by decide) (by decide) 9 routeTypeFlood

end Meshcore
