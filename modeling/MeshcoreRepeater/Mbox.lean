import MeshcoreRepeater.Config.Basic

/-! # The `#mbox` mailbox

`mbox.c`: the ring of stored messages, the command a message body is, and the
text of a `fetch` reply.

* `mboxClassify`: the command a body is.
* `mboxStore`, `mboxFormatFetch`: the ring, and the text of a reply.
-/

namespace Meshcore

open ByteLib

def mcMboxMax : Nat := 32
def mcMboxCall : Nat := 24
def mcMboxMsg : Nat := 96

/-- `mc_mbox_entry_t`. -/
structure McMboxEntry where
  addressee : Bytes
  sender : Bytes
  msg : Bytes
  ts : UInt32
deriving DecidableEq

/-- `mc_mbox`: `head` is the slot written next. -/
structure McMbox where
  e : Fin 32 → McMboxEntry
  head : Fin 32
  count : Nat

def mboxInit : McMbox := ⟨fun _ => ⟨[], [], [], 0⟩, 0, 0⟩

inductive MboxCmd where
  | other
  | mention
  | fetch
deriving DecidableEq, Repr

/-- `base_call`: the text before the first `-`, cut to the buffer. -/
def baseCall (s : Bytes) (size : Nat) : Bytes := (s.takeWhile (· ≠ 45)).take (size - 1)

/-- `mbox_classify`: the command, the mentioned call and the message text. -/
def mboxClassify (body : Bytes) (msz : Nat) : MboxCmd × Bytes × Bytes :=
  match skipBlanks body with
  | 64 :: p =>
    let mention := (p.takeWhile (fun c => !isBlank c)).take (msz - 1)
    let msg := skipBlanks (p.dropWhile (fun c => !isBlank c))
    if mention.isEmpty || msg.isEmpty then (.other, mention, []) else (.mention, mention, msg)
  | body =>
    if strncaseEq body (lit "fetch") 5 && ((body.drop 5).dropWhile isBlankOrEol).isEmpty then
      (.fetch, [], [])
    else (.other, [], [])

/-- `mbox_store`: the oldest message is overwritten when the ring is full. -/
def mboxStore (mb : McMbox) (addressee sender msg : Bytes) (ts : UInt32) : McMbox where
  e := Function.update mb.e mb.head
    ⟨snprintfS mcMboxCall addressee, snprintfS mcMboxCall sender, snprintfS mcMboxMsg msg, ts⟩
  head := mb.head + 1
  count := if mb.count < mcMboxMax then mb.count + 1 else mb.count

/-- What the loop of `mbox_format_fetch` carries. -/
structure FetchState where
  out : Bytes
  shown : Nat
  matched : Nat
  full : Bool

/-- One turn of that loop: a matching message is counted, and written only whole. -/
def fetchEntry (want : Bytes) (outsz : Nat) (st : FetchState) (e : McMboxEntry) : FetchState :=
  if !strcaseEq (baseCall e.addressee mcMboxCall) want then st
  else
    let st := { st with matched := st.matched + 1 }
    if st.full then st
    else
      let text := (if st.out.isEmpty then [] else lit " | ") ++ [91] ++ e.sender ++ lit "] " ++ e.msg
      if text.length ≥ outsz - st.out.length then { st with full := true }
      else { st with out := st.out ++ text, shown := st.shown + 1 }

/-- The held messages, oldest first. -/
def mboxHeld (mb : McMbox) : List McMboxEntry :=
  (List.range mb.count).map fun k => mb.e (Fin.ofNat 32 (mb.head.val + 32 - mb.count + k))

/-- `mbox_format_fetch`: the text, how many messages are in it, and how many there
are. -/
def mboxFormatFetch (mb : McMbox) (call : Bytes) (outsz : Nat) : Bytes × Nat × Nat :=
  let want := baseCall call mcMboxCall
  let st := (mboxHeld mb).foldl (fetchEntry want outsz) ⟨[], 0, 0, false⟩
  (st.out, st.shown, st.matched)

def mboxHelpText : Bytes :=
  lit "mbox: leave a message with '@CALL text' (also flooded); send 'fetch' for yours"

end Meshcore
