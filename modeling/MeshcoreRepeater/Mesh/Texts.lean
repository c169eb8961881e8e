import MeshcoreRepeater.Mesh.Recv

/-! # The texts of the services

Every reply goes out as text on a public channel, where other repeaters read it with
the same matchers that look for commands. `ServiceText` lists the texts there are, and
`ServiceText.inert` says that none of them is a command to anybody.

* `ServiceText.inert`: no text of a service is a command.
* `channelBuildTxt_sealed`: what is encoded; `Sealed.proves`, `Sealed.channelDecrypt`: what a
  reader makes of it.
* `grpMessageBody_replyPlain`: the body a reader comes to.
-/

namespace Meshcore

set_option maxRecDepth 8000

open ByteLib

/-! ## Words -/

/-- A body with a letter the word lacks is not that word. -/
theorem isWord_of_mem {msg word : Bytes} {c : UInt8} (hc : c ∈ msg) (hplain : isBlankOrEol c = false)
    (hno : tolower c ∉ word.map tolower) : isWord msg word = false := by
  by_contra hword
  simp only [Bool.not_eq_false, isWord, Bool.and_eq_true, strncaseEq, strcaseEq, beq_iff_eq,
    List.take_length, List.isEmpty_iff] at hword
  obtain ⟨hhead, htail⟩ := hword
  -- a letter that is no blank survives the skipping
  have hskip : c ∈ skipBlanks msg := by
    rw [← List.takeWhile_append_dropWhile (p := isBlank) (l := msg), List.mem_append] at hc
    rcases hc with hblank | hrest
    · have := List.mem_takeWhile_imp hblank
      simp [isBlankOrEol, this] at hplain
    · exact hrest
  rw [← List.take_append_drop word.length (skipBlanks msg), List.mem_append] at hskip
  rcases hskip with htake | hdrop
  · refine hno ?_
    rw [← hhead]
    exact List.mem_map_of_mem htake
  · have := List.dropWhile_eq_nil_iff.mp htail c hdrop
    rw [hplain] at this
    cases this

/-- A body that starts with something else is no `probe` command. -/
theorem isProbe_of_start {a b : UInt8} {rest : Bytes} (ha : isBlank a = false)
    (hne : tolower a ≠ 112 ∨ tolower b ≠ 114) : isProbe (a :: b :: rest) = none := by
  have hskip : skipBlanks (a :: b :: rest) = a :: b :: rest := by simp [skipBlanks, ha]
  have hword : strncaseEq (a :: b :: rest) (lit "probe") 5 = false := by
    rcases hne with h | h
    · simp [strncaseEq, strcaseEq, lit, h, show tolower 112 = 112 by decide]
    · simp [strncaseEq, strcaseEq, lit, h, show tolower 114 = 114 by decide]
  simp only [isProbe, hskip, hword, Bool.not_false, if_true]

/-- The arguments of `probe` are two numbers with a blank between them: a number that
ends the text, or has a stroke behind it, is not enough. -/
theorem isProbe_of_number {ds rest : Bytes} (hne : ds ≠ []) (hds : ∀ c ∈ ds, isDigitOf 10 c = true)
    (hrest : rest = [] ∨ rest.head? = some 47) : isProbe (lit "probe " ++ (ds ++ rest)) = none := by
  rcases List.exists_cons_of_ne_nil hne with ⟨d, ds', rfl⟩
  have hd := isDigitOf_ten (hds d List.mem_cons_self)
  -- a digit is no blank and begins neither `stop` nor `cancel`
  have hnot : isBlank d = false ∧ tolower d ≠ 115 ∧ tolower d ≠ 99 := by
    have hall : ∀ n : Fin 256, 48 ≤ UInt8.ofNat n ∧ UInt8.ofNat n ≤ 57 →
        isBlank (UInt8.ofNat n) = false ∧ tolower (UInt8.ofNat n) ≠ 115 ∧
          tolower (UInt8.ofNat n) ≠ 99 := by decide
    simpa using hall ⟨d.toNat, d.toNat_lt⟩ (by simpa using hd)
  have hscan : scanInt (d :: ds' ++ rest) = some ((BitVec.ofInt 32 (toLong (numeralValue 10
      (d :: ds') : Int))).toInt, rest) := by
    have hend : (rest.head?.map (isDigitOf 10)).getD false = false := by
      rcases hrest with rfl | h
      · rfl
      · rw [h]
        decide
    have hnum := scanNumeral_append hne hds hend
    have hsign := digit_not_sign (hds d List.mem_cons_self)
    simp only [List.cons_append] at hnum
    simp [scanInt, scanInteger, hsign.1, hsign.2.1, hsign.2.2, hnum]
  -- the second number is missing
  have hstop : scanInt rest = none := by
    rcases hrest with rfl | h
    · decide
    · cases rest with
      | nil => cases h
      | cons c rest =>
        cases h
        have h47 : isSpace 47 = false := by decide
        have hdig : isDigitOf 10 47 = false := by decide
        simp [scanInt, scanInteger, scanNumeral, h47, hdig]
  have hskip : skipBlanks (lit "probe " ++ (d :: ds' ++ rest)) = lit "probe " ++ (d :: ds' ++ rest) := rfl
  have hword : strncaseEq (lit "probe " ++ (d :: ds' ++ rest)) (lit "probe") 5 = true := by
    simp [strncaseEq, lit]
  have hdrop : (lit "probe " ++ (d :: ds' ++ rest)).drop 5 = 32 :: (d :: ds' ++ rest) := rfl
  have hargs : skipBlanks (32 :: (d :: ds' ++ rest)) = d :: ds' ++ rest := by
    simp [skipBlanks, hnot.1, show isBlank 32 = true from rfl]
  have hwords : strncaseEq (d :: ds' ++ rest) (lit "stop") 4 = false ∧
      strncaseEq (d :: ds' ++ rest) (lit "cancel") 6 = false := by
    constructor
    · simp [strncaseEq, strcaseEq, lit, hnot.2.1, show tolower 115 = 115 by decide]
    · simp [strncaseEq, strcaseEq, lit, hnot.2.2, show tolower 99 = 99 by decide]
  simp only [isProbe, hskip, hword, hdrop, hargs, hwords.1, hwords.2, hscan, hstop]
  rfl

/-! ## The texts -/

/-- What the services send, by the route it goes. -/
inductive ServiceText : UInt8 → Bytes → Prop where
  | pong (rssi snrQ : Int) : ServiceText routeTypeFlood (snprintfS 48 (lit "pong rssi " ++
      intDecimal rssi ++ lit "dBm snr " ++ snrTenths snrQ ++ lit "dB"))
  | time (t : Nat) : ServiceText routeTypeFlood (snprintfS 40 (timeText t))
  | date (t : Nat) : ServiceText routeTypeFlood (snprintfS 40 (dateText t))
  | help (cfg : McConfig) : ServiceText routeTypeFlood (helpText cfg)
  | probe (i n : Nat) : ServiceText routeTypeFlood (snprintfS 48 (lit "probe " ++ decimal i ++
      [47] ++ decimal n))
  | fetch (mb : McMbox) (sender : Bytes) :
      ServiceText routeTypeDirect (snprintfS 160 (fetchReply mb sender))
  | mboxHelp : ServiceText routeTypeDirect (snprintfS 160 mboxHelpText)

/-- No service takes the body for a command, and the mailbox has nothing to store. -/
structure Inert (body : Bytes) : Prop where
  ping : isPing body = false
  time : isWord body (lit "time") = false
  date : isWord body (lit "date") = false
  help : isWord body (lit "help") = false
  probe : isProbe body = none
  mention : (mboxClassify body mcMboxCall).1 ≠ .mention

/-- The letters of the one-word commands. -/
def commandLetters : Bytes := lit "pingtimedatehelp"

/-- One letter that no command has makes a body inert, when it begins unlike the others. -/
theorem inert_of_letter {a c : UInt8} {rest : Bytes} (hc : c ∈ a :: rest)
    (hplain : isBlankOrEol c = false) (hno : tolower c ∉ commandLetters) (ha : isBlank a = false)
    (hat : a ≠ 64) (hprobe : isProbe (a :: rest) = none) : Inert (a :: rest) where
  ping := isWord_of_mem hc hplain fun h => hno (List.mem_append_left _ h)
  time := isWord_of_mem hc hplain fun h => hno
    (List.mem_append_right (lit "ping") (List.mem_append_left (lit "datehelp") h))
  date := isWord_of_mem hc hplain fun h => hno
    (List.mem_append_right (lit "pingtime") (List.mem_append_left (lit "help") h))
  help := isWord_of_mem hc hplain fun h => hno (List.mem_append_right (lit "pingtimedate") h)
  probe := hprobe
  mention := by
    have hskip : skipBlanks (a :: rest) = a :: rest := by simp [skipBlanks, ha]
    -- without an `@` in front there is no mention
    unfold mboxClassify
    rw [hskip]
    split
    · rename_i heq
      exact absurd (List.cons.inj heq).1 hat
    · split <;> simp

/-- A digit is in no command. -/
theorem digit_not_command {d : UInt8} (h : isDigitOf 10 d = true) :
    isBlankOrEol d = false ∧ tolower d ∉ commandLetters ∧ d ≠ 0 := by
  have hall : ∀ n : Fin 256, 48 ≤ UInt8.ofNat n ∧ UInt8.ofNat n ≤ 57 →
      isBlankOrEol (UInt8.ofNat n) = false ∧ tolower (UInt8.ofNat n) ∉ commandLetters ∧
        UInt8.ofNat n ≠ 0 := by decide
  simpa using hall ⟨d.toNat, d.toNat_lt⟩ (by simpa using isDigitOf_ten h)

/-- A C string goes on after a start without a NUL. -/
theorem cstr_append {start rest : Bytes} (h : (0 : UInt8) ∉ start) :
    cstr (start ++ rest) = start ++ cstr rest := by
  refine List.takeWhile_append_of_pos ?_
  intro c hc
  exact decide_eq_true fun hz => h (hz ▸ hc)

/-- A padded decimal begins with a digit. -/
theorem padLeft_decimal_cons (w n : Nat) :
    ∃ d rest, padLeft w (decimal n) = d :: rest ∧ isDigitOf 10 d = true := by
  have hall : ∀ c ∈ padLeft w (decimal n), isDigitOf 10 c = true := by
    intro c hc
    rcases List.mem_append.mp hc with hzero | hnum
    · rw [(List.mem_replicate.mp hzero).2]
      decide
    · exact isDigitOf_of_mem_numeral (by omega) (by omega) hnum
  cases h : padLeft w (decimal n) with
  | nil => exact absurd (List.append_eq_nil_iff.mp h).2 (numeral_ne_nil 10 n)
  | cons d rest => exact ⟨d, rest, rfl, hall d (h ▸ List.mem_cons_self)⟩

/-- What starts like a mailbox reply is no command. -/
theorem inert_mbox (rest : Bytes) : Inert (lit "mbox" ++ rest) :=
  have hb : (98 : UInt8) ∈ lit "mbox" ++ rest := List.mem_append_left rest (by decide)
  inert_of_letter hb (by decide) (by decide) (by decide) (by decide)
    (isProbe_of_start (by decide) (.inl (by decide)))

/-- Every text a `fetch` is answered with starts with the name of the service. -/
theorem fetchReply_start (mb : McMbox) (sender : Bytes) :
    ∃ rest, fetchReply mb sender = lit "mbox" ++ rest := by
  unfold fetchReply
  simp only
  split
  · exact ⟨lit ": no messages for you", rfl⟩
  split
  · exact ⟨lit ": " ++ decimal (mboxFormatFetch mb sender 110).2.2 ++
      lit " msg(s) for you, too long to show here", by simp [lit]⟩
  split
  · exact ⟨lit " " ++ decimal (mboxFormatFetch mb sender 110).2.1 ++ [47] ++
      decimal (mboxFormatFetch mb sender 110).2.2 ++ lit ": " ++ (mboxFormatFetch mb sender 110).1,
      by simp [lit]⟩
  · exact ⟨lit " " ++ decimal (mboxFormatFetch mb sender 110).2.2 ++ lit ": " ++
      (mboxFormatFetch mb sender 110).1, by simp [lit]⟩

/-- A text cut to its buffer keeps a start that fits. -/
theorem snprintfS_append {size : Nat} {start rest : Bytes} (h : start.length ≤ size - 1) :
    snprintfS size (start ++ rest) = start ++ rest.take (size - 1 - start.length) := by
  rw [snprintfS, List.take_append, List.take_of_length_le h]

/-- A word with a number behind it is no command, unless it is `probe`. -/
theorem inert_number {a b : UInt8} (word : Bytes) {rest : Bytes} {w n : Nat} (k : Nat)
    (hnul : (0 : UInt8) ∉ a :: b :: word) (ha : isBlank a = false) (hat : a ≠ 64) (hp : tolower a ≠ 112) :
    Inert (cstr (a :: b :: word ++ (padLeft w (decimal n) ++ rest).take (k + 1))) := by
  rcases padLeft_decimal_cons w n with ⟨d, ds, hds, hd⟩
  rcases digit_not_command hd with ⟨hplain, hno, hd0⟩
  have htake : (d :: ds ++ rest).take (k + 1) = d :: (ds ++ rest).take k := rfl
  rw [hds, htake, cstr_append hnul]
  have hmem : d ∈ a :: (b :: word ++ cstr (d :: (ds ++ rest).take k)) := by
    simp [cstr, hd0]
  exact inert_of_letter hmem hplain hno ha hat (isProbe_of_start ha (.inl hp))

/-- The stroke keeps a probe's text from being a probe command, wherever it is cut. -/
theorem inert_probe (i n : Nat) :
    Inert (cstr (snprintfS 48 (lit "probe " ++ decimal i ++ [47] ++ decimal n))) := by
  have hdigits : ∀ k : Nat, ∀ c ∈ decimal k, isDigitOf 10 c = true := fun k c hc =>
    isDigitOf_of_mem_numeral (by omega) (by omega) hc
  have hnul : ∀ k : Nat, (0 : UInt8) ∉ decimal k := fun k h =>
    (digit_not_command (hdigits k 0 h)).2.2 rfl
  -- the text is cut at 47 bytes, which may fall within either number
  have hassoc : lit "probe " ++ decimal i ++ [47] ++ decimal n =
      lit "probe " ++ (decimal i ++ 47 :: decimal n) := by simp
  rw [hassoc, snprintfS_append (by decide), List.take_append]
  have hfit : 48 - 1 - (lit "probe ").length = 41 := by decide
  rw [hfit]
  -- what is left of the first number, and of the stroke behind it
  have hne : (decimal i).take 41 ≠ [] := by
    intro h
    rcases List.take_eq_nil_iff.mp h with h | h
    · cases h
    · exact numeral_ne_nil 10 i h
  have hrest : ∀ j, (47 :: decimal n).take j = [] ∨ ((47 :: decimal n).take j).head? = some 47 := by
    intro j
    cases j with
    | zero => exact .inl rfl
    | succ j => exact .inr rfl
  have hwhole : cstr (lit "probe " ++ ((decimal i).take 41 ++
      (47 :: decimal n).take (41 - (decimal i).length))) =
      lit "probe " ++ ((decimal i).take 41 ++ (47 :: decimal n).take (41 - (decimal i).length)) := by
    refine List.takeWhile_eq_self_iff.mpr ?_
    intro c hc
    refine decide_eq_true ?_
    rintro rfl
    rcases List.mem_append.mp hc with hc | hc
    · exact absurd hc (by decide)
    rcases List.mem_append.mp hc with hc | hc
    · exact hnul i (List.mem_of_mem_take hc)
    rcases List.mem_cons.mp (List.mem_of_mem_take hc) with hc | hc
    · cases hc
    · exact hnul n hc
  rw [hwhole]
  have hr : (114 : UInt8) ∈ lit "probe " ++ ((decimal i).take 41 ++
      (47 :: decimal n).take (41 - (decimal i).length)) := List.mem_append_left _ (by decide)
  exact inert_of_letter hr (by decide) (by decide) (by decide) (by decide)
    (isProbe_of_number hne (fun c hc => hdigits i c (List.mem_of_mem_take hc)) (hrest _))

/-- What a reader finds of a service's text, up to the first NUL, is no command. -/
theorem ServiceText.inert {route : UInt8} {text : Bytes} (h : ServiceText route text) :
    Inert (cstr text) := by
  have hmbox : ∀ {s rest : Bytes}, s = lit "mbox" ++ rest → Inert (cstr (snprintfS 160 s)) := by
    rintro s rest rfl
    rw [snprintfS_append (by decide), cstr_append (by decide)]
    exact inert_mbox _
  cases h with
  | pong rssi snrQ =>
    simp only [List.append_assoc]
    rw [snprintfS_append (by decide), cstr_append (by decide)]
    have ho : ∀ rest : Bytes, (111 : UInt8) ∈ lit "pong rssi " ++ rest := fun rest =>
      List.mem_append_left rest (by decide)
    exact inert_of_letter (ho _) (by decide) (by decide) (by decide) (by decide)
      (isProbe_of_start (by decide) (.inr (by decide)))
  | time t =>
    simp only [timeText, List.append_assoc]
    rw [snprintfS_append (by decide)]
    exact inert_number (lit "me ") 33 (by decide) (by decide) (by decide) (by decide)
  | date t =>
    simp only [dateText, List.append_assoc]
    rw [snprintfS_append (by decide)]
    exact inert_number (lit "te ") 33 (by decide) (by decide) (by decide) (by decide)
  | help cfg =>
    -- the letter `c` is in none of the words
    simp only [helpText, List.append_assoc]
    rw [snprintfS_append (by decide), cstr_append (by decide)]
    have hc : ∀ rest : Bytes, (99 : UInt8) ∈ lit "commands:" ++ rest := fun rest =>
      List.mem_append_left rest (by decide)
    exact inert_of_letter (hc _) (by decide) (by decide) (by decide) (by decide)
      (isProbe_of_start (by decide) (.inl (by decide)))
  | probe i n => exact inert_probe i n
  | fetch mb sender =>
    rcases fetchReply_start mb sender with ⟨rest, heq⟩
    exact hmbox heq
  | mboxHelp =>
    have hstart : mboxHelpText = lit "mbox" ++
        lit ": leave a message with '@CALL text' (also flooded); send 'fetch' for yours" := by decide
    exact hmbox hstart

/-! ## A text on a channel -/

/-- The plaintext of a text. -/
def replyPlain (name text : Bytes) (ts : UInt32) : Bytes :=
  wrU32le ts ++ [0] ++ name ++ lit ": " ++ text

/-- The packet's payload is the plaintext, whole blocks of it, under the channel's key. -/
def Sealed (C : Crypto) (ch : McPubChannel) (plain : Bytes) (pkt : McPacket) : Prop :=
  ∃ ct, ct = aes128EcbEncrypt C ch.secret.bytes plain ∧
    ct.length % 16 = 0 ∧ 16 ≤ ct.length ∧ ct.length ≤ 176 ∧
    pkt.payload = ch.hash :: ((hmacSha256 C ch.secret.bytes ct).take 2 ++ ct)

/-- `pkt` is a group text that carries `name: text` on the channel, as
`channel_build_txt` encodes it. -/
structure Carries (C : Crypto) (ch : McPubChannel) (name text : Bytes) (pkt : McPacket) : Prop where
  type : pktPayloadType pkt = payloadTypeGrpTxt
  payload : ∃ ts pad, Sealed C ch (replyPlain name text ts ++ List.replicate pad 0) pkt

/-- Timestamp and type, then the name, the separator and the text. -/
theorem length_replyPlain (name text : Bytes) (ts : UInt32) :
    (replyPlain name text ts).length = 5 + name.length + 2 + text.length := by
  have hts : (wrU32le ts).length = 4 := rfl
  have hsep : (lit ": ").length = 2 := by decide
  simp only [replyPlain, List.length_append, List.length_singleton, hts, hsep]

/-- A text fits a packet exactly when its plaintext fits eleven blocks. -/
theorem channelBuildTxt_isSome_iff (C : Crypto) (ch : McPubChannel) (name text : Bytes) (ts : UInt32)
    (route : UInt8) :
    (channelBuildTxt C ch name text ts route).isSome = true ↔ 5 + name.length + 2 + text.length ≤ 176 := by
  have hplain : wrU32le ts ++ [0] ++ name ++ lit ": " ++ text = replyPlain name text ts := rfl
  unfold channelBuildTxt
  simp only
  rw [hplain, length_replyPlain]
  unfold mcMaxPacketPayload
  split
  · simp
    omega
  · simp
    omega

/-- What is built is the plaintext, padded to whole blocks and sealed. -/
theorem channelBuildTxt_sealed {C : Crypto} {ch : McPubChannel} {name text : Bytes} {ts : UInt32}
    {route : UInt8} {pkt : McPacket} (h : channelBuildTxt C ch name text ts route = some pkt) :
    pkt.header = pktMakeHeader payloadVer1 payloadTypeGrpTxt route ∧ pkt.pathLen = 0 ∧
      ∃ pad, Sealed C ch (replyPlain name text ts ++ List.replicate pad 0) pkt := by
  simp only [channelBuildTxt] at h
  split at h
  · cases h
  rename_i hfits
  cases h
  have hplain : (wrU32le ts ++ [0] ++ name ++ lit ": " ++ text) = replyPlain name text ts := rfl
  rw [hplain] at hfits ⊢
  have hpos : 5 ≤ (replyPlain name text ts).length := by simp [replyPlain]; omega
  -- the padding goes up to the next block
  have hct : (aes128EcbEncrypt C ch.secret.bytes (replyPlain name text ts ++
      List.replicate (((replyPlain name text ts).length + 15) / 16 * 16 -
        (replyPlain name text ts).length) 0)).length =
      ((replyPlain name text ts).length + 15) / 16 * 16 := by
    rw [aes128EcbEncrypt, length_ecbBlocks, List.length_append, List.length_replicate]
    omega
  have h184 : ¬ 3 + ((replyPlain name text ts).length + 15) / 16 * 16 > 184 := hfits
  refine ⟨rfl, rfl, _, _, rfl, ?_, ?_, ?_, rfl⟩
  · rw [hct]
    exact Nat.mul_mod_left _ 16
  · rw [hct]
    omega
  · rw [hct]
    omega

section
variable {C : Crypto} {ch c : McPubChannel} {plain : Bytes} {pkt : McPacket}

/-- Only the payload matters. -/
theorem Sealed.congr (h : Sealed C ch plain pkt) {q : McPacket} (hp : q.payload = pkt.payload) :
    Sealed C ch plain q := by
  rw [Sealed, hp]
  exact h

/-- A hash byte, two of the tag, and one to eleven blocks. -/
theorem Sealed.length (h : Sealed C ch plain pkt) : 19 ≤ pkt.payload.length ∧ pkt.payload.length ≤ 179 := by
  rcases h with ⟨ct, -, -, hlo, hhi, hpay⟩
  rw [hpay]
  simp only [List.length_cons, List.length_append, List.length_take, length_hmacSha256]
  omega

/-- The channel it was sent on proves it, under whatever name a node has it. -/
theorem Sealed.proves (h : Sealed C ch plain pkt) (hhash : c.hash = ch.hash)
    (hsecret : c.secret = ch.secret) : channelProves C pkt.payload c = true := by
  rcases h with ⟨ct, -, -, -, -, hpay⟩
  have hmac : ((hmacSha256 C ch.secret.bytes ct).take 2).length = 2 := by
    rw [List.length_take, length_hmacSha256]
    rfl
  have hdrop : (ch.hash :: ((hmacSha256 C ch.secret.bytes ct).take 2 ++ ct)).drop 3 = ct := by
    rw [List.drop_succ_cons]
    exact List.drop_left' hmac
  rw [channelProves, channelMac, hpay, hdrop, hsecret, hhash]
  simp only [List.head?_cons, beq_self_eq_true, List.drop_succ_cons, List.drop_zero, Bool.true_and]
  rw [List.take_left' hmac]
  exact beq_self_eq_true _

/-- Decrypted with the channel's key. -/
theorem Sealed.decrypt (h : Sealed C ch plain pkt) (haes : C.AesInverse) :
    aes128EcbDecrypt C ch.secret.bytes (pkt.payload.drop 3) = plain := by
  rcases h with ⟨ct, hct, -, -, -, hpay⟩
  have hmac : ((hmacSha256 C ch.secret.bytes ct).take 2).length = 2 := by
    rw [List.length_take, length_hmacSha256]
    rfl
  have hdrop : pkt.payload.drop 3 = ct := by
    rw [hpay, List.drop_succ_cons]
    exact List.drop_left' hmac
  rw [hdrop, hct, haes.decrypt_encrypt]

/-- Read with the channel's key, it is the plaintext that was sent. -/
theorem Sealed.channelDecrypt (h : Sealed C ch plain pkt) (haes : C.AesInverse)
    (hsecret : c.secret = ch.secret) : channelDecrypt C c pkt mcMaxPacketPayload = some plain := by
  have hlen := h.length
  have hread := h.decrypt haes
  have hmod : (pkt.payload.drop 3).length % 16 = 0 := by
    rcases h with ⟨ct, -, hmod, -, -, hpay⟩
    rw [hpay]
    simp only [List.drop_succ_cons, List.length_drop, List.length_append, List.length_take, length_hmacSha256]
    omega
  have hsize : (pkt.payload.drop 3).length + 1 ≤ mcMaxPacketPayload := by
    rw [List.length_drop]
    unfold mcMaxPacketPayload
    omega
  unfold Meshcore.channelDecrypt
  simp only [hsecret, hread]
  rw [if_neg (by omega), if_neg (by omega)]

end

section
variable {C : Crypto} {ch c : McPubChannel} {name text : Bytes} {pkt : McPacket}

/-- Header and payload matter. -/
theorem Carries.congr (h : Carries C ch name text pkt) {q : McPacket}
    (hh : q.header = pkt.header) (hp : q.payload = pkt.payload) : Carries C ch name text q where
  type := by
    rw [pktPayloadType, hh]
    exact h.type
  payload := by
    rcases h.payload with ⟨ts, pad, hsealed⟩
    exact ⟨ts, pad, hsealed.congr hp⟩

/-- Its length is that of a sealed payload. -/
theorem Carries.length (h : Carries C ch name text pkt) :
    19 ≤ pkt.payload.length ∧ pkt.payload.length ≤ 179 := by
  rcases h.payload with ⟨ts, pad, hsealed⟩
  exact hsealed.length

/-- The channel it was sent on proves it, under whatever name a node has it. -/
theorem Carries.proves (h : Carries C ch name text pkt) (hhash : c.hash = ch.hash)
    (hsecret : c.secret = ch.secret) : channelProves C pkt.payload c = true := by
  rcases h.payload with ⟨ts, pad, hsealed⟩
  exact hsealed.proves hhash hsecret

/-- Read with the channel's key, it is the plaintext that was sent. -/
theorem Carries.plain (h : Carries C ch name text pkt) (haes : C.AesInverse)
    (hsecret : c.secret = ch.secret) :
    ∃ ts pad, groupPlain C pkt c = some (replyPlain name text ts ++ List.replicate pad 0) ∧
      aes128EcbDecrypt C ch.secret.bytes (pkt.payload.drop 3) =
        replyPlain name text ts ++ List.replicate pad 0 := by
  rcases h.payload with ⟨ts, pad, hsealed⟩
  refine ⟨ts, pad, ?_, hsealed.decrypt haes⟩
  have htext : (pktPayloadType pkt != payloadTypeGrpTxt) = false := by rw [h.type]; rfl
  rw [groupPlain, htext, hsealed.channelDecrypt haes hsecret]
  simp [replyPlain]
  omega

/-- The text a reader finds behind timestamp and type. -/
theorem grpText_replyPlain {ts : UInt32} {pad : Nat} (hname : (0 : UInt8) ∉ name) :
    grpText (replyPlain name text ts ++ List.replicate pad 0) = name ++ 58 :: 32 :: cstr text := by
  have hdrop : (replyPlain name text ts ++ List.replicate pad 0).drop 5 =
      (name ++ lit ": ") ++ (text ++ List.replicate pad 0) := by
    have h5 : (wrU32le ts ++ [0]).length = 5 := rfl
    rw [show replyPlain name text ts ++ List.replicate pad 0 =
      (wrU32le ts ++ [0]) ++ ((name ++ lit ": ") ++ (text ++ List.replicate pad 0)) by
        simp [replyPlain]]
    exact List.drop_left' h5
  have hzeros : (List.replicate pad (0 : UInt8)).takeWhile (· ≠ 0) = [] := by
    cases pad with
    | zero => rfl
    | succ pad => rfl
  -- the padding is cut off at its first NUL, if not before
  have hpad : cstr (text ++ List.replicate pad 0) = cstr text := by
    rw [cstr, cstr, List.takeWhile_append, hzeros, List.append_nil]
    split
    · rename_i hall
      exact (List.takeWhile_prefix _).eq_of_length hall |>.symm
    · rfl
  have hno : (0 : UInt8) ∉ name ++ lit ": " := by
    intro h
    rcases List.mem_append.mp h with h | h
    · exact hname h
    · exact absurd h (by decide)
  rw [grpText, hdrop, cstr_append hno, hpad]
  simp [lit]

/-- The separator of a name that has none in it is found behind the name. -/
theorem sepIndex_append (hname : ¬ lit ": " <:+: name) (rest : Bytes) :
    sepIndex (name ++ 58 :: 32 :: rest) = some name.length := by
  induction name with
  | nil => rfl
  | cons a name ih =>
    have htail : ¬ lit ": " <:+: name := fun h => hname (List.infix_cons h)
    rw [List.cons_append, sepIndex.eq_def]
    split
    · -- the name would begin with the separator
      rename_i heq
      rcases List.cons.inj heq with ⟨rfl, hnext⟩
      cases name with
      | nil => cases hnext
      | cons b name =>
        rcases List.cons.inj hnext with ⟨rfl, -⟩
        exact absurd ⟨[], name, rfl⟩ hname
    · rename_i heq
      rcases List.cons.inj heq with ⟨rfl, rfl⟩
      rw [ih htail]
      rfl
    · rename_i heq
      cases heq

/-- The body a reader comes to is the text, up to its first NUL. -/
theorem grpMessageBody_replyPlain {ts : UInt32} {pad : Nat} (hnul : (0 : UInt8) ∉ name)
    (hname : ¬ lit ": " <:+: name) :
    grpMessageBody (replyPlain name text ts ++ List.replicate pad 0) = some (cstr text) := by
  have hlen : ¬ (replyPlain name text ts ++ List.replicate pad 0).length < 5 := by
    simp [replyPlain]
    omega
  unfold grpMessageBody
  rw [if_neg hlen, grpText_replyPlain hnul, sepIndex_append hname]
  simp only [Option.some.injEq]
  rw [List.drop_append, List.drop_of_length_le (by omega)]
  have htwo : name.length + 2 - name.length = 2 := by omega
  rw [htwo]
  rfl

/-- Read with the channel's key, its body is the text, up to the first NUL. -/
theorem Carries.body (h : Carries C ch name text pkt) (haes : C.AesInverse)
    (hsecret : c.secret = ch.secret) (hnul : (0 : UInt8) ∉ name) (hname : ¬ lit ": " <:+: name) :
    ∃ plain, groupPlain C pkt c = some plain ∧ grpMessageBody plain = some (cstr text) := by
  rcases h.plain haes hsecret with ⟨ts, pad, hplain, -⟩
  exact ⟨_, hplain, grpMessageBody_replyPlain hnul hname⟩

end

end Meshcore
