import Gpsdo.Gps.Uart

set_option autoImplicit false

/-! # Binary messages are decoded as they are encoded (`sendUBX`, `runParse`)

`sendUBX` writes a message to a ring byte by byte, with a running checksum. What leaves the ring is
the message as a list (`Message.encode`); and a message that the parser gets while it is not inside
another one is handed on as it is, whatever bytes there are in it.
-/

namespace Gpsdo.Gps

open Net

/-! ## The encoder -/

/-- The ring of the sending side. -/
abbrev TxRing := RingBuffer GPS_RING_SIZE Byte

/-- The ring, and the checksum so far. -/
structure Sending where
  tx : TxRing
  chkA : Byte
  chkB : Byte

/-- A byte is sent and added to the checksum. -/
def Sending.send (s : Sending) (byte : Byte) : Sending :=
  ⟨s.tx.put byte, s.chkA + byte, s.chkB + (s.chkA + byte)⟩

/-- `sendUBX` up to `startTx` -/
def sendUBX (tx : TxRing) (_class id : Byte) (payload : List Byte) : TxRing :=
  if 512 < payload.length then tx
  else
    -- preamble
    let s : Sending := ⟨(tx.put 0xB5).put 0x62, 0, 0⟩
    let s := (s.send _class).send id
    let s := (le16 (BitVec.ofNat 16 payload.length)).foldl Sending.send s
    let s := payload.foldl Sending.send s
    (s.tx.put s.chkA).put s.chkB

/-- A message that is to be sent. -/
structure Message where
  _class : Byte
  id : Byte
  payload : List Byte

/-- A message is sent, and `startTx` and the interrupt move it to the UART. -/
def emit (tx : TxRing) (m : Message) : TxRing × List Byte :=
  (sendUBX tx m._class m.id m.payload).takeUpTo GPS_RING_SIZE

/-- Messages that are sent back to back. -/
def emitAll : TxRing → List Message → TxRing × List Byte
  | tx, [] => (tx, [])
  | tx, m :: msgs =>
      let (tx, bytes) := emit tx m
      let (tx, rest) := emitAll tx msgs
      (tx, bytes ++ rest)

namespace Message

/-- What the checksum is computed over. -/
def body (m : Message) : List Byte :=
  m._class :: m.id :: le16 (BitVec.ofNat 16 m.payload.length) ++ m.payload

/-- The bytes of a message. -/
def encode (m : Message) : List Byte :=
  let sums := fletcher m.body 0 0
  0xB5 :: 0x62 :: m.body ++ [sums.1, sums.2]

theorem length_body (m : Message) : m.body.length = 4 + m.payload.length := by
  simp only [body, le16, List.length_append, List.length_cons, List.length_nil]

theorem length_encode (m : Message) : m.encode.length = 8 + m.payload.length := by
  simp only [encode, List.length_append, List.length_cons, List.length_nil, length_body]
  omega

end Message

theorem Sending.foldl_send (s : Sending) (l : List Byte) :
    l.foldl Sending.send s =
      ⟨s.tx.putAll l, (fletcher l s.chkA s.chkB).1, (fletcher l s.chkA s.chkB).2⟩ := by
  induction l generalizing s with
  | nil => rfl
  | cons byte l ih => exact ih _

/-- The class, the id, the length and the payload are what the checksum is computed over. -/
theorem Sending.foldl_body (s : Sending) (m : Message) :
    m.payload.foldl Sending.send
        ((le16 (BitVec.ofNat 16 m.payload.length)).foldl Sending.send
          ((s.send m._class).send m.id)) = m.body.foldl Sending.send s := by
  unfold Message.body
  generalize le16 (BitVec.ofNat 16 m.payload.length) = size
  rw [List.foldl_append, List.foldl_cons, List.foldl_cons]

/-- `sendUBX` writes the message. -/
theorem sendUBX_eq (tx : TxRing) {m : Message} (hlen : m.payload.length ≤ 512) :
    sendUBX tx m._class m.id m.payload = tx.putAll m.encode := by
  have hencode : tx.putAll m.encode = ((((tx.put 0xB5).put 0x62).putAll m.body).put
      (fletcher m.body 0 0).1).put (fletcher m.body 0 0).2 := by
    unfold Message.encode RingBuffer.putAll
    rw [List.foldl_append, List.foldl_cons, List.foldl_cons, List.foldl_cons, List.foldl_cons,
      List.foldl_nil]
  unfold sendUBX
  rw [if_neg (Nat.not_lt.mpr hlen), hencode]
  dsimp only
  rw [Sending.foldl_body, Sending.foldl_send]

/-- **A message leaves the ring as it is**, and the ring empty, if it found it empty. -/
theorem emit_eq {tx : TxRing} (hempty : tx.head = tx.tail) {m : Message}
    (hlen : m.payload.length ≤ 247) :
    (emit tx m).2 = m.encode ∧ (emit tx m).1.head = (emit tx m).1.tail := by
  have hshort : m.encode.length ≤ 255 := by
    rw [Message.length_encode]
    omega
  have hroom : ([] : List Byte).length + m.encode.length < 256 := by
    rw [List.length_nil]
    omega
  have hqueued : (tx.putAll m.encode).Queued m.encode := (RingBuffer.Queued.nil hempty).putAll hroom
  obtain ⟨htaken, hrest⟩ := hqueued.takeUpTo GPS_RING_SIZE
  unfold emit
  rw [sendUBX_eq tx (by omega)]
  have hfits : m.encode.length ≤ GPS_RING_SIZE := hshort.trans (Nat.le_succ 255)
  refine ⟨htaken.trans (List.take_of_length_le hfits), ?_⟩
  rw [List.drop_eq_nil_of_le hfits] at hrest
  exact hrest.head.trans (slot_zero _)

theorem emitAll_eq {tx : TxRing} (hempty : tx.head = tx.tail) {msgs : List Message}
    (hlen : ∀ m ∈ msgs, m.payload.length ≤ 247) :
    (emitAll tx msgs).2 = msgs.flatMap Message.encode := by
  induction msgs generalizing tx with
  | nil => rfl
  | cons m msgs ih =>
      obtain ⟨hbytes, hempty'⟩ := emit_eq hempty (hlen m List.mem_cons_self)
      have hrest := ih hempty' fun m' hm' => hlen m' (List.mem_cons_of_mem _ hm')
      show (emit tx m).2 ++ (emitAll (emit tx m).1 msgs).2 = _
      rw [hbytes, hrest, List.flatMap_cons]

/-! ## Well-formed messages -/

/-- The sync bytes, the length field, and the checksum. -/
structure WellFormed (msg : List Byte) : Prop where
  first : msg[0]? = some 0xB5
  second : msg[1]? = some 0x62
  length : msg.length = 8 + (msg.getD 5 0 ++ msg.getD 4 0).toNat
  intact : intact msg = true

/-- The sums are behind the body. -/
theorem intact_of_body {b₀ b₁ : Byte} {body : List Byte} :
    intact (b₀ :: b₁ :: body ++ [(fletcher body 0 0).1, (fletcher body 0 0).2]) = true := by
  generalize hmsg : b₀ :: b₁ :: body ++ [(fletcher body 0 0).1, (fletcher body 0 0).2] = msg
  have hlen : msg.length = body.length + 4 := by simp [← hmsg]
  have hmiddle : (msg.drop 2).take (msg.length - 4) = body := by
    rw [hlen, Nat.add_sub_cancel, ← hmsg]
    exact List.take_left' rfl
  have ha : msg.getD (msg.length - 2) 0 = (fletcher body 0 0).1 := by
    rw [hlen, ← hmsg]
    simp
  have hb : msg.getD (msg.length - 1) 0 = (fletcher body 0 0).2 := by
    rw [hlen, ← hmsg]
    simp
  unfold intact
  rw [hmiddle, ha, hb]
  simp

theorem bytes_of_le16 (v : BitVec 16) : v.extractLsb' 8 8 ++ v.extractLsb' 0 8 = v := by
  rw [BitVec.extractLsb'_append_extractLsb'_eq_extractLsb'] <;> simp

theorem Message.wellFormed_encode {m : Message} (hlen : m.payload.length < 2 ^ 16) :
    WellFormed m.encode where
  first := rfl
  second := rfl
  length := by
    rw [length_encode]
    show 8 + m.payload.length = 8 + ((BitVec.ofNat 16 m.payload.length).extractLsb' 8 8 ++
      (BitVec.ofNat 16 m.payload.length).extractLsb' 0 8).toNat
    rw [bytes_of_le16, BitVec.toNat_ofNat, Nat.mod_eq_of_lt hlen]
  intact := intact_of_body

/-! ## The decoder -/

namespace Parser

variable {p : Parser} {byte : Byte}

@[simp] theorem length_message (p : Parser) : p.message.length = p.lenUBX := by
  simp [message]

theorem message_getElem? {i : ℕ} (hi : i < p.lenUBX) : p.message[i]? = some (p.msgBuff i) := by
  simp [message, hi]

/-- The message grows by the byte. -/
theorem message_append (p : Parser) (byte : Byte) :
    (p.append byte).message = p.message ++ [byte] := by
  show (List.range (p.lenUBX + 1)).map (Function.update p.msgBuff p.lenUBX byte) = _
  rw [List.range_succ, List.map_append, List.map_singleton, Function.update_self]
  congr 1
  refine List.map_congr_left fun i hi => ?_
  exact Function.update_of_ne (List.mem_range.mp hi).ne _ _

theorem announced_eq (h : 5 < p.lenUBX) :
    p.announced = 8 + (p.message.getD 5 0 ++ p.message.getD 4 0).toNat := by
  rw [List.getD_eq_getElem?_getD, List.getD_eq_getElem?_getD, message_getElem? h,
    message_getElem? (Nat.lt_of_succ_lt h)]
  rfl

end Parser

/-- The parser has got the first part of a message. -/
structure Collects (p : Parser) (msg done rest : List Byte) : Prop where
  sound : p.Sound
  split : msg = done ++ rest
  message : p.message = done
  begun : done ≠ []
  more : rest ≠ []
  stop : p.endUBX = if done.length < 6 then 8 else msg.length

variable {g : Receiver} {env : Env} {byte : Byte} {msg done rest : List Byte}
  {stream : List (Env × Byte)}

/-- **A byte of the message** is appended, or it is the last one. -/
theorem Collects.turn {p p' : Parser} {calls : List (List Byte × Bool)} (hm : WellFormed msg)
    (hmax : msg.length ≤ MAX_LENGTH) (hc : Collects p msg done (byte :: rest))
    (ht : Turn p byte p' calls) :
    (rest ≠ [] ∧ calls = [] ∧ Collects p' msg (done ++ [byte]) rest) ∨
      (rest = [] ∧ calls = [(msg, true)] ∧ p'.lenUBX = 0) := by
  have hsound := ht.sound hc.sound
  have hlen : p.lenUBX = done.length := by rw [← hc.message, Parser.length_message]
  have hpos : 0 < done.length := List.length_pos_iff.mpr hc.begun
  have htotal : msg.length = done.length + (rest.length + 1) := by
    rw [hc.split, List.length_append, List.length_cons]
  have h8 : 8 ≤ msg.length := by
    rw [hm.length]
    exact Nat.le_add_right 8 _
  have hstop := hc.stop
  have hmessage : (p.append byte).message = done ++ [byte] := by
    rw [Parser.message_append, hc.message]
  have hsplit : msg = done ++ [byte] ++ rest := by rw [hc.split, List.append_cons]
  have hgrown : (done ++ [byte]).length = done.length + 1 := by
    rw [List.length_append, List.length_singleton]
  have hmore : done.length + 1 < msg.length → rest ≠ [] := by
    intro hlt hnil
    rw [hnil, List.length_nil] at htotal
    omega
  cases ht with
  | append h0 hend h5 hsync =>
      refine Or.inl ⟨hmore ?_, rfl, hsound, hsplit, hmessage, by simp, hmore ?_, ?_⟩
      · split at hstop <;> omega
      · split at hstop <;> omega
      · show p.endUBX = _
        rw [hstop, hgrown]
        split <;> split <;> omega
  | length h5 =>
      -- the length field is complete
      have hannounced : (p.append byte).announced = msg.length := by
        have hgetD : ∀ i < 6, (p.append byte).message.getD i 0 = msg.getD i 0 := by
          intro i hi
          have hleft : msg[i]? = (done ++ [byte])[i]? := by
            rw [hsplit]
            exact List.getElem?_append_left (by omega)
          rw [hmessage, List.getD_eq_getElem?_getD, List.getD_eq_getElem?_getD, hleft]
        rw [Parser.announced_eq (show 5 < p.lenUBX + 1 by omega), hgetD 5 (by omega),
          hgetD 4 (by omega), ← hm.length]
      rw [hannounced, if_neg (Nat.not_lt.mpr hmax)] at hsound ⊢
      refine Or.inl ⟨hmore (by omega), rfl, hsound, hsplit, ?_, by simp, hmore (by omega), ?_⟩
      · rw [← hmessage]
        show (List.range 6).map _ = (List.range (p.lenUBX + 1)).map _
        rw [h5]
      · show msg.length = _
        rw [hgrown, if_neg (by omega)]
  | badSync h1 hb =>
      have hbyte : msg[1]? = some byte := by
        rw [hsplit, List.getElem?_append_left (by omega), List.getElem?_append_right (by omega)]
        simp [← hlen, h1]
      rw [hm.second] at hbyte
      exact absurd (Option.some.inj hbyte).symm hb
  | finish h0 hend =>
      have hlast : rest = [] := by
        by_contra hne
        have := List.length_pos_iff.mpr hne
        split at hstop <;> omega
      rw [hmessage]
      rw [hlast, List.append_nil] at hsplit
      exact Or.inr ⟨hlast, by rw [← hsplit, hm.intact], rfl⟩
  | text h0 => omega
  | start h0 => omega

theorem feed_collects (hm : WellFormed msg) (hmax : msg.length ≤ MAX_LENGTH)
    (hc : Collects g.toParser msg done rest) (hs : stream.map Prod.snd = rest) :
    ubxCalls (feed g stream).reads = [(msg, true)] ∧ (feed g stream).val.lenUBX = 0 := by
  induction stream generalizing g done rest with
  | nil => exact absurd hs.symm hc.more
  | cons p stream ih =>
      obtain ⟨env, byte⟩ := p
      subst hs
      show ubxCalls ((g.parse env byte).reads ++ (feed (g.parse env byte).val stream).reads) = _ ∧
        (feed (g.parse env byte).val stream).val.lenUBX = 0
      rw [ubxCalls_append]
      rcases hc.turn hm hmax (Receiver.parse_turn _ _ hc.sound) with ⟨-, hcalls, hc'⟩ | ⟨hnil, hcalls, h0⟩
      · rw [hcalls]
        exact ih hc' rfl
      · rw [List.map_eq_nil_iff.mp hnil, hcalls]
        exact ⟨rfl, h0⟩

/-- The first byte of a message starts it, also in the middle of a line. -/
theorem collects_start (env : Env) (h0 : g.lenUBX = 0) (hm : WellFormed msg)
    (hsplit : msg = 0xB5 :: rest) :
    ubxCalls (g.parse env 0xB5).reads = [] ∧
      Collects (g.parse env 0xB5).val.toParser msg [0xB5] rest := by
  have hsound : g.toParser.Sound := fun hne => absurd h0 hne
  have hlen := hm.length
  have ht := Receiver.parse_turn env 0xB5 hsound
  have hsound' := ht.sound hsound
  generalize (g.parse env 0xB5).val.toParser = p' at ht hsound' ⊢
  generalize ubxCalls (g.parse env 0xB5).reads = calls at ht ⊢
  cases ht with
  | start _ _ hfirst =>
      refine ⟨rfl, hsound', hsplit, ?_, by simp, ?_, rfl⟩
      · exact congrArg (fun b => [b]) hfirst
      · intro hnil
        rw [hsplit, hnil, List.length_singleton] at hlen
        omega
  | text _ hb => exact absurd rfl hb
  | append hne => exact absurd h0 hne
  | length h5 => omega
  | badSync h1 => omega
  | finish hne => exact absurd h0 hne

/-- **A message is handed on as it is**, if the parser is not inside another one. -/
theorem feed_wellFormed (h0 : g.lenUBX = 0) (hm : WellFormed msg) (hmax : msg.length ≤ MAX_LENGTH)
    (hs : stream.map Prod.snd = msg) :
    ubxCalls (feed g stream).reads = [(msg, true)] ∧ (feed g stream).val.lenUBX = 0 := by
  have hsound : g.toParser.Sound := fun hne => absurd h0 hne
  cases stream with
  | nil =>
      have hlen := hm.length
      rw [← hs] at hlen
      simp at hlen
  | cons p stream =>
      obtain ⟨env, byte⟩ := p
      have hb : byte = 0xB5 := by
        have hfirst := hm.first
        rw [← hs] at hfirst
        exact Option.some.inj hfirst
      obtain ⟨hcalls, hc⟩ := collects_start env h0 hm
        (show msg = 0xB5 :: stream.map Prod.snd by rw [← hb]; exact hs.symm)
      show ubxCalls ((g.parse env byte).reads ++ (feed (g.parse env byte).val stream).reads) = _ ∧
        (feed (g.parse env byte).val stream).val.lenUBX = 0
      rw [hb, ubxCalls_append, hcalls]
      exact feed_collects hm hmax hc rfl

/-! ## Round trips -/

theorem feed_messages {msgs : List Message} (h0 : g.lenUBX = 0)
    (hlen : ∀ m ∈ msgs, m.payload.length ≤ 248)
    (hs : stream.map Prod.snd = msgs.flatMap Message.encode) :
    ubxCalls (feed g stream).reads = msgs.map (fun m => (m.encode, true)) ∧
      (feed g stream).val.lenUBX = 0 := by
  induction msgs generalizing g stream with
  | nil =>
      obtain rfl : stream = [] := List.map_eq_nil_iff.mp hs
      exact ⟨rfl, h0⟩
  | cons m msgs ih =>
      obtain ⟨first, rest, rfl, hfirst, hrest⟩ := List.map_eq_append_iff.mp hs
      have hpayload := hlen m List.mem_cons_self
      have hmax : m.encode.length ≤ 256 := by
        rw [Message.length_encode]
        omega
      obtain ⟨hcalls, hidle⟩ := feed_wellFormed h0
        (Message.wellFormed_encode (show m.payload.length < 2 ^ 16 by omega)) hmax hfirst
      obtain ⟨hcalls', hidle'⟩ := ih hidle (fun m' hm' => hlen m' (List.mem_cons_of_mem _ hm')) hrest
      obtain ⟨hval, hreads⟩ := feed_append g first rest
      rw [hval, hreads, ubxCalls_append, hcalls, hcalls']
      exact ⟨rfl, hidle'⟩

/-- **The parser undoes the encoder.** -/
theorem feed_emitAll {tx : TxRing} (hempty : tx.head = tx.tail) {msgs : List Message}
    (hlen : ∀ m ∈ msgs, m.payload.length ≤ 247) (h0 : g.lenUBX = 0)
    (hs : stream.map Prod.snd = (emitAll tx msgs).2) :
    (emitAll tx msgs).2 = msgs.flatMap Message.encode ∧
      ubxCalls (feed g stream).reads = msgs.map (fun m => (m.encode, true)) ∧
      (feed g stream).val.lenUBX = 0 := by
  have hbytes := emitAll_eq hempty hlen
  have hdecode := feed_messages h0 (fun m hm => (hlen m hm).trans (Nat.le_succ 247))
    (hs.trans hbytes)
  exact ⟨hbytes, hdecode⟩

/-- The parser, in the middle of a line. -/
def inLine : Receiver := { (Uart.init fun _ => 0x41).gps with lenNEMA := 7 }

/-- Two messages; the payload of the second holds sync bytes, a `$` and the end of a line. -/
def twoMessages : List Message :=
  [⟨0x06, 0x01, [0x01, 0x22, 0x01]⟩, ⟨0x0A, 0x04, [0xB5, 0x62, 0x24, 0x0D, 0xB5]⟩]

theorem feed_emitAll_twoMessages :
    ubxCalls (feed inLine (streamOf (emitAll ⟨fun _ => 0, 250, 250⟩ twoMessages).2)).reads =
        twoMessages.map (fun m => (m.encode, true)) ∧
      (feed inLine (streamOf (emitAll ⟨fun _ => 0, 250, 250⟩ twoMessages).2)).val.lenUBX = 0 :=
  (feed_emitAll (g := inLine) rfl (by decide) rfl (map_streamOf _)).2

end Gpsdo.Gps
