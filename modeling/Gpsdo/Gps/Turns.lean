import Gpsdo.Gps.Parser

set_option autoImplicit false

/-! # The turns of the parser

`Turn` says all that a turn of `runParse` can do to the variables of the parser, and which binary
messages it hands on. The handlers of the messages only load: from the message and from nowhere
else.
-/

namespace Gpsdo.Gps

open Net

variable {g : Receiver} {env : Env} {p p' : Parser} {byte : Byte}

/-! ## Events -/

/-- A load from the first bytes of the buffer. -/
def LoadBelow (n : ℕ) : Event → Prop
  | .load i => i < n
  | _ => False

theorem LoadBelow.mono {m n : ℕ} {e : Event} (h : LoadBelow m e) (hmn : m ≤ n) : LoadBelow n e := by
  cases e with
  | load i => exact Nat.lt_of_lt_of_le h hmn
  | _ => exact h

/-- The calls of `processUBX`. -/
def ubxCalls (events : List Event) : List (List Byte × Bool) :=
  events.filterMap fun
    | .ubx msg passed => some (msg, passed)
    | _ => none

@[simp] theorem ubxCalls_append (events events' : List Event) :
    ubxCalls (events ++ events') = ubxCalls events ++ ubxCalls events' := List.filterMap_append

theorem ubxCalls_loads {n : ℕ} {α : Type} {x : Reading Event α} (h : x.Within (LoadBelow n)) :
    ubxCalls x.reads = [] := by
  refine List.filterMap_eq_nil_iff.mpr fun e he => ?_
  cases e with
  | load i => rfl
  | _ => exact (h _ he).elim

@[simp] theorem reads_bind {α β : Type} (x : Reading Event α) (f : α → Reading Event β) :
    (x >>= f).reads = x.reads ++ (f x.val).reads := rfl

@[simp] theorem reads_pure {α : Type} (a : α) : (pure a : Reading Event α).reads = [] := rfl

/-! ## Loads -/

namespace Receiver

@[simp] theorem val_load (g : Receiver) (i : ℕ) : (g.load i).val = g.msgBuff i := rfl

@[simp] theorem reads_load (g : Receiver) (i : ℕ) : (g.load i).reads = [.load i] := rfl

@[simp] theorem within_load {P : Event → Prop} (g : Receiver) (i : ℕ) :
    (g.load i).Within P ↔ P (.load i) := by
  simp [Reading.Within]

@[simp] theorem within_note {P : Event → Prop} (e : Event) : (note e).Within P ↔ P e := by
  simp [Reading.Within, note]

@[simp] theorem within_store {P : Event → Prop} (g : Receiver) (i : ℕ) (byte : Byte) :
    (g.store i byte).Within P ↔ P (.store i) := by
  simp [Reading.Within, store]

/-! ## The handlers -/

theorem processUbxClock_spec (g : Receiver) (payload : ℕ) :
    (g.processUbxClock payload).val.toParser = g.toParser ∧
      (g.processUbxClock payload).Within (LoadBelow (payload + 20)) := by
  refine ⟨rfl, ?_⟩
  simp [processUbxClock, load32, load16, LoadBelow]

theorem processUbxGpsTime_spec (g : Receiver) (payload : ℕ) :
    (g.processUbxGpsTime payload).val.toParser = g.toParser ∧
      (g.processUbxGpsTime payload).Within (LoadBelow (payload + 12)) := by
  simp only [processUbxGpsTime, Reading.val_bind, Reading.within_bind]
  split <;> simp [LoadBelow]

theorem processUbxPVT_spec (env : Env) (g : Receiver) (payload : ℕ) :
    (g.processUbxPVT env payload).val.toParser = g.toParser ∧
      (g.processUbxPVT env payload).Within (LoadBelow (payload + 40)) := by
  simp only [processUbxPVT, Reading.val_bind, Reading.within_bind]
  split <;> simp [LoadBelow, load32, load16]

theorem dispatchUBX_spec (env : Env) (g : Receiver) :
    (g.dispatchUBX env).val.toParser = g.toParser ∧
      (g.dispatchUBX env).Within (LoadBelow 46) := by
  simp only [dispatchUBX, Reading.val_bind, Reading.within_bind]
  refine ⟨?_, by simp [LoadBelow], by simp [LoadBelow], by simp [LoadBelow, load16], ?_⟩
  · split_ifs
    · exact (processUbxPVT_spec env g 6).1
    · exact (processUbxGpsTime_spec g 6).1
    · exact (processUbxClock_spec g 6).1
    · rfl
    · rfl
  · split_ifs
    · exact (processUbxPVT_spec env g 6).2
    · exact fun e he => ((processUbxGpsTime_spec g 6).2 e he).mono (by omega)
    · exact fun e he => ((processUbxClock_spec g 6).2 e he).mono (by omega)
    · simp
    · simp

end Receiver

/-! ## The checksum, and `processUBX` -/

/-- The two sums of the checksum. -/
def fletcher : List Byte → Byte → Byte → Byte × Byte
  | [], chkA, chkB => (chkA, chkB)
  | byte :: l, chkA, chkB => fletcher l (chkA + byte) (chkB + (chkA + byte))

/-- A message ends in the sums of what lies between its sync bytes and them. -/
def intact (msg : List Byte) : Bool :=
  let sums := fletcher ((msg.drop 2).take (msg.length - 4)) 0 0
  sums.1 == msg.getD (msg.length - 2) 0 && sums.2 == msg.getD (msg.length - 1) 0

namespace Receiver

theorem checksum_val (g : Receiver) (n i : ℕ) (chkA chkB : Byte) :
    (g.checksum n i chkA chkB).val = fletcher ((List.range' i n).map g.msgBuff) chkA chkB := by
  induction n generalizing i chkA chkB with
  | zero => rfl
  | succ n ih => exact ih _ _ _

theorem bytes_getD (g : Receiver) {len i : ℕ} (hi : i < len) :
    (g.bytes len).getD i 0 = g.msgBuff i := by
  simp [bytes, hi]

@[simp] theorem length_bytes (g : Receiver) (len : ℕ) : (g.bytes len).length = len := by
  simp [bytes]

theorem checksumTest_val (g : Receiver) {len : ℕ} (hlen : 4 ≤ len) :
    (g.checksumTest len).val = intact (g.bytes len) := by
  have hmiddle : ((g.bytes len).drop 2).take (len - 4) =
      (List.range' 2 (len - 4)).map g.msgBuff := by
    apply List.ext_getElem
    · simp only [List.length_take, List.length_drop, length_bytes, List.length_map,
        List.length_range']
      omega
    · intro i hi hi'
      simp [bytes]
  unfold checksumTest intact
  simp only [Reading.val_bind, checksum_val, length_bytes, hmiddle,
    bytes_getD g (show len - 2 < len by omega), bytes_getD g (show len - 1 < len by omega)]
  generalize fletcher ((List.range' 2 (len - 4)).map g.msgBuff) 0 0 = sums
  by_cases ha : sums.1 = (g.load (len - 2)).val
  · rw [if_neg (not_not.mpr ha)]
    simp [ha]
  · rw [if_pos ha]
    have hfalse : (sums.1 == g.msgBuff (len - 2)) = false := beq_eq_false_iff_ne.mpr ha
    rw [hfalse]
    rfl

theorem checksum_within (g : Receiver) (n i : ℕ) (chkA chkB : Byte) :
    (g.checksum n i chkA chkB).Within (LoadBelow (i + n)) := by
  induction n generalizing i chkA chkB with
  | zero => simp [checksum]
  | succ n ih =>
      simp only [checksum, Reading.within_bind, within_load]
      refine ⟨by simp [LoadBelow], ?_⟩
      have hrest := ih (i + 1) (chkA + g.msgBuff i) (chkB + (chkA + g.msgBuff i))
      rwa [Nat.add_right_comm] at hrest

/-- The test looks at the message only. -/
theorem checksumTest_within (g : Receiver) {len : ℕ} (hlen : 4 ≤ len) :
    (g.checksumTest len).Within (LoadBelow len) := by
  have hsum := checksum_within g (len - 4) 2 0 0
  simp only [checksumTest, Reading.within_bind, within_load]
  refine ⟨fun e he => (hsum e he).mono (by omega), by simp only [LoadBelow]; omega, ?_⟩
  · split
    · simp
    · simp only [Reading.within_bind, within_load, Reading.within_pure, and_true, LoadBelow]
      omega

/-- The message is handed on once, and its handler leaves the parser alone. -/
theorem processUBX_spec (env : Env) (g : Receiver) {len : ℕ} (hlen : 4 ≤ len) :
    (g.processUBX env len).val.toParser = g.toParser ∧
      ubxCalls (g.processUBX env len).reads = [(g.bytes len, intact (g.bytes len))] := by
  obtain ⟨hkeep, hloads⟩ := dispatchUBX_spec env g
  rw [← checksumTest_val g hlen]
  simp only [processUBX, Reading.val_bind, reads_bind, ubxCalls_append,
    ubxCalls_loads (checksumTest_within g hlen), List.nil_append]
  cases (g.checksumTest len).val with
  | true =>
      refine ⟨hkeep, ?_⟩
      simp only [if_true, ubxCalls_loads hloads, List.append_nil]
      rfl
  | false => exact ⟨rfl, rfl⟩

/-! ## `processNEMA` -/

theorem scanNEMA_spec (g : Receiver) (len n ptr : ℕ) (csum : Byte) :
    (g.scanNEMA len n ptr csum).Within (LoadBelow len) ∧
      ∀ k, (g.scanNEMA len n ptr csum).val.2 = some k → k ≤ len := by
  induction n generalizing ptr csum with
  | zero => simp [scanNEMA]
  | succ n ih =>
      unfold scanNEMA
      by_cases hptr : ptr + 1 < len
      · rw [if_pos hptr]
        simp only [Reading.val_bind, Reading.within_bind, within_load]
        by_cases hstar : (g.load (ptr + 1)).val = 0x2A
        · rw [if_pos hstar]
          refine ⟨⟨hptr, Reading.within_pure _⟩, fun k hk => ?_⟩
          obtain rfl : ptr + 1 + 1 = k := by simpa using hk
          exact hptr
        · rw [if_neg hstar]
          exact ⟨⟨hptr, (ih _ _).1⟩, (ih _ _).2⟩
      · rw [if_neg hptr]
        simp

/-- A line is read up to two bytes behind its end. -/
theorem processNEMA_spec (g : Receiver) (len : ℕ) :
    (g.processNEMA len).val.toParser = g.toParser ∧ ubxCalls (g.processNEMA len).reads = [] ∧
      ∀ e ∈ (g.processNEMA len).reads, e = .nema (g.bytes len) ∨ LoadBelow (len + 2) e := by
  obtain ⟨hloads, hchk⟩ := scanNEMA_spec g len len 0 0
  have hnone := ubxCalls_loads hloads
  unfold processNEMA
  simp only [Reading.val_bind, reads_bind]
  cases hresult : (g.scanNEMA len len 0 0).val with
  | mk csum chksum =>
      have hscan : ∀ e ∈ (g.scanNEMA len len 0 0).reads, LoadBelow (len + 2) e :=
        fun e he => (hloads e he).mono (by omega)
      rw [hresult] at hchk
      cases chksum with
      | none =>
          refine ⟨rfl, ?_, ?_⟩
          · rw [ubxCalls_append, ubxCalls_append, hnone]
            rfl
          · intro e he
            simp only [note, reads_pure, List.append_nil, List.mem_append, List.mem_singleton] at he
            exact he.imp_right (hscan e)
      | some k =>
          have hk : k ≤ len := hchk k rfl
          refine ⟨?_, ?_, ?_⟩
          · dsimp only [Reading.val_bind, Reading.val_pure]
            split <;> rfl
          · rw [ubxCalls_append, ubxCalls_append, hnone]
            rfl
          · intro e he
            simp only [note, reads_bind, reads_load, reads_pure, List.append_nil, List.mem_append,
              List.mem_singleton] at he
            rcases he with rfl | he | rfl | rfl
            · exact Or.inl rfl
            · exact Or.inr (hscan e he)
            · exact Or.inr (by simp only [LoadBelow]; omega)
            · exact Or.inr (by simp only [LoadBelow]; omega)

end Receiver

/-! ## The turns -/

namespace Parser

/-- Inside a binary message its end is known, or at least 8. -/
def Sound (p : Parser) : Prop :=
  p.lenUBX ≠ 0 → p.lenUBX < p.endUBX ∧ 8 ≤ p.endUBX ∧ p.endUBX ≤ MAX_LENGTH

/-- The byte is put behind the message. -/
def append (p : Parser) (byte : Byte) : Parser :=
  { p with msgBuff := Function.update p.msgBuff p.lenUBX byte, lenUBX := p.lenUBX + 1 }

/-- The message. -/
def message (p : Parser) : List Byte := (List.range p.lenUBX).map p.msgBuff

/-- Where the message ends by its length field. -/
def announced (p : Parser) : ℕ := 8 + (p.msgBuff 5 ++ p.msgBuff 4).toNat

end Parser

/-- The parser after a turn, and the binary messages that are handed on. -/
inductive Turn (p : Parser) (byte : Byte) : Parser → List (List Byte × Bool) → Prop
  | append (h0 : p.lenUBX ≠ 0) (hend : p.lenUBX + 1 < p.endUBX) (h5 : p.lenUBX ≠ 5)
      (hsync : p.lenUBX = 1 → byte = 0x62) : Turn p byte (p.append byte) []
  | length (h5 : p.lenUBX = 5) :
      Turn p byte { p.append byte with
        endUBX := (p.append byte).announced
        lenUBX := if MAX_LENGTH < (p.append byte).announced then 0 else 6 } []
  | badSync (h1 : p.lenUBX = 1) (hb : byte ≠ 0x62) :
      Turn p byte { p.append byte with lenUBX := 0 } []
  | finish (h0 : p.lenUBX ≠ 0) (hend : p.endUBX = p.lenUBX + 1) :
      Turn p byte { p.append byte with lenUBX := 0, endUBX := 0 }
        [((p.append byte).message, intact (p.append byte).message)]
  /-- No message is begun, or a line is. -/
  | text (h0 : p.lenUBX = 0) (hb : byte ≠ 0xB5) {p' : Parser} (hp' : p'.lenUBX = 0)
      (hline : p.lenNEMA ≤ MAX_LENGTH → p'.lenNEMA ≤ MAX_LENGTH) : Turn p byte p' []
  | start (h0 : p.lenUBX = 0) (hb : byte = 0xB5) {m : Mem Byte} (hm : m 0 = 0xB5) :
      Turn p byte ⟨m, 0, 1, 8⟩ []

namespace Receiver

def append (g : Receiver) (byte : Byte) : Receiver := { g with toParser := g.toParser.append byte }

/-- Inside a binary message the byte finds room. -/
theorem parseUBX_eq (hs : g.toParser.Sound) (h0 : g.lenUBX ≠ 0) :
    g.parseUBX env byte =
      (note (.store g.lenUBX) >>= fun _ => (g.append byte).testUBX env) := by
  obtain ⟨hlt, -, hmax⟩ := hs h0
  unfold parseUBX
  rw [if_pos (Nat.lt_of_lt_of_le hlt hmax)]
  rfl

theorem testUBX_finish (env : Env) (hend : g.endUBX = g.lenUBX) (h8 : 8 ≤ g.endUBX)
    (hmax : g.endUBX ≤ MAX_LENGTH) :
    (g.testUBX env).val.toParser = { g.toParser with lenUBX := 0, endUBX := 0 } ∧
      ubxCalls (g.testUBX env).reads = [(g.toParser.message, intact g.toParser.message)] := by
  have hlen : ¬ MAX_LENGTH < g.lenUBX := Nat.not_lt.mpr (hend ▸ hmax)
  obtain ⟨hkeep, hcalls⟩ := processUBX_spec env g (show 4 ≤ g.lenUBX by omega)
  unfold testUBX
  rw [if_pos hend.le, if_neg hlen]
  simp only [Reading.val_bind, reads_bind, ubxCalls_append, Reading.val_pure, reads_pure]
  constructor
  · exact congrArg (fun p : Parser => { p with lenUBX := 0, endUBX := 0 }) hkeep
  · rw [hcalls]
    rfl

theorem testUBX_length (env : Env) (hend : ¬ g.endUBX ≤ g.lenUBX) (h6 : g.lenUBX = 6) :
    (g.testUBX env).val.toParser = { g.toParser with
        endUBX := g.toParser.announced
        lenUBX := if MAX_LENGTH < g.toParser.announced then 0 else 6 } ∧
      (g.testUBX env).reads = [.load 4, .load 5] := by
  unfold testUBX
  rw [if_neg hend, if_pos h6]
  refine ⟨?_, rfl⟩
  show (if MAX_LENGTH < g.toParser.announced then _ else _ : Receiver).toParser = _
  by_cases hbig : MAX_LENGTH < g.toParser.announced
  · rw [if_pos hbig, if_pos hbig]
    rfl
  · rw [if_neg hbig, if_neg hbig, ← h6]
    rfl

theorem testUBX_sync (env : Env) (hend : ¬ g.endUBX ≤ g.lenUBX) (h2 : g.lenUBX = 2) :
    (g.testUBX env).val.toParser =
        (if g.msgBuff 1 ≠ 0x62 then { g.toParser with lenUBX := 0 } else g.toParser) ∧
      (g.testUBX env).reads = [.load 1] := by
  unfold testUBX
  rw [if_neg hend, if_neg (by omega), if_pos h2]
  refine ⟨?_, rfl⟩
  show (if g.msgBuff 1 ≠ 0x62 then _ else _ : Receiver).toParser = _
  split <;> rfl

theorem testUBX_append (env : Env) (hend : ¬ g.endUBX ≤ g.lenUBX) (h6 : g.lenUBX ≠ 6)
    (h2 : g.lenUBX ≠ 2) : g.testUBX env = pure g := by
  unfold testUBX
  rw [if_neg hend, if_neg h6, if_neg h2]

theorem parseUBX_turn (hs : g.toParser.Sound) (h0 : g.lenUBX ≠ 0) :
    Turn g.toParser byte (g.parseUBX env byte).val.toParser
      (ubxCalls (g.parseUBX env byte).reads) := by
  obtain ⟨hlt, h8, hmax⟩ := hs h0
  rw [parseUBX_eq hs h0]
  show Turn _ _ ((g.append byte).testUBX env).val.toParser
    (ubxCalls ((g.append byte).testUBX env).reads)
  have hp : (g.append byte).toParser = g.toParser.append byte := rfl
  generalize g.append byte = q at hp
  have hlen : q.lenUBX = g.lenUBX + 1 := by rw [hp]; rfl
  have hstop : q.endUBX = g.endUBX := by rw [hp]; rfl
  by_cases hend : q.endUBX = q.lenUBX
  · obtain ⟨hval, hcalls⟩ := testUBX_finish env hend (hstop ▸ h8) (hstop ▸ hmax)
    rw [hval, hcalls, hp]
    exact .finish h0 (by omega)
  have hmore : ¬ q.endUBX ≤ q.lenUBX := by omega
  by_cases h6 : q.lenUBX = 6
  · obtain ⟨hval, hreads⟩ := testUBX_length env hmore h6
    rw [hval, hreads, hp]
    exact .length (by omega)
  by_cases h2 : q.lenUBX = 2
  · obtain ⟨hval, hreads⟩ := testUBX_sync env hmore h2
    have h1 : g.lenUBX = 1 := by omega
    have hbyte : q.msgBuff 1 = byte := by
      rw [hp]
      show Function.update g.msgBuff g.lenUBX byte 1 = byte
      rw [h1, Function.update_self]
    rw [hval, hreads, hbyte, hp]
    by_cases hb : byte = 0x62
    · rw [if_neg (not_not.mpr hb)]
      exact .append h0 (by omega) (by omega) fun _ => hb
    · rw [if_pos hb]
      exact .badSync h1 hb
  · rw [testUBX_append env hmore h6 h2]
    show Turn _ _ q.toParser []
    rw [hp]
    exact .append h0 (by omega) (by omega) fun h1 => absurd hlen (by omega)

/-! ### Outside binary messages -/

theorem appendNEMA_spec (g : Receiver) (byte : Byte) :
    (g.appendNEMA byte).val.lenUBX = g.lenUBX ∧ ubxCalls (g.appendNEMA byte).reads = [] ∧
      (g.appendNEMA byte).val.lenNEMA =
        if g.lenNEMA < MAX_LENGTH then g.lenNEMA + 1 else g.lenNEMA := by
  unfold appendNEMA
  split <;> exact ⟨rfl, rfl, rfl⟩

theorem endNEMA_spec (g : Receiver) :
    (g.endNEMA).val.lenUBX = g.lenUBX ∧ ubxCalls g.endNEMA.reads = [] ∧
      (g.endNEMA).val.lenNEMA = 0 := by
  obtain ⟨hkeep, hcalls, -⟩ := processNEMA_spec
    { g with msgBuff := Function.update g.msgBuff g.lenNEMA 0, lenNEMA := g.lenNEMA - 1 }
    (g.lenNEMA - 1)
  refine ⟨?_, ?_, rfl⟩
  · have hlen := congrArg Parser.lenUBX hkeep
    exact hlen
  · unfold endNEMA
    simp only [store, reads_bind, ubxCalls_append, reads_pure]
    rw [hcalls]
    rfl

theorem parseNEMA_spec (g : Receiver) (byte : Byte) :
    (g.parseNEMA byte).val.lenUBX = g.lenUBX ∧ ubxCalls (g.parseNEMA byte).reads = [] ∧
      (g.lenNEMA ≤ MAX_LENGTH → (g.parseNEMA byte).val.lenNEMA ≤ MAX_LENGTH) := by
  obtain ⟨hlen, hcalls, hline⟩ := appendNEMA_spec g byte
  unfold parseNEMA
  simp only [Reading.val_bind, reads_bind, ubxCalls_append, hcalls, List.nil_append]
  split
  · obtain ⟨hlen', hcalls', hline'⟩ := endNEMA_spec (g.appendNEMA byte).val
    refine ⟨hlen'.trans hlen, hcalls', fun _ => ?_⟩
    rw [hline']
    exact Nat.zero_le _
  · refine ⟨hlen, rfl, fun hmax => ?_⟩
    rw [Reading.val_pure, hline]
    split <;> omega

theorem parseStart_turn (byte : Byte) (h0 : g.lenUBX = 0) :
    ubxCalls (g.parseStart byte).reads = [] ∧
      (byte ≠ 0xB5 → (g.parseStart byte).val.lenUBX = 0 ∧
        (g.lenNEMA ≤ MAX_LENGTH → (g.parseStart byte).val.lenNEMA ≤ MAX_LENGTH)) ∧
      (byte = 0xB5 → (g.parseStart byte).val.toParser =
        ⟨Function.update g.msgBuff 0 0xB5, 0, 1, 8⟩) := by
  unfold parseStart
  split
  · rename_i hline
    refine ⟨rfl, fun _ => ⟨h0, fun _ => Nat.le_add_left 1 255⟩, fun hb => ?_⟩
    exact absurd (hline.symm.trans hb) (by decide)
  · split
    · rename_i hb
      refine ⟨rfl, fun hne => absurd hb hne, fun _ => ?_⟩
      rw [hb]
      rfl
    · rename_i hne
      exact ⟨rfl, fun _ => ⟨h0, id⟩, fun hb => absurd hb hne⟩

/-- **All that a turn of `runParse` does.** -/
theorem parse_turn (env : Env) (byte : Byte) (hs : g.toParser.Sound) :
    Turn g.toParser byte (g.parse env byte).val.toParser (ubxCalls (g.parse env byte).reads) := by
  unfold parse
  by_cases h0 : g.lenUBX = 0
  · rw [if_neg (not_not.mpr h0)]
    simp only [Reading.val_bind, reads_bind, ubxCalls_append]
    -- first the line
    have hfirst : ∃ x : Reading Event Receiver,
        (if g.lenNEMA ≠ 0 then g.parseNEMA byte else pure g) = x ∧ x.val.lenUBX = 0 ∧
          ubxCalls x.reads = [] ∧ (g.lenNEMA ≤ MAX_LENGTH → x.val.lenNEMA ≤ MAX_LENGTH) := by
      refine ⟨_, rfl, ?_⟩
      split
      · obtain ⟨hlen, hcalls, hline⟩ := parseNEMA_spec g byte
        exact ⟨hlen.trans h0, hcalls, hline⟩
      · exact ⟨h0, rfl, id⟩
    obtain ⟨x, hx, hlen, hcalls, hline⟩ := hfirst
    rw [hx, hcalls, List.nil_append]
    obtain ⟨hnone, htext, hstart⟩ := parseStart_turn byte hlen
    rw [hnone]
    by_cases hb : byte = 0xB5
    · rw [hstart hb]
      exact .start h0 hb (Function.update_self _ _ _)
    · obtain ⟨hidle, hline'⟩ := htext hb
      exact .text h0 hb hidle fun hmax => hline' (hline hmax)
  · rw [if_pos h0]
    exact parseUBX_turn hs h0

end Receiver

/-- A turn leaves the end of the message known. -/
theorem Turn.sound {calls : List (List Byte × Bool)} (ht : Turn p byte p' calls)
    (hs : p.Sound) : p'.Sound := by
  cases ht with
  | append h0 hend h5 hsync =>
      obtain ⟨-, h8, hmax⟩ := hs h0
      exact fun _ => ⟨hend, h8, hmax⟩
  | length h5 =>
      intro hne
      dsimp only at hne ⊢
      split at hne
      · exact absurd rfl hne
      · rename_i hfit
        rw [if_neg hfit]
        exact ⟨by unfold Parser.announced; omega, Nat.le_add_right 8 _, Nat.le_of_not_lt hfit⟩
  | badSync h1 hb => exact fun hne => absurd rfl hne
  | finish h0 hend => exact fun hne => absurd rfl hne
  | text h0 hb hp' hline => exact fun hne => absurd hp' hne
  | start h0 hb hm =>
      intro _
      show 1 < 8 ∧ 8 ≤ 8 ∧ 8 ≤ 256
      decide

end Gpsdo.Gps
