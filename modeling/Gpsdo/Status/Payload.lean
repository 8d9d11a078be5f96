import Gpsdo.Status.Process
import Mathlib.Data.List.GetD
import Mathlib.Data.List.TakeWhile

set_option autoImplicit false

/-! # What an answer depends on

A request says what its payload is, and that a NUL follows at its length. The tests of the commands
look at fixed places, some of them behind the NUL of a short payload, and a payload without a NUL is
copied without one: the answer depends on the request alone if and only if what the request says
decides.
-/

namespace Gpsdo.Status

open Net

/-! ## Requests -/

/-- The bytes of the datagram that are in the frame. -/
def payload (frame : Mem Byte) (flen : ℕ) : List Byte :=
  frame.load FrameUdp4.DATA_OFFSET (min (udpSize frame).toNat (flen - FrameUdp4.DATA_OFFSET))

/-- Frames with the same payload. -/
structure SameRequest (frame : Mem Byte) (flen : ℕ) (frame' : Mem Byte) (flen' : ℕ) : Prop where
  size : udpSize frame' = udpSize frame
  payload : payload frame' flen' = payload frame flen

/-- The command and the payload of an answer. -/
def Result.answer : Result → Option (Option Command × List Byte)
  | .sent c frame => some (c, frame.drop FrameUdp4.DATA_OFFSET)
  | _ => none

/-- The answer to a frame is the answer to every frame with the same payload, whatever the buffers
held before; what is no command is reported as it is. -/
def Determined (dev : Device) (frame : Mem Byte) (flen : ℕ) : Prop :=
  ∀ frame' flen', accepts dev frame' flen' = true → SameRequest frame flen frame' flen' →
    ∀ txFrame tmp txFrame' tmp', ∃ c text,
      (process dev txFrame tmp frame flen).answer = some (c, text) ∧
      (process dev txFrame' tmp' frame' flen').answer = some (c, text) ∧
      (c = none →
        text = INVALID_COMMAND ++ (payload frame flen).takeWhile (· != 0) ++ [0x0A])

/-- What a request says about its body. -/
def known (size : ℕ) (payload : List Byte) : Known Byte :=
  fun i => payload[i]?.or (if i = size then some 0 else none)

/-- What the test of a command looks at. -/
def Keyword.probes (k : Keyword) : Probes Byte :=
  k.name.zipIdx.map (fun p => (p.2, (· == p.1))) ++ [(k.terminus, isTerminus)]

/-- What a request says decides: each test, the block of the EEPROM, and where the text of an
invalid command ends. -/
structure Decided (size : ℕ) (payload : List Byte) : Prop where
  tests : ∀ k : Keyword, (known size payload).Refuted k.probes ∨
    (known size payload).Confirmed k.probes
  block : (known size payload).Confirmed Keyword.eeprom.probes →
    known size payload 6 = some 0 ∨
      (known size payload 6).isSome = true ∧ (known size payload 7).isSome = true
  ends : (∀ k : Keyword, (known size payload).Refuted k.probes) → 0 ∈ payload

/-! ## The body -/

variable {dev : Device} {txFrame tmp frame m : Mem Byte} {flen size : ℕ} {b b' : Mem Byte}

theorem body_request (txFrame frame : Mem Byte) (flen i : ℕ) :
    body (request txFrame frame flen) i =
      if i = (udpSize frame).toNat then 0
      else if FrameUdp4.DATA_OFFSET + i < flen then frame (FrameUdp4.DATA_OFFSET + i)
      else txFrame (FrameUdp4.DATA_OFFSET + i) := by
  unfold body request
  rw [Mem.store_singleton, returnToSender_other (Nat.le_add_right _ _)]
  by_cases hi : i = (udpSize frame).toNat
  · rw [if_pos (by omega), if_pos hi]
  · rw [if_neg (by omega), if_neg hi]

theorem length_payload (frame : Mem Byte) (flen : ℕ) :
    (payload frame flen).length =
      min (udpSize frame).toNat (flen - FrameUdp4.DATA_OFFSET) := Mem.length_load _ _ _

theorem payload_getElem? (frame : Mem Byte) (flen i : ℕ) :
    (payload frame flen)[i]? =
      if i < (payload frame flen).length then some (frame (FrameUdp4.DATA_OFFSET + i))
      else none := by
  split
  · rename_i hi
    rw [List.getElem?_eq_getElem hi]
    simp [payload, Mem.load]
  · rename_i hi
    exact List.getElem?_eq_none (not_lt.mp hi)

/-- **The body has what the request says.** -/
theorem fits_body (txFrame frame : Mem Byte) (flen : ℕ) :
    (known (udpSize frame).toNat (payload frame flen)).Fits
      (body (request txFrame frame flen)) := by
  intro i v hv
  have hlen := length_payload frame flen
  rw [body_request]
  unfold known at hv
  rw [Option.mem_def, payload_getElem?] at hv
  by_cases hi : i < (payload frame flen).length
  · rw [if_pos hi, Option.some_or] at hv
    rw [if_neg (by omega), if_pos (by omega)]
    exact Option.some.inj hv
  · rw [if_neg hi, Option.none_or] at hv
    split at hv
    · rename_i hsize
      rw [if_pos hsize]
      exact Option.some.inj hv
    · cases hv

/-- A frame with the same payload and other bytes behind it. -/
def refill (frame : Mem Byte) (flen : ℕ) (c : Mem Byte) : Mem Byte :=
  fun i => if i < FrameUdp4.DATA_OFFSET + (payload frame flen).length then frame i
    else c (i - FrameUdp4.DATA_OFFSET)

theorem refill_header {c : Mem Byte} {i : ℕ} (hi : i < FrameUdp4.DATA_OFFSET) :
    refill frame flen c i = frame i := if_pos (by omega)

theorem udpSize_refill (c : Mem Byte) : udpSize (refill frame flen c) = udpSize frame := by
  unfold udpSize
  rw [refill_header (by decide), refill_header (by decide)]

theorem sameRequest_refill (c : Mem Byte) :
    SameRequest frame flen (refill frame flen c) flen where
  size := udpSize_refill c
  payload := by
    have hlen := length_payload frame flen
    unfold payload at hlen ⊢
    rw [udpSize_refill]
    apply Mem.load_congr
    intro i _ hi
    exact if_pos (by rw [length_payload]; omega)

theorem accepts_refill (c : Mem Byte) (h : accepts dev frame flen = true) :
    accepts dev (refill frame flen c) flen = true := by
  have hload : ∀ off k, off + k ≤ FrameUdp4.DATA_OFFSET →
      (refill frame flen c).load off k = frame.load off k :=
    fun off k hk => Mem.load_congr fun i _ hi => refill_header (by omega)
  unfold accepts at h ⊢
  rwa [hload _ _ (by decide), hload _ _ (by decide), udpSize_refill]

/-- **Every memory that has what the request says** is the body of a frame with the same payload. -/
theorem body_refill (c : Mem Byte) :
    body (request (fun i => c (i - FrameUdp4.DATA_OFFSET)) (refill frame flen c) flen) =
      (known (udpSize frame).toNat (payload frame flen)).complete c := by
  funext i
  have hlen := length_payload frame flen
  rw [body_request, udpSize_refill]
  unfold Known.complete known
  rw [payload_getElem?, Nat.add_sub_cancel_left]
  by_cases hi : i < (payload frame flen).length
  · rw [if_pos hi, if_neg (by omega), if_pos (by omega)]
    exact if_pos (by omega)
  · have hbehind : refill frame flen c (FrameUdp4.DATA_OFFSET + i) = c i := by
      unfold refill
      rw [if_neg (by omega), Nat.add_sub_cancel_left]
    rw [if_neg hi, hbehind, ite_self, Option.none_or]
    split
    · rfl
    · rfl

/-! ## The tests -/

/-- A character that no test passes. -/
def OTHER : Byte := 0x78

/-- The body that a test passes. -/
def Keyword.sample (k : Keyword) : Mem Byte := fun i => k.name.getD i 0

theorem test_eq_passes (b : Mem Byte) (k : Keyword) : k.test b = Known.passes k.probes b := by
  cases k <;>
    simp [Keyword.test, Keyword.probes, Keyword.name, Keyword.terminus, Known.passes, Mem.load,
      ascii, hasTerminus, List.range_succ, Bool.and_assoc]

theorem probes_sample : ∀ k : Keyword, ∀ p ∈ k.probes, p.2 (k.sample p.1) = true := by
  intro k
  cases k <;> decide

theorem probes_other : ∀ k : Keyword, ∀ p ∈ k.probes, p.2 OTHER = false := by
  intro k
  cases k <;> decide

/-- The names differ in their first two letters. -/
theorem name_inj : ∀ k k' : Keyword, k.name.take 2 = k'.name.take 2 → k = k' := by
  intro k k' h
  cases k <;> cases k' <;> first | rfl | exact absurd h (by decide)

theorem take_of_test {k : Keyword} (h : k.test b = true) : k.name.take 2 = b.load 0 2 := by
  have hname : b.load 0 k.name.length = k.name := by
    unfold Keyword.test at h
    exact beq_iff_eq.mp (Bool.and_eq_true_iff.mp h).1
  have hlen : k.name.length = 2 + (k.name.length - 2) := by
    cases k <;> rfl
  rw [← hname, hlen, Mem.load_add, List.take_left' (Mem.length_load _ _ _)]

/-- At most one test is passed. -/
theorem test_unique {k k' : Keyword} (h : k.test b = true) (h' : k'.test b = true) : k = k' :=
  name_inj k k' ((take_of_test h).trans (take_of_test h').symm)

theorem mem_all (k : Keyword) : k ∈ Keyword.all := by
  cases k <;> decide

theorem select_of_test {k : Keyword} (h : k.test b = true) :
    select b = some ⟨k, k.block b⟩ := by
  unfold select
  cases hfind : Keyword.all.find? (·.test b) with
  | none => exact absurd h (List.find?_eq_none.mp hfind k (mem_all k))
  | some k' =>
      obtain rfl := test_unique (List.find?_some hfind) h
      rfl

theorem select_eq_none (h : ∀ k : Keyword, k.test b = false) : select b = none := by
  unfold select
  rw [List.find?_eq_none.mpr fun k _ => by rw [h k]; decide]
  rfl

/-! ## Texts -/

theorem nul_notMem_takeWhile (l : List Byte) : 0 ∉ l.takeWhile (· != 0) := by
  intro h
  have hne := List.mem_takeWhile_imp h
  simp at hne

/-- A list up to its first NUL. -/
theorem split_nul {l : List Byte} (h : 0 ∈ l) : ∃ rest, l = l.takeWhile (· != 0) ++ 0 :: rest := by
  induction l with
  | nil => cases h
  | cons c l ih =>
      by_cases hc : c = 0
      · exact ⟨l, by simp [hc]⟩
      · obtain ⟨rest, hrest⟩ := ih (List.mem_of_ne_of_mem (Ne.symm hc) h)
        refine ⟨rest, ?_⟩
        rw [List.takeWhile_cons, if_pos (bne_iff_ne.mpr hc), List.cons_append, ← hrest]

/-- A string without a NUL, with one behind it. -/
theorem string_eq {src : Mem Byte} {l : List Byte} (h0 : 0 ∉ l) {fuel off : ℕ}
    (hfuel : l.length < fuel) (hl : ∀ i, (h : i < l.length) → src (off + i) = l[i])
    (hend : src (off + l.length) = 0) : string src fuel off = some l := by
  induction l generalizing fuel off with
  | nil =>
      obtain ⟨fuel, rfl⟩ := Nat.exists_eq_succ_of_ne_zero (Nat.ne_of_gt hfuel)
      exact if_pos hend
  | cons c l ih =>
      obtain ⟨fuel, rfl⟩ := Nat.exists_eq_succ_of_ne_zero (Nat.ne_of_gt (Nat.zero_lt_of_lt hfuel))
      have hc : src off = c := hl 0 (Nat.succ_pos _)
      have hne : src off ≠ 0 := fun hzero => h0 (by simp [← hc, hzero])
      have hnext : string src fuel (off + 1) = some l := by
        apply ih (fun h => h0 (List.mem_cons_of_mem _ h)) (Nat.lt_of_succ_lt_succ hfuel)
        · intro i hi
          rw [Nat.add_right_comm]
          exact hl (i + 1) (Nat.succ_lt_succ hi)
        · rw [Nat.add_right_comm]
          exact hend
      rw [Nat.succ_eq_add_one, string, if_neg hne, hnext, hc]
      rfl

/-- Up to the first NUL, `tmp` holds the body and then what it held before. -/
theorem strncpy_eq {i : ℕ} (h : ∀ j < i, (if j < size then b j else tmp j) ≠ 0) :
    strncpy tmp b size i = if i < size then b i else tmp i := by
  unfold strncpy
  split
  · rename_i hi
    refine if_pos (List.all_eq_true.mpr fun c hc => ?_)
    obtain ⟨j, hj, rfl⟩ := List.mem_map.mp hc
    have hlt := List.mem_range.mp hj
    have hne := h j hlt
    rw [if_pos (hlt.trans hi)] at hne
    simpa using hne
  · rfl

theorem invalidText_eq {l : List Byte} (h0 : 0 ∉ l) (hlen : l.length < MEMORY)
    (hl : ∀ i, (h : i < l.length) → (if i < size then b i else tmp i) = l[i])
    (hend : (if l.length < size then b l.length else tmp l.length) = 0) :
    invalidText tmp b size = some (INVALID_COMMAND ++ l ++ [0x0A]) := by
  have hcopy : ∀ i ≤ l.length, strncpy tmp b size i = if i < size then b i else tmp i := by
    intro i hi
    apply strncpy_eq
    intro j hj hzero
    rw [hl j (by omega)] at hzero
    exact h0 (hzero ▸ List.getElem_mem _)
  unfold invalidText
  rw [string_eq h0 hlen]
  · rfl
  · intro i hi
    rw [Nat.zero_add, hcopy i hi.le]
    exact hl i hi
  · rw [Nat.zero_add, hcopy _ le_rfl]
    exact hend

theorem drop_send (m : Mem Byte) (text : List Byte) :
    (send m text).drop FrameUdp4.DATA_OFFSET = text := by
  unfold send
  dsimp only
  rw [Mem.load_add, List.drop_left' (Mem.length_load _ _ _)]
  have hkeep : ∀ m : Mem Byte, (IPv4_finalize (UDP_finalize m
      (FrameUdp4.DATA_OFFSET + text.length)) (FrameUdp4.DATA_OFFSET + text.length)).load
      (0 + FrameUdp4.DATA_OFFSET) text.length =
        m.load FrameUdp4.DATA_OFFSET text.length := by
    intro m
    rw [Nat.zero_add]
    apply Mem.load_congr
    intro i hi _
    rw [IPv4_finalize_other (Or.inr (le_trans (by decide) hi)),
      UDP_finalize_other (Or.inr hi)]
  have hwhole := Mem.load_store_self m FrameUdp4.DATA_OFFSET (text ++ [0])
  rw [List.length_append, List.length_singleton, Mem.load_add] at hwhole
  rw [hkeep]
  exact List.append_inj_left hwhole (Mem.length_load _ _ _)

/-! ## Answers -/

theorem answer_command (h : accepts dev frame flen = true) {c : Command}
    (hselect : select (body (request txFrame frame flen)) = some c) :
    (process dev txFrame tmp frame flen).answer = some (some c, dev.text c) := by
  unfold process
  rw [if_pos h]
  dsimp only
  rw [hselect]
  exact congrArg (fun text => some (some c, text)) (drop_send _ _)

theorem answer_invalid (h : accepts dev frame flen = true) {text : List Byte}
    (hselect : select (body (request txFrame frame flen)) = none)
    (htext : invalidText tmp (body (request txFrame frame flen)) (udpSize frame).toNat =
      some text) :
    (process dev txFrame tmp frame flen).answer = some (none, text) := by
  unfold process
  rw [if_pos h]
  dsimp only
  rw [hselect, htext]
  exact congrArg (fun text => some (none, text)) (drop_send _ _)

/-! ## Requests that decide -/

variable {pl : List Byte}

theorem test_congr (h : Decided size pl) (hb : (known size pl).Fits b)
    (hb' : (known size pl).Fits b') (k : Keyword) : k.test b = k.test b' := by
  rw [test_eq_passes, test_eq_passes]
  exact Known.passes_congr (h.tests k) hb hb'

/-- The block is known when it is asked for. -/
theorem block_congr (h : Decided size pl) (hb : (known size pl).Fits b)
    (hb' : (known size pl).Fits b') {k : Keyword} (hk : k.test b = true) :
    k.block b = k.block b' := by
  cases k with
  | eeprom =>
      have hconfirmed : (known size pl).Confirmed Keyword.eeprom.probes := by
        refine (h.tests .eeprom).resolve_left fun hrefuted => ?_
        rw [test_eq_passes, hrefuted.passes hb] at hk
        cases hk
      show fromHex (b 6) (b 7) = fromHex (b' 6) (b' 7)
      rcases h.block hconfirmed with h6 | ⟨h6, h7⟩
      · rw [hb 6 0 h6, hb' 6 0 h6]
        rfl
      · obtain ⟨c6, h6⟩ := Option.isSome_iff_exists.mp h6
        obtain ⟨c7, h7⟩ := Option.isSome_iff_exists.mp h7
        rw [hb 6 c6 h6, hb' 6 c6 h6, hb 7 c7 h7, hb' 7 c7 h7]
  | _ => rfl

theorem select_congr (h : Decided size pl) (hb : (known size pl).Fits b)
    (hb' : (known size pl).Fits b') : select b = select b' := by
  by_cases hany : ∃ k : Keyword, k.test b = true
  · obtain ⟨k, hk⟩ := hany
    rw [select_of_test hk, select_of_test ((test_congr h hb hb' k).symm.trans hk),
      block_congr h hb hb' hk]
  · push Not at hany
    rw [select_eq_none fun k => eq_false_of_ne_true (hany k),
      select_eq_none fun k => (test_congr h hb hb' k).symm.trans (eq_false_of_ne_true (hany k))]

/-- What is no command ends with a NUL of the payload. -/
theorem invalidText_congr (h : Decided size pl) (hlen : pl.length ≤ size) (hsize : size ≤ 31)
    (hb : (known size pl).Fits b) (hselect : select b = none) (tmp : Mem Byte) :
    invalidText tmp b size = some (INVALID_COMMAND ++ pl.takeWhile (· != 0) ++ [0x0A]) := by
  have hrefuted : ∀ k : Keyword, (known size pl).Refuted k.probes := by
    intro k
    refine (h.tests k).resolve_right fun hconfirmed => ?_
    have hk : k.test b = true := by rw [test_eq_passes, hconfirmed.passes hb]
    rw [select_of_test hk] at hselect
    cases hselect
  have hzero := h.ends hrefuted
  obtain ⟨rest, hsplit⟩ := split_nul hzero
  have hnul := nul_notMem_takeWhile pl
  generalize pl.takeWhile (· != 0) = text at hsplit hnul ⊢
  have htextlen : text.length < pl.length := by rw [hsplit]; simp
  have hbody : ∀ i, (hi : i < pl.length) → b i = pl[i] := by
    intro i hi
    apply hb
    unfold known
    rw [List.getElem?_eq_getElem hi]
    rfl
  apply invalidText_eq hnul
  · unfold MEMORY
    omega
  · intro i hi
    rw [if_pos (by omega), hbody i (by omega)]
    simp only [hsplit, List.getElem_append_left hi]
  · rw [if_pos (by omega), hbody _ htextlen]
    simp only [hsplit, List.getElem_append_right le_rfl, Nat.sub_self, List.getElem_cons_zero]

theorem accepts_size (h : accepts dev frame flen = true) : (udpSize frame).toNat ≤ 31 := by
  unfold accepts at h
  simp only [Bool.and_eq_true, decide_eq_true_eq] at h
  exact BitVec.le_def.mp h.2

theorem payload_le_size (frame : Mem Byte) (flen : ℕ) :
    (payload frame flen).length ≤ (udpSize frame).toNat := by
  rw [length_payload]
  exact Nat.min_le_left _ _

theorem determined_of_decided (h : accepts dev frame flen = true)
    (hdec : Decided (udpSize frame).toNat (payload frame flen)) :
    Determined dev frame flen := by
  intro frame' flen' h' hsame txFrame tmp txFrame' tmp'
  have hb := fits_body txFrame frame flen
  have hb' := fits_body txFrame' frame' flen'
  rw [hsame.size, hsame.payload] at hb'
  have hselect := select_congr hdec hb hb'
  cases hc : select (body (request txFrame frame flen)) with
  | some c =>
      refine ⟨some c, dev.text c, answer_command h hc,
        answer_command h' (hselect.symm.trans hc), fun hnone => ?_⟩
      cases hnone
  | none =>
      have hlen := payload_le_size frame flen
      have htext := invalidText_congr hdec hlen (accepts_size h) hb hc tmp
      have htext' := invalidText_congr hdec hlen (accepts_size h) hb' (hselect.symm.trans hc) tmp'
      refine ⟨none, _, answer_invalid h hc htext,
        answer_invalid h' (hselect.symm.trans hc) ?_, fun _ => rfl⟩
      rw [hsame.size]
      exact htext'

/-! ## Requests that do not decide -/

theorem select_of_answer (h : accepts dev frame flen = true) {o : Option Command}
    {text : List Byte} (ha : (process dev txFrame tmp frame flen).answer = some (o, text)) :
    select (body (request txFrame frame flen)) = o := by
  cases hc : select (body (request txFrame frame flen)) with
  | some c =>
      rw [answer_command h hc] at ha
      exact (Prod.mk.inj (Option.some.inj ha)).1
  | none =>
      unfold process at ha
      rw [if_pos h] at ha
      dsimp only at ha
      rw [hc] at ha
      dsimp only at ha
      split at ha
      · exact (Prod.mk.inj (Option.some.inj ha)).1
      · cases ha

/-- The run in which `c` stands for all that the request does not say. -/
def runWith (dev : Device) (frame : Mem Byte) (flen : ℕ) (c tmp : Mem Byte) : Result :=
  process dev (fun i => c (i - FrameUdp4.DATA_OFFSET)) tmp (refill frame flen c) flen

/-- Two such runs have the same answer. -/
theorem runWith_answer (h : accepts dev frame flen = true) (hdet : Determined dev frame flen)
    (c tmp c' tmp' : Mem Byte) : ∃ r, (runWith dev frame flen c tmp).answer = some r ∧
      (runWith dev frame flen c' tmp').answer = some r := by
  obtain ⟨o, text, hr, hr1, -⟩ := hdet _ flen (accepts_refill c h) (sameRequest_refill c)
    (fun _ => 0) (fun _ => 0) (fun i => c (i - FrameUdp4.DATA_OFFSET)) tmp
  obtain ⟨o', text', hr', hr2, -⟩ := hdet _ flen (accepts_refill c' h) (sameRequest_refill c')
    (fun _ => 0) (fun _ => 0) (fun i => c' (i - FrameUdp4.DATA_OFFSET)) tmp'
  refine ⟨(o, text), hr1, hr2.trans ?_⟩
  rw [← hr, ← hr']

/-- So they select the same command. -/
theorem select_complete (h : accepts dev frame flen = true) (hdet : Determined dev frame flen)
    (c c' : Mem Byte) :
    select ((known (udpSize frame).toNat (payload frame flen)).complete c) =
      select ((known (udpSize frame).toNat (payload frame flen)).complete c') := by
  obtain ⟨⟨o, text⟩, hr, hr'⟩ := runWith_answer h hdet c (fun _ => 0) c' (fun _ => 0)
  rw [← body_refill c, ← body_refill c', select_of_answer (accepts_refill c h) hr,
    select_of_answer (accepts_refill c' h) hr']

theorem tests_of_determined (h : accepts dev frame flen = true)
    (hdet : Determined dev frame flen) (k : Keyword) :
    (known (udpSize frame).toNat (payload frame flen)).Refuted k.probes ∨
      (known (udpSize frame).toNat (payload frame flen)).Confirmed k.probes := by
  by_contra hopen
  obtain ⟨hrefuted, hconfirmed⟩ := not_or.mp hopen
  have hpass := Known.passes_complete hrefuted (probes_sample k)
  have hfail := Known.not_passes_complete hconfirmed (f := fun _ => OTHER) (probes_other k)
  rw [← test_eq_passes] at hpass hfail
  have hselect := select_complete h hdet k.sample fun _ => OTHER
  rw [select_of_test hpass] at hselect
  -- the other body selects the same keyword
  obtain ⟨k', hfind, hk'⟩ := Option.map_eq_some_iff.mp hselect.symm
  obtain rfl : k' = k := congrArg Command.keyword hk'
  have htest : k'.test _ = true := List.find?_some hfind
  rw [hfail] at htest
  cases htest

theorem fromHex_first : ∀ c : Byte, fromHex 0x30 c ≠ fromHex 0x31 c := by decide +kernel

theorem fromHex_second : ∀ c : Byte, c ≠ 0 → fromHex c 0x30 ≠ fromHex c 0x31 := by
  decide +kernel

theorem block_of_determined (h : accepts dev frame flen = true)
    (hdet : Determined dev frame flen)
    (hconfirmed :
      (known (udpSize frame).toNat (payload frame flen)).Confirmed Keyword.eeprom.probes) :
    known (udpSize frame).toNat (payload frame flen) 6 = some 0 ∨
      (known (udpSize frame).toNat (payload frame flen) 6).isSome = true ∧
        (known (udpSize frame).toNat (payload frame flen) 7).isSome = true := by
  generalize hK : known (udpSize frame).toNat (payload frame flen) = K at hconfirmed ⊢
  have hselect := select_complete h hdet
  rw [hK] at hselect
  have hblock : ∀ c c' : Mem Byte, fromHex (K.complete c 6) (K.complete c 7) =
      fromHex (K.complete c' 6) (K.complete c' 7) := by
    intro c c'
    have hc := hconfirmed.passes (Known.fits_complete K c)
    have hc' := hconfirmed.passes (Known.fits_complete K c')
    rw [← test_eq_passes] at hc hc'
    have heq := hselect c c'
    rw [select_of_test hc, select_of_test hc'] at heq
    exact congrArg Command.block (Option.some.inj heq)
  cases h6 : K 6 with
  | none =>
      have hdiff := hblock (fun _ => 0x30) fun i => if i = 6 then 0x31 else 0x30
      unfold Known.complete at hdiff
      simp only [h6, Option.getD_none, if_pos, if_neg (by decide : ¬ (7 = 6))] at hdiff
      exact absurd hdiff (fromHex_first _)
  | some v =>
      by_cases hv : v = 0
      · exact Or.inl (by rw [hv])
      · refine Or.inr ⟨rfl, ?_⟩
        cases h7 : K 7 with
        | some w => rfl
        | none =>
            have hdiff := hblock (fun _ => 0x30) fun _ => 0x31
            unfold Known.complete at hdiff
            simp only [h6, h7, Option.getD_none, Option.getD_some] at hdiff
            exact absurd hdiff (fromHex_second v hv)

/-- The text that a run with `c` reports, when the bytes of `c` continue the payload to `l`. -/
theorem runWith_invalid (h : accepts dev frame flen = true)
    (hrefuted : ∀ k : Keyword,
      (known (udpSize frame).toNat (payload frame flen)).Refuted k.probes)
    {c : Mem Byte} {l : List Byte} (hnul : 0 ∉ l) (hmax : l.length ≤ 32)
    (hl : ∀ i, (hi : i < l.length) → (payload frame flen)[i]?.getD (c i) = l[i])
    (hge : (payload frame flen).length ≤ l.length) (hend : c l.length = 0) :
    (runWith dev frame flen c c).answer = some (none, INVALID_COMMAND ++ l ++ [0x0A]) := by
  have hlen := payload_le_size frame flen
  have hcomplete : ∀ i < (udpSize frame).toNat,
      (known (udpSize frame).toNat (payload frame flen)).complete c i =
        (payload frame flen)[i]?.getD (c i) := by
    intro i hi
    unfold Known.complete known
    rw [if_neg (Nat.ne_of_lt hi), Option.or_none]
  apply answer_invalid (accepts_refill c h)
  · rw [body_refill]
    apply select_eq_none
    intro k
    rw [test_eq_passes]
    exact (hrefuted k).passes (Known.fits_complete _ c)
  · rw [body_refill, udpSize_refill]
    apply invalidText_eq hnul
    · unfold MEMORY
      omega
    · intro i hi
      split
      · rename_i hin
        rw [hcomplete i hin, hl i hi]
      · rename_i hout
        rw [← hl i hi, List.getElem?_eq_none (by omega), Option.getD_none]
    · split
      · rename_i hin
        rw [hcomplete _ hin, List.getElem?_eq_none hge, Option.getD_none, hend]
      · exact hend

/-- A payload without a NUL is copied without one, and what follows it is not the request's. -/
theorem ends_of_determined (h : accepts dev frame flen = true)
    (hdet : Determined dev frame flen)
    (hrefuted : ∀ k : Keyword,
      (known (udpSize frame).toNat (payload frame flen)).Refuted k.probes) :
    0 ∈ payload frame flen := by
  by_contra hnul
  have hsize := accepts_size h
  have hlen := payload_le_size frame flen
  -- behind the payload there is a NUL in one run, and a letter and a NUL in the other
  have hshort := runWith_invalid h hrefuted (c := fun _ => 0) (l := payload frame flen) hnul
    (by omega) (fun i hi => by rw [List.getElem?_eq_getElem hi, Option.getD_some]) le_rfl rfl
  have hlong := runWith_invalid h hrefuted
    (c := fun i => if i = (payload frame flen).length then 0x41 else 0)
    (l := payload frame flen ++ [0x41])
    (fun hmem => (List.mem_append.mp hmem).elim hnul (by decide))
    (by rw [List.length_append, List.length_singleton]; omega)
    (fun i hi => by
      rcases Nat.lt_or_ge i (payload frame flen).length with hlt | hge
      · rw [List.getElem?_eq_getElem hlt, Option.getD_some, List.getElem_append_left hlt]
      · rw [List.length_append, List.length_singleton] at hi
        obtain rfl : i = (payload frame flen).length := by omega
        simp)
    (by simp) (by simp)
  obtain ⟨r, hr, hr'⟩ := runWith_answer h hdet (fun _ => 0) (fun _ => 0)
    (fun i => if i = (payload frame flen).length then 0x41 else 0)
    (fun i => if i = (payload frame flen).length then 0x41 else 0)
  have htexts := hshort.symm.trans (hr.trans (hr'.symm.trans hlong))
  have hlengths := congrArg (fun r => r.map fun p => p.2.length) htexts
  simp at hlengths

/-- **The answer depends on the request alone if and only if what the request says decides.** -/
theorem process_determined_iff (h : accepts dev frame flen = true) :
    Determined dev frame flen ↔ Decided (udpSize frame).toNat (payload frame flen) := by
  constructor
  · intro hdet
    exact ⟨tests_of_determined h hdet, block_of_determined h hdet, ends_of_determined h hdet⟩
  · exact determined_of_decided h

/-! ## Payloads that are in the frame as a whole -/

theorem known_whole (h : pl.length = size) (i : ℕ) :
    known size pl i = if i ≤ size then some (pl.getD i 0) else none := by
  unfold known
  rcases Nat.lt_trichotomy i size with hlt | rfl | hgt
  · rw [if_pos hlt.le, List.getElem?_eq_getElem (by omega), Option.some_or,
      List.getD_eq_getElem pl 0 (by omega)]
  · rw [if_pos rfl, if_pos le_rfl, List.getElem?_eq_none (by omega), Option.none_or,
      List.getD_eq_default pl 0 (by omega)]
  · rw [if_neg (by omega), if_neg (by omega), List.getElem?_eq_none (by omega), Option.none_or]

theorem mem_probes {k : Keyword} {p : ℕ × (Byte → Bool)} :
    p ∈ k.probes ↔ (∃ i, ∃ hi : i < k.name.length, p = (i, (· == k.name[i]))) ∨
      p = (k.terminus, isTerminus) := by
  unfold Keyword.probes
  rw [List.mem_append, List.mem_singleton, List.mem_map]
  refine or_congr_left ⟨?_, ?_⟩
  · rintro ⟨⟨c, i⟩, hmem, rfl⟩
    obtain ⟨hi, hc⟩ := List.getElem?_eq_some_iff.mp (List.mem_zipIdx_iff_getElem?.mp hmem)
    exact ⟨i, hi, by rw [hc]⟩
  · rintro ⟨i, hi, rfl⟩
    exact ⟨(k.name[i], i), List.mem_zipIdx_iff_getElem?.mpr (List.getElem?_eq_getElem hi), rfl⟩

/-- A name has no NUL. -/
theorem Keyword.zero_notMem_name (k : Keyword) : 0 ∉ k.name := by
  cases k <;> decide

/-- A payload, with the NUL after it, agrees with a name only if it starts with it. -/
theorem prefix_of_agree (h : pl.length = size) {k : Keyword}
    (hsame : ∀ i, (hi : i < k.name.length) → i ≤ size → pl.getD i 0 = k.name[i]) :
    k.name <+: pl := by
  by_cases hlong : size < k.name.length
  · -- the NUL stands where the name has a letter
    have hzero := hsame size hlong le_rfl
    rw [List.getD_eq_default pl 0 (by omega)] at hzero
    exact absurd (hzero ▸ List.getElem_mem hlong) k.zero_notMem_name
  · refine List.prefix_iff_eq_take.mpr (List.ext_getElem ?_ fun i h1 h2 => ?_)
    · rw [List.length_take]
      omega
    · rw [List.getElem_take, ← hsame i h1 (by omega), List.getD_eq_getElem pl 0 (by omega)]

/-- A test is left open when the payload starts with the name, and ends before the terminus. -/
theorem settled_whole (h : pl.length = size) (k : Keyword) :
    (known size pl).Refuted k.probes ∨ (known size pl).Confirmed k.probes ↔
      ¬ (k.name <+: pl ∧ size < k.terminus) := by
  have hbyte : ∀ i, i ≤ size → known size pl i = some (pl.getD i 0) := fun i hi => by
    rw [known_whole h, if_pos hi]
  by_cases hname : k.name <+: pl
  · have hle := hname.length_le
    have hletter : ∀ i, (hi : i < k.name.length) → known size pl i = some k.name[i] := by
      intro i hi
      rw [hbyte i (by omega), List.getD_eq_getElem pl 0 (by omega), hname.getElem hi]
    by_cases hend : size < k.terminus
    · refine iff_of_false ?_ (not_not.mpr ⟨hname, hend⟩)
      have hopen : known size pl k.terminus = none := by
        rw [known_whole h, if_neg (by omega)]
      rintro (⟨p, hp, v, hv, hfail⟩ | hconfirmed)
      · rcases mem_probes.mp hp with ⟨i, hi, rfl⟩ | rfl
        · obtain rfl : k.name[i] = v := Option.some.inj ((hletter i hi).symm.trans hv)
          simp at hfail
        · rw [hopen] at hv
          cases hv
      · obtain ⟨v, hv, -⟩ := hconfirmed _ (mem_probes.mpr (Or.inr rfl))
        rw [hopen] at hv
        cases hv
    · refine iff_of_true ?_ fun hboth => hend hboth.2
      cases hterm : isTerminus (pl.getD k.terminus 0) with
      | false =>
          exact Or.inl ⟨_, mem_probes.mpr (Or.inr rfl), _, hbyte _ (by omega), hterm⟩
      | true =>
          refine Or.inr fun p hp => ?_
          rcases mem_probes.mp hp with ⟨i, hi, rfl⟩ | rfl
          · exact ⟨_, hletter i hi, beq_self_eq_true _⟩
          · exact ⟨_, hbyte _ (by omega), hterm⟩
  · refine iff_of_true (Or.inl ?_) fun hboth => hname hboth.1
    by_contra hagree
    have hsame : ∀ i, (hi : i < k.name.length) → i ≤ size → pl.getD i 0 = k.name[i] := by
      intro i hi hin
      by_contra hne
      refine hagree ⟨_, mem_probes.mpr (Or.inl ⟨i, hi, rfl⟩), _, hbyte i hin, ?_⟩
      exact beq_false_of_ne hne
    exact hname (prefix_of_agree h hsame)

/-- **What decides, for a payload that is in the frame**: it is not `clock` or `eeprom` with less
than eight characters, and it is a command or has a NUL. -/
theorem decided_whole_iff (h : pl.length = size) :
    Decided size pl ↔
      ¬ (Keyword.clock.name <+: pl ∧ size < 8) ∧ ¬ (Keyword.eeprom.name <+: pl ∧ size < 8) ∧
      ((∃ k : Keyword, (known size pl).Confirmed k.probes) ∨ 0 ∈ pl) := by
  constructor
  · intro hdec
    refine ⟨(settled_whole h .clock).mp (hdec.tests _), (settled_whole h .eeprom).mp (hdec.tests _),
      ?_⟩
    by_cases hany : ∃ k : Keyword, (known size pl).Confirmed k.probes
    · exact Or.inl hany
    · exact Or.inr (hdec.ends fun k => (hdec.tests k).resolve_right fun hk => hany ⟨k, hk⟩)
  · rintro ⟨hclock, heeprom, hends⟩
    refine ⟨fun k => (settled_whole h k).mpr ?_, fun hconfirmed => Or.inr ?_, fun hrefuted => ?_⟩
    · -- the other names end at their terminus
      rintro ⟨hname, hend⟩
      have hle := h ▸ hname.length_le
      cases k with
      | clock => exact hclock ⟨hname, hend⟩
      | eeprom => exact heeprom ⟨hname, hend⟩
      | _ => exact absurd hend (not_lt.mpr hle)
    · obtain ⟨v, hv, -⟩ := hconfirmed (8, isTerminus) (mem_probes.mpr (Or.inr rfl))
      have hsize : 8 ≤ size := by
        by_contra hshort
        rw [known_whole h, if_neg hshort] at hv
        cases hv
      rw [known_whole h, known_whole h, if_pos (by omega), if_pos (by omega)]
      exact ⟨rfl, rfl⟩
    · refine hends.resolve_left ?_
      rintro ⟨k, hk⟩
      have hfits := Known.fits_complete (known size pl) fun _ => 0
      rw [← Bool.true_eq_false, ← hk.passes hfits, (hrefuted k).passes hfits]

/-! ## Two requests -/

/-- The device 192.168.1.2 at 02:00:00:00:00:01. -/
def device : Device :=
  ⟨[2, 0, 0, 0, 0, 1], 0x0201A8C0, [], fun _ => [], [], [], [], [], [], []⟩

/-- A frame for it, with a payload, from port 49152 of 192.168.1.1. -/
def datagram (payload : List Byte) : Mem Byte := fun i =>
  ([2, 0, 0, 0, 0, 1, 2, 0, 0, 0, 0, 9, 8, 0] ++
    [0x45, 0, 0, BitVec.ofNat 8 (payload.length + 28), 0, 0, 0x40, 0, 64, 17, 0, 0] ++
    [192, 168, 1, 1, 192, 168, 1, 2] ++
    [0xC0, 0, 0, 23, 0, BitVec.ofNat 8 (payload.length + 8), 0, 0] ++ payload).getD i 0

/-- The command `gps`, in a frame of the least length. -/
theorem process_determined_iff_gps :
    Determined device (datagram (ascii ['g', 'p', 's'])) 60 := by
  refine (process_determined_iff (by decide +kernel)).mpr ⟨fun k => ?_, ?_, fun h => ?_⟩
  · cases k <;> decide +kernel
  · decide +kernel
  · exact absurd (h .gps) (by decide +kernel)

/-- The command `clock` is not. -/
theorem not_determined_clock :
    accepts device (datagram (ascii ['c', 'l', 'o', 'c', 'k'])) 60 = true ∧
      ¬ Determined device (datagram (ascii ['c', 'l', 'o', 'c', 'k'])) 60 := by
  refine ⟨by decide +kernel, fun hdet => ?_⟩
  rcases tests_of_determined (by decide +kernel) hdet .clock with h | h
  · exact absurd h (by decide +kernel)
  · exact absurd h (by decide +kernel)

end Gpsdo.Status
