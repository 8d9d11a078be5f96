import Gpsdo.Basic.Reading
import Gpsdo.Net.Dns

set_option autoImplicit false

/-! # What the parser of responses reads (`processFrame` in `lib/net/dns.cpp`)

The parser again, with the offsets that it loads. It looks at the end of the frame before every byte
of a name, and else only where the fields of an answer begin and where its data begin. What it reads
lies in the frame when the fields of every answer do, and the data of every answer with an address.
-/

namespace Gpsdo.Net

namespace Dns

variable {m : Mem Byte} {flen : ℕ} {P : ℕ → Prop}

/-! ## The parser -/

/-- A word in the order of the network. -/
def readWord (m : Mem Byte) (k : ℕ) : Reading ℕ ℕ := do
  let high ← Reading.load m k
  let low ← Reading.load m (k + 1)
  pure (256 * high.toNat + low.toNat)

/-- `skipName` -/
def readName (m : Mem Byte) (flen : ℕ) : ℕ → ℕ → Reading ℕ ℕ
  | 0, next => pure next
  | n + 1, next =>
      if next < flen then do
        let len ← Reading.load m next
        if len.toNat = 0 then pure (next + 1)
        else if len.toNat = 0xC0 then pure (next + 2)
        else readName m flen n (next + 1 + len.toNat)
      else pure next

/-- `skipQuestions` -/
def readQuestions (m : Mem Byte) (flen : ℕ) : ℕ → ℕ → Reading ℕ ℕ
  | 0, next => pure next
  | cnt + 1, next => do
      let next ← readName m flen flen next
      readQuestions m flen cnt (next + 4)

/-- The address at an offset. -/
def readAddr (m : Mem Byte) (k : ℕ) : Reading ℕ (BitVec 32) := do
  let b₀ ← Reading.load m k
  let b₁ ← Reading.load m (k + 1)
  let b₂ ← Reading.load m (k + 2)
  let b₃ ← Reading.load m (k + 3)
  pure (b₃ ++ b₂ ++ b₁ ++ b₀)

/-- `answers`; each address with the offset that it is read from. -/
def readAnswers (m : Mem Byte) (flen : ℕ) : ℕ → ℕ → Reading ℕ (List (ℕ × BitVec 32) × Bool)
  | 0, _ => pure ([], true)
  | cnt + 1, next => do
      let next ← readName m flen flen next
      if flen ≤ next then pure ([], false)
      else do
        let atype ← readWord m next
        let aclass ← readWord m (next + 2)
        let length ← readWord m (next + 8)
        let next := next + 10
        if flen ≤ next then pure ([], false)
        else if atype ≠ 1 ∨ aclass ≠ 1 ∨ length ≠ 4 then readAnswers m flen cnt (next + length)
        else do
          let addr ← readAddr m next
          let r ← readAnswers m flen cnt (next + 4)
          pure ((next, addr) :: r.1, r.2)

/-- The questions and answers of a response. -/
def readBody (m : Mem Byte) (flen : ℕ) : Reading ℕ (List (ℕ × BitVec 32) × Bool) := do
  let qcount ← readWord m (HEADER + 4)
  let next ← readQuestions m flen qcount DATA_OFFSET
  if flen ≤ next then pure ([], false)
  else do
    let ancount ← readWord m (HEADER + 6)
    readAnswers m flen ancount next

/-- What `processFrame` reads behind its checks: the addresses that it hands to the callback. -/
def readFrame (s : Dns) (mac : List Byte) (m : Mem Byte) (flen : ℕ) :
    Reading ℕ (List (ℕ × BitVec 32) × Bool) :=
  if s.isResponse mac m flen && (s.findMatch m).isSome then readBody m flen else pure ([], false)

/-! ## It is the parser -/

@[simp] theorem readWord_val (m : Mem Byte) (k : ℕ) : (readWord m k).val = load16 m k := rfl

theorem readName_val (m : Mem Byte) (flen n next : ℕ) :
    (readName m flen n next).val = skipName m flen n next := by
  induction n generalizing next with
  | zero => rfl
  | succ n ih =>
      unfold readName skipName
      by_cases hend : next < flen
      · rw [if_pos hend, if_pos hend]
        show (if (m next).toNat = 0 then pure (next + 1) else if (m next).toNat = 0xC0 then _ else _ :
          Reading ℕ ℕ).val = _
        dsimp only
        split
        · rfl
        · split
          · rfl
          · exact ih _
      · rw [if_neg hend, if_neg hend]
        rfl

theorem readQuestions_val (m : Mem Byte) (flen cnt next : ℕ) :
    (readQuestions m flen cnt next).val = skipQuestions m flen cnt next := by
  induction cnt generalizing next with
  | zero => rfl
  | succ cnt ih =>
      unfold readQuestions skipQuestions
      rw [Reading.val_bind, readName_val, ih]

theorem readAnswers_val (m : Mem Byte) (flen cnt next : ℕ) :
    ((readAnswers m flen cnt next).val.1.map Prod.snd, (readAnswers m flen cnt next).val.2) =
      answers m flen cnt next := by
  induction cnt generalizing next with
  | zero => rfl
  | succ cnt ih =>
      unfold readAnswers answers
      rw [Reading.val_bind, readName_val]
      dsimp only
      generalize skipName m flen flen next = next
      by_cases hend : flen ≤ next
      · rw [if_pos hend, if_pos hend]
        rfl
      · rw [if_neg hend, if_neg hend]
        simp only [Reading.val_bind]
        by_cases hdata : flen ≤ next + 10
        · rw [if_pos hdata, if_pos hdata]
          rfl
        · rw [if_neg hdata, if_neg hdata]
          by_cases hother : (readWord m next).val ≠ 1 ∨ (readWord m (next + 2)).val ≠ 1 ∨
            (readWord m (next + 8)).val ≠ 4
          · rw [if_pos hother]
            exact (ih _).trans (if_pos hother).symm
          · rw [if_neg hother]
            refine Eq.trans ?_ (if_neg hother).symm
            rw [← ih]
            rfl

/-- The slot of a response has a callback. -/
theorem findMatch_callback {s : Dns} {i : Fin MAX_REQUESTS} (h : s.findMatch m = some i) :
    ∃ callback, (s.requests i).callback = some callback := by
  unfold findMatch at h
  have hfound := List.find?_some h
  exact Option.isSome_iff_exists.mp (Bool.and_eq_true_iff.mp hfound).1

/-- The callbacks of `processFrame` get these addresses. -/
theorem readFrame_calls (s : Dns) (mac : List Byte) (m : Mem Byte) (flen : ℕ) :
    (s.processFrame mac m flen).2.map DnsCall.addr =
      (readFrame s mac m flen).val.1.map Prod.snd := by
  unfold processFrame readFrame
  by_cases hresponse : s.isResponse mac m flen = true
  · rw [hresponse, Bool.not_true, if_neg Bool.false_ne_true, Bool.true_and]
    cases hmatch : s.findMatch m with
    | none => rfl
    | some i =>
        obtain ⟨callback, hcallback⟩ := findMatch_callback hmatch
        have hbody : (readBody m flen).val.1.map Prod.snd =
            if flen ≤ skipQuestions m flen (load16 m (HEADER + 4)) DATA_OFFSET then []
            else (answers m flen (load16 m (HEADER + 6))
              (skipQuestions m flen (load16 m (HEADER + 4)) DATA_OFFSET)).1 := by
          unfold readBody
          rw [Reading.val_bind, Reading.val_bind, readQuestions_val, readWord_val]
          split
          · rfl
          · rw [← readAnswers_val]
            rfl
        simp only [Option.isSome_some, if_true, hbody, hcallback, Option.toList_some,
          List.map_singleton]
        split
        · rfl
        · generalize answers m flen _ _ = r
          have hcalls : (r.1.flatMap fun addr =>
              [(⟨callback, (s.requests i).ref, addr⟩ : DnsCall)]).map DnsCall.addr = r.1 := by
            rw [← List.map_eq_flatMap, List.map_map]
            exact List.map_id _
          split <;> exact hcalls
  · rw [Bool.not_eq_true] at hresponse
    rw [hresponse]
    rfl

/-! ## The bounds -/

/-- Where the fields of the answers begin that the loop comes to. -/
def fields (m : Mem Byte) (flen : ℕ) : ℕ → ℕ → List ℕ
  | 0, _ => []
  | cnt + 1, next =>
      let next := skipName m flen flen next
      if flen ≤ next then []
      else next ::
        if flen ≤ next + 10 then [] else fields m flen cnt (next + 10 + load16 m (next + 8))

/-- The fields of an answer lie in the frame, and its data if they begin there and are taken for an
address. -/
def Enclosed (m : Mem Byte) (flen k : ℕ) : Prop :=
  k + 10 ≤ flen ∧ (k + 10 < flen → load16 m k = 1 → load16 m (k + 2) = 1 →
    load16 m (k + 8) = 4 → k + 14 ≤ flen)

theorem readName_within (m : Mem Byte) (flen n next : ℕ) :
    (readName m flen n next).Within (· < flen) := by
  induction n generalizing next with
  | zero => exact Reading.within_pure _
  | succ n ih =>
      unfold readName
      by_cases hend : next < flen
      · rw [if_pos hend, Reading.within_bind, Reading.within_load]
        refine ⟨hend, ?_⟩
        split
        · exact Reading.within_pure _
        · split
          · exact Reading.within_pure _
          · exact ih _
      · rw [if_neg hend]
        exact Reading.within_pure _

theorem readQuestions_within (m : Mem Byte) (flen cnt next : ℕ) :
    (readQuestions m flen cnt next).Within (· < flen) := by
  induction cnt generalizing next with
  | zero => exact Reading.within_pure _
  | succ cnt ih =>
      unfold readQuestions
      rw [Reading.within_bind]
      exact ⟨readName_within m flen flen next, ih _⟩

theorem readWord_within_iff (m : Mem Byte) (flen k : ℕ) :
    (readWord m k).Within (· < flen) ↔ k + 2 ≤ flen := by
  unfold readWord
  simp only [Reading.within_bind, Reading.within_load, Reading.within_pure, and_true]
  omega

theorem readAddr_within_iff (m : Mem Byte) (flen k : ℕ) :
    (readAddr m k).Within (· < flen) ↔ k + 4 ≤ flen := by
  unfold readAddr
  simp only [Reading.within_bind, Reading.within_load, Reading.within_pure, and_true]
  omega

/-- **The answers**: what is read lies in the frame when they are enclosed. -/
theorem readAnswers_within_iff (m : Mem Byte) (flen cnt next : ℕ) :
    (readAnswers m flen cnt next).Within (· < flen) ↔
      ∀ k ∈ fields m flen cnt next, Enclosed m flen k := by
  induction cnt generalizing next with
  | zero => exact iff_of_true (Reading.within_pure _) (by simp [fields])
  | succ cnt ih =>
      unfold readAnswers fields
      rw [Reading.within_bind, readName_val]
      dsimp only
      simp only [readName_within, true_and]
      generalize skipName m flen flen next = k
      by_cases hend : flen ≤ k
      · rw [if_pos hend, if_pos hend]
        exact iff_of_true (Reading.within_pure _) (by simp)
      rw [if_neg hend, if_neg hend, List.forall_mem_cons]
      simp only [Reading.within_bind, readWord_within_iff]
      by_cases hdata : flen ≤ k + 10
      · rw [if_pos hdata, if_pos hdata]
        unfold Enclosed
        simp only [Reading.within_pure, and_true, List.not_mem_nil, false_imp_iff, implies_true]
        omega
      rw [if_neg hdata, if_neg hdata]
      by_cases hother : (readWord m k).val ≠ 1 ∨ (readWord m (k + 2)).val ≠ 1 ∨
        (readWord m (k + 8)).val ≠ 4
      · rw [if_pos hother, ih]
        constructor
        · rintro ⟨-, -, -, hrest⟩
          refine ⟨⟨by omega, fun _ h1 h2 h3 => absurd hother ?_⟩, hrest⟩
          rintro (h | h | h)
          · exact h h1
          · exact h h2
          · exact h h3
        · rintro ⟨-, hrest⟩
          exact ⟨by omega, by omega, by omega, hrest⟩
      · rw [if_neg hother]
        simp only [Reading.within_bind, readAddr_within_iff, ih, Reading.within_pure, and_true]
        simp only [ne_eq, not_or, not_not] at hother
        have h1 : load16 m k = 1 := hother.1
        have h2 : load16 m (k + 2) = 1 := hother.2.1
        have h3 : load16 m (k + 8) = 4 := hother.2.2
        rw [h3]
        constructor
        · rintro ⟨-, -, -, haddr, hrest⟩
          exact ⟨⟨by omega, fun _ _ _ _ => haddr⟩, hrest⟩
        · rintro ⟨⟨-, haddr⟩, hrest⟩
          exact ⟨by omega, by omega, by omega, haddr (by omega) h1 h2 h3, hrest⟩

/-- An address that is handed on was loaded. -/
theorem readAnswers_addrs {cnt next : ℕ} (h : (readAnswers m flen cnt next).Within P) :
    ∀ a ∈ (readAnswers m flen cnt next).val.1, ∀ j < 4, P (a.1 + j) := by
  induction cnt generalizing next with
  | zero => simp [readAnswers]
  | succ cnt ih =>
      unfold readAnswers at h ⊢
      rw [Reading.within_bind] at h
      rw [Reading.val_bind]
      obtain ⟨-, h⟩ := h
      generalize (readName m flen flen next).val = k at h ⊢
      by_cases hend : flen ≤ k
      · rw [if_pos hend]
        simp
      rw [if_neg hend] at h ⊢
      simp only [Reading.within_bind, Reading.val_bind] at h ⊢
      obtain ⟨-, -, -, h⟩ := h
      by_cases hdata : flen ≤ k + 10
      · rw [if_pos hdata]
        simp
      rw [if_neg hdata] at h ⊢
      by_cases hother : (readWord m k).val ≠ 1 ∨ (readWord m (k + 2)).val ≠ 1 ∨
        (readWord m (k + 8)).val ≠ 4
      · rw [if_pos hother] at h ⊢
        exact ih h
      · rw [if_neg hother] at h ⊢
        simp only [Reading.within_bind] at h
        obtain ⟨haddr, hrest, -⟩ := h
        intro a ha j hj
        rcases List.mem_cons.mp ha with rfl | ha
        · simp only [readAddr, Reading.within_bind, Reading.within_load] at haddr
          obtain ⟨h0, h1, h2, h3, -⟩ := haddr
          interval_cases j <;> assumption
        · exact ih hrest a ha j hj

theorem skipName_end {n next : ℕ} (h : flen ≤ next) : skipName m flen n next = next := by
  cases n with
  | zero => rfl
  | succ n => exact if_neg (Nat.not_lt.mpr h)

theorem fields_end {cnt next : ℕ} (h : flen ≤ next) : fields m flen cnt next = [] := by
  cases cnt with
  | zero => rfl
  | succ cnt =>
      unfold fields
      rw [skipName_end h]
      exact if_pos h

theorem readBody_within_iff (h : DATA_OFFSET ≤ flen) :
    ((readBody m flen).Within (· < flen) ∧
        ∀ a ∈ (readBody m flen).val.1, a.1 + 4 ≤ flen) ↔
      ∀ k ∈ fields m flen (load16 m (HEADER + 6))
        (skipQuestions m flen (load16 m (HEADER + 4)) DATA_OFFSET), Enclosed m flen k := by
  have hheader : HEADER + 12 ≤ flen := h
  unfold readBody
  simp only [Reading.within_bind, Reading.val_bind, readWord_within_iff, readQuestions_within,
    readQuestions_val, readWord_val, true_and]
  generalize skipQuestions m flen (load16 m (HEADER + 4)) DATA_OFFSET = next
  by_cases hend : flen ≤ next
  · rw [if_pos hend, fields_end hend]
    simp only [Reading.within_pure, Reading.val_pure, List.not_mem_nil, false_imp_iff, implies_true,
      and_true, iff_true]
    omega
  · rw [if_neg hend]
    simp only [Reading.within_bind, Reading.val_bind, readWord_within_iff, readWord_val,
      readAnswers_within_iff]
    constructor
    · exact fun hreads => hreads.1.2.2
    · intro henclosed
      refine ⟨⟨by omega, by omega, henclosed⟩, fun a ha => ?_⟩
      have hlast := readAnswers_addrs ((readAnswers_within_iff m flen _ _).mpr henclosed) a ha 3
        (by decide)
      exact hlast

/-- **What `processFrame` reads** behind its checks lies in the frame, and so do the addresses that
it reports, exactly when the answers that it comes to are enclosed. -/
theorem readFrame_within_iff (s : Dns) (mac : List Byte) (m : Mem Byte) (flen : ℕ) :
    (s.processFrame mac m flen).2.map DnsCall.addr =
        (readFrame s mac m flen).val.1.map Prod.snd ∧
      (((readFrame s mac m flen).Within (· < flen) ∧
          ∀ a ∈ (readFrame s mac m flen).val.1, a.1 + 4 ≤ flen) ↔
        (s.isResponse mac m flen = true → (s.findMatch m).isSome = true →
          ∀ k ∈ fields m flen (load16 m (HEADER + 6))
            (skipQuestions m flen (load16 m (HEADER + 4)) DATA_OFFSET), Enclosed m flen k)) := by
  refine ⟨readFrame_calls s mac m flen, ?_⟩
  unfold readFrame
  by_cases hframe : (s.isResponse mac m flen && (s.findMatch m).isSome) = true
  · rw [if_pos hframe]
    obtain ⟨hresponse, hmatch⟩ := Bool.and_eq_true_iff.mp hframe
    have hlen : DATA_OFFSET ≤ flen := by
      unfold isResponse at hresponse
      simp only [Bool.and_eq_true, decide_eq_true_eq] at hresponse
      exact hresponse.1.1.1.1
    simp only [hresponse, hmatch, forall_const]
    exact readBody_within_iff hlen
  · rw [if_neg hframe]
    refine iff_of_true ⟨Reading.within_pure _, by simp⟩ fun hresponse hmatch => ?_
    exact absurd (Bool.and_eq_true_iff.mpr ⟨hresponse, hmatch⟩) hframe

/-! ## A response that is cut off -/

/-- A client that waits for the response to a request. -/
def waiting : Dns :=
  { Dns.init 0 with
    ipAddress := 0x0100000A
    requests := fun i => if i = 0 then ⟨5, 0x0700, some 1, 2⟩ else ⟨0, 0, none, 0⟩ }

def waitingMac : List Byte := [2, 0, 0, 0, 0, 1]

/-- The headers of a response with so many questions and answers. -/
def responseHeaders (qcount ancount : Byte) : List Byte :=
  waitingMac ++ List.replicate 24 0 ++ [10, 0, 0, 1] ++ List.replicate 8 0 ++
    [0, 7, 0x80, 0, 0, qcount, 0, ancount, 0, 0, 0, 0]

/-- A frame in a memory that is zero behind it. -/
def frameOf (bytes : List Byte) : Mem Byte := fun i => bytes.getD i 0

/-- An answer with an address of which one byte is left. -/
def cutOff : List Byte :=
  responseHeaders 0 1 ++ [0, 0, 1, 0, 1, 0, 0, 0, 0, 0, 4, 10]

theorem not_within_cutOff :
    ¬ ∀ (s : Dns) (mac : List Byte) (m : Mem Byte) (flen : ℕ),
      (readFrame s mac m flen).Within (· < flen) ∧
        ∀ a ∈ (readFrame s mac m flen).val.1, a.1 + 4 ≤ flen := by
  intro hsafe
  have haddrs := (hsafe waiting waitingMac (frameOf cutOff) cutOff.length).2
  revert haddrs
  decide +kernel

end Dns

end Gpsdo.Net
