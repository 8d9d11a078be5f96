import Gpsdo.Chrony.Request

set_option autoImplicit false

/-! # What a reply to chronyc carries

A reply is as long as its request, and its buffer is as long as the largest reply: the memory behind
the buffer is read when the request is longer than the buffer.
-/

namespace Gpsdo.Chrony

open CType Net

variable {rep : Reports} {stack stack' : Mem Byte} {frame : List Byte} {m m' : Mem Byte}

/-! ## The memory behind the buffer -/

/-- Buffers with the same contents, whatever is behind them. -/
abbrev SameBuffer (m m' : Mem Byte) : Prop := Mem.AgreeBelow RESP_SIZE m m'

theorem setReply_same (h : SameBuffer m m') (k : ℕ) (bytes : List Byte) :
    SameBuffer (setReply m k bytes) (setReply m' k bytes) := h.store _ bytes

theorem fill_same (h : SameBuffer m m') (ts : List CType) (ht : struct ts ∈ CMD_Reply.data)
    (f : Filler ts) : SameBuffer (fill m ts f) (fill m' ts f) := by
  refine Mem.AgreeBelow.modify h ?_ f
  have := data_le_size ht
  unfold RESP_SIZE
  omega

/-- A handler answers with the buffer alone. -/
def Uniform (call : Reports → Mem Byte → List Byte → Mem Byte × BitVec 16) : Prop :=
  ∀ rep frame m m', SameBuffer m m' →
    SameBuffer (call rep m frame).1 (call rep m' frame).1 ∧
      (call rep m frame).2 = (call rep m' frame).2

/-- The report of a source that is looked for. -/
theorem found_same (h : SameBuffer m m') (ts : List CType) (ht : struct ts ∈ CMD_Reply.data)
    (found : Option Source) (f : Source → Filler ts) :
    let report (m : Mem Byte) : Mem Byte × BitVec 16 :=
      match found with
      | none => (m, STT_NOSUCHSOURCE)
      | some source => (fill m ts (f source), STT_SUCCESS)
    SameBuffer (report m).1 (report m').1 ∧ (report m).2 = (report m').2 := by
  dsimp only
  cases found with
  | none => exact ⟨h, rfl⟩
  | some source =>
      dsimp only
      exact ⟨fill_same h ts ht (f source), rfl⟩

theorem chronycNSources_uniform : Uniform chronycNSources := by
  intro rep frame m m' h
  have hreply := setReply_same h CMD_Reply.reply (be16 RPY_N_SOURCES)
  unfold chronycNSources
  dsimp only
  exact ⟨setReply_same hreply CMD_Reply.dataOffset (be32 rep.cntSources), rfl⟩

theorem chronycSourceData_uniform : Uniform chronycSourceData := by
  intro rep frame m m' h
  have hreply := setReply_same h CMD_Reply.reply (be16 RPY_SOURCE_DATA)
  unfold chronycSourceData
  dsimp only
  split
  · exact ⟨hreply, rfl⟩
  · exact found_same hreply RPY_Source_Data (by simp [CMD_Reply.data]) _ (·.getSourceData)

theorem chronycSourceStats_uniform : Uniform chronycSourceStats := by
  intro rep frame m m' h
  have hreply := setReply_same h CMD_Reply.reply (be16 RPY_SOURCESTATS)
  unfold chronycSourceStats
  dsimp only
  split
  · exact ⟨hreply, rfl⟩
  · exact found_same hreply RPY_Sourcestats (by simp [CMD_Reply.data]) _ (·.getSourceStats)

theorem chronycTracking_uniform : Uniform chronycTracking := by
  intro rep frame m m' h
  have hreply := setReply_same h CMD_Reply.reply (be16 RPY_TRACKING)
  unfold chronycTracking
  dsimp only
  exact ⟨fill_same hreply RPY_Tracking (by simp [CMD_Reply.data]) rep.tracking, rfl⟩

theorem chronycNtpData_uniform : Uniform chronycNtpData := by
  intro rep frame m m' h
  have hreply := setReply_same h CMD_Reply.reply (be16 RPY_NTP_DATA)
  unfold chronycNtpData
  dsimp only
  split
  · exact ⟨hreply, rfl⟩
  · exact found_same hreply RPY_NTPData (by simp [CMD_Reply.data]) _ (·.getNtpData)

theorem handlers_uniform : ∀ handler ∈ handlers, Uniform handler.call := by
  intro handler hmem
  simp only [handlers, List.mem_cons, List.not_mem_nil, or_false] at hmem
  rcases hmem with rfl | rfl | rfl | rfl | rfl
  · exact chronycNSources_uniform
  · exact chronycSourceData_uniform
  · exact chronycSourceStats_uniform
  · exact chronycTracking_uniform
  · exact chronycNtpData_uniform

theorem chronycReply_same (h : SameBuffer m m') (frame : List Byte) :
    SameBuffer (chronycReply m frame) (chronycReply m' frame) :=
  ((((h.store _ _).store _ _).store _ _).store _ _).store _ _ |>.store _ _

theorem respond_same (rep : Reports) (h : SameBuffer m m') (frame : List Byte) :
    SameBuffer (respond rep m frame).1 (respond rep m' frame).1 ∧
      (respond rep m frame).2 = (respond rep m' frame).2 := by
  have hbyte : ∀ k < CMD_Reply.size,
      m (FrameUdp4.DATA_OFFSET + k) = m' (FrameUdp4.DATA_OFFSET + k) :=
    fun k hk => h _ (Nat.add_lt_add_left hk _)
  have hinvalid := setReply_same h CMD_Reply.status (be16 STT_INVALID)
  unfold respond
  rw [hbyte CMD_Reply.version (by decide +kernel), hbyte CMD_Reply.command (by decide +kernel),
    Nat.add_assoc, hbyte (CMD_Reply.command + 1) (by decide +kernel)]
  split
  · exact ⟨h, rfl⟩
  · dsimp only
    split
    · exact ⟨hinvalid, rfl⟩
    · rename_i handler hfind
      split
      · exact handlers_uniform handler (List.mem_of_find?_eq_some hfind) rep frame _ _ hinvalid
      · exact ⟨hinvalid, rfl⟩

theorem allocate_same (stack stack' : Mem Byte) (frame : List Byte) :
    SameBuffer (allocate stack frame) (allocate stack' frame) := by
  intro i hi
  unfold allocate
  rw [if_pos hi, if_pos hi]

/-- **The buffer does not depend on what is behind it**, when it is as long as the frame. -/
theorem response_same (rep : Reports) (stack stack' : Mem Byte)
    (hmin : FrameUdp4.DATA_OFFSET ≤ frame.length) (hmax : frame.length ≤ RESP_SIZE) :
    SameBuffer (response rep stack frame) (response rep stack' frame) := by
  have hsender : SameBuffer (returnToSender (allocate stack frame))
      (returnToSender (allocate stack' frame)) :=
    returnToSender_agree (allocate_same stack stack' frame) (Nat.le_add_right _ _)
  obtain ⟨hdata, hstatus⟩ := respond_same rep (chronycReply_same hsender frame) frame
  unfold response
  dsimp only
  rw [hstatus]
  exact IPv4_finalize_agree (UDP_finalize_agree (setReply_same hdata _ _) hmin hmax)
    (Nat.le_add_right _ _) _

/-! ## The bound -/

theorem accepts_min (h : accepts frame = true) : FrameUdp4.DATA_OFFSET ≤ frame.length := by
  unfold accepts at h
  simp only [Bool.and_eq_true, decide_eq_true_eq] at h
  exact le_trans (Nat.le_add_right _ _) h.1.1.1.1.1

/-- All bytes of the reply are read, and no others. -/
theorem mem_reads {r : Reply} (h : chronycRequest rep stack frame = some r) {i : ℕ} :
    i ∈ r.reads ↔ i < frame.length := by
  obtain ⟨haccept, h⟩ := Option.ite_none_right_eq_some.mp h
  obtain rfl := Option.some.inj h
  have hmin := accepts_min haccept
  unfold FrameUdp4.DATA_OFFSET at hmin
  simp only [List.mem_append, mem_RFC1071_reads, List.mem_range, Frame.udp, Frame.ip4,
    HeaderEthernet.size, HeaderIp4.size]
  omega

/-- **A reply stays in its buffer if and only if the frame is not longer than the buffer.** -/
theorem chronycRequest_inBuffer_iff {r : Reply} (h : chronycRequest rep stack frame = some r) :
    ((∀ i ∈ r.reads, i < RESP_SIZE) ∧
      ∀ stack' r', chronycRequest rep stack' frame = some r' → r'.frame = r.frame) ↔
        frame.length ≤ FrameUdp4.DATA_OFFSET + CMD_Reply.size := by
  obtain ⟨haccept, hr⟩ := Option.ite_none_right_eq_some.mp h
  have hmin := accepts_min haccept
  constructor
  · rintro ⟨hreads, -⟩
    by_contra hlong
    exact absurd (hreads RESP_SIZE ((mem_reads h).mpr (not_le.mp hlong))) (lt_irrefl _)
  · intro hmax
    refine ⟨fun i hi => ((mem_reads h).mp hi).trans_le hmax, fun stack' r' h' => ?_⟩
    obtain ⟨-, hr'⟩ := Option.ite_none_right_eq_some.mp h'
    rw [← Option.some.inj hr, ← Option.some.inj hr']
    exact ((response_same rep stack stack' hmin hmax).load 0 (by rwa [Nat.zero_add])).symm

/-- A table without sources. -/
def noReports : Reports := ⟨0, fun _ => none, id⟩

/-- The command for the number of sources, with the length that it needs. -/
def nSourcesFrame : List Byte :=
  List.replicate 42 0 ++ [6, 1, 0, 0, 0, 14] ++ List.replicate 26 0

theorem chronycRequest_inBuffer_iff_nSources :
    ∃ r, chronycRequest noReports (fun _ => 0xAA) nSourcesFrame = some r ∧
      (∀ i ∈ r.reads, i < RESP_SIZE) ∧
      ∀ stack' r', chronycRequest noReports stack' nSourcesFrame = some r' →
        r'.frame = r.frame := by
  obtain ⟨r, hr⟩ : ∃ r, chronycRequest noReports (fun _ => 0xAA) nSourcesFrame = some r :=
    Option.isSome_iff_exists.mp (by decide +kernel)
  exact ⟨r, hr, (chronycRequest_inBuffer_iff hr).mpr (by decide +kernel)⟩

/-- The longest request that is accepted, with the command 0. -/
def longestFrame : List Byte := List.replicate 42 0 ++ [6, 1] ++ List.replicate 858 0

/-- The reply to it goes beyond the buffer. -/
theorem chronycRequest_beyondBuffer : ∃ r,
    chronycRequest noReports (fun _ => 0xAA) longestFrame = some r ∧
      ¬ ∀ i ∈ r.reads, i < RESP_SIZE := by
  obtain ⟨r, hr⟩ : ∃ r, chronycRequest noReports (fun _ => 0xAA) longestFrame = some r :=
    Option.isSome_iff_exists.mp (by decide +kernel)
  refine ⟨r, hr, fun h => ?_⟩
  exact absurd (h RESP_SIZE ((mem_reads hr).mpr (by decide +kernel))) (lt_irrefl _)

end Gpsdo.Chrony
