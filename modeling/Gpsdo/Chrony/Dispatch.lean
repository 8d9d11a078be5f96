import Gpsdo.Chrony.Bounds
import Gpsdo.Net.Checksum

set_option autoImplicit false

/-! # Which handler a request of chronyc reaches

The reply starts as `chronycReply` fills it in. The version that is checked next is the one of the
reply, which was just set: a request of another version is answered as if it were of this one.
-/

namespace Gpsdo.Chrony

open CType Net

variable {rep : Reports} {stack m : Mem Byte} {frame : List Byte}

/-! ## The cases of a request -/

/-- A short word of the request, in the order of the network. -/
def request16 (frame : List Byte) (k : ℕ) : BitVec 16 := request frame k ++ request frame (k + 1)

/-- What a request comes to: a status alone, or a handler that is called. -/
inductive Outcome
  | nack (status : BitVec 16)
  | call (handler : Handler)

/-- The element of `handlers` for the command, if the length is right for it. -/
def lookup (frame : List Byte) : Outcome :=
  match handlers.find? (·.cmd = request16 frame CMD_Request.command) with
  | none => .nack STT_INVALID
  | some handler =>
      if handler.len = frame.length - FrameUdp4.DATA_OFFSET then .call handler
      else .nack STT_BADPKTLENGTH

/-- What a request has to come to: no handler is called for a version that is not spoken. -/
def outcome (frame : List Byte) : Outcome :=
  if request frame CMD_Request.version ≠ PROTO_VERSION_NUMBER then .nack STT_BADPKTVERSION
  else lookup frame

/-- The buffer with which a handler is called. -/
def begun (stack : Mem Byte) (frame : List Byte) : Mem Byte :=
  setReply (chronycReply (returnToSender (allocate stack frame)) frame) CMD_Reply.status
    (be16 STT_INVALID)

/-- The buffer and the status that an outcome gives. -/
def answer (rep : Reports) (m : Mem Byte) (frame : List Byte) : Outcome → Mem Byte × BitVec 16
  | .nack status => (m, status)
  | .call handler => handler.call rep m frame

/-- A short word of the reply, in the order of the network. -/
def Reply.word16 (r : Reply) (k : ℕ) : BitVec 16 := request16 r.frame k

def Reply.word32 (r : Reply) (k : ℕ) : BitVec 32 := request32 r.frame k

/-- The reply echoes the request, and reports an outcome. `RPY_NULL` stays when no handler runs. -/
structure Reports.Answers (rep : Reports) (stack : Mem Byte) (frame : List Byte) (o : Outcome)
    (r : Reply) : Prop where
  command : r.word16 CMD_Reply.command = request16 frame CMD_Request.command
  sequence : r.word32 CMD_Reply.sequence = request32 frame CMD_Request.sequence
  status : r.word16 CMD_Reply.status = (answer rep (begun stack frame) frame o).2
  quiet : ∀ status, o = .nack status → r.word16 CMD_Reply.reply = RPY_NULL

/-! ## Words of two bytes -/

/-- A word in the order of the network. -/
theorem word16_of_load {off : ℕ} {a b : Byte} (h : m.load off 2 = [a, b]) :
    m off ++ m (off + 1) = a ++ b := by
  obtain ⟨hhigh, htail⟩ := List.cons.inj h
  have hlow := (List.cons.inj htail).1
  exact congrArg₂ (· ++ ·) hhigh hlow

theorem be16_append (a b : Byte) : be16 (a ++ b) = [a, b] := by
  have hhigh : (a ++ b).extractLsb' 8 8 = a := BitVec.extractLsb'_append_eq_left
  have hlow : (a ++ b).extractLsb' 0 8 = b := BitVec.extractLsb'_append_eq_right
  show [_, _] = _
  rw [hhigh, hlow]

theorem be16_whole (v : BitVec 16) : v.extractLsb' 8 8 ++ v.extractLsb' 0 8 = v :=
  BitVec.extractLsb'_append_extractLsb' (w := 8)

theorem be16_inj {v v' : BitVec 16} (h : be16 v = be16 v') : v = v' := by
  obtain ⟨hhigh, htail⟩ := List.cons.inj h
  have hlow := (List.cons.inj htail).1
  calc v = v.extractLsb' 8 8 ++ v.extractLsb' 0 8 := (be16_whole v).symm
    _ = v'.extractLsb' 8 8 ++ v'.extractLsb' 0 8 := congrArg₂ (· ++ ·) hhigh hlow
    _ = v' := be16_whole v'

/-- The word that was set. -/
theorem word16_setReply (m : Mem Byte) (k : ℕ) (v : BitVec 16) :
    setReply m k (be16 v) (FrameUdp4.DATA_OFFSET + k) ++
      setReply m k (be16 v) (FrameUdp4.DATA_OFFSET + (k + 1)) = v :=
  (word16_of_load (Mem.load_store_self m (FrameUdp4.DATA_OFFSET + k) (be16 v))).trans
    (be16_whole v)

/-! ## What the handlers write -/

/-- A field that a handler does not set: not the reply code, and not the data. -/
def Header (k : ℕ) : Prop :=
  k < CMD_Reply.dataOffset ∧ (k < CMD_Reply.reply ∨ CMD_Reply.reply + 2 ≤ k)

instance (k : ℕ) : Decidable (Header k) := inferInstanceAs (Decidable (_ ∧ _))

/-- A handler leaves the header alone, except for the reply code, and reports one of two results. -/
structure Handles (call : Reports → Mem Byte → List Byte → Mem Byte × BitVec 16) : Prop where
  header : ∀ rep m frame k, Header k →
    (call rep m frame).1 (FrameUdp4.DATA_OFFSET + k) = m (FrameUdp4.DATA_OFFSET + k)
  code : ∀ rep m frame, (call rep m frame).1.load (FrameUdp4.DATA_OFFSET + CMD_Reply.reply) 2 ≠
    be16 RPY_NULL
  status : ∀ rep m frame, (call rep m frame).2 = STT_SUCCESS ∨
    (call rep m frame).2 = STT_NOSUCHSOURCE

theorem setReply_header {k i : ℕ} {bytes : List Byte} (h : i < k ∨ k + bytes.length ≤ i) :
    setReply m k bytes (FrameUdp4.DATA_OFFSET + i) = m (FrameUdp4.DATA_OFFSET + i) := by
  apply Mem.store_of_notMem
  omega

theorem fill_header {k : ℕ} (h : k < CMD_Reply.dataOffset) (ts : List CType) (f : Filler ts) :
    fill m ts f (FrameUdp4.DATA_OFFSET + k) = m (FrameUdp4.DATA_OFFSET + k) := by
  unfold fill Mem.modify
  exact dif_neg fun hin => by omega

/-- The reply code, once it is set. -/
theorem code_ne_null {code : BitVec 16} (h : be16 code ≠ be16 RPY_NULL) :
    (setReply m CMD_Reply.reply (be16 code)).load (FrameUdp4.DATA_OFFSET + CMD_Reply.reply) 2 ≠
      be16 RPY_NULL := by
  unfold setReply
  rw [show (2 : ℕ) = (be16 code).length from rfl, Mem.load_store_self]
  exact h

theorem load_fill (m : Mem Byte) (ts : List CType) (f : Filler ts) :
    (fill m ts f).load (FrameUdp4.DATA_OFFSET + CMD_Reply.reply) 2 =
      m.load (FrameUdp4.DATA_OFFSET + CMD_Reply.reply) 2 := by
  apply Mem.load_congr
  intro i hi hlt
  have hk : i = FrameUdp4.DATA_OFFSET + (i - FrameUdp4.DATA_OFFSET) := by omega
  rw [hk]
  apply fill_header
  have : CMD_Reply.reply + 2 ≤ CMD_Reply.dataOffset := by decide +kernel
  omega

/-- A handler that sets its code and then fills in a record. -/
theorem handles_fill (code : BitVec 16) (hcode : be16 code ≠ be16 RPY_NULL)
    {call : Reports → Mem Byte → List Byte → Mem Byte × BitVec 16}
    (h : ∀ rep m frame, ∃ ts f,
      call rep m frame = (setReply m CMD_Reply.reply (be16 code), STT_NOSUCHSOURCE) ∨
      call rep m frame =
        (fill (setReply m CMD_Reply.reply (be16 code)) ts f, STT_SUCCESS)) : Handles call where
  header rep m frame k hk := by
    have hset : setReply m CMD_Reply.reply (be16 code) (FrameUdp4.DATA_OFFSET + k) =
        m (FrameUdp4.DATA_OFFSET + k) := setReply_header hk.2
    obtain ⟨ts, f, heq | heq⟩ := h rep m frame
    · rw [heq]
      exact hset
    · rw [heq]
      dsimp only
      rw [fill_header hk.1, hset]
  code rep m frame := by
    obtain ⟨ts, f, heq | heq⟩ := h rep m frame
    · rw [heq]
      exact code_ne_null hcode
    · rw [heq]
      dsimp only
      rw [load_fill]
      exact code_ne_null hcode
  status rep m frame := by
    obtain ⟨ts, f, heq | heq⟩ := h rep m frame
    · exact Or.inr (by rw [heq])
    · exact Or.inl (by rw [heq])

/-- The report of a source that is looked for. -/
theorem report_cases (m : Mem Byte) (ts : List CType) (found : Option Source)
    (f : Source → Filler ts) :
    let report : Mem Byte × BitVec 16 :=
      match found with
      | none => (m, STT_NOSUCHSOURCE)
      | some source => (fill m ts (f source), STT_SUCCESS)
    ∃ ts f, report = (m, STT_NOSUCHSOURCE) ∨ report = (fill m ts f, STT_SUCCESS) := by
  cases found with
  | none => exact ⟨ts, id, Or.inl rfl⟩
  | some source => exact ⟨ts, f source, Or.inr rfl⟩

theorem chronycNSources_handles : Handles chronycNSources where
  header rep m frame k hk := by
    unfold chronycNSources
    dsimp only
    rw [setReply_header (Or.inl hk.1), setReply_header hk.2]
  code rep m frame := by
    unfold chronycNSources
    dsimp only
    rw [setReply, Mem.load_store_of_disjoint (Or.inl (by decide +kernel))]
    exact code_ne_null (by decide)
  status rep m frame := Or.inl rfl

theorem chronycSourceData_handles : Handles chronycSourceData := by
  refine handles_fill RPY_SOURCE_DATA (by decide) fun rep m frame => ?_
  unfold chronycSourceData
  dsimp only
  split
  · exact ⟨RPY_Source_Data, id, Or.inl rfl⟩
  · exact report_cases _ RPY_Source_Data _ (·.getSourceData)

theorem chronycSourceStats_handles : Handles chronycSourceStats := by
  refine handles_fill RPY_SOURCESTATS (by decide) fun rep m frame => ?_
  unfold chronycSourceStats
  dsimp only
  split
  · exact ⟨RPY_Sourcestats, id, Or.inl rfl⟩
  · exact report_cases _ RPY_Sourcestats _ (·.getSourceStats)

theorem chronycTracking_handles : Handles chronycTracking :=
  handles_fill RPY_TRACKING (by decide) fun rep _ _ =>
    ⟨RPY_Tracking, rep.tracking, Or.inr rfl⟩

theorem chronycNtpData_handles : Handles chronycNtpData := by
  refine handles_fill RPY_NTP_DATA (by decide) fun rep m frame => ?_
  unfold chronycNtpData
  dsimp only
  split
  · exact ⟨RPY_NTPData, id, Or.inl rfl⟩
  · exact report_cases _ RPY_NTPData _ (·.getNtpData)

theorem handlers_handle : ∀ handler ∈ handlers, Handles handler.call := by
  intro handler hmem
  simp only [handlers, List.mem_cons, List.not_mem_nil, or_false] at hmem
  rcases hmem with rfl | rfl | rfl | rfl | rfl
  · exact chronycNSources_handles
  · exact chronycSourceData_handles
  · exact chronycSourceStats_handles
  · exact chronycTracking_handles
  · exact chronycNtpData_handles

/-! ## The outcome -/

/-- The header that `chronycReply` fills in. -/
theorem chronycReply_version (m : Mem Byte) (frame : List Byte) :
    chronycReply m frame (FrameUdp4.DATA_OFFSET + CMD_Reply.version) = PROTO_VERSION_NUMBER := by
  unfold chronycReply
  rw [setReply_header (Or.inl (by decide +kernel)), setReply_header (Or.inl (by decide +kernel)),
    setReply_header (Or.inl (by decide +kernel)), setReply_header (Or.inl (by decide +kernel)),
    setReply_header (Or.inl (by decide +kernel))]
  exact Mem.store_cons_self _ _ _ _

theorem chronycReply_command (m : Mem Byte) (frame : List Byte) :
    (chronycReply m frame).load (FrameUdp4.DATA_OFFSET + CMD_Reply.command) 2 =
      [request frame CMD_Request.command, request frame (CMD_Request.command + 1)] := by
  unfold chronycReply setReply
  dsimp only
  rw [Mem.load_store_of_disjoint (Or.inl (by decide +kernel)),
    Mem.load_store_of_disjoint (Or.inl (by decide +kernel)),
    Mem.load_store_of_disjoint (Or.inl (by decide +kernel))]
  exact Mem.load_store_self _ _ _

theorem chronycReply_cmd (m : Mem Byte) (frame : List Byte) :
    chronycReply m frame (FrameUdp4.DATA_OFFSET + CMD_Reply.command) ++
      chronycReply m frame (FrameUdp4.DATA_OFFSET + CMD_Reply.command + 1) =
        request16 frame CMD_Request.command :=
  word16_of_load (chronycReply_command m frame)

theorem chronycReply_reply (m : Mem Byte) (frame : List Byte) :
    (chronycReply m frame).load (FrameUdp4.DATA_OFFSET + CMD_Reply.reply) 2 = be16 RPY_NULL := by
  unfold chronycReply setReply
  dsimp only
  rw [Mem.load_store_of_disjoint (Or.inl (by decide +kernel)),
    Mem.load_store_of_disjoint (Or.inl (by decide +kernel))]
  exact Mem.load_store_self _ _ (be16 RPY_NULL)

theorem chronycReply_sequence (m : Mem Byte) (frame : List Byte) :
    (chronycReply m frame).load (FrameUdp4.DATA_OFFSET + CMD_Reply.sequence) 4 =
      [request frame CMD_Request.sequence, request frame (CMD_Request.sequence + 1),
        request frame (CMD_Request.sequence + 2), request frame (CMD_Request.sequence + 3)] :=
  Mem.load_store_self _ _ _

/-- **The request is looked up whatever its version is**: the version that is checked is the one
that `chronycReply` has set. -/
theorem respond_chronycReply (rep : Reports) (stack : Mem Byte) (frame : List Byte) :
    respond rep (chronycReply (returnToSender (allocate stack frame)) frame) frame =
      answer rep (begun stack frame) frame (lookup frame) := by
  unfold respond lookup
  -- `response.reply.version` is tested, which is set already, and not the version of the request
  rw [if_neg (not_not.mpr (chronycReply_version _ frame))]
  dsimp only
  rw [chronycReply_cmd]
  generalize handlers.find? _ = found
  cases found with
  | none => rfl
  | some handler =>
      dsimp only
      by_cases hlen : handler.len = frame.length - FrameUdp4.DATA_OFFSET
      · rw [if_pos hlen, if_pos hlen]
        rfl
      · rw [if_neg hlen, if_neg hlen]
        rfl

/-! ## The reply -/

theorem lookup_call {handler : Handler} (h : lookup frame = .call handler) :
    handler ∈ handlers := by
  unfold lookup at h
  split at h
  · cases h
  · rename_i found hfind
    split at h
    · obtain rfl : found = handler := by simpa using h
      exact List.mem_of_find?_eq_some hfind
    · cases h

/-- What the transmitted frame has behind its headers. -/
theorem request_reply {r : Reply} (h : chronycRequest rep stack frame = some r) {k : ℕ}
    (hk : k < REQ_MIN_LEN) :
    request r.frame k =
      setReply (answer rep (begun stack frame) frame (lookup frame)).1 CMD_Reply.status
        (be16 (answer rep (begun stack frame) frame (lookup frame)).2)
        (FrameUdp4.DATA_OFFSET + k) := by
  obtain ⟨haccept, h⟩ := Option.ite_none_right_eq_some.mp h
  obtain rfl := Option.some.inj h
  have hlen : FrameUdp4.DATA_OFFSET + k < frame.length := by
    unfold accepts at haccept
    simp only [Bool.and_eq_true, decide_eq_true_eq] at haccept
    have := haccept.1.1.1.1.1
    omega
  have hbyte : ((response rep stack frame).load 0 frame.length).getD (FrameUdp4.DATA_OFFSET + k) 0 =
      response rep stack frame (FrameUdp4.DATA_OFFSET + k) := by
    simp [Mem.load, hlen]
  unfold request
  rw [hbyte]
  unfold response
  rw [Net.IPv4_finalize_other (Or.inr (Nat.le_add_right_of_le (by decide))),
    Net.UDP_finalize_other (Or.inr (Nat.le_add_right _ _)), respond_chronycReply]

theorem answer_header {k : ℕ} (hk : Header k) :
    (answer rep (begun stack frame) frame (lookup frame)).1 (FrameUdp4.DATA_OFFSET + k) =
      begun stack frame (FrameUdp4.DATA_OFFSET + k) := by
  cases ho : lookup frame with
  | nack status => rfl
  | call handler => exact (handlers_handle handler (lookup_call ho)).header _ _ _ k hk

/-- A field that neither the handler nor the status changes. -/
def Kept (k : ℕ) : Prop :=
  Header k ∧ k < REQ_MIN_LEN ∧ (k < CMD_Reply.status ∨ CMD_Reply.status + 2 ≤ k)

instance (k : ℕ) : Decidable (Kept k) := inferInstanceAs (Decidable (_ ∧ _))

theorem request_reply_kept {r : Reply} (h : chronycRequest rep stack frame = some r) {k : ℕ}
    (hk : Kept k) : request r.frame k =
      chronycReply (returnToSender (allocate stack frame)) frame (FrameUdp4.DATA_OFFSET + k) := by
  obtain ⟨hheader, hmin, hstatus⟩ := hk
  rw [request_reply h hmin, setReply_header hstatus, answer_header hheader]
  exact setReply_header hstatus

theorem status_reply {r : Reply} (h : chronycRequest rep stack frame = some r) :
    r.word16 CMD_Reply.status = (answer rep (begun stack frame) frame (lookup frame)).2 := by
  unfold Reply.word16 request16
  rw [request_reply h (by decide +kernel), request_reply h (by decide +kernel), word16_setReply]

/-- The reply code is the one of the answer. -/
theorem code_reply {r : Reply} (h : chronycRequest rep stack frame = some r) :
    (answer rep (begun stack frame) frame (lookup frame)).1.load
      (FrameUdp4.DATA_OFFSET + CMD_Reply.reply) 2 = be16 (r.word16 CMD_Reply.reply) := by
  have hbyte : ∀ k < CMD_Reply.status, k < REQ_MIN_LEN → request r.frame k =
      (answer rep (begun stack frame) frame (lookup frame)).1 (FrameUdp4.DATA_OFFSET + k) := by
    intro k hk hmin
    rw [request_reply h hmin, setReply_header (Or.inl hk)]
  unfold Reply.word16 request16
  rw [hbyte _ (by decide +kernel) (by decide +kernel),
    hbyte _ (by decide +kernel) (by decide +kernel), be16_append]
  rfl

/-- **The reply code tells whether a handler was called.** -/
theorem code_reply_iff {r : Reply} (h : chronycRequest rep stack frame = some r) :
    r.word16 CMD_Reply.reply = RPY_NULL ↔ ∃ status, lookup frame = .nack status := by
  have hcode := code_reply h
  cases ho : lookup frame with
  | nack status =>
      -- nobody has written over what `chronycReply` sets
      refine iff_of_true ?_ ⟨status, rfl⟩
      have hbegun : (begun stack frame).load (FrameUdp4.DATA_OFFSET + CMD_Reply.reply) 2 =
          be16 RPY_NULL := by
        unfold begun setReply
        rw [Mem.load_store_of_disjoint (Or.inl (by decide +kernel))]
        exact chronycReply_reply _ frame
      rw [ho] at hcode
      exact be16_inj (hcode.symm.trans hbegun)
  | call handler =>
      refine iff_of_false (fun hnull => ?_) fun ⟨status, hnack⟩ => by cases hnack
      rw [ho, hnull] at hcode
      exact (handlers_handle handler (lookup_call ho)).code _ _ _ hcode

/-- **Every accepted request is answered as its command and its length ask for.** -/
theorem answers_lookup {r : Reply} (h : chronycRequest rep stack frame = some r) :
    rep.Answers stack frame (lookup frame) r where
  command := by
    unfold Reply.word16 request16
    rw [request_reply_kept h (by decide +kernel), request_reply_kept h (by decide +kernel)]
    exact chronycReply_cmd _ frame
  sequence := by
    obtain ⟨h0, htail⟩ := List.cons.inj (chronycReply_sequence
      (returnToSender (allocate stack frame)) frame)
    obtain ⟨h1, htail⟩ := List.cons.inj htail
    obtain ⟨h2, htail⟩ := List.cons.inj htail
    have h3 := (List.cons.inj htail).1
    unfold Reply.word32 request32
    rw [request_reply_kept h (by decide +kernel), request_reply_kept h (by decide +kernel),
      request_reply_kept h (by decide +kernel), request_reply_kept h (by decide +kernel)]
    exact congrArg₂ (· ++ ·) (congrArg₂ (· ++ ·) (congrArg₂ (· ++ ·) h0 h1) h2) h3
  status := status_reply h
  quiet status ho := (code_reply_iff h).mpr ⟨status, ho⟩

/-- No handler reports a bad version, and neither does the lookup. -/
theorem lookup_status (rep : Reports) (m : Mem Byte) (frame : List Byte) :
    (answer rep m frame (lookup frame)).2 ≠ STT_BADPKTVERSION := by
  cases ho : lookup frame with
  | nack status =>
      unfold lookup at ho
      split at ho
      · obtain rfl : STT_INVALID = status := by simpa using ho
        exact (by decide : STT_INVALID ≠ STT_BADPKTVERSION)
      · split at ho
        · cases ho
        · obtain rfl : STT_BADPKTLENGTH = status := by simpa using ho
          exact (by decide : STT_BADPKTLENGTH ≠ STT_BADPKTVERSION)
  | call handler =>
      show (handler.call rep m frame).2 ≠ STT_BADPKTVERSION
      rcases (handlers_handle handler (lookup_call ho)).status rep m frame with h | h
      · rw [h]
        decide
      · rw [h]
        decide

/-- A request of another version gets another status than the one for bad versions. -/
theorem not_answers_outcome {r : Reply} (h : chronycRequest rep stack frame = some r)
    (hversion : request frame CMD_Request.version ≠ PROTO_VERSION_NUMBER) :
    ¬ rep.Answers stack frame (outcome frame) r := by
  intro hanswers
  have hstatus := hanswers.status
  unfold outcome at hstatus
  rw [if_pos hversion, status_reply h] at hstatus
  exact lookup_status rep _ frame hstatus

/-- **A request is answered as it has to be if and only if its version is the one of
the server.** -/
theorem chronycRequest_outcome_iff (h : accepts frame = true) :
    (∃ r, chronycRequest rep stack frame = some r ∧ rep.Answers stack frame (outcome frame) r) ↔
      request frame CMD_Request.version = PROTO_VERSION_NUMBER := by
  constructor
  · rintro ⟨r, hr, hanswers⟩
    by_contra hversion
    exact not_answers_outcome hr hversion hanswers
  · intro hversion
    refine ⟨_, if_pos h, ?_⟩
    unfold outcome
    rw [if_neg (not_not.mpr hversion)]
    exact answers_lookup (if_pos h)

theorem chronycRequest_outcome_iff_nSources :
    ∃ r, chronycRequest noReports (fun _ => 0) nSourcesFrame = some r ∧
      noReports.Answers (fun _ => 0) nSourcesFrame (outcome nSourcesFrame) r :=
  (chronycRequest_outcome_iff (by decide +kernel)).mpr (by decide +kernel)

/-- The command for the number of sources, in the version before. -/
def oldVersionFrame : List Byte :=
  List.replicate 42 0 ++ [5, 1, 0, 0, 0, 14] ++ List.replicate 26 0

/-- It is accepted, and not answered as a request of a bad version. -/
theorem oldVersion_answered : accepts oldVersionFrame = true ∧
    ¬ ∃ r, chronycRequest noReports (fun _ => 0) oldVersionFrame = some r ∧
      noReports.Answers (fun _ => 0) oldVersionFrame (outcome oldVersionFrame) r := by
  refine ⟨by decide +kernel, ?_⟩
  rintro ⟨r, hr, hanswers⟩
  exact not_answers_outcome hr (by decide +kernel) hanswers

end Gpsdo.Chrony
