import Gpsdo.Net.DnsReads

set_option autoImplicit false

/-! # Well-formed responses

A response as it is encoded: names as labels that end in a zero byte or in a compression pointer,
questions, and records with any data. The parser takes a pointer for one only when its first byte is
`C0`, and it gives up at the end of the frame also when there is nothing left to read.
-/

namespace Gpsdo.Net

/-! ## Encoding -/

/-- A name: its labels, and where it goes on. -/
structure DnsName where
  labels : List (List Byte)
  pointer : Option (BitVec 14)
  lengths : ∀ l ∈ labels, 0 < l.length ∧ l.length < 64

structure DnsQuestion where
  name : DnsName
  qtype : BitVec 16
  qclass : BitVec 16

structure DnsRecord where
  name : DnsName
  atype : BitVec 16
  aclass : BitVec 16
  ttl : BitVec 32
  data : List Byte
  length : data.length < 2 ^ 16

/-- The sections of a response; `more` are the authority and the additional records. -/
structure DnsResponse where
  questions : List DnsQuestion
  answers : List DnsRecord
  more : List DnsRecord

def encodeLabels (labels : List (List Byte)) : List Byte :=
  labels.flatMap fun l => BitVec.ofNat 8 l.length :: l

/-- The end of a name. -/
def encodePointer : Option (BitVec 14) → List Byte
  | none => [0]
  | some offset => [0b11#2 ++ offset.extractLsb' 8 6, offset.extractLsb' 0 8]

def DnsName.encode (name : DnsName) : List Byte :=
  encodeLabels name.labels ++ encodePointer name.pointer

def DnsQuestion.encode (q : DnsQuestion) : List Byte :=
  q.name.encode ++ (be16 q.qtype ++ be16 q.qclass)

/-- The fields of a record. -/
def DnsRecord.fields (r : DnsRecord) : List Byte :=
  be16 r.atype ++ be16 r.aclass ++ be32 r.ttl ++ be16 (BitVec.ofNat 16 r.data.length)

def DnsRecord.encode (r : DnsRecord) : List Byte := r.name.encode ++ (r.fields ++ r.data)

/-- The address of a record that has one, as it lies in memory. -/
def DnsRecord.address (r : DnsRecord) : Option (BitVec 32) :=
  match r.data with
  | [b₀, b₁, b₂, b₃] => if r.atype = 1 ∧ r.aclass = 1 then some (b₃ ++ b₂ ++ b₁ ++ b₀) else none
  | _ => none

def DnsResponse.body (r : DnsResponse) : List Byte :=
  r.questions.flatMap DnsQuestion.encode ++
    (r.answers.flatMap DnsRecord.encode ++ r.more.flatMap DnsRecord.encode)

/-- A compression pointer is below 256. -/
def DnsName.Short (name : DnsName) : Prop := ∀ offset ∈ name.pointer, offset.toNat < 256

instance (name : DnsName) : Decidable name.Short :=
  decidable_of_iff (name.pointer.all (fun offset => decide (offset.toNat < 256)) = true) (by
    simp [DnsName.Short, Option.all_eq_true])

namespace Dns

variable {m : Mem Byte} {flen : ℕ}

/-- A frame with the response behind its headers. -/
structure Carries (m : Mem Byte) (flen : ℕ) (r : DnsResponse) : Prop where
  qcount : load16 m (HEADER + 4) = r.questions.length
  ancount : load16 m (HEADER + 6) = r.answers.length
  length : flen = DATA_OFFSET + r.body.length
  body : m.Holds DATA_OFFSET r.body

/-! ## Names -/

theorem skipName_succ (n next : ℕ) :
    skipName m flen (n + 1) next =
      if next < flen then
        if (m next).toNat = 0 then next + 1
        else if (m next).toNat = 0xC0 then next + 2
        else skipName m flen n (next + 1 + (m next).toNat)
      else next := rfl

theorem le_skipName (n next : ℕ) : next ≤ skipName m flen n next := by
  induction n generalizing next with
  | zero => exact le_refl _
  | succ n ih =>
      rw [skipName_succ]
      split
      · split
        · exact Nat.le_succ _
        · split
          · exact Nat.le_add_right _ 2
          · exact (by omega : next ≤ next + 1 + (m next).toNat).trans (ih _)
      · exact le_refl _

/-- A label is passed. -/
theorem skipName_label {n pos : ℕ} {l : List Byte} (hl : 0 < l.length ∧ l.length < 64)
    (hpos : pos < flen) (hm : m pos = BitVec.ofNat 8 l.length) :
    skipName m flen (n + 1) pos = skipName m flen n (pos + (l.length + 1)) := by
  have hlen : (m pos).toNat = l.length := by
    rw [hm, BitVec.toNat_ofNat]
    exact Nat.mod_eq_of_lt (by omega)
  rw [skipName_succ, if_pos hpos, hlen, if_neg (by omega), if_neg (by omega), Nat.add_assoc pos 1,
    Nat.add_comm 1]

/-- The labels of a name are passed, and then its end is looked at. -/
theorem skipName_labels {labels : List (List Byte)} {rest : List Byte} {n pos : ℕ}
    (hl : ∀ l ∈ labels, 0 < l.length ∧ l.length < 64)
    (hm : m.Holds pos (encodeLabels labels ++ rest))
    (hend : pos + (encodeLabels labels ++ rest).length ≤ flen) :
    skipName m flen (n + labels.length) pos =
      skipName m flen n (pos + (encodeLabels labels).length) := by
  induction labels generalizing pos with
  | nil => rfl
  | cons l labels ih =>
      have hsplit : encodeLabels (l :: labels) ++ rest =
          (BitVec.ofNat 8 l.length :: l) ++ (encodeLabels labels ++ rest) := by
        simp only [encodeLabels, List.flatMap_cons, List.append_assoc]
      have hlen : (encodeLabels (l :: labels)).length =
          l.length + 1 + (encodeLabels labels).length := by
        simp only [encodeLabels, List.flatMap_cons, List.length_append, List.length_cons]
      rw [hsplit] at hm hend
      obtain ⟨hfirst, htail⟩ := Mem.holds_append.mp hm
      rw [List.length_cons] at htail
      rw [List.length_append, List.length_cons] at hend
      rw [List.length_cons, ← Nat.add_assoc, skipName_label (hl l List.mem_cons_self)
        (by omega) hfirst.1, ih (fun l' hl' => hl l' (List.mem_cons_of_mem _ hl')) htail
        (by omega), hlen]
      congr 1
      omega

theorem length_labels_le (labels : List (List Byte)) :
    labels.length ≤ (encodeLabels labels).length := by
  induction labels with
  | nil => exact le_refl _
  | cons l labels ih =>
      simp only [encodeLabels, List.flatMap_cons, List.length_append, List.length_cons] at ih ⊢
      omega

/-- The first byte of a compression pointer. -/
theorem pointer_toNat (offset : BitVec 14) :
    (0b11#2 ++ offset.extractLsb' 8 6 : Byte).toNat = 0xC0 + offset.toNat / 256 := by
  have hlt := offset.isLt
  have hhigh : (offset.extractLsb' 8 6).toNat = offset.toNat / 256 := by
    rw [BitVec.extractLsb'_toNat, Nat.shiftRight_eq_div_pow]
    exact Nat.mod_eq_of_lt (by omega)
  have hsmall : offset.toNat / 256 < 2 ^ 6 := by omega
  rw [BitVec.toNat_append, hhigh, ← Nat.shiftLeft_add_eq_or_of_lt hsmall]
  rfl

/-- The parser comes to the end of the labels with a turn left. -/
theorem skipName_end_of_labels {name : DnsName} {pos : ℕ} (hm : m.Holds pos name.encode)
    (hend : pos + name.encode.length ≤ flen) :
    ∃ n, skipName m flen flen pos =
      skipName m flen (n + 1) (pos + (encodeLabels name.labels).length) := by
  have hlabels := length_labels_le name.labels
  have hpointer : 0 < (encodePointer name.pointer).length := by
    cases name.pointer <;> exact Nat.succ_pos _
  have hlength : name.encode.length =
      (encodeLabels name.labels).length + (encodePointer name.pointer).length :=
    List.length_append
  obtain ⟨n, hn⟩ : ∃ n, flen = n + 1 + name.labels.length :=
    ⟨flen - name.labels.length - 1, by omega⟩
  refine ⟨n, ?_⟩
  nth_rewrite 2 [hn]
  exact skipName_labels name.lengths hm hend

/-- **A name is passed**, if a compression pointer is below 256. -/
theorem skipName_name {name : DnsName} {pos : ℕ} (hm : m.Holds pos name.encode)
    (hend : pos + name.encode.length ≤ flen) (hshort : name.Short) :
    skipName m flen flen pos = pos + name.encode.length := by
  obtain ⟨n, hn⟩ := skipName_end_of_labels hm hend
  have hpointer := (Mem.holds_append.mp hm).2
  have hlength : name.encode.length =
      (encodeLabels name.labels).length + (encodePointer name.pointer).length :=
    List.length_append
  rw [hn, hlength]
  unfold DnsName.Short at hshort
  cases hname : name.pointer with
  | none =>
      rw [hname] at hpointer hlength
      rw [skipName_succ, if_pos (by simp [encodePointer] at hlength; omega), hpointer.1]
      rfl
  | some offset =>
      rw [hname] at hpointer hlength hshort
      have hfirst : (m (pos + (encodeLabels name.labels).length)).toNat = 0xC0 := by
        rw [hpointer.1, pointer_toNat, Nat.div_eq_of_lt (hshort offset rfl)]
      rw [skipName_succ, if_pos (by simp [encodePointer] at hlength; omega), hfirst]
      rfl

/-- With another pointer, the parser goes far past the end of the name. -/
theorem skipName_long {name : DnsName} {pos : ℕ} (hm : m.Holds pos name.encode)
    (hend : pos + name.encode.length ≤ flen) (hlong : ¬ name.Short) :
    pos + name.encode.length + 192 ≤ skipName m flen flen pos := by
  obtain ⟨n, hn⟩ := skipName_end_of_labels hm hend
  have hpointer := (Mem.holds_append.mp hm).2
  have hlength : name.encode.length =
      (encodeLabels name.labels).length + (encodePointer name.pointer).length :=
    List.length_append
  unfold DnsName.Short at hlong
  cases hname : name.pointer with
  | none =>
      rw [hname] at hlong
      simp at hlong
  | some offset =>
      rw [hname] at hpointer hlength hlong
      have hbig : 256 ≤ offset.toNat := by simpa using hlong
      have hfirst : (m (pos + (encodeLabels name.labels).length)).toNat =
          0xC0 + offset.toNat / 256 := by
        rw [hpointer.1, pointer_toNat]
      have htwo : (encodePointer (some offset)).length = 2 := rfl
      rw [hn, skipName_succ, if_pos (by omega), hfirst, if_neg (by omega), if_neg (by omega)]
      apply Nat.le_trans _ (le_skipName n _)
      omega

/-! ## Questions and answers -/

theorem load16_be16 {v : BitVec 16} {pos : ℕ} (hm : m.Holds pos (be16 v)) :
    load16 m pos = v.toNat := by
  obtain ⟨hhigh, hlow, -⟩ := hm
  have hlt := v.isLt
  unfold load16
  rw [hhigh, hlow, BitVec.extractLsb'_toNat, BitVec.extractLsb'_toNat, Nat.shiftRight_eq_div_pow]
  omega

theorem skipQuestions_encode {qs : List DnsQuestion} {pos : ℕ}
    (hm : m.Holds pos (qs.flatMap DnsQuestion.encode))
    (hend : pos + (qs.flatMap DnsQuestion.encode).length ≤ flen)
    (hshort : ∀ q ∈ qs, q.name.Short) :
    skipQuestions m flen qs.length pos = pos + (qs.flatMap DnsQuestion.encode).length := by
  induction qs generalizing pos with
  | nil => rfl
  | cons q qs ih =>
      rw [List.flatMap_cons] at hm hend ⊢
      rw [List.length_append] at hend ⊢
      obtain ⟨hq, hqs⟩ := Mem.holds_append.mp hm
      have hname := (Mem.holds_append.mp hq).1
      have hlen : q.encode.length = q.name.encode.length + 4 := List.length_append
      show skipQuestions m flen qs.length (skipName m flen flen pos + 4) = _
      rw [skipName_name hname (by omega) (hshort q List.mem_cons_self), Nat.add_assoc pos, ← hlen,
        ih hqs (by omega) fun q' hq' => hshort q' (List.mem_cons_of_mem _ hq'), Nat.add_assoc]

/-- What the parser reads of a record behind its name. -/
theorem load16_fields {r : DnsRecord} {pos : ℕ} (hm : m.Holds pos (r.fields ++ r.data)) :
    load16 m pos = r.atype.toNat ∧ load16 m (pos + 2) = r.aclass.toNat ∧
      load16 m (pos + 8) = r.data.length ∧ m.Holds (pos + 10) r.data := by
  obtain ⟨hfields, hdata⟩ := Mem.holds_append.mp hm
  obtain ⟨hhead, hlength⟩ := Mem.holds_append.mp hfields
  obtain ⟨hhead, -⟩ := Mem.holds_append.mp hhead
  obtain ⟨hatype, haclass⟩ := Mem.holds_append.mp hhead
  have hsize : load16 m (pos + 8) = (BitVec.ofNat 16 r.data.length).toNat :=
    load16_be16 hlength
  rw [BitVec.toNat_ofNat, Nat.mod_eq_of_lt r.length] at hsize
  exact ⟨load16_be16 hatype, load16_be16 haclass, hsize, hdata⟩

/-- The parser takes the record for an address exactly when it is one. -/
theorem address_eq {r : DnsRecord} {pos : ℕ} (hm : m.Holds pos r.data) :
    r.address = if r.atype.toNat ≠ 1 ∨ r.aclass.toNat ≠ 1 ∨ r.data.length ≠ 4 then none
      else some (m (pos + 3) ++ m (pos + 2) ++ m (pos + 1) ++ m pos) := by
  have htype : r.atype = 1 ↔ r.atype.toNat = 1 := BitVec.toNat_inj.symm
  have hclass : r.aclass = 1 ↔ r.aclass.toNat = 1 := BitVec.toNat_inj.symm
  unfold DnsRecord.address
  by_cases hlen : r.data.length = 4
  · obtain ⟨b₀, b₁, b₂, b₃, hdata⟩ := List.length_eq_four.mp hlen
    rw [hdata] at hm ⊢
    obtain ⟨h0, h1, h2, h3, -⟩ := hm
    dsimp only
    rw [h0, h1, h2, h3]
    by_cases hA : r.atype = 1 ∧ r.aclass = 1
    · rw [if_pos hA, if_neg]
      simp [hA]
    · rw [if_neg hA, if_pos]
      rw [htype, hclass] at hA
      tauto
  · rw [if_pos (Or.inr (Or.inr hlen))]
    split
    · rename_i heq
      rw [heq] at hlen
      exact absurd rfl hlen
    · rfl

theorem answers_succ (cnt next : ℕ) :
    answers m flen (cnt + 1) next =
      let k := skipName m flen flen next
      if flen ≤ k then ([], false)
      else if flen ≤ k + 10 then ([], false)
      else if load16 m k ≠ 1 ∨ load16 m (k + 2) ≠ 1 ∨ load16 m (k + 8) ≠ 4 then
        answers m flen cnt (k + 10 + load16 m (k + 8))
      else
        ((m (k + 10 + 3) ++ m (k + 10 + 2) ++ m (k + 10 + 1) ++ m (k + 10)) ::
            (answers m flen cnt (k + 10 + 4)).1, (answers m flen cnt (k + 10 + 4)).2) := rfl

/-- A record at the end of the frame that has no data. -/
theorem answers_bare {r : DnsRecord} {pos : ℕ} (hm : m.Holds pos r.encode)
    (hend : pos + r.encode.length = flen) (hshort : r.name.Short) (hdata : r.data = []) (cnt : ℕ) :
    answers m flen (cnt + 1) pos = ([], false) := by
  have hlen : r.encode.length = r.name.encode.length + 10 := by
    unfold DnsRecord.encode
    rw [List.length_append, hdata, List.append_nil]
    rfl
  have hnext : skipName m flen flen pos = pos + r.name.encode.length :=
    skipName_name (Mem.holds_append.mp hm).1 (by omega) hshort
  rw [answers_succ, hnext]
  dsimp only
  rw [if_neg (by omega), if_pos (by omega)]

/-- A record that something follows, its own data at least: the parser comes to the next one. -/
theorem answers_record {r : DnsRecord} {pos : ℕ} (hm : m.Holds pos r.encode)
    (hend : pos + r.encode.length ≤ flen)
    (hmore : pos + r.encode.length < flen ∨ r.data ≠ []) (hshort : r.name.Short) (cnt : ℕ) :
    answers m flen (cnt + 1) pos =
      (r.address.toList ++ (answers m flen cnt (pos + r.encode.length)).1,
        (answers m flen cnt (pos + r.encode.length)).2) := by
  have hlen : r.encode.length = r.name.encode.length + (10 + r.data.length) := by
    unfold DnsRecord.encode
    rw [List.length_append, List.length_append]
    rfl
  have hpos : pos + r.name.encode.length + 10 < flen := by
    rcases hmore with hmore | hmore
    · omega
    · have := List.length_pos_iff.mpr hmore
      omega
  obtain ⟨hname, hrest⟩ := Mem.holds_append.mp hm
  obtain ⟨hatype, haclass, hlength, hdata⟩ := load16_fields hrest
  have hnext : skipName m flen flen pos = pos + r.name.encode.length :=
    skipName_name hname (by omega) hshort
  rw [answers_succ, hnext]
  dsimp only
  rw [if_neg (by omega), if_neg (by omega), hatype, haclass, hlength, address_eq hdata]
  have hstop : pos + r.name.encode.length + 10 + r.data.length = pos + r.encode.length := by omega
  split
  · rw [hstop]
    rfl
  · rename_i haddr
    have hfour : r.data.length = 4 := by
      by_contra hne
      exact haddr (Or.inr (Or.inr hne))
    rw [← hfour, hstop]
    rfl

theorem length_encode_pos (r : DnsRecord) : 0 < r.encode.length := by
  have hfields : 0 < r.fields.length := Nat.succ_pos _
  unfold DnsRecord.encode
  simp only [List.length_append]
  omega

/-- Answers that something follows. -/
theorem answers_front {rs : List DnsRecord} {pos : ℕ}
    (hm : m.Holds pos (rs.flatMap DnsRecord.encode))
    (hend : pos + (rs.flatMap DnsRecord.encode).length < flen)
    (hshort : ∀ r ∈ rs, r.name.Short) (cnt : ℕ) :
    answers m flen (cnt + rs.length) pos =
      (rs.filterMap DnsRecord.address ++
          (answers m flen cnt (pos + (rs.flatMap DnsRecord.encode).length)).1,
        (answers m flen cnt (pos + (rs.flatMap DnsRecord.encode).length)).2) := by
  induction rs generalizing pos with
  | nil => rfl
  | cons r rs ih =>
      have hcons : (r :: rs).filterMap DnsRecord.address =
          r.address.toList ++ rs.filterMap DnsRecord.address := by
        rw [List.filterMap_cons]
        cases r.address <;> rfl
      rw [List.flatMap_cons] at hm hend ⊢
      rw [List.length_append, ← Nat.add_assoc] at hend ⊢
      obtain ⟨hr, hrs⟩ := Mem.holds_append.mp hm
      rw [List.length_cons, ← Nat.add_assoc, answers_record hr (by omega) (Or.inl (by omega))
        (hshort r List.mem_cons_self),
        ih hrs hend fun r' hr' => hshort r' (List.mem_cons_of_mem _ hr'), hcons, List.append_assoc]

/-- A record that is cut off by the end of the frame, as the parser sees it: its name goes on for
too long. -/
theorem answers_lost {r : DnsRecord} {pos : ℕ} (hm : m.Holds pos r.encode)
    (hend : pos + r.encode.length ≤ flen) (hlong : ¬ r.name.Short)
    (hnear : flen ≤ pos + r.name.encode.length + 192) (cnt : ℕ) :
    answers m flen (cnt + 1) pos = ([], false) := by
  have hlen : r.encode.length = r.name.encode.length + (r.fields ++ r.data).length :=
    List.length_append
  have hpast : pos + r.name.encode.length + 192 ≤ skipName m flen flen pos :=
    skipName_long (Mem.holds_append.mp hm).1 (by omega) hlong
  rw [answers_succ]
  dsimp only
  rw [if_pos (hnear.trans hpast)]

/-- **The answers** are all read, and their addresses reported; at the end of the frame the last one
needs data. -/
theorem answers_encode {rs : List DnsRecord} {pos : ℕ}
    (hm : m.Holds pos (rs.flatMap DnsRecord.encode))
    (hend : pos + (rs.flatMap DnsRecord.encode).length ≤ flen)
    (hshort : ∀ r ∈ rs, r.name.Short) :
    (answers m flen rs.length pos).1 = rs.filterMap DnsRecord.address ∧
      ((answers m flen rs.length pos).2 = false ↔
        pos + (rs.flatMap DnsRecord.encode).length = flen ∧ ∃ r ∈ rs.getLast?, r.data = []) := by
  rcases List.eq_nil_or_concat rs with rfl | ⟨front, last, rfl⟩
  · simp [answers]
  rw [List.concat_eq_append] at *
  have hlast := hshort last (List.mem_append_right _ (List.mem_singleton_self _))
  have hfront := fun r hr => hshort r (List.mem_append_left [last] hr)
  have hpos : 0 < last.encode.length := length_encode_pos last
  have htotal : ((front ++ [last]).flatMap DnsRecord.encode).length =
      (front.flatMap DnsRecord.encode).length + last.encode.length := by
    rw [List.flatMap_append, List.flatMap_singleton, List.length_append]
  rw [htotal, ← Nat.add_assoc] at hend ⊢
  rw [List.flatMap_append, List.flatMap_singleton] at hm
  obtain ⟨hm, hml⟩ := Mem.holds_append.mp hm
  rw [List.length_append, List.length_singleton, Nat.add_comm front.length,
    answers_front hm (by omega) hfront, List.filterMap_append, List.getLast?_concat]
  generalize pos + (front.flatMap DnsRecord.encode).length = pos at *
  by_cases hbare : pos + last.encode.length = flen ∧ last.data = []
  · rw [show answers m flen 1 pos = ([], false) from answers_bare hml hbare.1 hlast hbare.2 0]
    have hnone : last.address = none := by
      unfold DnsRecord.address
      rw [hbare.2]
    simp [hnone, hbare.1, hbare.2]
  · have hmore : pos + last.encode.length < flen ∨ last.data ≠ [] := by
      by_cases hdata : last.data = []
      · exact Or.inl (lt_of_le_of_ne hend fun h => hbare ⟨h, hdata⟩)
      · exact Or.inr hdata
    rw [show answers m flen 1 pos = (last.address.toList ++ [], true) from
      answers_record hml hend hmore hlast 0]
    have hone : [last].filterMap DnsRecord.address = last.address.toList := by
      rw [List.filterMap_cons]
      cases last.address <;> rfl
    rw [hone, List.append_nil]
    refine ⟨rfl, ?_⟩
    simpa using hbare

/-! ## Responses -/

/-- The callback is called once for each address, in order, and the slot is released. -/
def Delivers (s : Dns) (mac : List Byte) (m : Mem Byte) (flen : ℕ) (r : DnsResponse)
    (i : Fin MAX_REQUESTS) (callback : Addr) : Prop :=
  (s.processFrame mac m flen).2 = (r.answers.filterMap DnsRecord.address).map
      (fun addr => ⟨callback, (s.requests i).ref, addr⟩) ∧
    ((s.processFrame mac m flen).1.requests i).callback = none

/-- The frame ends with the answers, and the last one, if any, has no data. -/
def EndsBare (r : DnsResponse) : Prop :=
  r.more = [] ∧ ∀ last ∈ r.answers.getLast?, last.data = []

variable {s : Dns} {mac : List Byte} {r : DnsResponse} {i : Fin MAX_REQUESTS} {callback : Addr}

theorem flatMap_encode_eq_nil {rs : List DnsRecord} :
    (rs.flatMap DnsRecord.encode).length = 0 ↔ rs = [] := by
  refine ⟨fun h => ?_, fun h => by rw [h]; rfl⟩
  cases rs with
  | nil => rfl
  | cons r rs =>
      have hpos := length_encode_pos r
      rw [List.flatMap_cons, List.length_append] at h
      omega

/-- Behind the questions, delivery is up to the answers. -/
theorem delivers_iff_answers (hresponse : s.isResponse mac m flen = true)
    (hmatch : s.findMatch m = some i) (hcallback : (s.requests i).callback = some callback)
    (hc : Carries m flen r) (hshort : ∀ q ∈ r.questions, q.name.Short) :
    let next := DATA_OFFSET + (r.questions.flatMap DnsQuestion.encode).length
    Delivers s mac m flen r i callback ↔
      next < flen ∧ answers m flen r.answers.length next =
        (r.answers.filterMap DnsRecord.address, true) := by
  have hquestions := (Mem.holds_append.mp hc.body).1
  have hlen := hc.length
  unfold DnsResponse.body at hlen
  rw [List.length_append] at hlen
  have hskip : skipQuestions m flen r.questions.length DATA_OFFSET =
      DATA_OFFSET + (r.questions.flatMap DnsQuestion.encode).length :=
    skipQuestions_encode hquestions (by omega) hshort
  have hinj : Function.Injective fun addr : BitVec 32 =>
      (⟨callback, (s.requests i).ref, addr⟩ : DnsCall) := fun a b h => congrArg DnsCall.addr h
  unfold Delivers processFrame
  rw [hresponse, Bool.not_true, if_neg Bool.false_ne_true, hmatch]
  dsimp only
  rw [hc.qcount, hc.ancount, hskip]
  generalize DATA_OFFSET + (r.questions.flatMap DnsQuestion.encode).length = next
  have hkept : (s.requests i).callback ≠ none := by
    rw [hcallback]
    exact Option.some_ne_none _
  by_cases hend : flen ≤ next
  · rw [if_pos hend]
    exact iff_of_false (fun h => hkept h.2) fun h => absurd hend (Nat.not_le.mpr h.1)
  rw [if_neg hend, hcallback, Option.toList_some]
  generalize answers m flen r.answers.length next = found
  obtain ⟨addrs, all⟩ := found
  have hcalls : (addrs.flatMap fun addr => [callback].map fun callback =>
      (⟨callback, (s.requests i).ref, addr⟩ : DnsCall)) =
      addrs.map fun addr => ⟨callback, (s.requests i).ref, addr⟩ := by
    rw [List.map_eq_flatMap]
    rfl
  dsimp only
  rw [hcalls]
  cases all with
  | true =>
      simp only [if_true, List.map_inj_right hinj, Function.update_self, and_true, Prod.mk.injEq]
      exact ⟨fun h => ⟨Nat.not_le.mp hend, h⟩, fun h => h.2⟩
  | false =>
      refine iff_of_false (fun h => hkept h.2) fun h => ?_
      cases congrArg Prod.snd h.2

/-- Behind another pointer the parser has lost its place: if not much follows, it comes to the end
of the frame. -/
theorem not_delivers_of_long (hresponse : s.isResponse mac m flen = true)
    (hmatch : s.findMatch m = some i) (hcallback : (s.requests i).callback = some callback)
    (hc : Carries m flen r) (hshort : ∀ q ∈ r.questions, q.name.Short) {front rest : List DnsRecord}
    {a : DnsRecord} (hsplit : r.answers = front ++ a :: rest)
    (hfront : ∀ a' ∈ front, a'.name.Short) (hlong : ¬ a.name.Short)
    (hnear : (a.fields ++ a.data ++ rest.flatMap DnsRecord.encode ++
      r.more.flatMap DnsRecord.encode).length ≤ 192) :
    ¬ Delivers s mac m flen r i callback := by
  intro hdelivers
  obtain ⟨-, hread⟩ := (delivers_iff_answers hresponse hmatch hcallback hc hshort).mp hdelivers
  obtain ⟨-, hrest⟩ := Mem.holds_append.mp hc.body
  obtain ⟨hanswers, -⟩ := Mem.holds_append.mp hrest
  have hlen := hc.length
  unfold DnsResponse.body at hlen
  have hpos := length_encode_pos a
  have hencode : a.encode.length = a.name.encode.length + (a.fields ++ a.data).length :=
    List.length_append
  rw [hsplit, List.flatMap_append, List.flatMap_cons] at hanswers
  simp only [hsplit, List.flatMap_append, List.flatMap_cons, List.length_append] at hlen hnear hencode
  obtain ⟨hm, hm'⟩ := Mem.holds_append.mp hanswers
  have hcount : r.answers.length = (rest.length + 1) + front.length := by
    rw [hsplit, List.length_append, List.length_cons, Nat.add_comm]
  rw [hcount, answers_front hm (by omega) hfront,
    answers_lost (Mem.holds_append.mp hm').1 (by omega) hlong (by omega)] at hread
  cases congrArg Prod.snd hread

/-- **Well-formed responses.** With compression pointers below 256 a response is delivered unless it
ends bare. If an answer is the first with another pointer, and not much follows, it is not. -/
theorem delivers_iff (hresponse : s.isResponse mac m flen = true) (hmatch : s.findMatch m = some i)
    (hcallback : (s.requests i).callback = some callback) (hc : Carries m flen r)
    (hshort : ∀ q ∈ r.questions, q.name.Short) :
    ((∀ a ∈ r.answers, a.name.Short) → (Delivers s mac m flen r i callback ↔ ¬ EndsBare r)) ∧
      ∀ front a rest, r.answers = front ++ a :: rest → (∀ a' ∈ front, a'.name.Short) →
        ¬ a.name.Short →
        (a.fields ++ a.data ++ rest.flatMap DnsRecord.encode ++
          r.more.flatMap DnsRecord.encode).length ≤ 192 →
        ¬ Delivers s mac m flen r i callback := by
  refine ⟨fun hnames => ?_, fun front a rest hsplit hfront hlong hnear =>
    not_delivers_of_long hresponse hmatch hcallback hc hshort hsplit hfront hlong hnear⟩
  have hdelivers := delivers_iff_answers hresponse hmatch hcallback hc hshort
  dsimp only at hdelivers
  obtain ⟨-, hrest⟩ := Mem.holds_append.mp hc.body
  obtain ⟨hanswers, -⟩ := Mem.holds_append.mp hrest
  have hlen := hc.length
  unfold DnsResponse.body at hlen
  rw [List.length_append, List.length_append, ← Nat.add_assoc] at hlen
  rw [hdelivers]
  generalize DATA_OFFSET + (r.questions.flatMap DnsQuestion.encode).length = next at *
  have hmore : next + (r.answers.flatMap DnsRecord.encode).length = flen ↔ r.more = [] := by
    rw [← flatMap_encode_eq_nil]
    omega
  obtain ⟨haddrs, hall⟩ := answers_encode hanswers (show _ ≤ flen by omega) hnames
  constructor
  · rintro ⟨hlt, hread⟩ ⟨hnil, hlast⟩
    have hfull := hmore.mpr hnil
    have hsome : r.answers ≠ [] := by
      intro hnone
      rw [hnone, List.flatMap_nil, List.length_nil] at hfull
      omega
    obtain ⟨last, hl⟩ := Option.isSome_iff_exists.mp (List.getLast?_isSome.mpr hsome)
    have hstop := hall.mpr ⟨hfull, last, hl, hlast last hl⟩
    rw [hread] at hstop
    cases hstop
  · intro hbare
    refine ⟨?_, Prod.ext haddrs ?_⟩
    · by_contra hend
      have hnone : r.answers = [] := flatMap_encode_eq_nil.mp (by omega)
      refine hbare ⟨flatMap_encode_eq_nil.mp (by omega), ?_⟩
      rw [hnone]
      simp
    · by_contra hstop
      obtain ⟨hfull, last, hl, hdata⟩ := hall.mp (Bool.eq_false_iff.mpr hstop)
      refine hbare ⟨hmore.mp hfull, fun last' hl' => ?_⟩
      obtain rfl : last = last' := Option.some.inj (hl.symm.trans hl')
      exact hdata

/-! ## Responses to look at -/

/-- Names that are only a pointer, or only labels. -/
def pointerTo (offset : BitVec 14) : DnsName := ⟨[], some offset, by simp⟩

def nameA : DnsName := ⟨[[0x61]], none, by decide⟩

/-- A name of 236 bytes; its last label is 233 bytes behind its start. -/
def longName : DnsName :=
  ⟨List.replicate 3 (List.replicate 63 0x62) ++ [List.replicate 40 0x62, [0x63]], none, by decide⟩

/-- The canonical name for the name that is asked for. -/
def canonicalIs (canonical : DnsName) (h : canonical.encode.length < 2 ^ 16) : DnsRecord :=
  ⟨pointerTo 12, 5, 1, 60, canonical.encode, h⟩

/-- An address under a name that is given by a pointer. -/
def addressAt (offset : BitVec 14) : DnsRecord :=
  ⟨pointerTo offset, 1, 1, 60, [10, 0, 0, 9], by decide⟩

/-- The two for a question. -/
def aliased (canonical : DnsRecord) (offset : BitVec 14) : DnsResponse where
  questions := [⟨nameA, 1, 1⟩]
  answers := [canonical, addressAt offset]
  more := []

/-- The frame of a response to the client that waits. -/
def frameFor (r : DnsResponse) : List Byte :=
  responseHeaders (BitVec.ofNat 8 r.questions.length) (BitVec.ofNat 8 r.answers.length) ++ r.body

theorem holds_frameOf (front l rest : List Byte) :
    (frameOf (front ++ (l ++ rest))).Holds front.length l := by
  induction l generalizing front with
  | nil => trivial
  | cons b l ih =>
      refine ⟨by simp [frameOf], ?_⟩
      have htail := ih (front ++ [b])
      rw [List.length_append, List.length_singleton, List.append_assoc] at htail
      exact htail

theorem carries_frameFor {r : DnsResponse}
    (hq : load16 (frameOf (frameFor r)) (HEADER + 4) = r.questions.length)
    (ha : load16 (frameOf (frameFor r)) (HEADER + 6) = r.answers.length) :
    Carries (frameOf (frameFor r)) (frameFor r).length r where
  qcount := hq
  ancount := ha
  length := List.length_append
  body := by
    have hbody := holds_frameOf
      (responseHeaders (BitVec.ofNat 8 r.questions.length) (BitVec.ofNat 8 r.answers.length))
      r.body []
    rw [List.append_nil] at hbody
    exact hbody

/-- The canonical name is repeated by a pointer behind offset 255. -/
def farAlias : DnsResponse := aliased (canonicalIs longName (by decide +kernel)) 264

def nearAlias : DnsResponse := aliased (canonicalIs nameA (by decide)) 31

/-- The address of the canonical name is not delivered. -/
theorem not_delivers_farAlias :
    ¬ ∀ (s : Dns) (mac : List Byte) (m : Mem Byte) (flen : ℕ) (r : DnsResponse)
      (i : Fin MAX_REQUESTS) (callback : Addr), s.isResponse mac m flen = true →
      s.findMatch m = some i → (s.requests i).callback = some callback → Carries m flen r →
      Delivers s mac m flen r i callback := by
  intro hdeliver
  have hresponse : waiting.isResponse waitingMac (frameOf (frameFor farAlias))
      (frameFor farAlias).length = true := by decide +kernel
  have hmatch : waiting.findMatch (frameOf (frameFor farAlias)) = some 0 := by decide +kernel
  have hcallback : (waiting.requests 0).callback = some 1 := by decide
  have hcarries : Carries (frameOf (frameFor farAlias)) (frameFor farAlias).length farAlias :=
    carries_frameFor (by decide +kernel) (by decide +kernel)
  have hsplit : farAlias.answers =
      [canonicalIs longName (by decide +kernel)] ++ addressAt 264 :: [] := rfl
  refine not_delivers_of_long hresponse hmatch hcallback hcarries (by decide) hsplit ?_ (by decide)
    (by decide) (hdeliver waiting waitingMac (frameOf (frameFor farAlias))
      (frameFor farAlias).length farAlias 0 1 hresponse hmatch hcallback hcarries)
  decide +kernel

/-- That of a name near the start is. -/
theorem delivers_iff_nearAlias :
    Delivers waiting waitingMac (frameOf (frameFor nearAlias)) (frameFor nearAlias).length
      nearAlias 0 1 := by
  have hresponse : waiting.isResponse waitingMac (frameOf (frameFor nearAlias))
      (frameFor nearAlias).length = true := by decide +kernel
  have hmatch : waiting.findMatch (frameOf (frameFor nearAlias)) = some 0 := by decide +kernel
  have hcallback : (waiting.requests 0).callback = some 1 := by decide
  have hcarries : Carries (frameOf (frameFor nearAlias)) (frameFor nearAlias).length nearAlias :=
    carries_frameFor (by decide +kernel) (by decide +kernel)
  have hiff := (delivers_iff hresponse hmatch hcallback hcarries (by decide)).1 (by decide +kernel)
  exact hiff.mpr fun hbare => absurd (hbare.2 _ rfl) (by decide)

end Dns

end Gpsdo.Net
