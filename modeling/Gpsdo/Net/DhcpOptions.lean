import Gpsdo.Basic.Tlv
import Gpsdo.Net.Dhcp

set_option autoImplicit false

/-! # What the client makes of options

The loop over the options ends on any bytes, stays in the frame, and remembers only places in it.
Where the bytes are an area of options, what it remembers are the last valid values.
-/

namespace Gpsdo.Net

open HEADER_DHCP Tlv
open Ntp (IPv4_testSubnet)

variable {m : Mem Byte} {flen : ℕ}

/-! ## Bounds -/

namespace Dhcp

theorem readBytes_within {ptr n : ℕ} (h : ptr + n ≤ flen) :
    (readBytes m ptr n).Within (· < flen) := by
  intro i hi
  obtain ⟨j, hj, rfl⟩ := List.mem_map.mp hi
  have hlt := List.mem_range.mp hj
  show ptr + j < flen
  omega

theorem readLease_within {ptr : ℕ} (h : ptr + 4 ≤ flen) : (readLease m ptr).Within (· < flen) := by
  unfold readLease
  simp only [Reading.within_bind, Reading.within_load, Reading.within_pure, and_true]
  omega

theorem readIf_within {α : Type} {c : Prop} [Decidable c] {x : Reading ℕ α} {old : α}
    (h : c → x.Within (· < flen)) : (readIf c x old).Within (· < flen) := by
  unfold readIf
  split
  · next hc => exact h hc
  · exact Reading.within_pure _

theorem readAddrs_within {n ptr : ℕ} (h : ptr + 4 * n ≤ flen) :
    (readAddrs m n ptr).Within (· < flen) := by
  induction n generalizing ptr with
  | zero => exact Reading.within_pure _
  | succ n ih =>
      simp only [readAddrs, Reading.within_bind, Reading.within_pure, and_true]
      exact ⟨(Dns.readAddr_within_iff m flen ptr).mpr (by omega), ih (by omega)⟩

theorem findAddr_within {ok : BitVec 32 → Bool} {n ptr : ℕ} (h : ptr + 4 * n ≤ flen) :
    (findAddr m ok n ptr).Within (· < flen) := by
  induction n generalizing ptr with
  | zero => exact Reading.within_pure _
  | succ n ih =>
      unfold findAddr
      rw [Reading.within_bind]
      refine ⟨(Dns.readAddr_within_iff m flen ptr).mpr (by omega), ?_⟩
      split
      · exact Reading.within_pure _
      · exact ih (by omega)

end Dhcp

/-- The value is a list of addresses in the frame. -/
def OptValue.Bounded (flen : ℕ) (v : OptValue) : Prop := v.ptr + v.len < flen ∧ v.len % 4 = 0

/-- What the parser remembers lies in the frame. -/
structure DhcpOptions.Bounded (flen : ℕ) (opts : DhcpOptions) : Prop where
  router : ∀ v ∈ opts.optRouter, v.Bounded flen
  dns : ∀ v ∈ opts.optDns, v.Bounded flen
  ntp : ∀ v ∈ opts.optNtp, v.Bounded flen

namespace Dhcp

theorem findIn_within {ok : BitVec 32 → Bool} {found : Option OptValue}
    (h : ∀ v ∈ found, v.Bounded flen) : (findIn m ok found).Within (· < flen) := by
  cases found with
  | none => exact Reading.within_pure _
  | some v =>
      obtain ⟨hend, hlen⟩ := h v rfl
      exact findAddr_within (by omega)

theorem noOptions_bounded (s : Dhcp) : s.noOptions.Bounded flen :=
  ⟨nofun, nofun, nofun⟩

variable {key : Byte} {n ptr len : ℕ} {opts : DhcpOptions}

theorem readOption_within (hend : ptr + len < flen) :
    (readOption m key ptr len opts).Within (· < flen) := by
  unfold readOption
  simp only [Reading.within_bind, Reading.within_pure, and_true]
  refine ⟨readIf_within fun hc => ?_, readIf_within fun hc => ?_, readIf_within fun hc => ?_,
    readIf_within fun hc => ?_⟩
  · exact (Dns.readAddr_within_iff m flen ptr).mpr (by omega)
  · exact readLease_within (by omega)
  · exact (Reading.within_load m ptr).mpr (by omega)
  · exact (Dns.readAddr_within_iff m flen ptr).mpr (by omega)

theorem readOption_bounded (hend : ptr + len < flen) (hopts : opts.Bounded flen) :
    (readOption m key ptr len opts).val.Bounded flen := by
  have hite : ∀ {code : Byte} {old : Option OptValue}, (∀ v ∈ old, v.Bounded flen) →
      ∀ v ∈ (if key = code ∧ len % 4 = 0 then some ⟨ptr, len⟩ else old), v.Bounded flen := by
    intro code old hold v hv
    split at hv
    · next hc =>
        obtain rfl := Option.mem_some_iff.mp hv
        exact ⟨hend, hc.2⟩
    · exact hold v hv
  exact ⟨hite hopts.router, hite hopts.dns, hite hopts.ntp⟩

/-- **The loop ends and stays in the frame**, on any bytes. -/
theorem parseOptions_spec (hn : flen ≤ ptr + n) (hopts : opts.Bounded flen) :
    (parseOptions m flen (n + 1) ptr opts).Within (· < flen) ∧
      ∃ opts', (parseOptions m flen (n + 1) ptr opts).val = some opts' ∧ opts'.Bounded flen := by
  have hdone : ∀ {opts : DhcpOptions}, opts.Bounded flen →
      (pure (some opts) : Reading ℕ (Option DhcpOptions)).Within (· < flen) ∧
        ∃ opts', (pure (some opts) : Reading ℕ (Option DhcpOptions)).val = some opts' ∧
          opts'.Bounded flen :=
    fun h => ⟨Reading.within_pure _, _, rfl, h⟩
  -- the fuel is what is left of the frame: every turn goes on by a byte at least
  induction n generalizing ptr opts with
  | zero =>
      unfold parseOptions
      rw [if_neg (by omega)]
      exact hdone hopts
  | succ n ih =>
      rw [parseOptions]
      by_cases hend : ptr + 1 < flen
      · rw [if_pos hend, Reading.within_bind, Reading.val_bind, Reading.within_load, and_assoc]
        refine ⟨by omega, ?_⟩
        generalize (Reading.load m ptr).val = key
        by_cases hstop : key = 0xFF
        · rw [if_pos hstop]
          exact hdone hopts
        rw [if_neg hstop]
        by_cases hpad : key = 0x00
        · rw [if_pos hpad]
          exact ih (by omega) hopts
        rw [if_neg hpad, Reading.within_bind, Reading.val_bind, Reading.within_load, and_assoc]
        refine ⟨hend, ?_⟩
        generalize (Reading.load m (ptr + 1)).val.toNat = len
        -- a length that does not fit ends the loop, before the value is looked at
        by_cases hbad : flen ≤ ptr + 2 + len
        · rw [if_pos hbad]
          exact hdone hopts
        · rw [if_neg hbad, Reading.within_bind, Reading.val_bind, and_assoc]
          exact ⟨readOption_within (by omega),
            ih (by omega) (readOption_bounded (by omega) hopts)⟩
      · rw [if_neg hend]
        exact hdone hopts

theorem options_spec (s : Dhcp) (m : Mem Byte) (hlen : 0 < flen) :
    (s.options m flen).Within (· < flen) ∧
      ∃ opts, (s.options m flen).val = some opts ∧ opts.Bounded flen := by
  obtain ⟨n, rfl⟩ := Nat.exists_eq_succ_of_ne_zero hlen.ne'
  exact parseOptions_spec (by unfold OPTIONS; omega) s.noOptions_bounded

theorem sendReply_within {s : Dhcp} {stack : Mem Byte} (hlen : OPTIONS ≤ flen) :
    (s.sendReply stack m).Within (· < flen) := by
  unfold sendReply
  simp only [Reading.within_bind, Reading.within_pure, and_true]
  unfold OPTIONS at hlen
  exact ⟨readBytes_within (by unfold YIADDR; omega), readBytes_within (by unfold SIADDR; omega)⟩

theorem acknowledge_within {s : Dhcp} (hlen : OPTIONS ≤ flen) (hopts : opts.Bounded flen) :
    (s.acknowledge m opts).Within (· < flen) := by
  unfold OPTIONS at hlen
  unfold acknowledge
  simp only [Reading.within_bind]
  refine ⟨(Dns.readAddr_within_iff m flen YIADDR).mpr (by unfold YIADDR; omega),
    findIn_within hopts.router, findIn_within hopts.dns, ?_⟩
  cases hntp : opts.optNtp with
  | none => exact Reading.within_pure _
  | some v =>
      obtain ⟨hend, -⟩ := hopts.ntp v hntp
      simp only [Reading.within_bind, Reading.within_pure, and_true]
      refine readAddrs_within ?_
      split <;> omega

theorem accepts_within (s : Dhcp) (m : Mem Byte) (flen : ℕ) :
    (s.accepts m flen).Within (· < flen) := by
  have hite : ∀ {c : Prop} [Decidable c] {x : Reading ℕ Bool},
      x.Within (· < flen) → (if c then pure false else x).Within (· < flen) := by
    intro c _ x hx
    split
    · exact Reading.within_pure _
    · exact hx
  unfold accepts
  -- nothing is read of a frame without the fixed part, and everything read later lies in it
  by_cases hlen : flen < OPTIONS
  · rw [if_pos hlen]
    exact Reading.within_pure _
  rw [if_neg hlen]
  have hin : ∀ {k : ℕ}, k < OPTIONS → k < flen := fun h => h.trans_le (Nat.not_lt.mp hlen)
  rw [Reading.within_bind]
  refine ⟨readBytes_within (hin (by decide)).le, hite ?_⟩
  rw [Reading.within_bind]
  refine ⟨readBytes_within (hin (by decide)).le, hite ?_⟩
  rw [Reading.within_bind, Reading.within_load]
  refine ⟨hin (by decide), hite ?_⟩
  rw [Reading.within_bind, Reading.within_load]
  refine ⟨hin (by decide), hite ?_⟩
  rw [Reading.within_bind, Reading.within_load]
  refine ⟨hin (by decide), hite ?_⟩
  rw [Reading.within_bind, Dns.readAddr_within_iff]
  refine ⟨Nat.not_lt.mp hlen, hite ?_⟩
  rw [Reading.within_bind, Dns.readAddr_within_iff]
  exact ⟨(hin (by decide)).le, Reading.within_pure _⟩

/-- **Which frames are accepted.** -/
theorem accepts_iff (s : Dhcp) (m : Mem Byte) (flen : ℕ) :
    (s.accepts m flen).val = true ↔
      OPTIONS ≤ flen ∧ m.load Frame.macDst 6 = s.mac ∧
        m.load Frame.portSrc 2 = be16 DHCP_PORT_SRV ∧ m OP = 2 ∧ m HTYPE = 1 ∧ m HLEN = 6 ∧
        (Dns.readAddr m MAGIC).val = DHCP_MAGIC ∧ (Dns.readAddr m XID).val = s.dhcpXID := by
  have htest : ∀ {c : Prop} [Decidable c] {x : Reading ℕ Bool},
      (if c then pure false else x).val = true ↔ ¬ c ∧ x.val = true := by
    intro c _ x
    split
    · next hc => exact iff_of_false Bool.false_ne_true fun h => h.1 hc
    · next hc => exact ⟨fun h => ⟨hc, h⟩, fun h => h.2⟩
  unfold accepts
  rw [htest, Reading.val_bind, htest, Reading.val_bind, htest, Reading.val_bind, htest,
    Reading.val_bind, htest, Reading.val_bind, htest, Reading.val_bind, htest, Reading.val_bind]
  simp only [ne_eq, not_not, not_lt, Reading.val_load, Reading.val_pure, decide_eq_true_eq]
  exact Iff.rfl

/-- **`processFrame` stays in the frame**, and comes to an end. -/
theorem processFrame_within (s : Dhcp) (stack m : Mem Byte) (flen : ℕ) :
    (s.processFrame stack m flen).Within (· < flen) ∧
      (s.processFrame stack m flen).val.isSome = true := by
  unfold processFrame
  rw [Reading.within_bind, Reading.val_bind, and_assoc]
  refine ⟨accepts_within s m flen, ?_⟩
  cases haccept : (s.accepts m flen).val with
  | false => exact ⟨Reading.within_pure _, rfl⟩
  | true =>
      have hlen := ((accepts_iff s m flen).mp haccept).1
      obtain ⟨hwithin, opts, hopts, hbounded⟩ :=
        s.options_spec m (lt_of_lt_of_le (by decide : 0 < OPTIONS) hlen)
      rw [Bool.not_true, if_neg Bool.false_ne_true, Reading.within_bind, Reading.val_bind, hopts,
        and_assoc]
      refine ⟨hwithin, ?_⟩
      dsimp only
      by_cases hoffer : opts.optMsgType = 2
      · rw [if_pos hoffer, Reading.within_bind]
        exact ⟨⟨sendReply_within hlen, Reading.within_pure _⟩, rfl⟩
      rw [if_neg hoffer]
      by_cases hack : opts.optMsgType = 5
      · rw [if_pos hack, Reading.within_bind]
        exact ⟨⟨acknowledge_within hlen hbounded, Reading.within_pure _⟩, rfl⟩
      · rw [if_neg hack]
        exact ⟨Reading.within_pure _, rfl⟩

/-! ## Values -/

/-- The address in a value of four bytes. -/
def address : List Byte → BitVec 32
  | [b₀, b₁, b₂, b₃] => b₃ ++ b₂ ++ b₁ ++ b₀
  | _ => 0

/-- The number in a value of four bytes. -/
def number : List Byte → BitVec 32
  | [b₀, b₁, b₂, b₃] => b₀ ++ b₁ ++ b₂ ++ b₃
  | _ => 0

/-- The addresses in a value. -/
def addresses : List Byte → List (BitVec 32)
  | b₀ :: b₁ :: b₂ :: b₃ :: bytes => (b₃ ++ b₂ ++ b₁ ++ b₀) :: addresses bytes
  | _ => []

theorem load_four (m : Mem Byte) (ptr : ℕ) :
    m.load ptr 4 = [m ptr, m (ptr + 1), m (ptr + 2), m (ptr + 3)] := rfl

theorem readAddr_val (m : Mem Byte) (ptr : ℕ) :
    (Dns.readAddr m ptr).val = address (m.load ptr 4) := rfl

theorem readLease_val (m : Mem Byte) (ptr : ℕ) :
    (readLease m ptr).val = number (m.load ptr 4) := rfl

theorem addresses_load (m : Mem Byte) (ptr n : ℕ) :
    addresses (m.load ptr (4 * (n + 1))) =
      (Dns.readAddr m ptr).val :: addresses (m.load (ptr + 4) (4 * n)) := by
  rw [show 4 * (n + 1) = 4 + 4 * n by omega, Mem.load_add, load_four]
  rfl

theorem readAddrs_val (m : Mem Byte) (n ptr : ℕ) :
    (readAddrs m n ptr).val = addresses (m.load ptr (4 * n)) := by
  induction n generalizing ptr with
  | zero => rfl
  | succ n ih =>
      rw [addresses_load, ← ih]
      rfl

theorem findAddr_val (m : Mem Byte) (ok : BitVec 32 → Bool) (n ptr : ℕ) :
    (findAddr m ok n ptr).val = (addresses (m.load ptr (4 * n))).find? ok := by
  induction n generalizing ptr with
  | zero => rfl
  | succ n ih =>
      rw [addresses_load, findAddr, Reading.val_bind, List.find?_cons]
      cases ok (Dns.readAddr m ptr).val with
      | true => rfl
      | false => exact ih (ptr + 4)

/-- The first addresses. -/
theorem take_addresses (n : ℕ) (bytes : List Byte) :
    (addresses bytes).take n = addresses (bytes.take (4 * n)) := by
  induction n generalizing bytes with
  | zero => rfl
  | succ n ih =>
      rw [show 4 * (n + 1) = 4 * n + 4 by omega]
      match bytes with
      | b₀ :: b₁ :: b₂ :: b₃ :: bytes => exact congrArg _ (ih bytes)
      | [] => rfl
      | [_] => rfl
      | [_, _] => rfl
      | [_, _, _] => rfl

/-! ## Areas of options -/

/-- A value of a list of addresses was remembered, or there was none. -/
def Remembers (m : Mem Byte) (found : Option (List Byte)) (old new : Option OptValue) : Prop :=
  match found with
  | none => new = old
  | some value =>
      value.length % 4 = 0 ∧ ∃ ptr, new = some ⟨ptr, value.length⟩ ∧ m.load ptr value.length = value

/-- Four bytes are a number or an address. -/
def four (len : ℕ) : Bool := len == 4

/-- A list of addresses. -/
def fours (len : ℕ) : Bool := len % 4 == 0

/-- What the loop makes of some items, from what it had before. -/
structure Collects (m : Mem Byte) (items : List Item) (opts opts' : DhcpOptions) : Prop where
  subnet : opts'.optSubnet = ((last 1 four items).map address).getD opts.optSubnet
  lease : opts'.optLease = ((last 51 four items).map number).getD opts.optLease
  msgType : opts'.optMsgType = ((last 53 (· == 1) items).map (·.headD 0)).getD opts.optMsgType
  router : Remembers m (last 3 fours items) opts.optRouter opts'.optRouter
  dns : Remembers m (last 6 fours items) opts.optDns opts'.optDns
  ntp : Remembers m (last 42 fours items) opts.optNtp opts'.optNtp

variable {items : List Item} {opts' : DhcpOptions}

/-- What is remembered later counts. -/
theorem Remembers.trans {found found' : Option (List Byte)} {old mid new : Option OptValue}
    (h : Remembers m found old mid) (h' : Remembers m found' mid new) :
    Remembers m (found'.or found) old new := by
  cases found' with
  | some value => exact h'
  | none =>
      obtain rfl : new = mid := h'
      exact h

theorem getD_or {α β : Type} (f : α → β) (a a' : Option α) (b : β) :
    ((a'.or a).map f).getD b = (a'.map f).getD ((a.map f).getD b) := by
  cases a' with
  | none => rfl
  | some x => rfl

theorem Collects.cons {item : Item} {mid : DhcpOptions} (h : Collects m [item] opts mid)
    (h' : Collects m items mid opts') : Collects m (item :: items) opts opts' where
  subnet := by rw [last_cons, getD_or, h'.subnet, h.subnet]
  lease := by rw [last_cons, getD_or, h'.lease, h.lease]
  msgType := by rw [last_cons, getD_or, h'.msgType, h.msgType]
  router := by rw [last_cons]; exact h.router.trans h'.router
  dns := by rw [last_cons]; exact h.dns.trans h'.dns
  ntp := by rw [last_cons]; exact h.ntp.trans h'.ntp

theorem collects_pad : Collects m [.pad] opts opts := ⟨rfl, rfl, rfl, rfl, rfl, rfl⟩

variable {value : List Byte}

/-- A value that is read when it has the right length. -/
theorem readIf_val {α : Type} {code : Byte} {valid : ℕ → Bool} {c : Prop} [Decidable c]
    {x : Reading ℕ α} {old : α} {f : List Byte → α}
    (hc : c ↔ key = code ∧ valid value.length = true) (hx : c → x.val = f value) :
    (readIf c x old).val = ((last code valid [.option key value]).map f).getD old := by
  rw [last_singleton]
  unfold readIf
  by_cases h : c
  · rw [if_pos h, if_pos (hc.mp h), hx h]
    rfl
  · rw [if_neg h, if_neg fun h' => h (hc.mpr h')]
    rfl

/-- A value that is remembered when it is a list of addresses. -/
theorem remembers_option {code : Byte} {old : Option OptValue}
    (hvalue : m.load ptr value.length = value) :
    Remembers m (last code fours [.option key value]) old
      (if key = code ∧ value.length % 4 = 0 then some ⟨ptr, value.length⟩ else old) := by
  rw [last_singleton]
  simp only [fours, beq_iff_eq]
  by_cases h : key = code ∧ value.length % 4 = 0
  · rw [if_pos h, if_pos h]
    exact ⟨h.2, ptr, rfl, hvalue⟩
  · rw [if_neg h, if_neg h]
    rfl

/-- **One option.** -/
theorem readOption_collects (hvalue : m.load ptr value.length = value)
    (htype : key = 53 → value.length = 1) :
    Collects m [.option key value] opts (readOption m key ptr value.length opts).val where
  subnet := by
    refine readIf_val (by simp [four]) fun h => ?_
    rw [readAddr_val, ← h.2, hvalue]
  lease := by
    refine readIf_val (by simp [four]) fun h => ?_
    rw [readLease_val, ← h.2, hvalue]
  msgType := by
    refine readIf_val (by simpa using htype) fun h => ?_
    rw [← hvalue, htype h]
    rfl
  router := remembers_option hvalue
  dns := remembers_option hvalue
  ntp := remembers_option hvalue

/-- The parts of what is loaded. -/
theorem load_eq_append {k : ℕ} {l l' : List Byte} (h : m.load ptr k = l ++ l') :
    k = l.length + l'.length ∧ m.load ptr l.length = l ∧
      m.load (ptr + l.length) l'.length = l' := by
  have hk : k = l.length + l'.length := by
    have hlen := congrArg List.length h
    rwa [Mem.length_load, List.length_append] at hlen
  subst hk
  rw [Mem.load_add] at h
  obtain ⟨h, h'⟩ := List.append_inj h (Mem.length_load m ptr l.length)
  exact ⟨rfl, h, h'⟩

/-- **The loop over an area of options.** -/
theorem parseOptions_encode {rest : List Byte} (hitems : ∀ item ∈ items, item.WellFormed)
    (htype : ∀ value ∈ values 53 items, value.length = 1) {k : ℕ} (hk : ptr + k = flen)
    (harea : m.load ptr k = encode items ++ END :: rest) (hn : k ≤ n) :
    ∃ opts', (parseOptions m flen (n + 1) ptr opts).val = some opts' ∧
      Collects m items opts opts' := by
  induction items generalizing n ptr k opts with
  | nil =>
      obtain ⟨hk', hend, -⟩ := load_eq_append (l := [END]) harea
      have hkey : m ptr = 0xFF := (List.cons.inj hend).1
      refine ⟨opts, ?_, rfl, rfl, rfl, rfl, rfl, rfl⟩
      rw [parseOptions]
      -- an end mark in the last byte is not looked at
      split
      · rw [Reading.val_bind, Reading.val_load, if_pos hkey]
        rfl
      · rfl
  | cons item items ih =>
      have hwf := hitems item List.mem_cons_self
      have hwfs : ∀ item ∈ items, item.WellFormed := fun item h =>
        hitems item (List.mem_cons_of_mem _ h)
      rw [encode_cons, List.append_assoc] at harea
      obtain ⟨hk', hitem, hrest⟩ := load_eq_append harea
      -- the end mark is behind the item, so that the loop looks at it
      have hbehind : 0 < (encode items ++ END :: rest).length := by simp
      have htypes : ∀ value ∈ values 53 items, value.length = 1 := fun value h =>
        htype value (mem_values_cons item h)
      generalize hlen : (encode items ++ END :: rest).length = k' at hk' hrest hbehind
      cases item with
      | pad =>
          have hkey : m ptr = 0x00 := (List.cons.inj hitem).1
          have hone : (Item.encode .pad).length = 1 := rfl
          rw [hone] at hk' hrest
          obtain ⟨n, rfl⟩ := Nat.exists_eq_succ_of_ne_zero (show n ≠ 0 by omega)
          obtain ⟨opts', hval, hcollects⟩ := ih (n := n) hwfs htypes (by omega) hrest (by omega)
          refine ⟨opts', ?_, collects_pad.cons hcollects⟩
          rw [parseOptions, if_pos (by omega), Reading.val_bind, Reading.val_load, hkey,
            if_neg (by decide), if_pos rfl]
          exact hval
      | option code value =>
          obtain ⟨hcode, hend, hlt⟩ := hwf
          obtain ⟨-, hhead, hvalue⟩ :=
            load_eq_append (l := [code, BitVec.ofNat 8 value.length]) hitem
          obtain ⟨hkey, hlen⟩ := List.cons.inj hhead
          replace hkey : m ptr = code := hkey
          replace hlen : m (ptr + 1) = BitVec.ofNat 8 value.length := (List.cons.inj hlen).1
          have hsize : (m (ptr + 1)).toNat = value.length := by
            rw [hlen, BitVec.toNat_ofNat, Nat.mod_eq_of_lt hlt]
          have htwo : (Item.encode (.option code value)).length = 2 + value.length := by
            simp only [Item.encode, List.length_cons]
            omega
          rw [htwo] at hk' hrest
          obtain ⟨n, rfl⟩ := Nat.exists_eq_succ_of_ne_zero (show n ≠ 0 by omega)
          have hone : code = 53 → value.length = 1 := fun h =>
            htype value (by rw [h, values_option, if_pos rfl]; exact List.mem_cons_self)
          rw [← Nat.add_assoc] at hrest
          -- two bytes for the code and the length, and the value behind them
          obtain ⟨opts', hval, hcollects⟩ := @ih n _
            (readOption m code (ptr + 2) value.length opts).val hwfs htypes k' (by omega) hrest
            (by omega)
          refine ⟨opts', ?_, (readOption_collects hvalue hone).cons hcollects⟩
          rw [parseOptions, if_pos (by omega), Reading.val_bind, Reading.val_load, hkey,
            if_neg (show code ≠ 0xFF from hend), if_neg hcode, Reading.val_bind, Reading.val_load,
            hsize, if_neg (by omega)]
          exact hval

theorem options_encode {rest : List Byte} (s : Dhcp) (hlen : OPTIONS ≤ flen)
    (hitems : ∀ item ∈ items, item.WellFormed) (htype : ∀ value ∈ values 53 items, value.length = 1)
    (harea : m.load OPTIONS (flen - OPTIONS) = encode items ++ END :: rest) :
    ∃ opts, (s.options m flen).val = some opts ∧ Collects m items s.noOptions opts := by
  have hpos : 0 < OPTIONS := by decide
  have hk : OPTIONS + (flen - OPTIONS) = flen := Nat.add_sub_cancel' hlen
  obtain ⟨n, rfl⟩ := Nat.exists_eq_add_one_of_ne_zero (show flen ≠ 0 by omega)
  exact parseOptions_encode hitems htype hk harea (by omega)

/-! ## `DHCPACK` -/

/-- What a DHCPACK with some options makes of the variables: the last valid option of each kind
counts. -/
structure Configures (s : Dhcp) (m : Mem Byte) (items : List Item) (s' : Dhcp) : Prop where
  ipAddress : s'.ipAddress = address (m.load YIADDR 4)
  ipSubnet : s'.ipSubnet = ((last 1 four items).map address).getD s.ipSubnet
  ipBroadcast : s'.ipBroadcast = s'.ipAddress ||| ~~~s'.ipSubnet
  ipRouter : s'.ipRouter = ((last 3 fours items).bind fun value => (addresses value).find?
    fun addr => IPv4_testSubnet s'.ipSubnet s'.ipAddress addr == 0).getD s.ipRouter
  ipDNS : s'.ipDNS =
    ((last 6 fours items).bind fun value => (addresses value).find? (· != 0)).getD s.ipDNS
  ntpAddr : s'.DHCP_ntpAddr =
    ((last 42 fours items).map fun value => (addresses value).take 8).getD s.DHCP_ntpAddr
  lease : ∀ lease, lease = (((last 51 four items).map number).getD 0).toNat →
    s'.dhcpLeaseExpire = BitVec.ofNat 32 (min (lease - lease / 10) 86400) + s.seconds

theorem leaseTime_eq (optLease : BitVec 32) :
    leaseTime optLease =
      BitVec.ofNat 32 (min (optLease.toNat - optLease.toNat / 10) 86400) := by
  have hlt := optLease.isLt
  have hdiv : (optLease / 10).toNat = optLease.toNat / 10 := BitVec.toNat_udiv
  have hle : optLease / 10 ≤ optLease := by
    rw [BitVec.le_def, hdiv]
    exact Nat.div_le_self _ _
  have hsub : (optLease - optLease / 10).toNat = optLease.toNat - optLease.toNat / 10 := by
    rw [BitVec.toNat_sub_of_le hle, hdiv]
  unfold leaseTime
  dsimp only
  refine BitVec.eq_of_toNat_eq ?_
  rw [BitVec.toNat_ofNat, Nat.mod_eq_of_lt (by omega)]
  split
  · next h =>
      rw [BitVec.lt_def, hsub] at h
      exact (min_eq_right (le_of_lt h)).symm
  · next h =>
      rw [BitVec.lt_def, hsub] at h
      exact hsub.trans (min_eq_left (Nat.not_lt.mp h)).symm

theorem findIn_val {found : Option (List Byte)} {v : Option OptValue} (ok : BitVec 32 → Bool)
    (h : Remembers m found none v) :
    (findIn m ok v).val = found.bind fun value => (addresses value).find? ok := by
  cases found with
  | none =>
      obtain rfl : v = none := h
      rfl
  | some value =>
      obtain ⟨hfours, ptr, rfl, hvalue⟩ := h
      show (findAddr m ok ((value.length + 3) / 4) ptr).val = (addresses value).find? ok
      rw [findAddr_val, show 4 * ((value.length + 3) / 4) = value.length by omega, hvalue]

theorem length_readAddrs (m : Mem Byte) (n ptr : ℕ) : (readAddrs m n ptr).val.length = n := by
  induction n generalizing ptr with
  | zero => rfl
  | succ n ih => exact congrArg (· + 1) (ih (ptr + 4))

theorem take_load (m : Mem Byte) {ptr n k : ℕ} (h : k ≤ n) :
    (m.load ptr n).take k = m.load ptr k := by
  obtain ⟨j, rfl⟩ := Nat.exists_eq_add_of_le h
  rw [Mem.load_add]
  exact List.take_left' (Mem.length_load m ptr k)

/-- The list that is copied for a value of addresses. -/
theorem readAddrs_take (hfours : value.length % 4 = 0) (hvalue : m.load ptr value.length = value) :
    (readAddrs m ((if 32 < value.length then 32 else value.length) / 4) ptr).val =
      (addresses value).take 8 := by
  rw [readAddrs_val, take_addresses]
  refine congrArg addresses ?_
  split
  · next h =>
      rw [← take_load m h.le, hvalue]
  · next h =>
      rw [show 4 * (value.length / 4) = value.length by omega, hvalue,
        List.take_of_length_le (Nat.not_lt.mp h)]

theorem acknowledge_configures (s : Dhcp) (h : Collects m items s.noOptions opts) :
    Configures s m items (s.acknowledge m opts).val.1 := by
  have hrouter := fun ok => findIn_val ok h.router
  have hdns := findIn_val (· != 0) h.dns
  have hlease : ∀ lease, lease = (((last 51 four items).map number).getD 0).toNat →
      leaseTime opts.optLease + s.seconds =
        BitVec.ofNat 32 (min (lease - lease / 10) 86400) + s.seconds := by
    rintro _ rfl
    rw [leaseTime_eq, h.lease]
    rfl
  have hntp := h.ntp
  unfold acknowledge
  simp only [Reading.val_bind]
  rw [hrouter, hdns]
  cases hfound : last 42 fours items with
  | none =>
      rw [hfound] at hntp
      have hnone : opts.optNtp = none := hntp
      rw [hnone]
      exact ⟨readAddr_val m YIADDR, h.subnet, rfl, rfl, rfl, by rw [hfound]; rfl, hlease⟩
  | some value =>
      rw [hfound] at hntp
      obtain ⟨hfours, ptr, hsome, hvalue⟩ := hntp
      rw [hsome]
      refine ⟨readAddr_val m YIADDR, h.subnet, rfl, rfl, rfl, ?_, hlease⟩
      rw [hfound]
      simp only [Reading.val_bind, Option.map_some, Option.getD_some]
      rw [← readAddrs_take hfours hvalue]
      exact (congrArg _ (length_readAddrs m _ ptr)).symm.trans (Mem.load_store_self _ 0 _)

/-- **A DHCPACK configures the client.** Whatever the options are, the parser ends and reads only
the frame; and when they are an area of options, the last valid option of each kind counts. -/
theorem processFrame_configures (s : Dhcp) (stack m : Mem Byte) (flen : ℕ)
    (haccept : (s.accepts m flen).val = true) :
    (s.processFrame stack m flen).Within (· < flen) ∧
      (s.processFrame stack m flen).val.isSome = true ∧
      ∀ items rest, (∀ item ∈ items, item.WellFormed) →
        m.load OPTIONS (flen - OPTIONS) = encode items ++ END :: rest →
        (∀ value ∈ values 53 items, value.length = 1) → last 53 (· == 1) items = some [5] →
        ∃ s' calls, (s.processFrame stack m flen).val = some (s', calls) ∧
          Configures s m items s' := by
  obtain ⟨hwithin, hsome⟩ := processFrame_within s stack m flen
  refine ⟨hwithin, hsome, fun items rest hitems harea htype hack => ?_⟩
  obtain ⟨opts, hopts, hcollects⟩ := s.options_encode ((accepts_iff s m flen).mp haccept).1 hitems htype harea
  have hmsg : opts.optMsgType = 5 := by
    rw [hcollects.msgType, hack]
    rfl
  refine ⟨(s.acknowledge m opts).val.1, (s.acknowledge m opts).val.2, ?_,
    acknowledge_configures s hcollects⟩
  unfold processFrame
  rw [Reading.val_bind, haccept, Bool.not_true, if_neg Bool.false_ne_true, Reading.val_bind, hopts]
  dsimp only
  rw [if_neg (by rw [hmsg]; decide), if_pos hmsg]
  rfl

/-! ## A server -/

/-- A client without a lease. -/
def client : Dhcp where
  dhcpXID := 0x12345678
  dhcpLeaseExpire := 0
  hostname := []
  hostname_lt := by decide
  ntpAddr := fun _ => 0
  ntpLen := 0
  ipAddress := 0
  ipSubnet := 0xFFFFFFFF
  ipBroadcast := 0
  ipRouter := 0
  ipDNS := 0
  ipID := 0x1234
  mac := [2, 0, 0, 0, 0, 1]
  mac_length := rfl
  seconds := 7

/-- A frame from a server for `client`, which offers 10.0.0.9. -/
def serverFrame (siaddr options : List Byte) : List Byte :=
  client.mac ++ List.replicate 28 0 ++ be16 DHCP_PORT_SRV ++ be16 DHCP_PORT_CLI ++ [0, 0, 0, 0] ++
    [2, 1, 6, 0] ++ le32 client.dhcpXID ++ List.replicate 8 0 ++ [10, 0, 0, 9] ++ siaddr ++
    List.replicate 212 0 ++ le32 DHCP_MAGIC ++ options

/-- The frame in memory. -/
def serverMem (siaddr options : List Byte) : Mem Byte :=
  fun i => (serverFrame siaddr options).getD i 0

/-- A lease with two subnets, of which the last counts, and two routers, of which the second is in
it. -/
def leaseItems : List Item :=
  [.option 53 [5], .option 1 [255, 0, 0, 0], .pad, .option 3 [192, 168, 0, 1, 10, 0, 0, 1],
    .option 1 [255, 255, 255, 0], .option 51 [0, 0, 14, 16]]

theorem processFrame_configures_lease :
    let m := serverMem [0, 0, 0, 0] (encode leaseItems ++ [END])
    let flen := OPTIONS + (encode leaseItems ++ [END]).length
    ∃ s' calls, (client.processFrame (fun _ => 0) m flen).val = some (s', calls) ∧
      Configures client m leaseItems s' :=
  (processFrame_configures client _ (serverMem [0, 0, 0, 0] (encode leaseItems ++ [END])) _
    (by decide +kernel)).2.2 leaseItems [] (by decide +kernel) (by decide +kernel)
    (by decide +kernel) (by decide +kernel)

end Dhcp

end Gpsdo.Net
