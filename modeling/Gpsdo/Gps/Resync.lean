import Gpsdo.Gps.Codec

set_option autoImplicit false

/-! # How the parser finds a message behind garbage

A first sync byte that is not followed by the second one is dropped together with the byte that came
in its place. So of a run of `B5` in front of a message the parser takes two at a time, and misses
the message when their number is odd.
-/

namespace Gpsdo.Gps

open Net

variable {g : Receiver} {env : Env} {byte : Byte} {msg garbage : List Byte}
  {stream : List (Env × Byte)}

/-- The number of bytes `B5` at the end. -/
def syncRun (bytes : List Byte) : ℕ := (bytes.reverse.takeWhile (· == 0xB5)).length

@[simp] theorem syncRun_concat (bytes : List Byte) (byte : Byte) :
    syncRun (bytes ++ [byte]) = if byte = 0xB5 then syncRun bytes + 1 else 0 := by
  unfold syncRun
  rw [List.reverse_append, List.reverse_singleton, List.singleton_append, List.takeWhile_cons]
  by_cases hb : byte = 0xB5
  · simp [hb]
  · rw [if_neg hb, beq_eq_false_iff_ne.mpr hb]
    rfl

/-- The sync bytes are nowhere in the garbage. -/
def NoSync (bytes : List Byte) : Prop := ¬ [0xB5, 0x62] <:+: bytes

/-- Behind the garbage the parser is half-way in the sync bytes after an odd run of `B5`. -/
structure Skipped (p : Parser) (garbage : List Byte) : Prop where
  sound : p.Sound
  half : p.lenUBX = syncRun garbage % 2

/-- A byte of garbage. -/
theorem Skipped.turn {p p' : Parser} {calls : List (List Byte × Bool)}
    (hclean : NoSync (garbage ++ [byte])) (hp : Skipped p garbage) (ht : Turn p byte p' calls) :
    calls = [] ∧ Skipped p' (garbage ++ [byte]) := by
  have hsound := ht.sound hp.sound
  have hhalf := hp.half
  have hsmall : p.lenUBX < 2 := hhalf ▸ Nat.mod_lt _ (by decide)
  -- half-way, the last byte was `B5`
  have hlast : p.lenUBX ≠ 0 → byte ≠ 0x62 := by
    rintro hne rfl
    rcases List.eq_nil_or_concat garbage with rfl | ⟨front, last, rfl⟩
    · exact hne hhalf
    · rw [List.concat_eq_append] at hclean hhalf
      by_cases hb : last = 0xB5
      · refine hclean ⟨front, [], ?_⟩
        rw [hb]
        simp
      · rw [syncRun_concat, if_neg hb] at hhalf
        exact hne hhalf
  cases ht with
  | append h0 hend h5 hsync => exact absurd (hsync (by omega)) (hlast h0)
  | length h5 => omega
  | badSync h1 hb =>
      refine ⟨rfl, hsound, ?_⟩
      rw [syncRun_concat]
      split
      · show 0 = (syncRun garbage + 1) % 2
        omega
      · rfl
  | finish h0 hend =>
      obtain ⟨-, h8, -⟩ := hp.sound h0
      omega
  | text h0 hb hp' =>
      refine ⟨rfl, hsound, ?_⟩
      rw [syncRun_concat, if_neg hb]
      exact hp'
  | start h0 hb =>
      refine ⟨rfl, hsound, ?_⟩
      rw [syncRun_concat, if_pos hb]
      show 1 = (syncRun garbage + 1) % 2
      omega

theorem NoSync.prefix {front rest : List Byte} (h : NoSync (front ++ rest)) : NoSync front :=
  fun hin => h (hin.trans ⟨[], rest, rfl⟩)

/-- **Garbage** is skipped without a message. -/
theorem feed_garbage (h0 : g.lenUBX = 0) (hclean : NoSync garbage)
    (hs : stream.map Prod.snd = garbage) :
    ubxCalls (feed g stream).reads = [] ∧ Skipped (feed g stream).val.toParser garbage := by
  subst hs
  induction stream using List.reverseRecOn with
  | nil => exact ⟨rfl, fun hne => absurd h0 hne, h0⟩
  | append_singleton stream p ih =>
      rw [List.map_append, List.map_singleton] at hclean ⊢
      obtain ⟨hcalls, hskipped⟩ := ih hclean.prefix
      obtain ⟨hval, hreads⟩ := feed_append g stream [p]
      obtain ⟨hcalls', hskipped'⟩ := hskipped.turn hclean
        (Receiver.parse_turn p.1 p.2 hskipped.sound)
      rw [hval, hreads, ubxCalls_append, hcalls]
      refine ⟨?_, hskipped'⟩
      show ubxCalls ((Receiver.parse p.1 _ p.2).reads ++ []) = []
      rw [List.append_nil]
      exact hcalls'

/-- A message that is handed on is not longer than what has come in. -/
theorem Turn.length_le {p p' : Parser} {calls : List (List Byte × Bool)}
    (ht : Turn p byte p' calls) :
    p'.lenUBX ≤ p.lenUBX + 1 ∧ ∀ c ∈ calls, c.1.length ≤ p.lenUBX + 1 := by
  cases ht with
  | append => exact ⟨le_refl _, by simp⟩
  | length h5 =>
      refine ⟨?_, by simp⟩
      dsimp only
      split <;> omega
  | badSync => exact ⟨Nat.zero_le _, by simp⟩
  | finish =>
      refine ⟨Nat.zero_le _, fun c hc => ?_⟩
      obtain rfl := List.mem_singleton.mp hc
      rw [Parser.length_message]
      exact le_refl _
  | text h0 hb hp' => exact ⟨hp' ▸ Nat.zero_le _, by simp⟩
  | start h0 => exact ⟨by rw [h0], by simp⟩

theorem feed_length_le (hs : g.toParser.Sound) :
    ∀ c ∈ ubxCalls (feed g stream).reads, c.1.length ≤ g.lenUBX + stream.length := by
  induction stream generalizing g with
  | nil => intro c hc; cases hc
  | cons p stream ih =>
      intro c hc
      have ht := Receiver.parse_turn p.1 p.2 hs
      obtain ⟨hgrow, hcalls⟩ := ht.length_le
      have hin : c ∈ ubxCalls (g.parse p.1 p.2).reads ++
          ubxCalls (feed (g.parse p.1 p.2).val stream).reads := by
        rw [← ubxCalls_append]
        exact hc
      rw [List.length_cons]
      rcases List.mem_append.mp hin with hin | hin
      · have := hcalls c hin
        omega
      · have := ih (ht.sound hs) c hin
        omega

/-- Half-way, the first byte of a message is dropped. -/
theorem parse_half (env : Env) (hs : g.toParser.Sound) (h1 : g.lenUBX = 1) (hb : byte ≠ 0x62) :
    ubxCalls (g.parse env byte).reads = [] ∧ (g.parse env byte).val.lenUBX = 0 ∧
      (g.parse env byte).val.lenNEMA = g.lenNEMA := by
  have ht := Receiver.parse_turn env byte hs
  generalize (g.parse env byte).val.toParser = p' at ht ⊢
  generalize ubxCalls (g.parse env byte).reads = calls at ht ⊢
  cases ht with
  | badSync => exact ⟨rfl, rfl, rfl⟩
  | append h0 hend h5 hsync => exact absurd (hsync h1) hb
  | length h5 => omega
  | finish h0 hend =>
      obtain ⟨-, h8, -⟩ := hs h0
      omega
  | text h0 => omega
  | start h0 => omega

/-- An idle parser. -/
def Idle (g : Receiver) : Prop := g.lenUBX = 0 ∧ g.lenNEMA = 0

/-- What a byte starts: the lengths of the two kinds of messages. -/
def starts (byte : Byte) : ℕ × ℕ := if byte = 0x24 then (0, 1) else if byte = 0xB5 then (1, 0) else (0, 0)

theorem parse_idle (env : Env) (byte : Byte) (hg : Idle g) :
    ((g.parse env byte).val.lenUBX, (g.parse env byte).val.lenNEMA) = starts byte := by
  obtain ⟨hu, hn⟩ := hg
  have hparse : (g.parse env byte).val = (g.parseStart byte).val := by
    unfold Receiver.parse
    rw [if_neg (not_not.mpr hu), if_neg (not_not.mpr hn)]
    rfl
  rw [hparse]
  unfold Receiver.parseStart starts
  split
  · exact congrArg (fun n => (n, 1)) hu
  · split
    · rfl
    · exact Prod.ext hu hn

/-- The byte `B5`, and then the byte in place of the second sync byte, is taken as an idle parser
would take it. -/
def Reconsidered (g : Receiver) (env : Env) (byte : Byte) : Prop :=
  let g' := (feed g [(env, 0xB5), (env, byte)]).val
  (g'.lenUBX, g'.lenNEMA) = starts byte

theorem reconsidered_iff (env : Env) (hg : Idle g) (hb : byte ≠ 0x62) :
    Reconsidered g env byte ↔ byte ≠ 0x24 ∧ byte ≠ 0xB5 := by
  have hsound : g.toParser.Sound := fun hne => absurd hg.1 hne
  have hfirst := Receiver.parse_turn env 0xB5 hsound
  have hstart : ((g.parse env 0xB5).val.lenUBX, (g.parse env 0xB5).val.lenNEMA) = (1, 0) :=
    parse_idle env 0xB5 hg
  obtain ⟨hu, hn⟩ := Prod.mk.inj hstart
  obtain ⟨-, hu', hn'⟩ := parse_half env (hfirst.sound hsound) hu hb
  show (((g.parse env 0xB5).val.parse env byte).val.lenUBX,
    ((g.parse env 0xB5).val.parse env byte).val.lenNEMA) = starts byte ↔ _
  rw [hu', hn', hn]
  unfold starts
  by_cases h24 : byte = 0x24
  · rw [if_pos h24]
    simp [h24]
  · by_cases hB5 : byte = 0xB5
    · rw [if_neg h24, if_pos hB5]
      simp [hB5]
    · rw [if_neg h24, if_neg hB5]
      exact iff_of_true rfl ⟨h24, hB5⟩

/-- **When a message behind garbage is found**, and when a byte that fails as second sync byte is
taken for the start of a message. -/
theorem resync_iff (hg : Idle g) (hclean : NoSync garbage) (hm : WellFormed msg)
    (hmax : msg.length ≤ MAX_LENGTH) (hs : stream.map Prod.snd = garbage ++ msg) :
    (ubxCalls (feed g stream).reads = [(msg, true)] ↔ Even (syncRun garbage)) ∧
      ∀ (env : Env) (byte : Byte), byte ≠ 0x62 →
        (Reconsidered g env byte ↔ byte ≠ 0x24 ∧ byte ≠ 0xB5) := by
  refine ⟨?_, fun env byte hb => reconsidered_iff env hg hb⟩
  obtain ⟨front, rest, rfl, hfront, hrest⟩ := List.map_eq_append_iff.mp hs
  obtain ⟨hcalls, hskipped⟩ := feed_garbage hg.1 hclean hfront
  obtain ⟨hval, hreads⟩ := feed_append g front rest
  have hhalf := hskipped.half
  rw [hreads, ubxCalls_append, hcalls, List.nil_append, Nat.even_iff]
  constructor
  · intro hfound
    by_contra hodd
    -- the first byte of the message is lost, and then it is too short
    have h1 : (feed g front).val.lenUBX = 1 := by omega
    have hlen := hm.length
    cases rest with
    | nil =>
        rw [← hrest] at hlen
        simp at hlen
    | cons p rest =>
        obtain ⟨env, byte⟩ := p
        have hb : byte = 0xB5 := by
          have hfirst := hm.first
          rw [← hrest] at hfirst
          exact Option.some.inj hfirst
        have hne : byte ≠ 0x62 := by
          rw [hb]
          decide
        obtain ⟨hnone, hidle, -⟩ := parse_half env hskipped.sound h1 hne
        have hsound : ((feed g front).val.parse env byte).val.toParser.Sound :=
          fun hbusy => absurd hidle hbusy
        have hfound' : ubxCalls (feed ((feed g front).val.parse env byte).val rest).reads =
            [(msg, true)] := by
          have hsplit : ubxCalls ((feed g front).val.parse env byte).reads ++
              ubxCalls (feed ((feed g front).val.parse env byte).val rest).reads =
                [(msg, true)] := by
            rw [← ubxCalls_append]
            exact hfound
          rwa [hnone, List.nil_append] at hsplit
        have hshort := feed_length_le hsound (msg, true) (by rw [hfound']; exact List.mem_singleton_self _)
        rw [hidle, ← hrest] at hshort
        simp at hshort
  · intro heven
    exact (feed_wellFormed (by omega) hm hmax hrest).1

/-! ## Garbage to look at -/

instance (bytes : List Byte) : Decidable (NoSync bytes) := inferInstanceAs (Decidable (¬ _))

/-- The parser at the start. -/
def idleParser : Receiver := (Uart.init fun _ => 0).gps

def pollClock : Message := ⟨0x01, 0x22, []⟩

theorem wellFormed_pollClock : WellFormed pollClock.encode := Message.wellFormed_encode (by decide)

/-- Behind a single `B5` the message is missed. -/
theorem not_resync_oddRun :
    ¬ ∀ (g : Receiver) (garbage msg : List Byte) (stream : List (Env × Byte)), Idle g →
      NoSync garbage → WellFormed msg → msg.length ≤ MAX_LENGTH →
      stream.map Prod.snd = garbage ++ msg →
      ubxCalls (feed g stream).reads = [(msg, true)] ∧
        ∀ (env : Env) (byte : Byte), byte ≠ 0x62 → Reconsidered g env byte := by
  intro hfind
  have hfound := (hfind idleParser [0xB5] pollClock.encode (streamOf ([0xB5] ++ pollClock.encode))
    ⟨rfl, rfl⟩ (by decide) wellFormed_pollClock (by decide) (map_streamOf _)).1
  revert hfound
  decide +kernel

/-- Behind a line that is cut off by two of them it is found. -/
theorem resync_iff_evenRun :
    ubxCalls (feed idleParser
      (streamOf ([0x24, 0x41, 0xB5, 0xB5] ++ pollClock.encode))).reads =
        [(pollClock.encode, true)] :=
  (resync_iff (show Idle idleParser from ⟨rfl, rfl⟩)
    (show NoSync [0x24, 0x41, 0xB5, 0xB5] by decide)
    wellFormed_pollClock (by decide) (map_streamOf _)).1.mpr (by decide)

end Gpsdo.Gps
