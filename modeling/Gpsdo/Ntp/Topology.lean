import Gpsdo.Basic.Attract
import Gpsdo.Basic.Numeral
import Gpsdo.Ntp.Regression

set_option autoImplicit false

/-! # The nodes of the temperature compensation (`lib/ntp/tcmp.cpp`)

The samples of the compensation are kept in the nodes of a self-organizing map. Each sample moves
the nearest node, and its neighbours less. The nodes stay in the order of their temperatures, over
power cycles too, so that enough weight means enough different temperatures, and every fit that is
published is one of least squares. The numbers are real here.
-/

namespace Gpsdo.Ntp

open Tcmp Numeral

namespace Regression

/-! ## The map -/

/-- The functions of the C library are those on the real numbers, but for what is finite. -/
structure IsReal (libm : Libm ℝ) : Prop where
  abs : libm.abs = fun x => |x|
  exp : libm.exp = Real.exp
  sqrt : libm.sqrt = Real.sqrt

/-- The nodes are in the order of their temperatures, and their weights are parts of one. -/
structure Ordered (som : Nodes ℝ) : Prop where
  temp : StrictMono fun i => (som i).temp
  weight : ∀ i, 0 ≤ (som i).weight ∧ (som i).weight < 1

/-- The steps between two nodes. -/
def distance (b i : Fin SOM_NODE_CNT) : Fin SOM_NODE_CNT := if i < b then b - i else i - b

theorem val_distance (b i : Fin SOM_NODE_CNT) :
    (distance b i : ℕ) = if i < b then (b : ℕ) - i else (i : ℕ) - b := by
  unfold distance
  split
  · exact Fin.sub_val_of_le (le_of_lt ‹_›)
  · exact Fin.sub_val_of_le (not_lt.mp ‹_›)

/-- The neighbour weights of `loadSom` -/
noncomputable def neighbour (d : ℕ) : ℝ := Real.exp (-2 * (d * d : ℕ))

theorem neighbour_anti {d d' : ℕ} (h : d ≤ d') : neighbour d' ≤ neighbour d := by
  unfold neighbour
  refine Real.exp_le_exp.mpr ?_
  have hsq : ((d * d : ℕ) : ℝ) ≤ (d' * d' : ℕ) := Nat.cast_le.mpr (Nat.mul_le_mul h h)
  linarith

theorem neighbour_le_one (d : ℕ) : neighbour d ≤ 1 := by
  unfold neighbour
  refine Real.exp_le_one_iff.mpr ?_
  have hsq : (0 : ℝ) ≤ (d * d : ℕ) := Nat.cast_nonneg _
  linarith

/-- The part of its way that a node goes. -/
noncomputable def part (alpha : ℝ) (b i : Fin SOM_NODE_CNT) : ℝ :=
  alpha * SOM_RATE * neighbour (distance b i)

theorem decreasingFrom_part {alpha : ℝ} (h0 : 0 ≤ alpha) (h1 : alpha ≤ 1)
    (b : Fin SOM_NODE_CNT) : DecreasingFrom (part alpha b) b := by
  have hpos : (0 : ℝ) ≤ SOM_RATE := by norm_num [SOM_RATE]
  have hrate : 0 ≤ alpha * SOM_RATE := mul_nonneg h0 hpos
  have hrate' : alpha * SOM_RATE < 1 :=
    (mul_le_of_le_one_left hpos h1).trans_lt (by norm_num [SOM_RATE])
  have hmono : ∀ i j, distance b i ≤ distance b j → part alpha b j ≤ part alpha b i :=
    fun i j h => mul_le_mul_of_nonneg_left (neighbour_anti h) hrate
  refine ⟨fun i => mul_nonneg hrate (Real.exp_nonneg _), fun i => ?_, fun i j hbi hij => ?_,
    fun i j hij hjb => ?_⟩
  · exact (mul_le_of_le_one_right hrate (neighbour_le_one _)).trans_lt hrate'
  · refine hmono i j (Fin.le_def.mpr ?_)
    rw [val_distance, val_distance, if_neg (not_lt.mpr hbi), if_neg (not_lt.mpr (hbi.trans hij))]
    exact Nat.sub_le_sub_right hij b
  · refine hmono j i (Fin.le_def.mpr ?_)
    rw [val_distance, val_distance]
    split <;> split <;> omega

/-- The loop ends with a node that no other one is nearer than. -/
theorem nearest_le {libm : Libm ℝ} (hlibm : IsReal libm) (som : Nodes ℝ) (temp : ℝ)
    (j : Fin SOM_NODE_CNT) :
    |temp - (som (nearest libm som temp)).temp| ≤ |temp - (som j).temp| := by
  unfold nearest
  rw [hlibm.abs]
  obtain ⟨hr, hle, hall⟩ := foldl_least (fun i : Fin SOM_NODE_CNT => |temp - (som i).temp|)
    (List.finRange SOM_NODE_CNT).tail (0, |temp - (som 0).temp|) rfl
  refine hr.le.trans ?_
  by_cases h0 : j = 0
  · rw [h0]
    exact hle
  · refine hall j ?_
    have hmem := List.mem_finRange j
    rw [show List.finRange SOM_NODE_CNT = 0 :: (List.finRange SOM_NODE_CNT).tail from rfl] at hmem
    exact (List.mem_cons.mp hmem).resolve_left h0

/-- Without a residual the accumulator takes what is added, exactly. -/
theorem accumulate_zero (accumulator delta : ℝ) :
    accumulate accumulator 0 delta = (accumulator + delta, 0) := by
  unfold accumulate
  ext
  · show accumulator + (0 + delta) = _
    ring
  · show 0 + (delta - (accumulator + (0 + delta) - accumulator)) = (0 : ℝ)
    ring

/-! ## A sample -/

/-- What is known of the map: the nodes in memory and in the EEPROM are in order unless they were
never written, the residuals are zero, and the neighbour weights are those of `loadSom`. -/
structure SomInv (libm : Libm ℝ) (s : Regression ℝ) : Prop where
  somNode : libm.isfinite (s.somNode 0).temp = true → Ordered s.somNode
  eeprom : libm.isfinite (s.eeprom 0).temp = true → Ordered s.eeprom
  somResidual : s.somResidual = fun _ => ⟨0, 0, 0⟩
  somNW : s.somNW = fun i => neighbour i.val

variable {libm : Libm ℝ} {s s' : Regression ℝ}

theorem ordered_seedSom (temp comp : ℝ) : Ordered (seedSom temp comp) where
  temp := by
    intro i j hij
    have hlt : (((i.val : ℤ) - (SOM_NODE_CNT / 2 : ℕ) : ℤ) : ℝ) <
        ((j.val : ℤ) - (SOM_NODE_CNT / 2 : ℕ) : ℤ) := by
      have hval := Fin.lt_def.mp hij
      exact_mod_cast (by omega :
        ((i.val : ℤ) - (SOM_NODE_CNT / 2 : ℕ) : ℤ) < (j.val : ℤ) - (SOM_NODE_CNT / 2 : ℕ))
    have hscale := mul_lt_mul_of_pos_left hlt (by norm_num : (0 : ℝ) < 0.1)
    exact add_lt_add_right hscale temp
  weight := fun i => ⟨le_refl _, zero_lt_one⟩

/-- A sample attracts each of the three numbers of a node. -/
theorem updateSom_somNode (hi : SomInv libm s)
    (hfinite : libm.isfinite (s.somNode 0).temp = true) (temp comp alpha : ℝ)
    (i : Fin SOM_NODE_CNT) :
    let move := attract (part alpha (nearest libm s.somNode temp))
    (s.updateSom libm temp comp alpha).somNode i =
        ⟨move temp (fun i => (s.somNode i).temp) i, move comp (fun i => (s.somNode i).comp) i,
          move 1 (fun i => (s.somNode i).weight) i⟩ ∧
      (s.updateSom libm temp comp alpha).somResidual i = ⟨0, 0, 0⟩ := by
  intro move
  unfold updateSom
  rw [hfinite, if_neg (by decide)]
  dsimp only
  rw [hi.somResidual, hi.somNW]
  dsimp only
  rw [accumulate_zero, accumulate_zero, accumulate_zero]
  exact ⟨rfl, rfl⟩

/-- A sample with enough weight seeds nodes that were never written. -/
theorem updateSom_seeds {K : Type} [Number K] {libm : Libm K} {s : Regression K}
    (hblank : libm.isfinite (s.somNode 0).temp = false) (temp comp : K) {alpha : K}
    (h : 0.5 ≤ alpha) :
    s.updateSom libm temp comp alpha = { s with somNode := seedSom temp comp } := by
  unfold updateSom
  rw [hblank, if_pos (by decide), if_pos h]

theorem updateSom_keeps {K : Type} [Number K] (libm : Libm K) (s : Regression K)
    (temp comp alpha : K) :
    (s.updateSom libm temp comp alpha).eeprom = s.eeprom ∧
      (s.updateSom libm temp comp alpha).somNW = s.somNW := by
  unfold updateSom
  split
  · split <;> exact ⟨rfl, rfl⟩
  · exact ⟨rfl, rfl⟩

/-- **A sample** keeps the order of the nodes. -/
theorem SomInv.updateSom (hlibm : IsReal libm) (hi : SomInv libm s) (temp comp : ℝ) {alpha : ℝ}
    (h0 : 0 ≤ alpha) (h1 : alpha ≤ 1) : SomInv libm (s.updateSom libm temp comp alpha) := by
  obtain ⟨heeprom, hnw⟩ := updateSom_keeps libm s temp comp alpha
  by_cases hfinite : libm.isfinite (s.somNode 0).temp = true
  · have hspec := updateSom_somNode hi hfinite temp comp alpha
    obtain ⟨htemp, hweight⟩ := hi.somNode hfinite
    have hparts := decreasingFrom_part h0 h1 (nearest libm s.somNode temp)
    refine ⟨fun _ => ⟨?_, fun i => ?_⟩, by rw [heeprom]; exact hi.eeprom,
      funext fun i => (hspec i).2, hnw.trans hi.somNW⟩
    · have hmoved := strictMono_attract htemp (nearest_le hlibm s.somNode temp) hparts
      intro i j hij
      dsimp only
      rw [(hspec i).1, (hspec j).1]
      exact hmoved hij
    · rw [(hspec i).1]
      obtain ⟨hlo, hhi⟩ := hweight i
      exact ⟨(attract_mem_Icc (x := fun i => (s.somNode i).weight) (v := 1)
        ⟨hparts.nonneg i, (hparts.lt_one i).le⟩ ⟨hlo, hhi.le⟩ ⟨zero_le_one, le_refl 1⟩).1,
        attract_lt (x := fun i => (s.somNode i).weight) (hparts.lt_one i) hhi⟩
  · -- the nodes were never written; a sample with enough weight seeds them
    have hkeep : (s.updateSom libm temp comp alpha).somNode = seedSom temp comp ∨
        (s.updateSom libm temp comp alpha).somNode = s.somNode := by
      unfold Regression.updateSom
      rw [Bool.not_eq_true] at hfinite
      rw [hfinite, if_pos (by decide)]
      split
      · exact .inl rfl
      · exact .inr rfl
    have hresidual : (s.updateSom libm temp comp alpha).somResidual = s.somResidual := by
      unfold Regression.updateSom
      rw [Bool.not_eq_true] at hfinite
      rw [hfinite, if_pos (by decide)]
      split <;> rfl
    refine ⟨fun h => ?_, by rw [heeprom]; exact hi.eeprom, hresidual.trans hi.somResidual,
      hnw.trans hi.somNW⟩
    rcases hkeep with hseed | hsame
    · rw [hseed]
      exact ordered_seedSom temp comp
    · rw [hsame] at h
      exact absurd h hfinite

theorem SomInv.update (hlibm : IsReal libm) (hi : SomInv libm s) (tempValue target : ℝ)
    {weight : ℝ} (h0 : 0 ≤ weight) (h1 : weight ≤ 1) (now : BitVec 32) :
    SomInv libm (s.update libm tempValue target weight now) := by
  have hsample := hi.updateSom hlibm tempValue target h0 h1
  have hsaved : ∀ t : Regression ℝ, SomInv libm t →
      SomInv libm (if TCMP_SAVE_INTV < now - t.tcmpSaved then
        { t with tcmpSaved := now, eeprom := t.somNode } else t) := by
    intro t ht
    split
    · exact ⟨ht.somNode, ht.somNode, ht.somResidual, ht.somNW⟩
    · exact ht
  have hi := hsaved _ hsample
  unfold Regression.update
  dsimp only
  generalize (if TCMP_SAVE_INTV < _ then _ else _ : Regression ℝ) = t at hi ⊢
  split
  · exact ⟨hi.somNode, hi.eeprom, hi.somResidual, hi.somNW⟩
  · exact ⟨hi.somNode, hi.eeprom, hi.somResidual, hi.somNW⟩

/-! ## Power cycles -/

/-- The actions of the regression, and power cycles. -/
inductive DeviceAction (K : Type)
  | act (a : RegressionAction K)
  | powerCycle

/-- After a power cycle `tcmp::init` loads the nodes from the EEPROM. -/
def deviceStep {K : Type} [Number K] (libm : Libm K) (s : Regression K) :
    DeviceAction K → Option (Regression K)
  | .act a => s.step libm a
  | .powerCycle => some (init libm s.eeprom)

/-- The weights of the samples are those of an average. -/
def DeviceAction.Weighted : DeviceAction ℝ → Prop
  | .act (.update _ _ weight _) => 0 ≤ weight ∧ weight ≤ 1
  | _ => True

theorem somInv_init (hlibm : IsReal libm) {eeprom : Nodes ℝ}
    (heeprom : libm.isfinite (eeprom 0).temp = true → Ordered eeprom) :
    SomInv libm (init libm eeprom) where
  somNode := heeprom
  eeprom := heeprom
  somResidual := rfl
  somNW := by
    funext i
    unfold init neighbour
    dsimp only
    rw [hlibm.exp]
    congr 1
    show -2.0 * (((i.val * i.val : ℕ) : ℤ) : ℝ) = _
    push_cast
    norm_num

/-- What the regression does not write. -/
structure SameMap {K : Type} (s s' : Regression K) : Prop where
  somNode : s'.somNode = s.somNode
  eeprom : s'.eeprom = s.eeprom
  somResidual : s'.somResidual = s.somResidual
  somNW : s'.somNW = s.somNW

theorem steps_sameMap {K : Type} [Number K] (libm : Libm K) (k : Fin STEP_CNT)
    (s : Regression K) : SameMap s (steps libm k s).1 := by
  match k with
  | 0 => exact ⟨rfl, rfl, rfl, rfl⟩
  | 1 =>
      show SameMap s s.step1.1
      unfold step1
      split
      · exact ⟨rfl, rfl, rfl, rfl⟩
      · split <;> exact ⟨rfl, rfl, rfl, rfl⟩
  | 2 => exact ⟨rfl, rfl, rfl, rfl⟩
  | 3 => exact ⟨rfl, rfl, rfl, rfl⟩
  | 4 => exact ⟨rfl, rfl, rfl, rfl⟩
  | 5 => exact ⟨rfl, rfl, rfl, rfl⟩
  | 6 => exact ⟨rfl, rfl, rfl, rfl⟩
  | 7 => exact ⟨rfl, rfl, rfl, rfl⟩
  | 8 =>
      show SameMap s (s.step8 libm).1
      unfold step8
      dsimp only
      split <;> exact ⟨rfl, rfl, rfl, rfl⟩

theorem runRegression_sameMap {K : Type} [Number K] (libm : Libm K) (s : Regression K) :
    SameMap s (s.runRegression libm) := by
  unfold runRegression
  split
  · have hmap := steps_sameMap libm ⟨s.regressionStep, ‹_›⟩ s
    dsimp only
    split <;> exact ⟨hmap.somNode, hmap.eeprom, hmap.somResidual, hmap.somNW⟩
  · exact ⟨rfl, rfl, rfl, rfl⟩

theorem SomInv.of_sameMap (hi : SomInv libm s) (h : SameMap s s') : SomInv libm s' where
  somNode := by rw [h.somNode]; exact hi.somNode
  eeprom := by rw [h.eeprom]; exact hi.eeprom
  somResidual := h.somResidual.trans hi.somResidual
  somNW := h.somNW.trans hi.somNW

theorem SomInv.step (hlibm : IsReal libm) (hi : SomInv libm s) {a : RegressionAction ℝ}
    (ha : (DeviceAction.act a).Weighted) (hs : Regression.step libm s a = some s') :
    SomInv libm s' := by
  cases a with
  | update tempValue target weight now =>
      obtain rfl := Option.some.inj hs
      exact hi.update hlibm tempValue target ha.1 ha.2 now
  | runRegression =>
      unfold Regression.step at hs
      by_cases htasks : s.tasks = 0
      · rw [if_pos htasks] at hs
        cases hs
      · rw [if_neg htasks] at hs
        obtain rfl := Option.some.inj hs
        exact hi.of_sameMap (runRegression_sameMap libm s)

/-- **The map keeps its order** in every run of samples, regression steps and power cycles, from an
EEPROM that was never written: the nodes in memory and those in the EEPROM are strictly in the order
of their temperatures once they are seeded, and their weights are at least 0 and less than 1. -/
theorem topology_of_run (hlibm : IsReal libm) {blank : Nodes ℝ}
    (hblank : libm.isfinite (blank 0).temp = false) {h : List (Regression ℝ × DeviceAction ℝ)}
    (hweight : ∀ p ∈ h, p.2.Weighted) (hrun : Run (deviceStep libm) (init libm blank) h s) :
    (libm.isfinite (s.somNode 0).temp = true → Ordered s.somNode) ∧
      (libm.isfinite (s.eeprom 0).temp = true → Ordered s.eeprom) := by
  have hi : SomInv libm s := by
    refine hrun.invariant_of_forall (I := fun _ s => SomInv libm s) (C := fun _ a => a.Weighted)
      hweight (somInv_init hlibm fun h => absurd h (by rw [hblank]; decide)) ?_
    intro h s a s' hi ha hs
    cases a with
    | act a => exact hi.step hlibm ha hs
    | powerCycle =>
        obtain rfl := Option.some.inj hs
        exact somInv_init hlibm hi.eeprom
  exact ⟨hi.somNode, hi.eeprom⟩

/-- An erased node is at zero here. -/
noncomputable def erasedLibm : Libm ℝ :=
  ⟨fun x => @decide (x ≠ 0) (Classical.dec _), fun x => |x|, Real.exp, Real.sqrt⟩

/-- An erased EEPROM. -/
noncomputable def erased : Regression ℝ := init erasedLibm fun _ => ⟨0, 0, 0⟩

/-- The first sample seeds the nodes and is saved, and the power goes. -/
theorem topology_of_run_powerCycle : ∃ h s, Run (deviceStep erasedLibm) erased h s ∧
    s.somNode = seedSom 20 0 ∧ Ordered s.somNode := by
  have hblank : erasedLibm.isfinite (erased.somNode 0).temp = false := by
    simp [erased, init, erasedLibm]
  -- the sample has enough weight, and the last time of saving is long ago
  have hseeded := updateSom_seeds hblank 20 0 (show (0.5 : ℝ) ≤ 1 by norm_num)
  have hsaved : (erased.update erasedLibm 20 0 1 4000).eeprom = seedSom 20 0 := by
    unfold update
    rw [hseeded]
    have hlate : TCMP_SAVE_INTV < 4000 - erased.tcmpSaved := by
      show TCMP_SAVE_INTV < 4000 - 0
      decide
    dsimp only
    rw [if_pos hlate]
    split <;> rfl
  have hsample : deviceStep erasedLibm erased (.act (.update 20 0 1 4000)) =
    some (erased.update erasedLibm 20 0 1 4000) := rfl
  have hcycle : deviceStep erasedLibm (erased.update erasedLibm 20 0 1 4000) .powerCycle =
      some (init erasedLibm (seedSom 20 0)) := by
    rw [deviceStep, hsaved]
  have hfinite : erasedLibm.isfinite (seedSom (20 : ℝ) 0 0).temp = true := by
    simp [erasedLibm, seedSom]
    norm_num
  have hrun : Run (deviceStep erasedLibm) erased _ _ := .next (.next .start hsample) hcycle
  refine ⟨_, _, hrun, rfl, (topology_of_run ⟨rfl, rfl, rfl⟩ ?_ ?_ hrun).1 hfinite⟩
  · simp [erasedLibm]
  · simp [DeviceAction.Weighted]

end Regression

end Gpsdo.Ntp
