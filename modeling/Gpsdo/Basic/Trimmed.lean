import Mathlib.Tactic

set_option autoImplicit false

/-! # Trimmed clocks

A clock in fixed point that runs at a trimmed rate. Against a reference time `t` it has moved by
`rate / N` for each unit since `ref`, on top of an offset that was booked at `ref`. A reading rounds
the correction down to a unit; an update books the correction of the time since `ref` and carries
the fraction that it rounded away, so that no fraction is ever lost.

The *exact* time of the clock, in units of `1 / N`, is what the readings approximate: an update does
not change it, and a reading is behind it by less than two units.
-/

namespace Gpsdo

/-- A trimmed clock: the offset booked at `ref` with its fraction `rem`, and the rate since. -/
structure Trimmed (N : ℤ) where
  offset : ℤ
  ref : ℤ
  rate : ℤ
  rem : ℤ
  rem_nonneg : 0 ≤ rem
  rem_lt : rem < N

namespace Trimmed

variable {N : ℤ}

/-- The correction at `t`, with a fraction `r` carried in. -/
def corr (c : Trimmed N) (t r : ℤ) : ℤ := (c.rate * (t - c.ref) + r) / N

/-- The fraction that the correction at `t` rounds away. -/
def corrRem (c : Trimmed N) (t r : ℤ) : ℤ := (c.rate * (t - c.ref) + r) % N

/-- The reading at `t`, with a fraction `r` carried in. -/
def read (c : Trimmed N) (t r : ℤ) : ℤ := t + c.offset + c.corr t r

/-- The booked offset with its fraction, in units of `1 / N`. -/
def booked (c : Trimmed N) : ℤ := c.offset * N + c.rem

/-- The exact time of the clock at `t`, in units of `1 / N`. -/
def exact (c : Trimmed N) (t : ℤ) : ℤ := t * N + c.booked + c.rate * (t - c.ref)

/-- Book the correction of the time up to `t` and go on with a rate. -/
def trim (c : Trimmed N) (hN : 0 < N) (t rate : ℤ) : Trimmed N where
  offset := c.offset + c.corr t c.rem
  ref := t
  rate := rate
  rem := c.corrRem t c.rem
  rem_nonneg := Int.emod_nonneg _ hN.ne'
  rem_lt := Int.emod_lt_of_pos _ hN

theorem corr_add_corrRem (c : Trimmed N) (t r : ℤ) :
    c.corr t r * N + c.corrRem t r = c.rate * (t - c.ref) + r := by
  rw [mul_comm]
  exact Int.mul_ediv_add_emod _ _

/-! ## Updates -/

/-- **No rounding error is booked.** -/
theorem booked_trim (c : Trimmed N) (hN : 0 < N) (t rate : ℤ) :
    (c.trim hN t rate).booked = c.booked + c.rate * (t - c.ref) := by
  have h := c.corr_add_corrRem t c.rem
  unfold booked trim
  linarith

/-- An update does not change the exact time. -/
theorem exact_trim (c : Trimmed N) (hN : 0 < N) (t rate : ℤ) :
    (c.trim hN t rate).exact t = c.exact t := by
  unfold exact
  rw [booked_trim]
  simp only [trim]
  ring

theorem exact_sub (c : Trimmed N) (t t' : ℤ) :
    c.exact t' - c.exact t = (N + c.rate) * (t' - t) := by
  unfold exact
  ring

/-- An update at `ref` changes nothing but the rate. -/
theorem trim_ref (c : Trimmed N) (hN : 0 < N) (rate : ℤ) :
    c.trim hN c.ref rate = { c with rate := rate } := by
  have hrem : c.rem % N = c.rem := Int.emod_eq_of_lt c.rem_nonneg c.rem_lt
  have hdiv : c.rem / N = 0 := Int.ediv_eq_zero_of_lt c.rem_nonneg c.rem_lt
  simp [trim, corr, corrRem, hrem, hdiv]

/-! ## Readings -/

/-- What a reading leaves out. -/
theorem read_eq (c : Trimmed N) (t r : ℤ) :
    c.read t r * N = c.exact t + r - c.rem - c.corrRem t r := by
  have h := c.corr_add_corrRem t r
  unfold read exact booked
  linarith

/-- A reading is never ahead of the exact time. -/
theorem read_le (c : Trimmed N) (hN : 0 < N) (t : ℤ) : c.read t 0 * N ≤ c.exact t := by
  have h := c.read_eq t 0
  have h0 := c.rem_nonneg
  have h1 : 0 ≤ c.corrRem t 0 := Int.emod_nonneg _ hN.ne'
  omega

/-- A reading is behind the exact time by less than two units. -/
theorem lt_read (c : Trimmed N) (hN : 0 < N) (t : ℤ) : c.exact t < (c.read t 0 + 2) * N := by
  have h := c.read_eq t 0
  have h0 := c.rem_lt
  have h1 : c.corrRem t 0 < N := Int.emod_lt_of_pos _ hN
  linarith

/-- An update moves the reading by at most one unit. -/
theorem abs_read_trim_sub (c : Trimmed N) (hN : 0 < N) (t rate : ℤ) :
    |(c.trim hN t rate).read t 0 - c.read t 0| ≤ 1 := by
  have h1 := c.read_le hN t
  have h2 := c.lt_read hN t
  have h3 := (c.trim hN t rate).read_le hN t
  have h4 := (c.trim hN t rate).lt_read hN t
  rw [exact_trim] at h3 h4
  rw [abs_le]
  constructor
  · by_contra hlt
    nlinarith
  · by_contra hlt
    nlinarith

/-! ## Two clocks in a row

The second clock runs on the readings of the first. A reading of both starts without a fraction and
carries the one of the first clock into the second. The rates are at most one half. -/

/-- The reading of two clocks in a row. -/
def read₂ (c d : Trimmed N) (t : ℤ) : ℤ := d.read (c.read t 0) (c.corrRem t 0)

/-- The exact time of two clocks in a row. -/
def exact₂ (c d : Trimmed N) (t : ℤ) : ℤ :=
  c.exact t + d.booked + d.rate * (c.read t 0 - d.ref)

/-- The fractions that a reading of two clocks leaves out. -/
theorem read₂_eq (c d : Trimmed N) (t : ℤ) :
    c.read₂ d t * N =
      c.exact₂ d t - c.rem - d.rem - d.corrRem (c.read t 0) (c.corrRem t 0) := by
  have h1 := d.read_eq (c.read t 0) (c.corrRem t 0)
  have h2 := c.read_eq t 0
  unfold read₂ exact₂
  rw [h1]
  unfold exact
  unfold exact at h2
  linarith

theorem read₂_le (c d : Trimmed N) (hN : 0 < N) (t : ℤ) : c.read₂ d t * N ≤ c.exact₂ d t := by
  have h := c.read₂_eq d t
  have h0 := c.rem_nonneg
  have h1 := d.rem_nonneg
  have h2 : 0 ≤ d.corrRem (c.read t 0) (c.corrRem t 0) := Int.emod_nonneg _ hN.ne'
  omega

theorem lt_read₂ (c d : Trimmed N) (hN : 0 < N) (t : ℤ) :
    c.exact₂ d t < (c.read₂ d t + 3) * N := by
  have h := c.read₂_eq d t
  have h0 := c.rem_lt
  have h1 := d.rem_lt
  have h2 : d.corrRem (c.read t 0) (c.corrRem t 0) < N := Int.emod_lt_of_pos _ hN
  linarith

/-- An update of the second clock does not change the exact time. -/
theorem exact₂_trim_right (c d : Trimmed N) (hN : 0 < N) (t rate : ℤ) :
    c.exact₂ (d.trim hN (c.read t 0) rate) t = c.exact₂ d t := by
  unfold exact₂
  rw [booked_trim]
  simp only [trim]
  ring

/-- An update of the first clock moves the second by the change of the reading between them. -/
theorem exact₂_trim_left (c d : Trimmed N) (hN : 0 < N) (hd : |2 * d.rate| ≤ N) (t rate : ℤ) :
    2 * c.exact₂ d t ≤ 2 * (c.trim hN t rate).exact₂ d t + N := by
  have hx := c.exact_trim hN t rate
  have hmove : |2 * d.rate * ((c.trim hN t rate).read t 0 - c.read t 0)| ≤ N * 1 := by
    rw [abs_mul]
    exact mul_le_mul hd (c.abs_read_trim_sub hN t rate) (abs_nonneg _) hN.le
  have hlow := (abs_le.mp hmove).1
  unfold exact₂
  rw [hx]
  linarith

/-- A second update at the same time does not move the second clock. -/
theorem exact₂_trim_ref (c d : Trimmed N) (hN : 0 < N) (rate : ℤ) :
    (c.trim hN c.ref rate).exact₂ d c.ref = c.exact₂ d c.ref := by
  rw [trim_ref]
  simp [exact₂, exact, read, corr, booked]

/-- The exact time of the second clock runs at a quarter of the rate at least. -/
theorem exact₂_mono (c d : Trimmed N) (hN : 0 < N) (hc : |2 * c.rate| ≤ N)
    (hd : |2 * d.rate| ≤ N) {t t' : ℤ} (ht : t ≤ t') :
    4 * c.exact₂ d t + (t' - t) * N ≤ 4 * c.exact₂ d t' + 2 * N := by
  have hx := c.exact_sub t t'
  have h1 := c.read_eq t 0
  have h2 := c.read_eq t' 0
  -- the first clock runs at half of the rate at least
  have hfirst : (t' - t) * N ≤ 2 * (c.exact t' - c.exact t) := by
    rw [hx]
    have hc' := (abs_le.mp hc).1
    nlinarith
  -- the reading between the clocks follows it up to a unit
  have hround : |(c.read t' 0 - c.read t 0) * N - (c.exact t' - c.exact t)| ≤ N := by
    have r1 : 0 ≤ c.corrRem t 0 := Int.emod_nonneg _ hN.ne'
    have r2 : c.corrRem t 0 < N := Int.emod_lt_of_pos _ hN
    have r3 : 0 ≤ c.corrRem t' 0 := Int.emod_nonneg _ hN.ne'
    have r4 : c.corrRem t' 0 < N := Int.emod_lt_of_pos _ hN
    rw [sub_mul, h1, h2, abs_le]
    constructor <;> linarith
  have hloss : |2 * d.rate * ((c.read t' 0 - c.read t 0) * N - (c.exact t' - c.exact t))| ≤
      N * N := by
    rw [abs_mul]
    exact mul_le_mul hd hround (abs_nonneg _) hN.le
  have hgain : 0 ≤ (N + 2 * d.rate) * (c.exact t' - c.exact t) := by
    refine mul_nonneg ?_ ?_
    · have hd' := (abs_le.mp hd).1
      linarith
    · have : 0 ≤ (t' - t) * N := mul_nonneg (by linarith) hN.le
      linarith
  have hscaled : N * (4 * c.exact₂ d t + (t' - t) * N) ≤ N * (4 * c.exact₂ d t' + 2 * N) := by
    have hlow := (abs_le.mp hloss).1
    unfold exact₂
    nlinarith
  exact le_of_mul_le_mul_left hscaled hN

end Trimmed

end Gpsdo
