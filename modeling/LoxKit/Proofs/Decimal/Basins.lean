import LoxKit.Decimal.Shortest
import LoxKit.Proofs.Decimal.Parts
import Mathlib.Algebra.Order.Field.Power
import Mathlib.Data.Rat.Cast.Order
import Mathlib.Tactic.Linarith
import Mathlib.Tactic.Positivity
import Mathlib.Tactic.Ring

/-!
# The shortest decimal of a number is that of no other

The reals that a number is the nearest one to make up an interval around it, and these intervals do
not overlap (`Decimal.near_unique`): where two of them meet, the point between them goes to the even
mantissa.  The shortest decimal of a number lies in the interval of the number, for the finest grid
that is tried has a point there (`Decimal.near_shortest`).

The ends of the intervals lie a quarter or half of the distance of the numbers away from these, so
they are counted in steps of `2 ^ (q - 2)`.
-/
namespace LoxKit
namespace Decimal

open Binary64

/-- The value of a decimal number. -/
def toRat (d : Decimal) : ℚ := d.digits * 10 ^ d.exponent

/-- How many steps the lower end of its basin lies below a number. -/
def margin (m : Nat) (q : Int) : Nat := if m = hiddenBit ∧ q ≠ leastExponent then 1 else 2

theorem margin_pos (m : Nat) (q : Int) : 0 < margin m q := by
  unfold margin
  split <;> decide

theorem margin_le (m : Nat) (q : Int) : margin m q ≤ 2 := by
  unfold margin
  split <;> decide

variable {m n c : Nat} {p q r : Int} {v : ℚ}

/-- A number of steps. -/
def steps (k : Nat) (q : Int) : ℚ := k * 2 ^ (q - 2)

theorem steps_lt_steps {k l : Nat} : steps k q < steps l q ↔ k < l := by
  unfold steps
  rw [mul_lt_mul_iff_of_pos_right (by positivity), Nat.cast_lt]

/-- **The reals that `m · 2^q` is nearest to**, a real between two numbers going to the even
mantissa. -/
def Near (m : Nat) (q : Int) (v : ℚ) : Prop :=
  steps (4 * m - margin m q) q < v ∧ v < steps (4 * m + 2) q ∨
    m % 2 = 0 ∧ (v = steps (4 * m - margin m q) q ∨ v = steps (4 * m + 2) q)

theorem low_lt_high : steps (4 * m - margin m q) q < steps (4 * m + 2) q :=
  steps_lt_steps.mpr (by omega)

/-- The lower end belongs to an even mantissa. -/
theorem Near.low_le (h : Near m q v) :
    steps (4 * m - margin m q) q ≤ v ∧ (steps (4 * m - margin m q) q = v → m % 2 = 0) := by
  rcases h with ⟨hlow, -⟩ | ⟨heven, rfl | rfl⟩
  · exact ⟨hlow.le, fun h => absurd h hlow.ne⟩
  · exact ⟨le_rfl, fun _ => heven⟩
  · exact ⟨low_lt_high.le, fun _ => heven⟩

/-- The upper end belongs to an even mantissa. -/
theorem Near.le_high (h : Near m q v) :
    v ≤ steps (4 * m + 2) q ∧ (v = steps (4 * m + 2) q → m % 2 = 0) := by
  rcases h with ⟨-, hhigh⟩ | ⟨heven, rfl | rfl⟩
  · exact ⟨hhigh.le, fun h => absurd h hhigh.ne⟩
  · exact ⟨low_lt_high.le, fun _ => heven⟩
  · exact ⟨le_rfl, fun _ => heven⟩

/-! ## The basin of a number on a grid -/

/-- Positive and negative powers, cleared of denominators. -/
theorem zpow_mul_toNat {b : ℚ} (hb : b ≠ 0) (k : Int) : b ^ k * b ^ (-k).toNat = b ^ k.toNat := by
  rw [← zpow_natCast, ← zpow_natCast, ← zpow_add₀ hb]
  congr 1
  omega

/-- How long a step is, in the units in which a basin is measured. -/
def stepSize (q p : Int) : Nat := Nat.pow 2 (q - 2).toNat * Nat.pow 10 (-p).toNat

/-- How far apart the points of a grid are, in these units. -/
def gridSize (q p : Int) : Nat := Nat.pow 2 (2 - q).toNat * Nat.pow 10 p.toNat

theorem gridSize_pos : 0 < gridSize q p :=
  Nat.mul_pos (Nat.pow_pos (by decide)) (Nat.pow_pos (by decide))

/-- What one unit is worth. -/
def unit (q p : Int) : ℚ := 10 ^ p / gridSize q p

theorem unit_pos : 0 < unit q p :=
  div_pos (by positivity) (Nat.cast_pos.mpr gridSize_pos)

theorem toRat_eq_mul_unit (q : Int) : toRat ⟨c, p⟩ = (c * gridSize q p : Nat) * unit q p := by
  have hsize : (gridSize q p : ℚ) ≠ 0 := Nat.cast_ne_zero.mpr gridSize_pos.ne'
  rw [unit, Nat.cast_mul, mul_assoc, mul_div_cancel₀ _ hsize]
  rfl

theorem steps_eq_mul_unit (k : Nat) (p : Int) :
    steps k q = (k * stepSize q p : Nat) * unit q p := by
  have hsize : (gridSize q p : ℚ) ≠ 0 := Nat.cast_ne_zero.mpr gridSize_pos.ne'
  have hten := zpow_mul_toNat (b := 10) (by norm_num) p
  have htwo := zpow_mul_toNat (b := 2) (by norm_num) (q - 2)
  rw [show -(q - 2) = 2 - q by omega] at htwo
  have hcleared : (2 : ℚ) ^ (q - 2) * gridSize q p = stepSize q p * 10 ^ p := by
    push_cast [gridSize, stepSize, Nat.pow_eq]
    rw [← hten, ← htwo]
    ring
  rw [steps, unit, Nat.cast_mul, mul_assoc, mul_div_assoc', ← hcleared,
    mul_div_cancel_right₀ _ hsize]

theorem Basin.holds_iff {b : Basin} : b.holds c ↔
    b.low < c * b.denominator ∧ c * b.denominator < b.high ∨
      b.closed ∧ (c * b.denominator = b.low ∨ c * b.denominator = b.high) := by
  simp [holds]

/-- **What lies in the basin of a number on a grid is nearest to the number.** -/
theorem near_of_holds (h : (Basin.of m q p).holds c) : Near m q (toRat ⟨c, p⟩) := by
  have hlt (k l : Nat) : (k : ℚ) * unit q p < l * unit q p ↔ k < l := by
    rw [mul_lt_mul_iff_of_pos_right unit_pos, Nat.cast_lt]
  have heq (k l : Nat) : (k : ℚ) * unit q p = l * unit q p ↔ k = l := by
    rw [mul_left_inj' unit_pos.ne', Nat.cast_inj]
  unfold Near
  rw [toRat_eq_mul_unit q, steps_eq_mul_unit _ p, steps_eq_mul_unit _ p, hlt, hlt, heq, heq]
  rw [Basin.holds_iff] at h
  simpa only [Basin.of, margin, stepSize, gridSize, decide_eq_true_eq] using h

/-! ## Basins do not overlap -/

/-- Two basins with a point in common, the second of numbers that lie at least as far apart. -/
theorem Near.edge (h : Near m q v) (hn : Near n r v) {k : Nat} (hr : r = q + k) :
    (4 * n - margin n r) * 2 ^ k ≤ 4 * m + 2 ∧
      ((4 * n - margin n r) * 2 ^ k = 4 * m + 2 → m % 2 = 0 ∧ n % 2 = 0) := by
  have hlow : steps (4 * n - margin n r) r = steps ((4 * n - margin n r) * 2 ^ k) q := by
    unfold steps
    rw [hr, show q + k - 2 = (k : Int) + (q - 2) by ring, zpow_add₀ (by norm_num), zpow_natCast]
    push_cast
    ring
  have hle := hn.low_le.1.trans h.le_high.1
  rw [hlow] at hle
  refine ⟨not_lt.mp fun hlt => absurd hle (not_le.mpr (steps_lt_steps.mpr hlt)), fun heq => ?_⟩
  rw [heq] at hlow
  have hv : v = steps (4 * m + 2) q := le_antisymm h.le_high.1 (hlow ▸ hn.low_le.1)
  exact ⟨h.le_high.2 hv, hn.low_le.2 (hlow.trans hv.symm)⟩

/-- **The basins of two numbers have no point in common.** -/
theorem near_unique (hm : Canonical m q) (hn : Canonical n r) (h : Near m q v) (h' : Near n r v) :
    m = n ∧ q = r := by
  wlog hle : q ≤ r generalizing m n q r
  · exact (this hn hm h' h (by omega)).imp Eq.symm Eq.symm
  obtain ⟨k, hr⟩ := Int.eq_ofNat_of_zero_le (show 0 ≤ r - q by omega)
  obtain ⟨hends, hmeet⟩ := h.edge h' (show r = q + k by omega)
  have hmargin := margin_le n r
  rcases Nat.eq_zero_or_pos k with rfl | hk
  · -- the numbers lie equally far apart, so the greater mantissa is the next one
    obtain rfl : r = q := by omega
    obtain ⟨hends', hmeet'⟩ := h'.edge h (show r = r + (0 : Nat) by omega)
    have hmargin' := margin_le m r
    simp only [pow_zero, mul_one] at hends hmeet hends' hmeet'
    omega
  · -- the second mantissa is of full width, and only its least value could come so close
    exfalso
    have hleast : r ≠ leastExponent := by
      have := hm.least_le
      omega
    have hfull : hiddenBit ≤ n := not_lt.mp fun hlt => hleast (hn.full hlt)
    have hcloser : n = hiddenBit → margin n r = 1 := fun h => if_pos ⟨h, hleast⟩
    have hlt := hm.mantissa_lt
    have htwice : (4 * n - margin n r) * 2 ≤ (4 * n - margin n r) * 2 ^ k :=
      Nat.mul_le_mul_left _ (Nat.le_self_pow hk.ne' 2)
    rw [hiddenBit_eq] at hlt hfull hcloser
    omega

/-! ## The search ends in the basin -/

/-- What is chosen on a grid lies in the basin. -/
theorem Basin.holds_of_best? {b : Basin} (h : b.best? = some c) : b.holds c ∧ 0 < c := by
  unfold best? at h
  dsimp only at h
  split at h
  · next hbelow habove =>
    rw [Bool.and_eq_true, decide_eq_true_eq] at hbelow
    split at h <;> cases h
    · exact ⟨hbelow.2, hbelow.1⟩
    · exact ⟨habove, Nat.succ_pos _⟩
  · next hbelow _ =>
    rw [Bool.and_eq_true, decide_eq_true_eq] at hbelow
    cases h
    exact ⟨hbelow.2, hbelow.1⟩
  · next habove =>
    cases h
    exact ⟨habove, Nat.succ_pos _⟩
  · cases h

/-- There is a choice if the whole number below the value lies in the basin. -/
theorem Basin.exists_best? {b : Basin} (hpos : 0 < b.value / b.denominator)
    (h : b.holds (b.value / b.denominator)) : ∃ c, b.best? = some c := by
  unfold best?
  dsimp only
  rw [decide_eq_true hpos, h]
  cases b.holds (b.value / b.denominator + 1) with
  | true => exact ⟨_, (apply_ite some _ _ _).symm⟩
  | false => exact ⟨_, rfl⟩

/-- A grid that is no coarser than a step has a point in the basin. -/
theorem exists_best? (hm : 0 < m) (hfine : (10 : ℚ) ^ p ≤ 2 ^ (q - 2)) :
    ∃ c, (Basin.of m q p).best? = some c := by
  have hle : gridSize q p ≤ stepSize q p := by
    have hpoint := toRat_eq_mul_unit q (c := 1) (p := p)
    have hstep := steps_eq_mul_unit (q := q) 1 p
    simp only [toRat, steps, Nat.cast_one, one_mul] at hpoint hstep
    rw [hpoint, hstep] at hfine
    exact Nat.cast_le.mp (le_of_mul_le_mul_right hfine unit_pos)
  have hgrid := gridSize_pos (q := q) (p := p)
  have hvalue : (Basin.of m q p).value = 4 * m * stepSize q p := rfl
  have hlow : (Basin.of m q p).low = (4 * m - margin m q) * stepSize q p := rfl
  have hhigh : (Basin.of m q p).high = (4 * m + 2) * stepSize q p := rfl
  have hdenominator : (Basin.of m q p).denominator = gridSize q p := rfl
  generalize stepSize q p = step at hle hvalue hlow hhigh
  generalize gridSize q p = grid at hle hgrid hdenominator
  have hmargin := margin_pos m q
  have hbelow : (4 * m - margin m q) * step + step ≤ 4 * m * step := by
    rw [← Nat.succ_mul]
    exact Nat.mul_le_mul_right _ (by omega)
  have habove : 4 * m * step < (4 * m + 2) * step :=
    Nat.mul_lt_mul_of_pos_right (by omega) (by omega)
  have hfloor := Nat.div_mul_le_self (4 * m * step) grid
  have hnext := Nat.lt_div_mul_add hgrid (a := 4 * m * step)
  refine Basin.exists_best? ?_ (Basin.holds_iff.mpr (.inl ?_))
  · rw [hvalue, hdenominator]
    exact Nat.div_pos (by omega) hgrid
  · rw [hvalue, hlow, hhigh, hdenominator]
    omega

/-- The search ends on the first grid with a point in the basin. -/
theorem best?_search (grids : Nat) (h : ∃ k < grids, ∃ c, (Basin.of m q (p - k)).best? = some c) :
    (Basin.of m q (search m q grids p).exponent).best? = some (search m q grids p).digits := by
  induction grids generalizing p with
  | zero =>
    obtain ⟨k, hk, -⟩ := h
    exact absurd hk (Nat.not_lt_zero k)
  | succ grids ih =>
    unfold search
    cases hbest : (Basin.of m q p).best? with
    | some c => exact hbest
    | none =>
      obtain ⟨k, hk, c, hc⟩ := h
      cases k with
      | zero =>
        rw [Int.natCast_zero, Int.sub_zero, hbest] at hc
        cases hc
      | succ k =>
        refine ih ⟨k, Nat.lt_of_succ_lt_succ hk, c, ?_⟩
        rwa [show p - 1 - k = p - (k + 1 : Nat) by omega]

/-- A power of ten is at most a power of two if their exponents are so in the ratio of `28` to `93`
or `94`. -/
theorem ten_zpow_le (hpos : 0 ≤ p → 94 * p ≤ 28 * r) (hneg : p < 0 → 93 * p ≤ 28 * r) :
    (10 : ℚ) ^ p ≤ 2 ^ r := by
  have hpow (b : ℚ) (k : Int) : (b ^ k) ^ 28 = (b ^ 28) ^ k := by
    rw [← zpow_natCast, ← zpow_natCast, ← zpow_mul, ← zpow_mul, mul_comm]
  refine le_of_pow_le_pow_left₀ (n := 28) (by decide) (by positivity) ?_
  have htwo : ((2 : ℚ) ^ r) ^ 28 = 2 ^ (28 * r) := by
    rw [← zpow_natCast, ← zpow_mul, mul_comm]
    rfl
  rw [hpow, htwo]
  rcases lt_or_ge p 0 with hp | hp
  · have hinv : ((2 : ℚ) ^ 93) ^ (-p) ≤ (10 ^ 28) ^ (-p) :=
      zpow_le_zpow_left₀ (by omega) (by norm_num) (by norm_num)
    rw [zpow_neg, zpow_neg] at hinv
    calc ((10 : ℚ) ^ 28) ^ p ≤ (2 ^ 93) ^ p := (inv_le_inv₀ (by positivity) (by positivity)).mp hinv
      _ = 2 ^ (93 * p) := by rw [zpow_mul]; norm_cast
      _ ≤ 2 ^ (28 * r) := zpow_le_zpow_right₀ (by norm_num) (hneg hp)
  · calc ((10 : ℚ) ^ 28) ^ p ≤ (2 ^ 94) ^ p :=
          zpow_le_zpow_left₀ hp (by norm_num) (by norm_num)
      _ = 2 ^ (94 * p) := by rw [zpow_mul]; norm_cast
      _ ≤ 2 ^ (28 * r) := zpow_le_zpow_right₀ (by norm_num) (hpos hp)

/-- **The finest grid that is tried is no coarser than a step.** -/
theorem fine_grid (h : Canonical m q) : (10 : ℚ) ^ (bound m q - 23) ≤ 2 ^ (q - 2) := by
  have hlog : m.log2 ≤ 52 := by
    rcases Nat.eq_zero_or_pos m with rfl | hm
    · decide
    · exact Nat.lt_succ_iff.mp ((Nat.log2_lt hm.ne').mpr h.mantissa_lt)
  have hgrid : 100000 * (bound m q - 1) ≤ (m.log2 + 1 + q) * 30103 := by
    unfold bound
    omega
  have hle := h.le_greatest
  have hleast : -1074 ≤ q := h.least_le
  exact ten_zpow_le (by omega) (by omega)

/-- **The shortest decimal of a number lies in the basin of the number.** -/
theorem near_shortest (hm : 0 < m) (hcanonical : Canonical m q) :
    Near m q (toRat (shortest m q)) ∧ 0 < (shortest m q).digits := by
  obtain ⟨c, hc⟩ := exists_best? hm (fine_grid hcanonical)
  have hbest := Basin.holds_of_best? (best?_search 24 ⟨23, by decide, c, hc⟩)
  exact ⟨near_of_holds hbest.1, hbest.2⟩

/-- **The shortest decimal of a number is that of no other number.** -/
theorem toRat_shortest_inj (hm : 0 < m) (hn : 0 < n) (hmq : Canonical m q) (hnr : Canonical n r)
    (h : toRat (shortest m q) = toRat (shortest n r)) : m = n ∧ q = r :=
  near_unique hmq hnr (near_shortest hm hmq).1 (h ▸ (near_shortest hn hnr).1)

end Decimal
end LoxKit
