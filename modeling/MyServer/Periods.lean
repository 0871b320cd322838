import Mathlib.Order.Bounds.Basic
import Mathlib.Algebra.Ring.Int.Defs

/-!
# Periods

The times `t` with `p ∣ t + c` are a grid of period `p`. `gridNext` is the point of a grid
that comes next after a given time (`isLeast_gridNext`), and on a grid of half the period it
is the next point or the one after it (`gridNext_two_mul`).
-/

namespace MyServer

/-- The points of the grid with period `p`, shifted by `c`. -/
def Grid (p c : ℤ) : Set ℤ := {t | p ∣ t + c}

theorem mem_grid {p c t : ℤ} : t ∈ Grid p c ↔ p ∣ t + c := Iff.rfl

/-- A grid that is shifted. -/
theorem sub_mem_grid {p c t d : ℤ} : t - d ∈ Grid p c ↔ t ∈ Grid p (c - d) := by
  have hshift : t - d + c = t + (c - d) := by omega
  rw [mem_grid, mem_grid, hshift]

/-- The next point of a grid after `n`. -/
def gridNext (p c n : ℤ) : ℤ := n - (n + c) % p + p

section

variable {p : ℤ} (hp : 0 < p) (c n : ℤ)

include hp

/-- The next point of a grid is later, even from a point of the grid. -/
theorem lt_gridNext : n < gridNext p c n := by
  have hlt := Int.emod_lt_of_pos (n + c) hp
  rw [gridNext]
  omega

/-- And at most one period later, which bounds the sums that the functions form. -/
theorem gridNext_le : gridNext p c n ≤ n + p := by
  have hnonneg := Int.emod_nonneg (n + c) (Int.ne_of_gt hp)
  rw [gridNext]
  omega

omit hp in
/-- It is a point of the grid: the remainder has been taken away. -/
theorem gridNext_mem : gridNext p c n ∈ Grid p c := by
  have hdiv : gridNext p c n + c = p * ((n + c) / p + 1) := by
    have hdecomp := Int.mul_ediv_add_emod (n + c) p
    rw [gridNext, mul_add, mul_one]
    omega
  exact ⟨_, hdiv⟩

/-- **The next point of a grid.** -/
theorem isLeast_gridNext : IsLeast {t | n < t ∧ t ∈ Grid p c} (gridNext p c n) := by
  refine ⟨⟨lt_gridNext hp c n, gridNext_mem c n⟩, ?_⟩
  rintro t ⟨hlt, k, hk⟩
  -- `t + c` is a multiple of `p` above `n + c`, so it is at least the multiple after that
  have hdecomp := Int.mul_ediv_add_emod (n + c) p
  have hnonneg := Int.emod_nonneg (n + c) (Int.ne_of_gt hp)
  have hmul : p * ((n + c) / p) < p * k := by omega
  have hstep : (n + c) / p + 1 ≤ k := Int.lt_of_mul_lt_mul_left hmul hp.le
  have hbound := Int.mul_le_mul_of_nonneg_left hstep hp.le
  rw [mul_add, mul_one] at hbound
  rw [gridNext]
  omega

/-- A point after `n` and at most one period away is the next one. -/
theorem eq_gridNext {t : ℤ} (hmem : t ∈ Grid p c) (hlt : n < t) (hle : t ≤ n + p) :
    t = gridNext p c n := by
  have hleast := (isLeast_gridNext hp c n).2 ⟨hlt, hmem⟩
  have hfirst := lt_gridNext hp c n
  have hdvd : p ∣ t - gridNext p c n := by
    have h := Int.dvd_sub hmem (gridNext_mem (p := p) c n)
    rwa [add_sub_add_right_eq_sub] at h
  have hzero := Int.eq_zero_of_dvd_of_nonneg_of_lt (by omega) (by omega) hdvd
  omega

omit hp in
/-- From a point of the grid it is one whole period on. -/
theorem gridNext_of_mem {n : ℤ} (h : n ∈ Grid p c) : gridNext p c n = n + p := by
  rw [gridNext, Int.emod_eq_zero_of_dvd h, sub_zero]

/-- Of two points in a row the one on the grid of twice the period is the next one there. -/
theorem eq_gridNext_two_mul_iff {t : ℤ} :
    t ∈ [gridNext p c n, gridNext p c (gridNext p c n)] ∧ t ∈ Grid (2 * p) c ↔
      t = gridNext (2 * p) c n := by
  have hlo := lt_gridNext hp c n
  have hhi := gridNext_le hp c n
  rw [gridNext_of_mem c (gridNext_mem c n), List.mem_cons, List.mem_singleton]
  refine ⟨?_, ?_⟩
  · rintro ⟨hpoint, hmem⟩
    exact eq_gridNext (by omega) c n hmem (by omega) (by omega)
  · rintro rfl
    have hmem := gridNext_mem (p := 2 * p) c n
    have hlt := lt_gridNext (p := 2 * p) (by omega) c n
    have hle := gridNext_le (p := 2 * p) (by omega) c n
    refine ⟨?_, hmem⟩
    -- it is on the finer grid too: one period from `n`, or two
    have hfine : gridNext (2 * p) c n ∈ Grid p c := Int.dvd_trans (Int.dvd_mul_left 2 p) hmem
    by_cases hnear : gridNext (2 * p) c n ≤ n + p
    · exact .inl (eq_gridNext hp c n hfine hlt hnear)
    · right
      have hback : gridNext (2 * p) c n - p ∈ Grid p c := by
        have h := Int.dvd_sub hfine (Int.dvd_refl p)
        rwa [add_sub_right_comm] at h
      have h := eq_gridNext hp c n hback (by omega) (by omega)
      omega

end

end MyServer
