import Mathlib.Data.Nat.Count
import Mathlib.Algebra.BigOperators.Group.List.Basic
import Mathlib.Algebra.GroupWithZero.Nat

/-!
# Weighted choice by tickets

The entries of a list of weights own consecutive tickets `0, 1, …`, each as many as its
weight. `ticketIndex` finds the owner of a ticket, and every entry owns exactly its weight
(`count_ticketIndex`). The chooser that is late by one ticket gives the first entry one too
many and the owner of the last ticket one too few (`count_lateIndex_add`).
-/

namespace MyServer

/-- The owner of a ticket. -/
def ticketIndex : List ℕ → ℕ → ℕ
  | [], _ => 0
  | w :: ws, t => if t < w then 0 else ticketIndex ws (t - w) + 1

/-- The tickets below the first weight belong to the first entry. -/
theorem ticketIndex_of_lt {w t : ℕ} (ws : List ℕ) (h : t < w) : ticketIndex (w :: ws) t = 0 :=
  if_pos h

/-- Those above it belong to the rest, counted from there. -/
@[simp] theorem ticketIndex_add (w t : ℕ) (ws : List ℕ) :
    ticketIndex (w :: ws) (w + t) = ticketIndex ws t + 1 := by
  rw [ticketIndex, if_neg (Nat.not_lt.mpr (Nat.le_add_right w t)), Nat.add_sub_cancel_left]

/-- So the first entry has as many tickets as its weight says. -/
theorem ticketIndex_eq_zero_iff {w t : ℕ} {ws : List ℕ} :
    ticketIndex (w :: ws) t = 0 ↔ t < w := by
  simp [ticketIndex]

/-- **Every entry owns exactly its weight.** -/
theorem count_ticketIndex (ws : List ℕ) (i : ℕ) :
    Nat.count (fun t => ticketIndex ws t = i) ws.sum = ws.getD i 0 := by
  induction ws generalizing i with
  | nil => rfl
  | cons w ws ih =>
    -- the first `w` tickets belong to the first entry, the others as in the rest of the list
    have hfirst : Nat.count (fun t => ticketIndex (w :: ws) t = i) w = if i = 0 then w else 0 := by
      split_ifs with hi
      · refine Nat.count_of_forall fun t ht => ?_
        rw [ticketIndex_of_lt ws ht, hi]
      · refine Nat.count_of_forall_not fun t ht h => ?_
        rw [ticketIndex_of_lt ws ht] at h
        exact hi h.symm
    rw [List.sum_cons, Nat.count_add, hfirst]
    simp only [ticketIndex_add]
    cases i with
    | zero => simp
    | succ i => simpa using ih i

/-- The chooser that is late by one ticket, and answers 0 where it has none. -/
def lateIndex (ws : List ℕ) : ℕ → ℕ
  | 0 => 0
  | t + 1 => ticketIndex ws t

/-- What the late chooser has too many, and what it misses. -/
theorem count_lateIndex_add {ws : List ℕ} {n : ℕ} (hsum : ws.sum = n + 1) (i : ℕ) :
    Nat.count (fun t => lateIndex ws t = i) (n + 1) + (if ticketIndex ws n = i then 1 else 0) =
      ws.getD i 0 + if i = 0 then 1 else 0 := by
  have hshift : Nat.count (fun t => lateIndex ws (t + 1) = i) n =
      Nat.count (fun t => ticketIndex ws t = i) n := rfl
  have hfirst : lateIndex ws 0 = 0 := rfl
  rw [← count_ticketIndex, hsum, Nat.count_succ', Nat.count_succ, hshift, hfirst,
    if_congr (eq_comm (a := 0)) rfl rfl]
  omega

/-- **The late chooser is exact only for the first entry.** Every entry is chosen as often
as its weight says if and only if the first one owns all tickets. -/
theorem lateIndex_exact_iff {w n : ℕ} {ws : List ℕ} (hsum : (w :: ws).sum = n + 1) :
    (∀ i, Nat.count (fun t => lateIndex (w :: ws) t = i) (n + 1) = (w :: ws).getD i 0) ↔
      w = n + 1 := by
  have hle : w ≤ n + 1 := by
    rw [← hsum, List.sum_cons]
    exact Nat.le_add_right w _
  refine ⟨fun h => ?_, fun h i => ?_⟩
  · have hcount := count_lateIndex_add hsum 0
    rw [h 0, if_pos rfl, Nat.add_left_cancel_iff] at hcount
    have howner : ticketIndex (w :: ws) n = 0 := by
      by_contra hne
      rw [if_neg hne] at hcount
      exact absurd hcount (by decide)
    have hlt := ticketIndex_eq_zero_iff.mp howner
    omega
  · have hcount := count_lateIndex_add hsum i
    rw [ticketIndex_of_lt ws (by omega)] at hcount
    simp only [eq_comm (a := 0)] at hcount
    exact Nat.add_right_cancel hcount

/-- A first entry without weight is chosen once. -/
theorem count_lateIndex_head_zero {m : ℕ} {ws : List ℕ} (hsum : (0 :: ws).sum = m) (hm : 0 < m) :
    Nat.count (fun t => lateIndex (0 :: ws) t = 0) m = 1 := by
  obtain ⟨n, rfl⟩ := Nat.exists_eq_add_one.mpr hm
  have hcount := count_lateIndex_add hsum 0
  have howner : ticketIndex (0 :: ws) n ≠ 0 := by
    rw [Ne, ticketIndex_eq_zero_iff]
    exact Nat.not_lt_zero n
  rwa [if_neg howner, if_pos rfl, List.getD_cons_zero, Nat.add_zero, Nat.zero_add] at hcount

/-- The late chooser leaves out the entries without weight if the first one has some. -/
theorem lateIndex_zero_iff {w n : ℕ} {ws : List ℕ} (hsum : (w :: ws).sum = n + 1) :
    (∀ i, (w :: ws).getD i 0 = 0 → Nat.count (fun t => lateIndex (w :: ws) t = i) (n + 1) = 0) ↔
      w ≠ 0 := by
  refine ⟨fun h hw => ?_, fun hw i hi => ?_⟩
  · subst hw
    have hone := count_lateIndex_head_zero hsum (Nat.succ_pos n)
    rw [h 0 rfl] at hone
    exact absurd hone (by decide)
  · have hcount := count_lateIndex_add hsum i
    have hne : i ≠ 0 := by
      rintro rfl
      exact hw hi
    rw [hi, if_neg hne] at hcount
    omega

/-- Counting looks at nothing past its end. -/
theorem count_congr {p q : ℕ → Prop} [DecidablePred p] [DecidablePred q] {n : ℕ}
    (h : ∀ t < n, (p t ↔ q t)) : Nat.count p n = Nat.count q n := by
  rw [Nat.count_eq_card_filter_range, Nat.count_eq_card_filter_range]
  congr 1
  exact Finset.filter_congr fun t ht => h t (Finset.mem_range.mp ht)

end MyServer
