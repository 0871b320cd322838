import MyServer.Json
import MyServer.Tickets
import Mathlib.Data.Set.Function
import Mathlib.Data.Rat.Lemmas

/-!
# Weighted choice (`commom.cpp`)

`randomList` draws a rate from 1 to 1000000 and walks through the intervals of its list. An
interval is tested with both ends, and the first one begins at 1: it has one rate more than
its weight, and every other one begins where the one before it ends. This is the chooser
that is late by one ticket (`randomLoop_eq`).

The products of `double`s are exact here, and sums beyond an `int` are not cut.
-/

namespace MyServer

namespace Commom

/-- `base` -/
def base : ℕ := 1000000

/-- `(int)` of a `double` -/
def toInt (q : ℚ) : ℤ := q.num.tdiv q.den

/-- `rate`, of two values of `random()` -/
def rateOf (first second : ℕ) : ℕ := first % 1000 * 1000 + second % 1000 + 1

/-- The loop of `randomList`, with `left` entries to go from the index `i` on. -/
def randomLoop (rateList : Json) (rate : ℤ) : ℕ → ℕ → ℤ → Except JsonFault ℕ
  | 0, _, _ => return 0
  | left + 1, i, high => do
    let low := high
    let d ← (← rateList.index i).asDouble
    let high := high + toInt (d * base)
    if low ≤ rate ∧ rate ≤ high then return i
    else randomLoop rateList rate left (i + 1) high

/-- `randomList`, after `rate` has been drawn -/
def choose (rateList : Json) (rate : ℕ) : Except JsonFault ℕ :=
  randomLoop rateList rate rateList.size 0 1

/-- `randomList` -/
def randomList (rateList : Json) (first second : ℕ) : Except JsonFault ℕ :=
  choose rateList (rateOf first second)

/-- Two draws below 1000 are one rate, and every rate is one of two draws. -/
theorem rateOf_bijOn :
    Set.BijOn (fun d : ℕ × ℕ => rateOf d.1 d.2) {d | d.1 < 1000 ∧ d.2 < 1000} (Set.Icc 1 base) := by
  refine ⟨?_, ?_, ?_⟩
  · rintro ⟨a, b⟩ ⟨ha, hb⟩
    simp only [rateOf, base, Set.mem_Icc]
    omega
  · rintro ⟨a, b⟩ ⟨ha, hb⟩ ⟨c, d⟩ ⟨hc, hd⟩ h
    simp only [rateOf] at h ha hb hc hd
    rw [Prod.mk.injEq]
    omega
  · rintro r ⟨hlo, hhi⟩
    rw [base] at hhi
    refine ⟨((r - 1) / 1000, (r - 1) % 1000), ⟨?_, ?_⟩, ?_⟩
    · simp only
      omega
    · simp only
      omega
    · simp only [rateOf]
      omega

/-! ## The loop -/

/-- The rate of an entry is a number whose product with `base` is the weight. -/
def Weighs (x : Json) (w : ℕ) : Prop := ∃ r, x.asDouble = .ok r ∧ r * base = w

theorem Weighs.toInt_eq {x : Json} {w : ℕ} (h : Weighs x w) :
    ∃ d, x.asDouble = .ok d ∧ toInt (d * base) = w := by
  obtain ⟨d, hd, hw⟩ := h
  refine ⟨d, hd, ?_⟩
  rw [hw, toInt, Rat.num_natCast, Rat.den_natCast]
  exact Int.tdiv_one _

/-- Behind its first interval the loop finds the owner of the ticket. -/
theorem randomLoop_late {rest : List Json} {ws : List ℕ} (h : List.Forall₂ Weighs rest ws) :
    ∀ (before : List Json) (high rate : ℕ), high < rate → rate ≤ high + ws.sum →
      randomLoop (.arr (before ++ rest)) rate rest.length before.length high =
        .ok (before.length + ticketIndex ws (rate - high - 1)) := by
  -- along the list; an entry that is passed moves over to `before`
  induction h with
  | nil =>
    intro before high rate hlo hhi
    rw [List.sum_nil] at hhi
    omega
  | @cons x w rest ws hx _ ih =>
    intro before high rate hlo hhi
    obtain ⟨d, hd, hw⟩ := hx.toInt_eq
    have hindex : (Json.arr (before ++ x :: rest)).index before.length = .ok x := by
      simp [Json.index]
    rw [List.sum_cons] at hhi
    simp only [List.length_cons, randomLoop, hindex, hd, hw, bind, Except.bind]
    by_cases hin : rate ≤ high + w
    · rw [if_pos (by omega), ticketIndex_of_lt ws (by omega), Nat.add_zero]
      rfl
    · have hrest := ih (before ++ [x]) (high + w) rate (by omega) (by omega)
      have hticket : rate - high - 1 = w + (rate - (high + w) - 1) := by omega
      rw [if_neg (by omega), hticket, ticketIndex_add]
      rw [List.append_assoc, List.singleton_append, List.length_append, List.length_singleton,
        Nat.cast_add] at hrest
      rw [hrest, Nat.add_right_comm, Nat.add_assoc]

/-- **The choice is the late one.** -/
theorem choose_eq {xs : List Json} {ws : List ℕ} (h : List.Forall₂ Weighs xs ws) {t : ℕ}
    (ht : t < ws.sum) : choose (.arr xs) (t + 1) = .ok (lateIndex ws t) := by
  cases t with
  | zero =>
    -- the first entry takes the rate 1, whatever its weight
    cases h with
    | nil => exact absurd ht (Nat.not_lt_zero 0)
    | cons hx _ =>
      obtain ⟨d, hd, hw⟩ := hx.toInt_eq
      simp only [choose, Json.size, List.length_cons, randomLoop, Json.index,
        List.getElem?_cons_zero, Option.getD_some, hd, hw, bind, Except.bind]
      rw [if_pos (by omega)]
      rfl
  | succ t =>
    have hlate := randomLoop_late h [] 1 (t + 2) (by omega) (by omega)
    rw [List.length_nil, Nat.zero_add] at hlate
    exact hlate

/-! ## How often an entry is chosen -/

/-- How many of the rates `1, …, base` choose the index `i`. -/
def chosen (rateList : Json) (i : ℕ) : ℕ :=
  Nat.count (fun t => (choose rateList (t + 1)).toOption = some i) base

theorem chosen_eq {xs : List Json} {ws : List ℕ} (h : List.Forall₂ Weighs xs ws)
    (hsum : ws.sum = base) (i : ℕ) :
    chosen (.arr xs) i = Nat.count (fun t => lateIndex ws t = i) base := by
  refine count_congr fun t ht => ?_
  rw [choose_eq h (hsum ▸ ht)]
  exact Option.some_inj

/-- **Exactness of the weighted choice.** The entries of a list have weights that add up to
`base`. Every entry is chosen by as many rates as its weight says if and only if the first
one has all of the weight. The entries without weight are never chosen if and only if the
first one has some. -/
theorem chosen_exact_iff {xs : List Json} {ws : List ℕ} (h : List.Forall₂ Weighs xs ws)
    (hsum : ws.sum = base) :
    ((∀ i, chosen (.arr xs) i = ws.getD i 0) ↔ ws.head? = some base) ∧
      ((∀ i, ws.getD i 0 = 0 → chosen (.arr xs) i = 0) ↔ ws.head? ≠ some 0) := by
  simp only [chosen_eq h hsum]
  cases ws with
  | nil => exact absurd hsum (by decide)
  | cons w ws =>
    rw [List.head?_cons, Option.some_inj, Ne, Option.some_inj]
    exact ⟨lateIndex_exact_iff hsum, lateIndex_zero_iff hsum⟩

/-- The rates 1 and 0: the first entry is always chosen, and the second one never. -/
theorem chosen_exact_first :
    (∀ i, chosen (.arr [.int 1, .int 0]) i = [base, 0].getD i 0) ∧
      ∀ i, [base, 0].getD i 0 = 0 → chosen (.arr [.int 1, .int 0]) i = 0 := by
  have hone : Weighs (.int 1) base := ⟨1, rfl, one_mul _⟩
  have hzero : Weighs (.int 0) 0 := ⟨0, rfl, by simp⟩
  have hexact := chosen_exact_iff (.cons hone (.cons hzero .nil)) rfl
  exact ⟨hexact.1.mpr rfl, hexact.2.mpr (by decide)⟩

/-- The rates 0 and 1: two draws of 0 choose the first entry, and no other draws do. -/
theorem randomList_chooses_zero :
    Weighs (.int 0) 0 ∧ Weighs (.int 1) base ∧ randomList (.arr [.int 0, .int 1]) 0 0 = .ok 0 ∧
      chosen (.arr [.int 0, .int 1]) 0 = 1 := by
  have hzero : Weighs (.int 0) 0 := ⟨0, rfl, by simp⟩
  have hone : Weighs (.int 1) base := ⟨1, rfl, one_mul _⟩
  have hrates : List.Forall₂ Weighs [.int 0, .int 1] [0, base] := .cons hzero (.cons hone .nil)
  have hsum : [0, base].sum = base := by simp
  have hpos : 0 < base := by decide
  have hdraw : rateOf 0 0 = 0 + 1 := rfl
  refine ⟨hzero, hone, ?_, ?_⟩
  · rw [randomList, hdraw, choose_eq hrates (hsum.symm ▸ hpos)]
    rfl
  · exact (chosen_eq hrates hsum 0).trans (count_lateIndex_head_zero hsum hpos)

end Commom

end MyServer
