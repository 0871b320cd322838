import Mathlib.Tactic.NormNum

/-!
# Lookups in a `std::map`

The maps of the source are ordered maps that are read through `find`. Each lemma says
what `find` answers after an update: `operator[]` replaces an entry (`lookup_insert`),
`insert` adds one only where there is none (`lookup_insertIfNew`), and a loop of `insert`s
leaves the first entry for each key (`lookup_foldl_insertIfNew`). `Iterates` is the invariant
of a loop that erases entries of the map it iterates over.
-/

namespace MyServer

variable {κ α : Type*} [Ord κ] [Std.TransOrd κ] [Std.LawfulEqOrd κ]

/-- Erasing is felt under its own key only. -/
theorem lookup_erase [DecidableEq κ] (m : Std.TreeMap κ α) (k a : κ) :
    (m.erase k)[a]? = if k = a then none else m[a]? := by
  rw [Std.TreeMap.getElem?_erase]
  simp

/-- The same of an insertion, which replaces the value that was there. -/
theorem lookup_insert [DecidableEq κ] (m : Std.TreeMap κ α) (k a : κ) (v : α) :
    (m.insert k v)[a]? = if k = a then some v else m[a]? := by
  rw [Std.TreeMap.getElem?_insert]
  simp

/-- `insert` is for a key that is not there. -/
theorem lookup_insertIfNew_eq [DecidableEq κ] (m : Std.TreeMap κ α) (k a : κ) (v : α) :
    (m.insertIfNew k v)[a]? = m[a]?.or (if k = a then some v else none) := by
  have hlook : (m.insertIfNew k v)[a]? = if k = a ∧ m[k]? = none then some v else m[a]? := by
    rw [Std.TreeMap.getElem?_insertIfNew]
    simp
  rw [hlook]
  by_cases hk : k = a
  · subst hk
    rcases m[k]? with _ | d <;> simp
  · simp [hk]

/-- `insert` adds an entry only where there was none. -/
theorem lookup_insertIfNew (m : Std.TreeMap κ α) (k a : κ) (v d : α) :
    (m.insertIfNew k v)[a]? = some d ↔ m[a]? = some d ∨ (a = k ∧ m[a]? = none ∧ d = v) := by
  classical
  rw [lookup_insertIfNew_eq]
  rcases m[a]? with _ | e
  · simp [eq_comm]
  · simp

/-- After `insert` there is an entry, whether it is the new one or not. -/
theorem lookup_insertIfNew_ne_none (m : Std.TreeMap κ α) (k a : κ) (v : α) :
    (m.insertIfNew k v)[a]? ≠ none ↔ m[a]? ≠ none ∨ a = k := by
  classical
  rw [lookup_insertIfNew_eq, ne_eq, Option.or_eq_none_iff, not_and_or]
  refine or_congr_right ?_
  split
  · rename_i hk
    exact iff_of_true (Option.some_ne_none _) hk.symm
  · rename_i hk
    exact iff_of_false (fun h => h rfl) fun h => hk h.symm

/-- A map lists every key once, as its keys are in order. -/
theorem distinct_toList (m : Std.TreeMap κ α) : m.toList.Pairwise fun a b => a.1 ≠ b.1 := by
  refine m.distinct_keys_toList.imp ?_
  intro a b h heq
  exact h (Std.LawfulEqCmp.compare_eq_iff_eq.mpr heq)

/-- A loop of `insert`s leaves the first entry for each key. -/
theorem lookup_foldl_insertIfNew [DecidableEq κ] {ρ : Type*} (key : ρ → κ) (val : ρ → α)
    (rows : List ρ) (m : Std.TreeMap κ α) (a : κ) :
    (rows.foldl (fun m r => m.insertIfNew (key r) (val r)) m)[a]? =
      m[a]?.or ((rows.find? fun r => key r = a).map val) := by
  induction rows generalizing m with
  | nil => simp
  | cons r rows ih =>
    rw [List.foldl_cons, ih, lookup_insertIfNew_eq, Option.or_assoc]
    congr 1
    by_cases hr : key r = a
    · rw [if_pos hr, List.find?_cons_of_pos (by simpa using hr)]
      rfl
    · rw [if_neg hr, List.find?_cons_of_neg (by simpa using hr)]
      rfl

/-! ## Iterators

A loop `for (it = m.begin(); it != m.end(); )` that moves its iterator on before it erases
the entry it stood on. -/

/-- The key an iterator stands on after `begin()`; `none` for `end()`. -/
def firstKey (m : Std.TreeMap κ α) : Option κ := m.toList.head?.map Prod.fst

/-- The key an iterator that stood on `k` stands on after `++it`. -/
def nextKey (m : Std.TreeMap κ α) (k : κ) : Option κ :=
  (m.toList.find? fun e => compare k e.1 == .lt).map Prod.fst

/-- The entries `left` are those that an iteration over the map has still to see. -/
structure Iterates (m : Std.TreeMap κ α) (left : List (κ × α)) : Prop where
  /-- they come in order -/
  sorted : left.Pairwise fun a b => compare a.1 b.1 = .lt
  /-- they are in the map -/
  mem : ∀ e ∈ left, m[e.1]? = some e.2
  /-- what else is in the map lies behind -/
  behind : ∀ k v, m[k]? = some v → (k, v) ∈ left ∨ ∀ e ∈ left, compare k e.1 = .lt

/-- The list of a map is what an iterator has before it at the start. -/
theorem iterates_toList (m : Std.TreeMap κ α) : Iterates m m.toList where
  sorted := m.ordered_keys_toList
  mem _ he := Std.TreeMap.mem_toList_iff_getElem?_eq_some.mp he
  behind _ _ h := .inl (Std.TreeMap.mem_toList_iff_getElem?_eq_some.mpr h)

omit [Std.LawfulEqOrd κ] in
theorem compare_self_ne_lt (k : κ) : compare k k ≠ .lt := by
  intro hlt
  rw [Std.ReflOrd.compare_self] at hlt
  cases hlt

namespace Iterates

variable {m m' : Std.TreeMap κ α} {e : κ × α} {left : List (κ × α)}

omit [Std.TransOrd κ] [Std.LawfulEqOrd κ] in
/-- The keys that an iterator has still to visit come after the one it is at, so that erasing the
current one does not disturb it. -/
theorem lt_of_mem (h : Iterates m (e :: left)) {e' : κ × α} (he' : e' ∈ left) :
    compare e.1 e'.1 = .lt := (List.pairwise_cons.mp h.sorted).1 e' he'

/-- What comes after the entry in the map is left. -/
theorem mem_left (h : Iterates m (e :: left)) {e' : κ × α} (he' : e' ∈ m.toList)
    (hlt : compare e.1 e'.1 = .lt) : e' ∈ left := by
  have hlook := Std.TreeMap.mem_toList_iff_getElem?_eq_some.mp he'
  rcases h.behind e'.1 e'.2 hlook with hin | hall
  · rcases List.mem_cons.mp hin with heq | hin
    · rw [← heq] at hlt
      exact absurd hlt (compare_self_ne_lt _)
    · exact hin
  · have hback := hall e List.mem_cons_self
    exact absurd (Std.TransCmp.lt_trans hlt hback) (compare_self_ne_lt _)

/-- The next entry that is left is the next one of the map. -/
theorem nextKey_eq (h : Iterates m (e :: left)) : nextKey m e.1 = left.head?.map Prod.fst := by
  rw [nextKey]
  congr 1
  cases left with
  | nil =>
    rw [List.head?_nil, List.find?_eq_none]
    intro e' he' hlt
    exact absurd (h.mem_left he' (by simpa using hlt)) List.not_mem_nil
  | cons e₁ left =>
    have hlt₁ : compare e.1 e₁.1 = .lt := h.lt_of_mem List.mem_cons_self
    have hmem₁ : e₁ ∈ m.toList := by
      have hlook := h.mem e₁ (List.mem_cons_of_mem e List.mem_cons_self)
      exact Std.TreeMap.mem_toList_iff_getElem?_eq_some.mpr hlook
    obtain ⟨as, bs, heq⟩ := List.append_of_mem hmem₁
    have hsorted := m.ordered_keys_toList
    rw [heq, List.pairwise_append] at hsorted
    -- an entry of the map before `e₁` is not after `e`
    have has : ∀ e' ∈ as, ¬ compare e.1 e'.1 = .lt := by
      intro e' he' hlt
      have hmem : e' ∈ m.toList := by
        rw [heq]
        exact List.mem_append_left _ he'
      have hbefore := hsorted.2.2 e' he' e₁ List.mem_cons_self
      rcases List.mem_cons.mp (h.mem_left hmem hlt) with rfl | hin
      · exact compare_self_ne_lt _ hbefore
      · have hafter := (List.pairwise_cons.mp (List.pairwise_cons.mp h.sorted).2).1 e' hin
        exact compare_self_ne_lt _ (Std.TransCmp.lt_trans hbefore hafter)
    rw [List.head?_cons, List.find?_eq_some_iff_append]
    refine ⟨by simpa using hlt₁, as, bs, heq, ?_⟩
    intro e' he'
    simpa using has e' he'

omit [Std.TransOrd κ] [Std.LawfulEqOrd κ] in
/-- The iteration goes on, over a map that has lost nothing but the entry it stood on. -/
theorem next (h : Iterates m (e :: left))
    (hmem : ∀ e' ∈ left, m[e'.1]? = some e'.2 → m'[e'.1]? = some e'.2)
    (hsub : ∀ (k : κ) (v : α), m'[k]? = some v → m[k]? = some v) : Iterates m' left where
  sorted := (List.pairwise_cons.mp h.sorted).2
  mem e' he' := hmem e' he' (h.mem e' (List.mem_cons_of_mem e he'))
  behind k v hk := by
    rcases h.behind k v (hsub k v hk) with hin | hall
    · rcases List.mem_cons.mp hin with rfl | hin
      · exact .inr fun e' he' => h.lt_of_mem he'
      · exact .inl hin
    · exact .inr fun e' he' => hall e' (List.mem_cons_of_mem e he')

end Iterates

end MyServer
