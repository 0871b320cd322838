import Mathlib.Data.List.Nodup
import MyServer.JsonNormal

/-!
# What is kept of a value on its way into the database

A value that is saved is written, tightened and read by the database's client library. Its names
and strings can lose blanks, since `tighten` takes every second quote for the end of a string, and
its `double`s become what is read of their texts. `keeps_of_plain` says that nothing else happens:
what is stored is the value just when no name, no string and no `double` of it is changed.

It is about values with names that the client library and the server take as they are, which are
no operators (`$`) and no paths (`.`), and stay different names when they lose blanks.
-/

namespace MyServer

/-- The name without its blanks. -/
def CString.solid (k : CString) : List UInt8 := k.val.filter (· ≠ 32)

theorem filter_squeeze (f : Bool) (s : List UInt8) :
    (squeeze f s).filter (· ≠ 32) = s.filter (· ≠ 32) := by
  induction s generalizing f with
  | nil => rfl
  | cons c s ih =>
    rw [squeeze]
    by_cases hdrop : c = 32 ∧ f = false
    · rw [if_pos hdrop, ih, List.filter_cons_of_neg (by simp [hdrop.1])]
    · rw [if_neg hdrop, List.filter_cons, List.filter_cons, ih]

/-- Blanks are all that a name can lose. -/
theorem CString.solid_squeeze (k : CString) (f : Bool) : (k.squeeze f).solid = k.solid :=
  filter_squeeze f k.val

theorem CString.solid_of_noBlank {k : CString} (h : 32 ∉ k.val) : k.solid = k.val := by
  refine List.filter_eq_self.mpr fun c hc => decide_eq_true ?_
  rintro rfl
  exact h hc

namespace Json

/-- A name that the database takes. -/
structure PlainName (k : CString) : Prop where
  /-- not an operator -/
  noOperator : 36 ∉ k.val
  /-- not a path -/
  noPath : 46 ∉ k.val

instance (k : CString) : Decidable (PlainName k) :=
  decidable_of_iff (36 ∉ k.val ∧ 46 ∉ k.val)
    ⟨fun h => ⟨h.1, h.2⟩, fun h => ⟨h.noOperator, h.noPath⟩⟩

/-- Names that are not the same but for their blanks. -/
def Apart (names : List CString) : Prop :=
  ∀ a ∈ names, ∀ b ∈ names, a.solid = b.solid → a = b

/-- Names without blanks are. -/
theorem apart_of_noBlank {names : List CString} (h : ∀ k ∈ names, 32 ∉ k.val) : Apart names := by
  intro a ha b hb hsolid
  rw [CString.solid_of_noBlank (h a ha), CString.solid_of_noBlank (h b hb)] at hsolid
  exact Subtype.ext hsolid

theorem Apart.mono {names names' : List CString} (h : Apart names) (hsub : names' ⊆ names) :
    Apart names' := fun a ha b hb => h a (hsub ha) b (hsub hb)

/-- A value of any shape with such names, in order as those of a `std::map` are. -/
inductive Plain : Json → Prop where
  | null : Plain null
  | int (n : Int32) : Plain (int n)
  | uint (n : UInt32) : Plain (uint n)
  | real (q : ℚ) : Plain (real q)
  | str (s : CString) : Plain (str s)
  | bool (b : Bool) : Plain (bool b)
  | arr {xs : List Json} (h : ∀ x ∈ xs, Plain x) : Plain (arr xs)
  | obj {ms : List (CString × Json)} (hsorted : Sorted ms) (hnames : ∀ m ∈ ms, PlainName m.1)
    (hapart : Apart (ms.map Prod.fst)) (hvalues : ∀ m ∈ ms, Plain m.2) : Plain (obj ms)

/-! ## Names -/

variable {ms : List (CString × Json)}

theorem map_solid_squeezeObject (f : Bool) (ms : List (CString × Json)) :
    ((squeezeObject f ms).map Prod.fst).map CString.solid =
      (ms.map Prod.fst).map CString.solid := by
  induction ms generalizing f with
  | nil => rfl
  | cons m ms ih =>
    obtain ⟨k, v⟩ := m
    rw [squeezeObject]
    simp only [List.map_cons, CString.solid_squeeze, ih]

/-- The names stay different from each other. -/
theorem nodup_squeezeObject (hsorted : Sorted ms) (hapart : Apart (ms.map Prod.fst)) (f : Bool) :
    ((squeezeObject f ms).map Prod.fst).Nodup := by
  refine List.Nodup.of_map CString.solid ?_
  rw [map_solid_squeezeObject]
  exact hsorted.nodup.map_on hapart

/-- A name that became one of the names has lost nothing: there is only one that differs from it
in blanks. -/
theorem map_fst_squeezeObject {names : List CString} (hapart : Apart names)
    (hms : ms.map Prod.fst ⊆ names) {f : Bool}
    (hsqueezed : (squeezeObject f ms).map Prod.fst ⊆ names) :
    (squeezeObject f ms).map Prod.fst = ms.map Prod.fst := by
  induction ms generalizing f with
  | nil => rfl
  | cons m ms ih =>
    obtain ⟨k, v⟩ := m
    rw [squeezeObject, List.map_cons] at hsqueezed ⊢
    rw [List.map_cons] at hms ⊢
    obtain ⟨hk, hms⟩ := List.cons_subset.mp hms
    obtain ⟨hk', hrest⟩ := List.cons_subset.mp hsqueezed
    rw [ih hms hrest, hapart _ hk' _ hk (k.solid_squeeze _)]

/-- What is read of the tightened text of the value, as a value, is the value just when no
name, no string and no `double` of it is changed. -/
def Keeps (store : ℚ → ℚ) (v : Json) : Prop :=
  ∀ f, normal (reread (fun q => .real (store q)) (squeezeJson f v)) = normal v ↔
    squeezeJson f v = v ∧ ∀ q ∈ v.reals, store q = q

variable {store : ℚ → ℚ}

/-- A value without strings and `double`s that could change. -/
theorem keeps_of_fixed {v : Json} (hreals : v.reals = [])
    (hfixed : ∀ f, squeezeJson f v = v ∧ normal (reread (fun q => .real (store q)) v) = normal v) :
    Keeps store v := by
  intro f
  obtain ⟨hsqueeze, hnormal⟩ := hfixed f
  rw [hsqueeze, hreals]
  exact iff_of_true hnormal ⟨rfl, List.forall_mem_nil _⟩

theorem keeps_real (q : ℚ) : Keeps store (real q) := by
  intro f
  simp only [squeezeJson, reread, normal, real.injEq, reals, List.mem_singleton, forall_eq,
    true_and]

theorem keeps_str (s : CString) : Keeps store (str s) := by
  intro f
  simp only [squeezeJson, reread, normal, reals, List.not_mem_nil, false_imp_iff, implies_true,
    and_true]

theorem keeps_items {xs : List Json} (h : ∀ x ∈ xs, Keeps store x) (f : Bool) :
    normalItems (rereadItems (fun q => .real (store q)) (squeezeItems f xs)) = normalItems xs ↔
      squeezeItems f xs = xs ∧ ∀ q ∈ realsItems xs, store q = q := by
  induction xs generalizing f with
  | nil => exact iff_of_true rfl ⟨rfl, List.forall_mem_nil _⟩
  | cons x xs ih =>
    obtain ⟨hx, hxs⟩ := List.forall_mem_cons.mp h
    rw [squeezeItems, rereadItems, normalItems, normalItems, realsItems, List.cons.injEq,
      List.cons.injEq, List.forall_mem_append, hx f, ih hxs]
    exact and_and_and_comm

theorem keeps_members (h : ∀ m ∈ ms, Keeps store m.2) (f : Bool) :
    mapValues normal (mapValues (reread fun q => .real (store q)) (squeezeObject f ms)) =
        mapValues normal ms ↔
      squeezeObject f ms = ms ∧ ∀ q ∈ realsMembers ms, store q = q := by
  induction ms generalizing f with
  | nil => exact iff_of_true rfl ⟨rfl, List.forall_mem_nil _⟩
  | cons m ms ih =>
    obtain ⟨k, v⟩ := m
    obtain ⟨hv, hvs⟩ := List.forall_mem_cons.mp h
    rw [squeezeObject, mapValues_cons, mapValues_cons, mapValues_cons, realsMembers,
      List.cons.injEq, List.cons.injEq, Prod.mk.injEq, Prod.mk.injEq, hv _, ← and_assoc, ih hvs,
      List.forall_mem_append]
    exact and_and_and_comm

/-- Putting the members in order again does not undo a change: the names that come out are those
that went in. -/
theorem keeps_obj (hsorted : Sorted ms) (hapart : Apart (ms.map Prod.fst))
    (h : ∀ m ∈ ms, Keeps store m.2) : Keeps store (obj ms) := by
  intro f
  rw [squeezeJson, reread, rereadMembers_eq, normal_insertAll, normal_obj hsorted, obj.injEq,
    obj.injEq, reals, ← keeps_members h f]
  refine ⟨fun heq => ?_, fun heq => ?_⟩
  · have hnodup := nodup_squeezeObject hsorted hapart f
    have hsub : (squeezeObject f ms).map Prod.fst ⊆ ms.map Prod.fst := by
      intro k hk
      rw [mem_names_iff] at hk ⊢
      have hlookup := congrArg (List.lookup k) heq
      rw [lookup_insertAll (by rwa [map_fst_mapValues, map_fst_mapValues]), List.lookup_nil,
        Option.or_none, lookup_mapValues, lookup_mapValues, lookup_mapValues] at hlookup
      intro hnone
      rw [hnone, Option.map_none, Option.map_eq_none_iff, Option.map_eq_none_iff] at hlookup
      exact hk hlookup
    have hnames := map_fst_squeezeObject hapart (List.Subset.refl _) hsub
    have hsqueezed : Sorted (squeezeObject f ms) := hsorted.of_names hnames
    rwa [insertAll_of_sorted ((hsqueezed.mapValues _).mapValues _)] at heq
  · rw [heq]
    exact insertAll_of_sorted (hsorted.mapValues _)

/-- **A plain value is kept just when no name, no string and no `double` of it is changed.** -/
theorem keeps_of_plain {v : Json} (h : Plain v) : Keeps store v := by
  induction h with
  | null | int _ | bool _ => exact keeps_of_fixed rfl fun f => ⟨rfl, rfl⟩
  | uint n =>
    refine keeps_of_fixed rfl fun f => ⟨rfl, ?_⟩
    rw [reread, normal_ofInteger, normal]
  | real q => exact keeps_real q
  | str s => exact keeps_str s
  | @arr xs _ ih =>
    intro f
    rw [squeezeJson, reread, normal, normal, arr.injEq, arr.injEq, reals]
    exact keeps_items ih f
  | obj hsorted _ hapart _ ih => exact keeps_obj hsorted hapart ih

end Json

end MyServer
