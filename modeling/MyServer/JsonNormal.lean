import MyServer.JsonLayout

/-!
# Normal forms of JSON values

Reading twice is reading once: what is read of a value that was read before differs at
most in its `double`s (`reread_reread`). It rests on two facts about the members of an
object: put in one after the other they are in order (`sorted_insertAll`), and what is in
order stays as it is (`insertAll_of_sorted`). Two values with the same normal form (`normal`)
differ in the kind of their numbers and the order of their members, which no text keeps; what is
read of a value has its normal form when its `double`s are read as they are (`normal_reread`).
-/

namespace MyServer

namespace Json

/-! ## Members in order -/

/-- The names of an object ascend, as those of a `std::map` do. -/
def Sorted (ms : List (CString × Json)) : Prop := ms.Pairwise fun a b => a.1.val < b.1.val

theorem lt_of_not_lt {a b : CString} (hne : a ≠ b) (h : ¬ a.val < b.val) : b.val < a.val := by
  by_contra hb
  exact hne (Subtype.ext (List.le_antisymm (List.not_lt.mp hb) (List.not_lt.mp h)))

theorem ne_of_lt {a b : CString} (h : a.val < b.val) : a ≠ b := by
  rintro rfl
  exact List.lt_irrefl _ h

/-- The order is that of the names. -/
theorem Sorted.of_names {ms ms' : List (CString × Json)} (h : Sorted ms)
    (hnames : ms'.map Prod.fst = ms.map Prod.fst) : Sorted ms' := by
  have hkeys : (ms.map Prod.fst).Pairwise fun a b => a.val < b.val := List.pairwise_map.mpr h
  rw [← hnames, List.pairwise_map] at hkeys
  exact hkeys

theorem Sorted.nodup {ms : List (CString × Json)} (h : Sorted ms) : (ms.map Prod.fst).Nodup :=
  List.pairwise_map.mpr (h.imp fun hlt => ne_of_lt hlt)

/-- The members afterwards are the new one and old ones. -/
theorem mem_insertMember {key : CString} {v : Json} {ms : List (CString × Json)}
    {m : CString × Json} (h : m ∈ insertMember key v ms) : m = (key, v) ∨ m ∈ ms := by
  induction ms with
  | nil => exact .inl (List.mem_singleton.mp h)
  | cons a ms ih =>
    obtain ⟨k, w⟩ := a
    rw [insertMember] at h
    split_ifs at h
    · exact (List.mem_cons.mp h).imp_right (List.mem_cons_of_mem _)
    · exact List.mem_cons.mp h
    · rcases List.mem_cons.mp h with rfl | h
      · exact .inr (List.mem_cons_self ..)
      · exact (ih h).imp_right (List.mem_cons_of_mem _)

/-- **An insertion keeps the order.** -/
theorem Sorted.insertMember {ms : List (CString × Json)} (h : Sorted ms) (key : CString)
    (v : Json) : Sorted (insertMember key v ms) := by
  induction ms with
  | nil => exact List.pairwise_singleton _ _
  | cons a ms ih =>
    obtain ⟨k, w⟩ := a
    obtain ⟨hhead, htail⟩ := List.pairwise_cons.mp h
    rw [Json.insertMember]
    split_ifs with heq hlt
    · subst heq
      exact List.pairwise_cons.mpr ⟨hhead, htail⟩
    · refine List.pairwise_cons.mpr ⟨?_, h⟩
      intro m hm
      rcases List.mem_cons.mp hm with rfl | hm
      · exact hlt
      · exact List.lt_trans hlt (hhead m hm)
    · refine List.pairwise_cons.mpr ⟨?_, ih htail⟩
      intro m hm
      rcases mem_insertMember hm with rfl | hm
      · exact lt_of_not_lt heq hlt
      · exact hhead m hm

/-- **Members put in one after the other are in order.** -/
theorem sorted_insertAll (ms : List (CString × Json)) {acc : List (CString × Json)}
    (h : Sorted acc) : Sorted (insertAll ms acc) := by
  induction ms generalizing acc with
  | nil => exact h
  | cons m ms ih => exact ih (h.insertMember m.1 m.2)

/-- A name behind all others comes last. -/
theorem insertMember_last {key : CString} {v : Json} {ms : List (CString × Json)}
    (h : ∀ m ∈ ms, m.1.val < key.val) : insertMember key v ms = ms ++ [(key, v)] := by
  induction ms with
  | nil => rfl
  | cons a ms ih =>
    obtain ⟨k, w⟩ := a
    obtain ⟨hk, hrest⟩ := List.forall_mem_cons.mp h
    rw [insertMember, if_neg (ne_of_lt hk).symm, if_neg (List.lt_asymm hk), ih hrest]
    rfl

theorem insertAll_cons (m : CString × Json) (ms acc : List (CString × Json)) :
    insertAll (m :: ms) acc = insertAll ms (insertMember m.1 m.2 acc) := rfl

/-- Members that come in order are put at the end. -/
theorem insertAll_append {ms acc : List (CString × Json)} (h : Sorted (acc ++ ms)) :
    insertAll ms acc = acc ++ ms := by
  induction ms generalizing acc with
  | nil => exact (List.append_nil acc).symm
  | cons m ms ih =>
    -- the next name is behind all that are there
    have hlast : insertMember m.1 m.2 acc = acc ++ [m] := by
      refine insertMember_last fun a ha => ?_
      exact (List.pairwise_append.mp h).2.2 a ha m (List.mem_cons_self ..)
    have hnext : acc ++ m :: ms = acc ++ [m] ++ ms := by rw [List.append_assoc]; rfl
    rw [hnext] at h ⊢
    rw [insertAll_cons, hlast]
    exact ih h

/-- **What is in order stays as it is.** -/
theorem insertAll_of_sorted {ms : List (CString × Json)} (h : Sorted ms) : insertAll ms [] = ms :=
  insertAll_append h

/-- Inserting what is there changes nothing. -/
theorem insertMember_of_lookup {key : CString} {v : Json} {ms : List (CString × Json)}
    (hs : Sorted ms) (h : ms.lookup key = some v) : insertMember key v ms = ms := by
  induction ms with
  | nil => exact absurd h (Option.some_ne_none v).symm
  | cons a ms ih =>
    obtain ⟨k, w⟩ := a
    obtain ⟨hhead, htail⟩ := List.pairwise_cons.mp hs
    rw [insertMember]
    by_cases heq : key = k
    · subst heq
      rw [List.lookup_cons_self, Option.some.injEq] at h
      rw [if_pos rfl, h]
    · rw [List.lookup_cons, beq_eq_false_iff_ne.mpr heq] at h
      obtain ⟨ms₁, ms₂, rfl, -⟩ := List.lookup_eq_some_iff.mp h
      have hlt : k.val < key.val := hhead (key, v) (by simp)
      rw [if_neg heq, if_neg (List.lt_asymm hlt), ih htail h]

theorem lookup_cons_ite {κ α : Type*} [BEq κ] [LawfulBEq κ] [DecidableEq κ] (k name : κ) (w : α)
    (l : List (κ × α)) : ((name, w) :: l).lookup k = if k = name then some w else l.lookup k := by
  split_ifs with h
  · rw [h, List.lookup_cons_self]
  · rw [List.lookup_cons, beq_eq_false_iff_ne.mpr h]

/-- Looking up in a list from which a key was taken away. -/
theorem lookup_filter_ne {κ α : Type*} [BEq κ] [LawfulBEq κ] [DecidableEq κ] (key k : κ)
    (l : List (κ × α)) :
    (l.filter fun e => e.1 ≠ key).lookup k = if k = key then none else l.lookup k := by
  induction l with
  | nil => simp
  | cons e l ih =>
    obtain ⟨name, w⟩ := e
    by_cases hname : name = key
    · rw [List.filter_cons_of_neg (by simp [hname]), ih, lookup_cons_ite, hname]
      split_ifs <;> rfl
    · rw [List.filter_cons_of_pos (by simp [hname]), lookup_cons_ite, ih, lookup_cons_ite]
      split_ifs with hk hkey
      · exact absurd (hk.symm.trans hkey) hname
      · rfl
      · rfl
      · rfl

/-- What is found after an insertion. -/
theorem lookup_insertMember (key k : CString) (v : Json) (ms : List (CString × Json)) :
    (insertMember key v ms).lookup k = if k = key then some v else ms.lookup k := by
  induction ms with
  | nil => exact lookup_cons_ite k key v []
  | cons m ms ih =>
    obtain ⟨name, w⟩ := m
    rw [insertMember]
    by_cases heq : key = name
    · subst heq
      rw [if_pos rfl, lookup_cons_ite, lookup_cons_ite]
      split_ifs <;> rfl
    · rw [if_neg heq]
      split_ifs with hlt hk hk
      · rw [lookup_cons_ite, if_pos hk]
      · rw [lookup_cons_ite, if_neg hk]
      · rw [lookup_cons_ite, if_neg (hk ▸ heq), ih, if_pos hk]
      · rw [lookup_cons_ite, lookup_cons_ite, ih, if_neg hk]

theorem mem_names_iff {k : CString} {ms : List (CString × Json)} :
    k ∈ ms.map Prod.fst ↔ ms.lookup k ≠ none := by
  refine ⟨fun hk hnone => ?_, fun hne => ?_⟩
  · obtain ⟨m, hm, rfl⟩ := List.mem_map.mp hk
    exact bne_iff_ne.mp (List.lookup_eq_none_iff.mp hnone m hm) rfl
  · obtain ⟨v, hv⟩ := Option.ne_none_iff_exists'.mp hne
    obtain ⟨pre, post, rfl, -⟩ := List.lookup_eq_some_iff.mp hv
    simp

/-- Members with different names, put in one after the other, are all found. -/
theorem lookup_insertAll {ms acc : List (CString × Json)} (h : (ms.map Prod.fst).Nodup)
    (k : CString) : (insertAll ms acc).lookup k = (ms.lookup k).or (acc.lookup k) := by
  induction ms generalizing acc with
  | nil => rfl
  | cons m ms ih =>
    obtain ⟨name, w⟩ := m
    obtain ⟨hname, hms⟩ := List.nodup_cons.mp h
    rw [insertAll_cons, ih hms, lookup_insertMember, lookup_cons_ite]
    split_ifs with hk
    · have habsent : ms.lookup k = none := by
        by_contra hne
        exact hname (hk ▸ mem_names_iff.mpr hne)
      rw [habsent]
      rfl
    · rfl

/-! ## Changing the values -/

/-- The same names, other values. -/
def mapValues (f : Json → Json) (ms : List (CString × Json)) : List (CString × Json) :=
  ms.map fun m => (m.1, f m.2)

theorem mapValues_cons (f : Json → Json) (k : CString) (v : Json) (ms : List (CString × Json)) :
    mapValues f ((k, v) :: ms) = (k, f v) :: mapValues f ms := rfl

theorem map_fst_mapValues (f : Json → Json) (ms : List (CString × Json)) :
    (mapValues f ms).map Prod.fst = ms.map Prod.fst := List.map_map

/-- The mutual recursion, as a map over the members. -/
theorem rereadMembers_eq (num : ℚ → Json) (ms : List (CString × Json)) :
    rereadMembers num ms = mapValues (reread num) ms := by
  induction ms with
  | nil => rfl
  | cons m ms ih =>
    obtain ⟨k, v⟩ := m
    rw [rereadMembers, ih, mapValues_cons]

/-- The place of a member depends on the keys only. -/
theorem mapValues_insertMember (f : Json → Json) (key : CString) (v : Json)
    (ms : List (CString × Json)) :
    mapValues f (insertMember key v ms) = insertMember key (f v) (mapValues f ms) := by
  induction ms with
  | nil => rfl
  | cons a ms ih =>
    obtain ⟨k, w⟩ := a
    rw [mapValues_cons, insertMember, insertMember]
    split_ifs
    · rfl
    · rfl
    · rw [mapValues_cons, ih]

theorem mapValues_insertAll (f : Json → Json) (ms acc : List (CString × Json)) :
    mapValues f (insertAll ms acc) = insertAll (mapValues f ms) (mapValues f acc) := by
  induction ms generalizing acc with
  | nil => rfl
  | cons m ms ih =>
    rw [insertAll_cons, ih, mapValues_insertMember]
    rfl

theorem Sorted.mapValues {ms : List (CString × Json)} (h : Sorted ms) (f : Json → Json) :
    Sorted (mapValues f ms) := List.pairwise_map.mpr h

/-- The keys are the same, so the lookup finds the member at the same place. -/
theorem lookup_mapValues (f : Json → Json) (key : CString) (ms : List (CString × Json)) :
    (mapValues f ms).lookup key = (ms.lookup key).map f := by
  induction ms with
  | nil => rfl
  | cons a ms ih =>
    obtain ⟨k, w⟩ := a
    rw [mapValues_cons, List.lookup_cons, List.lookup_cons, ih]
    cases key == k <;> rfl

/-- The members of an object in order are reread one by one. -/
theorem reread_obj {ms : List (CString × Json)} (h : Sorted ms) (num : ℚ → Json) :
    reread num (obj ms) = obj (mapValues (reread num) ms) := by
  rw [reread, rereadMembers_eq, insertAll_of_sorted (h.mapValues _)]

/-! ## Reading twice -/

/-- Only `double`s are read anew; an integer that fits is none. -/
theorem reread_ofInteger (num : ℚ → Json) (n : UInt32) :
    reread num (ofInteger n.toNat) = ofInteger n.toNat := by
  rcases ofInteger_toNat n with hint | huint
  · rw [hint, reread]
  · rw [huint, reread, huint]

mutual

/-- **Reading twice is reading once**, with the second reading of the numbers of the first. -/
theorem reread_reread (r s : ℚ → Json) :
    ∀ v : Json, reread s (reread r v) = reread (fun q => reread s (r q)) v
  | .null => rfl
  | .int _ => rfl
  | .uint n => by rw [reread, reread_ofInteger, reread]
  | .real _ => rfl
  | .str _ => rfl
  | .bool _ => rfl
  | .arr xs => by rw [reread, reread, reread, rereadItems_rereadItems r s xs]
  | .obj ms => by
    have hmembers := rereadMembers_rereadMembers r s ms
    rw [rereadMembers_eq s] at hmembers
    -- after the first reading the members are in order, so the second puts them back as they are
    rw [reread, reread, reread, rereadMembers_eq s, mapValues_insertAll, hmembers]
    exact congrArg obj (insertAll_of_sorted (sorted_insertAll _ List.Pairwise.nil))

theorem rereadItems_rereadItems (r s : ℚ → Json) :
    ∀ xs : List Json, rereadItems s (rereadItems r xs) = rereadItems (fun q => reread s (r q)) xs
  | [] => rfl
  | x :: xs => by
    rw [rereadItems, rereadItems, rereadItems, reread_reread r s x, rereadItems_rereadItems r s xs]

theorem rereadMembers_rereadMembers (r s : ℚ → Json) : ∀ ms : List (CString × Json),
    rereadMembers s (rereadMembers r ms) = rereadMembers (fun q => reread s (r q)) ms
  | [] => rfl
  | (k, v) :: ms => by
    rw [rereadMembers, rereadMembers, rereadMembers, reread_reread r s v,
      rereadMembers_rereadMembers r s ms]

end

/-! ## Normal forms -/

mutual

/-- The value as such: numbers by their value, whatever their kind, and members in order. -/
def normal : Json → Json
  | null => null
  | int n => real n.toInt
  | uint n => real n.toNat
  | real q => real q
  | str s => str s
  | bool b => bool b
  | arr xs => arr (normalItems xs)
  | obj ms => obj (insertAll (normalMembers ms) [])

/-- `normal` on the elements of an array. -/
def normalItems : List Json → List Json
  | [] => []
  | x :: xs => normal x :: normalItems xs

/-- `normal` on the members of an object. -/
def normalMembers : List (CString × Json) → List (CString × Json)
  | [] => []
  | (k, v) :: ms => (k, normal v) :: normalMembers ms

end

theorem normalMembers_eq (ms : List (CString × Json)) :
    normalMembers ms = mapValues normal ms := by
  induction ms with
  | nil => rfl
  | cons m ms ih =>
    obtain ⟨k, v⟩ := m
    rw [normalMembers, ih, mapValues_cons]

/-- A sorted object is normalised member by member: the order is that of the keys. -/
theorem normal_obj {ms : List (CString × Json)} (h : Sorted ms) :
    normal (obj ms) = obj (mapValues normal ms) := by
  rw [normal, normalMembers_eq, insertAll_of_sorted (h.mapValues _)]

/-- Members that were put in order are put in order once. -/
theorem normal_insertAll (ms : List (CString × Json)) :
    normal (obj (insertAll ms [])) = obj (insertAll (mapValues normal ms) []) := by
  rw [normal, normalMembers_eq, mapValues_insertAll]
  exact congrArg obj (insertAll_of_sorted (sorted_insertAll _ List.Pairwise.nil))

/-- An `int` and an `unsigned` of the same value have the same normal form. -/
theorem normal_ofInteger (n : UInt32) : normal (ofInteger n.toNat) = real n.toNat := by
  rw [ofInteger]
  have hlt := n.toNat_lt
  split_ifs with hint huint
  · rw [normal, Int32.toInt_ofInt_of_le hint.1 hint.2]
    rfl
  · rw [normal, Int.toNat_natCast, UInt32.ofNat_toNat]
  · omega

mutual

/-- The `double`s of a value. -/
def reals : Json → List ℚ
  | real q => [q]
  | arr xs => realsItems xs
  | obj ms => realsMembers ms
  | null | int _ | uint _ | str _ | bool _ => []

/-- `reals` of the elements of an array. -/
def realsItems : List Json → List ℚ
  | [] => []
  | x :: xs => reals x ++ realsItems xs

/-- `reals` of the members of an object. -/
def realsMembers : List (CString × Json) → List ℚ
  | [] => []
  | (_, v) :: ms => reals v ++ realsMembers ms

end

mutual

/-- **What is read is the value**, when each `double` is read as it is. -/
theorem normal_reread {num : ℚ → Json} :
    ∀ v : Json, (∀ q ∈ v.reals, normal (num q) = real q) → normal (reread num v) = normal v
  | .null | .int _ | .str _ | .bool _ => fun _ => rfl
  | .uint n => fun _ => by rw [reread, normal_ofInteger, normal]
  | .real q => fun h => h q (List.mem_singleton.mpr rfl)
  | .arr xs => fun h => by rw [reread, normal, normal, normalItems_rereadItems xs h]
  | .obj ms => fun h => by
    rw [reread, normal_insertAll, normal, ← normalMembers_eq, normalMembers_rereadMembers ms h]

theorem normalItems_rereadItems {num : ℚ → Json} : ∀ xs : List Json,
    (∀ q ∈ realsItems xs, normal (num q) = real q) →
      normalItems (rereadItems num xs) = normalItems xs
  | [] => fun _ => rfl
  | x :: xs => fun h => by
    obtain ⟨hx, hxs⟩ := List.forall_mem_append.mp h
    rw [rereadItems, normalItems, normalItems, normal_reread x hx, normalItems_rereadItems xs hxs]

theorem normalMembers_rereadMembers {num : ℚ → Json} : ∀ ms : List (CString × Json),
    (∀ q ∈ realsMembers ms, normal (num q) = real q) →
      normalMembers (rereadMembers num ms) = normalMembers ms
  | [] => fun _ => rfl
  | (k, v) :: ms => fun h => by
    obtain ⟨hv, hms⟩ := List.forall_mem_append.mp h
    rw [rereadMembers, normalMembers, normalMembers, normal_reread v hv,
      normalMembers_rereadMembers ms hms]

end

/-- Members in order are the same when each name has the same value. -/
theorem Sorted.ext {ms ms' : List (CString × Json)} (h : Sorted ms) (h' : Sorted ms')
    (heq : ∀ k, ms.lookup k = ms'.lookup k) : ms = ms' := by
  -- a name that is before all others is not among them
  have habsent : ∀ {k : CString} {l : List (CString × Json)}, (∀ m ∈ l, k.val < m.1.val) →
      l.lookup k = none := by
    intro k l hl
    rw [List.lookup_eq_none_iff]
    exact fun m hm => bne_iff_ne.mpr (ne_of_lt (hl m hm))
  induction ms generalizing ms' with
  | nil =>
    cases ms' with
    | nil => rfl
    | cons m ms' =>
      have hm := heq m.1
      rw [List.lookup_cons_self] at hm
      cases hm
  | cons m ms ih =>
    obtain ⟨hhead, htail⟩ := List.pairwise_cons.mp h
    cases ms' with
    | nil =>
      have hm := heq m.1
      rw [List.lookup_cons_self] at hm
      cases hm
    | cons m' ms' =>
      obtain ⟨hhead', htail'⟩ := List.pairwise_cons.mp h'
      obtain ⟨k, v⟩ := m
      obtain ⟨k', v'⟩ := m'
      have hk : k = k' := by
        by_contra hne
        rcases em (k.val < k'.val) with hlt | hge
        · have hfirst := heq k
          rw [List.lookup_cons_self, List.lookup_cons, beq_eq_false_iff_ne.mpr hne,
            habsent fun m hm => List.lt_trans hlt (hhead' m hm)] at hfirst
          cases hfirst
        · have hfirst := heq k'
          rw [List.lookup_cons_self, List.lookup_cons, beq_eq_false_iff_ne.mpr (Ne.symm hne),
            habsent fun m hm => List.lt_trans (lt_of_not_lt hne hge) (hhead m hm)] at hfirst
          cases hfirst
      subst hk
      have hv := heq k
      rw [List.lookup_cons_self, List.lookup_cons_self, Option.some.injEq] at hv
      refine congrArg₂ List.cons (congrArg (Prod.mk k) hv) (ih htail htail' fun key => ?_)
      have hrest := heq key
      rw [lookup_cons_ite, lookup_cons_ite] at hrest
      by_cases hkey : key = k
      · rw [hkey, habsent hhead, habsent hhead']
      · rwa [if_neg hkey, if_neg hkey] at hrest

end Json

end MyServer
