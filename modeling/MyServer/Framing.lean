import Mathlib.Data.List.Basic
import Mathlib.Algebra.Order.Group.Nat

/-!
# Framing a stream of symbols

A `FrameFormat` turns messages into self-delimiting frames: `decode` splits the
first frame off a run of symbols, and gives up on runs of `limit` symbols or
more. `decodeAll` is the greedy reader that a receiver runs on one chunk: it
splits frames off the front until `decode` gives up, and leaves a residue.

A stream reaches a receiver cut into chunks. A receiver that keeps nothing
between two chunks reads each chunk by itself (`deliver`), and the main result
`deliver_eq_iff` says exactly when that is harmless: it delivers the messages of
the stream iff every cut falls between two frames and every chunk is shorter than
the limit. The forward direction is a counting argument: whatever `decodeAll`
leaves behind is missing from the total, so nothing may be left behind.
-/

namespace MyServer

universe u v

/-- A self-delimiting format for messages `β` over symbols `α`. -/
structure FrameFormat (α : Type u) (β : Type v) where
  /-- the frame of a message -/
  encode : β → List α
  /-- split the first frame off a run of symbols -/
  decode : List α → Option (β × List α)
  /-- runs of this many symbols are refused -/
  limit : ℕ
  /-- a frame is never empty -/
  encode_ne_nil : ∀ m, encode m ≠ []
  /-- what is split off was the frame of the message -/
  decode_sound : ∀ {s m r}, decode s = some (m, r) → s = encode m ++ r
  /-- a frame in front is found, as long as the run is short enough -/
  decode_append : ∀ m r, (encode m ++ r).length < limit → decode (encode m ++ r) = some (m, r)
  /-- long runs are refused -/
  decode_limit : ∀ {s}, limit ≤ s.length → decode s = none

namespace FrameFormat

variable {α : Type u} {β : Type v} (F : FrameFormat α β)

/-- Nothing can be decoded from nothing: a frame has at least one element, which decoding would
have to take. -/
theorem decode_nil : F.decode [] = none := by
  rcases h : F.decode [] with _ | ⟨m, r⟩
  · rfl
  · have hnil := F.decode_sound h
    exact absurd (List.append_eq_nil_iff.mp hnil.symm).1 (F.encode_ne_nil m)

/-- Each frame takes something, so that decoding one after the other ends. -/
theorem length_rest_lt {s : List α} {m : β} {r : List α} (h : F.decode s = some (m, r)) :
    r.length < s.length := by
  have hpos : 0 < (F.encode m).length := List.length_pos_iff.mpr (F.encode_ne_nil m)
  rw [F.decode_sound h, List.length_append]
  omega

/-- The greedy reader: the messages of one chunk, and the residue left behind. -/
def decodeAll (s : List α) : List β × List α :=
  match _h : F.decode s with
  | none => ([], s)
  | some (m, r) => (m :: (decodeAll r).1, (decodeAll r).2)
termination_by s.length
decreasing_by all_goals exact F.length_rest_lt _h

/-- The recursion of `decodeAll` ends here; what is left is the residue. -/
theorem decodeAll_of_none {s : List α} (h : F.decode s = none) : F.decodeAll s = ([], s) := by
  rw [decodeAll]
  split
  · rfl
  · next hs => rw [h] at hs; cases hs

/-- One round of the recursion: a frame, and the rest decoded in the same way. -/
theorem decodeAll_of_some {s : List α} {m : β} {r : List α} (h : F.decode s = some (m, r)) :
    F.decodeAll s = (m :: (F.decodeAll r).1, (F.decodeAll r).2) := by
  rw [decodeAll]
  split
  · next hs => rw [h] at hs; cases hs
  · next m' r' hs =>
    rw [h] at hs
    obtain ⟨rfl, rfl⟩ := Prod.mk.inj (Option.some.inj hs)
    rfl

/-- Nothing is invented and nothing is reordered: a chunk is the frames of the
messages read from it, followed by the residue. -/
theorem decodeAll_sound (s : List α) :
    s = (F.decodeAll s).1.flatMap F.encode ++ (F.decodeAll s).2 := by
  -- induction along the reader's own recursion: one frame off the front each time
  induction s using decodeAll.induct F with
  | case1 s h => simp [F.decodeAll_of_none h]
  | case2 s m r h ih =>
    rw [F.decodeAll_of_some h, List.flatMap_cons, List.append_assoc, ← ih]
    exact F.decode_sound h

/-- The reader stops where no frame can be split off. -/
theorem decode_residue (s : List α) : F.decode (F.decodeAll s).2 = none := by
  induction s using decodeAll.induct F with
  | case1 s h => rw [F.decodeAll_of_none h, h]
  | case2 s m r h ih => rw [F.decodeAll_of_some h, ih]

/-- A short chunk of whole frames is read completely. -/
theorem decodeAll_flatMap {ms : List β} (h : (ms.flatMap F.encode).length < F.limit) :
    F.decodeAll (ms.flatMap F.encode) = (ms, []) := by
  induction ms with
  | nil => exact F.decodeAll_of_none F.decode_nil
  | cons m ms ih =>
    rw [List.flatMap_cons] at h ⊢
    have hms : (ms.flatMap F.encode).length < F.limit := by
      rw [List.length_append] at h
      omega
    rw [F.decodeAll_of_some (F.decode_append m _ h), ih hms]

/-- The messages a receiver without memory reads from a stream cut into chunks. -/
def deliver (chunks : List (List α)) : List β := chunks.flatMap fun c => (F.decodeAll c).1

@[simp] theorem deliver_nil : F.deliver [] = [] := rfl

/-- Chunks are decoded one by one. What a chunk leaves undecoded is not put in front of the next
one, which is where frames get lost. -/
@[simp] theorem deliver_cons (c : List α) (cs : List (List α)) :
    F.deliver (c :: cs) = (F.decodeAll c).1 ++ F.deliver cs := by
  simp [deliver]

/-- The symbols of the delivered messages are at most the symbols that arrived. -/
theorem length_deliver_le (chunks : List (List α)) :
    ((F.deliver chunks).flatMap F.encode).length ≤ chunks.flatten.length := by
  induction chunks with
  | nil => simp
  | cons c cs ih =>
    have hc := congrArg List.length (F.decodeAll_sound c)
    rw [List.length_append] at hc
    rw [deliver_cons, List.flatMap_append, List.length_append, List.flatten_cons,
      List.length_append]
    omega

/-- A chunk cut out of the stream between two frames, and short enough to be read. -/
def Aligned (chunks : List (List α)) (ms : List β) : Prop :=
  ∃ groups : List (List β), groups.flatten = ms ∧
    chunks = groups.map (fun g => g.flatMap F.encode) ∧ ∀ c ∈ chunks, c.length < F.limit

/-- When every chunk is a row of whole frames no residue is left, so nothing is lost between
chunks. -/
theorem deliver_of_aligned {chunks : List (List α)} {ms : List β} (h : F.Aligned chunks ms) :
    F.deliver chunks = ms := by
  obtain ⟨groups, rfl, rfl, hlt⟩ := h
  induction groups with
  | nil => rfl
  | cons g gs ih =>
    rw [List.map_cons] at hlt ⊢
    have hg := F.decodeAll_flatMap (hlt _ (List.mem_cons_self ..))
    have hgs := ih fun c hc => hlt c (List.mem_cons_of_mem _ hc)
    rw [deliver_cons, hg, hgs, List.flatten_cons]

/-- If nothing of a chunk list is missing from the delivered total, the chunks
are aligned with what they deliver. -/
theorem aligned_deliver {chunks : List (List α)} (hne : ∀ c ∈ chunks, c ≠ [])
    (hlen : chunks.flatten.length ≤ ((F.deliver chunks).flatMap F.encode).length) :
    F.Aligned chunks (F.deliver chunks) := by
  induction chunks with
  | nil => exact ⟨[], rfl, rfl, fun c hc => absurd hc List.not_mem_nil⟩
  | cons c cs ih =>
    have hsound := F.decodeAll_sound c
    have hc := congrArg List.length hsound
    have hcs := F.length_deliver_le cs
    rw [deliver_cons, List.flatMap_append, List.length_append, List.flatten_cons,
      List.length_append] at hlen
    rw [List.length_append] at hc
    -- both summands are tight: `c` leaves no residue, and `cs` loses nothing
    have hres : (F.decodeAll c).2 = [] := List.eq_nil_of_length_eq_zero (by omega)
    obtain ⟨groups, hflat, hmap, hlt⟩ :=
      ih (fun c' hc' => hne c' (List.mem_cons_of_mem _ hc')) (by omega)
    rw [hres, List.append_nil] at hsound
    refine ⟨(F.decodeAll c).1 :: groups, ?_, ?_, ?_⟩
    · rw [List.flatten_cons, hflat, deliver_cons]
    · rw [List.map_cons, ← hmap, ← hsound]
    · intro c' hc'
      rcases List.mem_cons.mp hc' with rfl | hc'
      · -- at the limit nothing is read, and the whole chunk would be residue
        by_contra hge
        rw [F.decodeAll_of_none (F.decode_limit (Nat.le_of_not_lt hge))] at hres
        exact hne _ (List.mem_cons_self ..) hres
      · exact hlt c' hc'

/-- **When a receiver without memory is correct.** Chunks that carry as many
symbols as the frames of `ms` deliver exactly `ms` iff they are aligned with the
frames of `ms`. -/
theorem deliver_eq_iff {chunks : List (List α)} {ms : List β} (hne : ∀ c ∈ chunks, c ≠ [])
    (hlen : chunks.flatten.length = (ms.flatMap F.encode).length) :
    F.deliver chunks = ms ↔ F.Aligned chunks ms := by
  refine ⟨?_, ?_⟩
  · intro h
    have hle : chunks.flatten.length ≤ ((F.deliver chunks).flatMap F.encode).length := by
      rw [h, hlen]
    have := F.aligned_deliver hne hle
    rwa [h] at this
  · exact F.deliver_of_aligned

end FrameFormat

end MyServer
