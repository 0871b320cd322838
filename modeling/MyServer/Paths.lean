import Mathlib.Data.List.Basic

/-!
# Lexical resolution of paths

A path is a list of moves: down into a name, up, or nowhere. A directory is the list of
the names that lead to it; the first `floor` of them, a drive for example, are never left
by going up.

Every list of moves comes down to a `Route`: up some levels, then down along names
(`resolve_eq_follow`). So whether a path ends below the directory it starts in can be read
off its route (`below_iff`).
-/

namespace MyServer

universe u

variable {α : Type u}

/-- A component of a path. -/
inductive Move (α : Type u) : Type u where
  /-- `.`, or nothing between two separators -/
  | stay : Move α
  /-- `..` -/
  | up : Move α
  /-- a name -/
  | down : α → Move α

/-- Where a move leads from a directory. -/
def Move.from (floor : ℕ) (dir : List α) : Move α → List α
  | stay => dir
  | up => if dir.length ≤ floor then dir else dir.dropLast
  | down a => dir ++ [a]

/-- Where a path leads from a directory. -/
def resolve (floor : ℕ) (dir : List α) (path : List (Move α)) : List α :=
  path.foldl (Move.from floor) dir

/-- A path is followed step by step, so a path in two parts is followed in two parts. -/
theorem resolve_append (floor : ℕ) (dir : List α) (p q : List (Move α)) :
    resolve floor dir (p ++ q) = resolve floor (resolve floor dir p) q := List.foldl_append

/-! ## Routes -/

/-- Up some levels, then down along names. -/
structure Route (α : Type u) : Type u where
  /-- how many levels up -/
  up : ℕ
  /-- the names on the way down -/
  down : List α
  deriving DecidableEq

namespace Route

/-- A route and one move more. -/
def move (r : Route α) : Move α → Route α
  | .stay => r
  | .up => if r.down = [] then ⟨r.up + 1, []⟩ else ⟨r.up, r.down.dropLast⟩
  | .down a => ⟨r.up, r.down ++ [a]⟩

/-- The route of a path. -/
def of (path : List (Move α)) : Route α := path.foldl move ⟨0, []⟩

/-- How many names of a directory a route keeps. -/
def keeps (r : Route α) (floor : ℕ) (dir : List α) : ℕ := max floor (dir.length - r.up)

/-- Where a route leads from a directory. -/
def follow (r : Route α) (floor : ℕ) (dir : List α) : List α :=
  dir.take (r.keeps floor dir) ++ r.down

variable {floor : ℕ} {dir : List α}

@[simp] theorem keeps_mk (n : ℕ) (down : List α) :
    (⟨n, down⟩ : Route α).keeps floor dir = max floor (dir.length - n) := rfl

/-- No route keeps more of a directory than there is: the floor is part of it. -/
theorem length_take_keeps (hdir : floor ≤ dir.length) (r : Route α) :
    (dir.take (r.keeps floor dir)).length = r.keeps floor dir := by
  rw [List.length_take, keeps]
  omega

/-- A route with one more move ends where that move leads from its old end. This lets a path of
any length be replaced by its route. -/
theorem follow_move (hdir : floor ≤ dir.length) (r : Route α) (m : Move α) :
    (r.move m).follow floor dir = m.from floor (r.follow floor dir) := by
  have hlength := length_take_keeps hdir r
  cases m with
  | stay => rfl
  | down a => rw [move, Move.from, follow, follow, List.append_assoc, keeps, keeps]
  | up =>
    rw [move, Move.from]
    by_cases hdown : r.down = []
    · rw [if_pos hdown, follow, follow, hdown, List.append_nil, List.append_nil, hlength]
      -- at the floor nothing is left to go up
      by_cases hfloor : r.keeps floor dir ≤ floor
      · have hsame : max floor (dir.length - (r.up + 1)) = r.keeps floor dir := by
          rw [keeps] at hfloor ⊢
          omega
        rw [if_pos hfloor, keeps_mk, hsame]
      · have hless : max floor (dir.length - (r.up + 1)) = r.keeps floor dir - 1 := by
          rw [keeps] at hfloor ⊢
          omega
        rw [if_neg hfloor, List.dropLast_eq_take, hlength, List.take_take, keeps_mk, hless,
          Nat.min_eq_left (Nat.sub_le ..)]
    · have hpos := List.length_pos_iff.mpr hdown
      have hlong : ¬ (r.follow floor dir).length ≤ floor := by
        rw [follow, List.length_append, hlength, keeps]
        omega
      rw [if_neg hdown, if_neg hlong, follow, follow, List.dropLast_append_of_ne_nil hdown]
      rfl

/-- **Every path comes down to its route.** -/
theorem resolve_eq_follow (hdir : floor ≤ dir.length) (path : List (Move α)) :
    resolve floor dir path = (of path).follow floor dir := by
  have hrun : ∀ (path : List (Move α)) (r : Route α),
      resolve floor (r.follow floor dir) path = (path.foldl move r).follow floor dir := by
    intro path
    induction path with
    | nil => exact fun _ => rfl
    | cons m path ih =>
      intro r
      rw [List.foldl_cons, ← ih, follow_move hdir]
      rfl
  have hstart : (⟨0, []⟩ : Route α).follow floor dir = dir := by
    rw [follow, keeps_mk, List.append_nil]
    exact List.take_of_length_le (by omega)
  rw [of, ← hrun, hstart]

/-- **A path ends below its directory** exactly when its route goes down again through all
the names it has left. -/
theorem below_iff (hdir : floor ≤ dir.length) (path : List (Move α)) :
    dir <+: resolve floor dir path ↔
      dir.drop ((of path).keeps floor dir) <+: (of path).down := by
  rw [resolve_eq_follow hdir, follow]
  generalize (of path).keeps floor dir = n
  have hsplit : dir <+: dir.take n ++ (of path).down ↔
      dir.take n ++ dir.drop n <+: dir.take n ++ (of path).down := by
    rw [List.take_append_drop]
  rw [hsplit, List.prefix_append_right_inj]

end Route

end MyServer
