import MyServer.HttpConnection
import MyServer.Paths

/-!
# Files below `www` (`connection.cpp`)

A connection answers `/www/...` with the file at `current_path() / uri`. The test looks at
the first five bytes of the URI and the parser lets every byte through that is neither a
blank nor a control character, so the rest may go up as often as it likes.
`contains_iff` says which URIs stay in the directory `www`.

Paths are taken apart as the file system of the platform does it. On Windows a backslash
separates too, and the drive is not left by going up.
-/

namespace MyServer

namespace Http

/-- The systems `boost::filesystem` knows. -/
inductive Platform : Type where
  | posix | windows
  deriving DecidableEq

namespace Platform

/-- The bytes between the components of a path. -/
def isSeparator : Platform → UInt8 → Bool
  | posix, c => c = 47
  | windows, c => c = 47 || c = 92

/-- How many of the first names of a path are never left. -/
def floor : Platform → ℕ
  | posix => 0
  | windows => 1

/-- What a component means. -/
def moveOf (t : List UInt8) : Move (List UInt8) :=
  if t = [] ∨ t = ascii "." then .stay else if t = ascii ".." then .up else .down t

/-- The components of a path. -/
def moves (plat : Platform) (path : List UInt8) : List (Move (List UInt8)) :=
  (path.splitOnP plat.isSeparator).map moveOf

/-- The location a path denotes, without looking at the file system. -/
def location (plat : Platform) (path : List UInt8) : List (List UInt8) :=
  resolve plat.floor [] (plat.moves path)

theorem moves_append (plat : Platform) (p q : List UInt8) :
    plat.moves (p ++ 47 :: q) = plat.moves p ++ plat.moves q := by
  have hslash : plat.isSeparator 47 = true := by cases plat <;> rfl
  rw [moves, List.splitOnP_append_cons p q hslash, List.map_append]
  rfl

theorem moves_www (plat : Platform) : plat.moves (ascii "www") = [.down (ascii "www")] := by
  cases plat <;> rfl

end Platform

namespace Env

/-- The directory `www` of the current directory. -/
def www (env : Env) (plat : Platform) : List (List UInt8) :=
  plat.location env.currentPath ++ [ascii "www"]

/-- The path of a resource denotes a location in `www`. -/
def Contains (env : Env) (plat : Platform) (uri : List UInt8) : Prop :=
  env.www plat <+: plat.location (env.filePath uri)

instance (env : Env) (plat : Platform) (uri : List UInt8) : Decidable (env.Contains plat uri) :=
  inferInstanceAs (Decidable (_ <+: _))

/-- A resource is looked for from `www` on. -/
theorem location_filePath (env : Env) (plat : Platform) (rest : List UInt8) :
    plat.location (env.filePath (ascii "/www/" ++ rest)) =
      resolve plat.floor (env.www plat) (plat.moves rest) := by
  have hpath : env.filePath (ascii "/www/" ++ rest) =
      env.currentPath ++ 47 :: (ascii "www" ++ 47 :: rest) := rfl
  rw [hpath, Platform.location, Platform.moves_append, Platform.moves_append, Platform.moves_www,
    resolve_append, resolve_append]
  rfl

/-- **Containment of resources.** The file that is looked for is one of the directory `www`
if and only if the route of the URI behind `/www/` goes down again through every directory
it has gone up from: it never leaves `www`, or it comes back by name. -/
theorem contains_iff (env : Env) (plat : Platform) {uri : List UInt8}
    (h : isRequestResource uri = true) :
    env.Contains plat uri ↔
      (env.www plat).drop ((Route.of (plat.moves (uri.drop 5))).keeps plat.floor (env.www plat)) <+:
        (Route.of (plat.moves (uri.drop 5))).down := by
  obtain ⟨rest, rfl⟩ := List.isPrefixOf_iff_prefix.mp h
  have hfloor : plat.floor ≤ (env.www plat).length := by
    rw [www, List.length_append]
    cases plat <;> simp [Platform.floor]
  rw [Contains, location_filePath]
  exact Route.below_iff hfloor (plat.moves rest)

end Env

/-- A server in `/srv`, and a file outside of it. -/
def leakyEnv : Env where
  cast := strictCast
  json := plainJson
  files path :=
    if path = ascii "/srv/www/../../etc/passwd" then .regular (some (ascii "secret")) else .absent
  currentPath := ascii "/srv"

/-- A resource that goes up inside of `www` only. -/
theorem contains_subdirectory :
    isRequestResource (ascii "/www/css/../index.html") = true ∧
      leakyEnv.Contains .posix (ascii "/www/css/../index.html") :=
  ⟨by decide, (leakyEnv.contains_iff .posix (by decide)).mpr (by decide)⟩

/-- Two levels up from `www`: the parser and the test take the URI, and the file comes
back. -/
theorem contains_fails_on_dotdot :
    let calls := quietCalls (ascii "GET /www/../../etc/passwd HTTP/1.0\r\n\r\n")
    let uri := (parse leakyEnv.cast [calls]).state.req.uri
    (parse leakyEnv.cast [calls]).verdict = some .complete ∧ isRequestResource uri = true ∧
      ¬ leakyEnv.Contains .posix uri ∧
      ((Connection.create 1).handleRead leakyEnv (.init 0) (some calls)).2.1.replies.map
        Reply.content = [ascii "secret"] := by
  refine ⟨by decide +kernel, by decide +kernel, by decide +kernel, by decide +kernel⟩

end Http

end MyServer
