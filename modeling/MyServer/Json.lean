import MyServer.Bytes
import Mathlib.Data.List.Basic
import Mathlib.Algebra.Ring.Rat

/-!
# JSON values (`json/value.h`, `json_value.cpp`)

`Json` is a `Json::Value` without its comments. Strings and member names are C
strings: jsoncpp stores them NUL-terminated and reads them back up to the first
NUL, so a NUL inside one does not exist (`CString`). An object is a `std::map`, so
its members are kept sorted by name.

The accessors follow the vendored source in what they do on a value of the wrong
kind: `operator[]` runs into an `assert` (`JsonFault.abort`), the conversions throw
(`JsonFault.threw`).
-/

namespace MyServer

/-- A C string: bytes without a NUL. -/
abbrev CString : Type := {s : List UInt8 // 0 ∉ s}

/-- The empty string. -/
def CString.empty : CString := ⟨[], by decide⟩

/-- A `Json::Value`. -/
inductive Json : Type where
  /-- `nullValue` -/
  | null : Json
  /-- `intValue` -/
  | int : Int32 → Json
  /-- `uintValue` -/
  | uint : UInt32 → Json
  /-- `realValue` -/
  | real : ℚ → Json
  /-- `stringValue` -/
  | str : CString → Json
  /-- `booleanValue` -/
  | bool : Bool → Json
  /-- `arrayValue` -/
  | arr : List Json → Json
  /-- `objectValue` -/
  | obj : List (CString × Json) → Json

/-- How an accessor fails. -/
inductive JsonFault : Type where
  /-- a failed `assert`: the process ends -/
  | abort : JsonFault
  /-- a `std::runtime_error` -/
  | threw : JsonFault
  deriving DecidableEq

namespace Json

/-! ## Equality -/

mutual

/-- Structural equality, as a test. -/
def beq : Json → Json → Bool
  | null, null => true
  | int a, int b => a = b
  | uint a, uint b => a = b
  | real a, real b => a = b
  | str a, str b => a = b
  | bool a, bool b => a = b
  | arr a, arr b => beqList a b
  | obj a, obj b => beqMembers a b
  | _, _ => false

/-- `beq` on the elements of an array. -/
def beqList : List Json → List Json → Bool
  | [], [] => true
  | a :: as, b :: bs => beq a b && beqList as bs
  | _, _ => false

/-- `beq` on the members of an object. -/
def beqMembers : List (CString × Json) → List (CString × Json) → Bool
  | [], [] => true
  | (k, a) :: as, (l, b) :: bs => decide (k = l) && beq a b && beqMembers as bs
  | _, _ => false

end

mutual

theorem eq_of_beq : ∀ {a b : Json}, beq a b = true → a = b
  | null, null, _ => rfl
  | int a, int b, h => by simp only [beq, decide_eq_true_eq] at h; rw [h]
  | uint a, uint b, h => by simp only [beq, decide_eq_true_eq] at h; rw [h]
  | real a, real b, h => by simp only [beq, decide_eq_true_eq] at h; rw [h]
  | str a, str b, h => by simp only [beq, decide_eq_true_eq] at h; rw [h]
  | bool a, bool b, h => by simp only [beq, decide_eq_true_eq] at h; rw [h]
  | arr a, arr b, h => by simp only [beq] at h; rw [eq_of_beqList h]
  | obj a, obj b, h => by simp only [beq] at h; rw [eq_of_beqMembers h]

theorem eq_of_beqList : ∀ {as bs : List Json}, beqList as bs = true → as = bs
  | [], [], _ => rfl
  | a :: as, b :: bs, h => by
    simp only [beqList, Bool.and_eq_true] at h
    rw [eq_of_beq h.1, eq_of_beqList h.2]

theorem eq_of_beqMembers : ∀ {as bs : List (CString × Json)}, beqMembers as bs = true → as = bs
  | [], [], _ => rfl
  | (k, a) :: as, (l, b) :: bs, h => by
    simp only [beqMembers, Bool.and_eq_true, decide_eq_true_eq] at h
    rw [h.1.1, eq_of_beq h.1.2, eq_of_beqMembers h.2]

end

mutual

theorem beq_self : ∀ a : Json, beq a a = true
  | null => rfl
  | int _ | uint _ | real _ | str _ | bool _ => by simp only [beq, decide_true]
  | arr xs => by rw [beq, beqList_self xs]
  | obj ms => by rw [beq, beqMembers_self ms]

theorem beqList_self : ∀ as : List Json, beqList as as = true
  | [] => rfl
  | a :: as => by rw [beqList, beq_self a, beqList_self as]; rfl

theorem beqMembers_self : ∀ as : List (CString × Json), beqMembers as as = true
  | [] => rfl
  | (k, a) :: as => by rw [beqMembers, beq_self a, beqMembers_self as, decide_eq_true rfl]; rfl

end

instance : DecidableEq Json := fun a b =>
  decidable_of_iff (beq a b = true) ⟨eq_of_beq, fun h => h ▸ beq_self a⟩

/-! ## Access -/

/-- `isArray`, which is also true of null -/
def isArray : Json → Bool
  | null | arr _ => true
  | _ => false

/-- `size` -/
def size : Json → ℕ
  | arr xs => xs.length
  | obj ms => ms.length
  | _ => 0

/-- `empty` -/
def empty : Json → Bool
  | null => true
  | arr xs => xs.isEmpty
  | obj ms => ms.isEmpty
  | _ => false

/-- The member of an object, `null` when there is none. -/
def find (key : CString) (ms : List (CString × Json)) : Json := (ms.lookup key).getD null

/-- `operator[](key)` -/
def member (key : CString) : Json → Except JsonFault Json
  | null => .ok null
  | obj ms => .ok (find key ms)
  | _ => .error .abort

/-- `operator[](index)` -/
def index (i : ℕ) : Json → Except JsonFault Json
  | null => .ok null
  | arr xs => .ok (xs[i]?.getD null)
  | _ => .error .abort

/-- `asString` -/
def asString : Json → Except JsonFault CString
  | null => .ok ⟨[], by decide⟩
  | str s => .ok s
  | bool true => .ok ⟨[116, 114, 117, 101], by decide⟩
  | bool false => .ok ⟨[102, 97, 108, 115, 101], by decide⟩
  | _ => .error .threw

/-- `asInt`. A `double` is cut towards zero. -/
def asInt : Json → Except JsonFault Int32
  | null => .ok 0
  | int n => .ok n
  | uint n => if n.toNat < 2 ^ 31 - 1 then .ok (.ofNat n.toNat) else .error .threw
  | real q =>
    if -2 ^ 31 ≤ q ∧ q ≤ 2 ^ 31 - 1 then .ok (.ofInt (q.num.tdiv q.den)) else .error .threw
  | bool b => .ok (if b then 1 else 0)
  | _ => .error .threw

/-- `asDouble` -/
def asDouble : Json → Except JsonFault ℚ
  | null => .ok 0
  | int n => .ok n.toInt
  | uint n => .ok n.toNat
  | real q => .ok q
  | bool b => .ok (if b then 1 else 0)
  | _ => .error .threw

/-! ## Update -/

/-- Insert or replace a member, keeping the names sorted as `std::map` does. -/
def insertMember (key : CString) (v : Json) : List (CString × Json) → List (CString × Json)
  | [] => [(key, v)]
  | (k, w) :: ms =>
    if key = k then (key, v) :: ms
    else if key.val < k.val then (key, v) :: (k, w) :: ms
    else (k, w) :: insertMember key v ms

/-- `removeMember` -/
def removeMember (key : CString) : Json → Except JsonFault Json
  | null => .ok null
  | obj ms => .ok (obj (ms.filter fun m => m.1 ≠ key))
  | _ => .error .abort

/-- The member name `"msg"` of requests and responses. -/
def msgKey : CString := ⟨[109, 115, 103], by decide⟩

/-- `rsp["msg"][0u] = x0; rsp["msg"][1u] = x1; ...` on a fresh response. -/
def reply (xs : List Json) : Json := obj [(msgKey, arr xs)]

end Json

end MyServer
