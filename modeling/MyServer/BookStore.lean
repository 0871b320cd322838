import MyServer.Accounts
import MyServer.Maps
import MyServer.PlayerMgr
import MyServer.Runs
import Mathlib.Data.List.TakeWhile
import Mathlib.Tactic.Linarith

/-!
# The book store (`book.cpp`, `bookStoreMgr.cpp`, `mongoMgr.cpp`)

The store has its books in two maps, from ids to books and from book numbers to ids, and
its money; the books and the money are saved in two collections. A book keeps the first 14
bytes of its number, the map of the numbers all of them. The id of a new book is one more
than the number of saved books, and `map::insert` keeps what is there.

Two results are about the manager alone, with whatever happens to the database: when the
store stays solvent (`solvent_always_iff`), and when the two maps agree
(`indexed_always_iff`). Prices and money are exact numbers.
-/

namespace MyServer

/-! ## Member names (`stringDef.h`) -/

/-- `db::Book::bookId` -/
def Db.Book.bookId : CString := ⟨[98, 105, 100], by decide⟩

/-- `db::Book::bookNo` -/
def Db.Book.bookNo : CString := ⟨[98, 110, 111], by decide⟩

/-- `db::Book::stock` -/
def Db.Book.stock : CString := ⟨[115, 116, 111], by decide⟩

/-- `db::Book::price` -/
def Db.Book.price : CString := ⟨[112, 114, 105], by decide⟩

/-- `db::BookStore::money` -/
def Db.BookStore.money : CString := ⟨[109, 111], by decide⟩

/-- `db::DataBase::system` -/
def Db.DataBase.system : CString := ⟨[115, 121, 115], by decide⟩

namespace MongoMgr

/-- `db_count`. The count is converted to an `int`. -/
def dbCount (env : Env) (col : List Document) : Int32 :=
  if env.countThrows then 0 else .ofNat col.length

/-- `findJson` of a whole collection: the documents that can be read, `null` when there is
none. -/
def findAll (J : JsonLib) (M : MongoLib) (col : List Document) : Json :=
  match col.filterMap fun obj => J.parse (M.jsonString obj.members) with
  | [] => .null
  | ps => .arr ps

end MongoMgr

/-- What a loop over `size()` goes through in an array, or in null. -/
def Json.elements : Json → List Json
  | arr xs => xs
  | _ => []

/-! ## Books -/

/-- The class `Book`. -/
structure Book : Type where
  /-- `m_nBookId` -/
  bookId : Int32
  /-- `m_szBookNo`, up to its NUL -/
  bookNo : CString
  /-- `m_nStock` -/
  stock : Int32
  /-- `m_dPrice` -/
  price : ℚ
  /-- the array has 15 bytes -/
  short : bookNo.val.length < 15
  deriving DecidableEq

namespace Book

/-- What the array holds after `strncpy` and the NUL at its end. -/
def cut (bookNo : List UInt8) : CString :=
  ⟨(bookNo.takeWhile (· ≠ 0)).take 14, fun h => by
    have hne := List.mem_takeWhile_imp (List.mem_of_mem_take h)
    simp at hne⟩

theorem length_cut (bookNo : List UInt8) : (cut bookNo).val.length < 15 :=
  Nat.lt_succ_of_le (List.length_take_le ..)

/-- `Book::create` -/
def create (bookId : Int32) (bookNo : List UInt8) (stock : Int32) (price : ℚ) : Book :=
  ⟨bookId, cut bookNo, stock, price, length_cut bookNo⟩

/-- `addStock` -/
def addStock (b : Book) (num : Int32) : Book :=
  if num ≤ 0 then b else { b with stock := b.stock + num }

/-- `minusStock`; `none` when it returns false -/
def minusStock (b : Book) (num : Int32) : Option Book :=
  if num ≤ 0 then none
  else if num > b.stock then none
  else some { b with stock := b.stock - num }

/-- `toJson`, member by member -/
def toJson (b : Book) : List (CString × Json) :=
  let ret := [(Db.Book.bookId, .int b.bookId)]
  let ret := Json.insertMember Db.Book.bookNo (.str b.bookNo) ret
  let ret := Json.insertMember Db.Book.price (.real b.price) ret
  Json.insertMember Db.Book.stock (.int b.stock) ret

end Book

/-! ## The manager -/

/-- `InitFund` -/
def initFund : ℚ := 1000

/-- The class `BookStoreMgr`. -/
structure BookStoreMgr : Type where
  /-- `m_BookMap` -/
  bookMap : Std.TreeMap Int32 Book
  /-- `m_BookNoMap` -/
  bookNoMap : Std.TreeMap (List UInt8) Int32
  /-- `m_dMoney` -/
  money : ℚ

/-- The manager and its two collections. -/
structure BookStore : Type where
  /-- the manager -/
  mgr : BookStoreMgr
  /-- the collection of the books -/
  books : List Document
  /-- the collection of the store -/
  store : List Document

/-- What happens outside during one call: when the book is counted and saved, and when the
store is saved. -/
structure BookEnv : Type where
  /-- for the book -/
  book : Env
  /-- for the store -/
  store : Env

namespace BookStore

/-- A new manager on an empty database. -/
def init : BookStore := ⟨⟨∅, ∅, initFund⟩, [], []⟩

variable (J : JsonLib) (M : MongoLib) (env : BookEnv)

/-- `saveBookToDB` -/
def saveBookToDB (w : BookStore) (bookId : Int32) : Bool × BookStore :=
  match w.mgr.bookMap[bookId]? with
  | none => (false, w)
  | some book =>
    let json := Json.obj book.toJson
    let key := Json.obj [(Db.Book.bookId, .int book.bookId)]
    let keyStr := J.toStyledString key
    let jsonStr := J.toStyledString json
    (true, { w with books := (MongoMgr.saveJson M env.book w.books keyStr jsonStr).2 })

/-- `saveBookStore` -/
def saveBookStore (w : BookStore) : Bool × BookStore :=
  let key := Json.obj [(Db.DataBase.system, .str Db.DataBase.system)]
  let json := [(Db.DataBase.system, Json.str Db.DataBase.system)]
  let json := Json.insertMember Db.BookStore.money (.real w.mgr.money) json
  let keyStr := J.toStyledString key
  let jsonStr := J.toStyledString (.obj json)
  (true, { w with store := (MongoMgr.saveJson M env.store w.store keyStr jsonStr).2 })

/-- `getIdFromBookNo` -/
def getIdFromBookNo (w : BookStore) (bookNo : List UInt8) : Int32 :=
  w.mgr.bookNoMap[bookNo]?.getD (-1)

/-- `getBookCount` -/
def getBookCount (w : BookStore) : Int32 := MongoMgr.dbCount env.book w.books

/-- What `setNewBook` does to the manager: `insert` keeps what is there. -/
def addBook (w : BookStore) (bookNo : List UInt8) (book : Book) (money : ℚ) : BookStore :=
  { w with mgr := {
    bookMap := w.mgr.bookMap.insertIfNew book.bookId book
    bookNoMap := w.mgr.bookNoMap.insertIfNew bookNo book.bookId
    money := money } }

/-- `setNewBook` -/
def setNewBook (w : BookStore) (bookNo : List UInt8) (price : ℚ) (num : Int32) (cost : ℚ) :
    Bool × BookStore :=
  if w.mgr.money < cost then (false, w)
  else if -1 ≠ w.getIdFromBookNo bookNo then (false, w)
  else
    let bookId := w.getBookCount env + 1
    let book := Book.create bookId bookNo num price
    let w := w.addBook bookNo book (w.mgr.money - cost)
    let w := (w.saveBookToDB J M env bookId).2
    (true, (w.saveBookStore J M env).2)

/-- What `stock` and `sold` do in the end: the book is changed and saved, then the money. -/
def commit (w : BookStore) (bookId : Int32) (book : Book) (money : ℚ) : BookStore :=
  let w := { w with mgr := { w.mgr with bookMap := w.mgr.bookMap.insert bookId book } }
  let w := (w.saveBookToDB J M env book.bookId).2
  let w := { w with mgr := { w.mgr with money := money } }
  (w.saveBookStore J M env).2

/-- `stock` -/
def stock (w : BookStore) (bookNo : List UInt8) (num : Int32) (cost : ℚ) : Bool × BookStore :=
  if cost > w.mgr.money then (false, w)
  else
    let bookId := w.getIdFromBookNo bookNo
    match w.mgr.bookMap[bookId]? with
    | none => (false, w)
    | some book => (true, w.commit J M env bookId (book.addStock num) (w.mgr.money - cost))

/-- `sold` -/
def sold (w : BookStore) (bookNo : List UInt8) (num : Int32) (money : ℚ) : Bool × BookStore :=
  let bookId := w.getIdFromBookNo bookNo
  match w.mgr.bookMap[bookId]? with
  | none => (false, w)
  | some book =>
    if num > book.stock then (false, w)
    else if money < book.price * num.toInt then (false, w)
    else
      match book.minusStock num with
      | none => (false, w)
      | some book =>
        (true, w.commit J M env bookId book (w.mgr.money + book.price * num.toInt))

/-! ### Loading -/

/-- One round of the loop of `loadFromDB`. -/
def loadBook (mgr : BookStoreMgr) (book : Json) : Except JsonFault BookStoreMgr := do
  let bookId ← (← book.member Db.Book.bookId).asInt
  let bookNo ← (← book.member Db.Book.bookNo).asString
  let num ← (← book.member Db.Book.stock).asInt
  let price ← (← book.member Db.Book.price).asDouble
  let bookPtr := Book.create bookId bookNo.val num price
  return { mgr with
    bookMap := mgr.bookMap.insertIfNew bookId bookPtr
    bookNoMap := mgr.bookNoMap.insertIfNew bookNo.val bookId }

/-- The constructor `BookStoreMgr()` with `loadFromDB`, on the two collections. -/
def load (env : Env) (books store : List Document) : Except JsonFault BookStoreMgr := do
  let mgr : BookStoreMgr := ⟨∅, ∅, initFund⟩
  let key := Json.obj [(Db.DataBase.system, .str Db.DataBase.system)]
  let books := MongoMgr.findAll J M books
  let bookStore := MongoMgr.findJson J M env store key
  -- without books this is null, which is an array for `isArray`
  if !books.isArray then return mgr
  let mgr ← books.elements.foldlM loadBook mgr
  if bookStore.empty then return { mgr with money := initFund }
  else return { mgr with money := ← (← bookStore.member Db.BookStore.money).asDouble }

/-! ### Runs -/

/-- A call, with what happens outside. -/
inductive Op : Type where
  /-- `setNewBook` -/
  | setNewBook : List UInt8 → ℚ → Int32 → ℚ → BookEnv → Op
  /-- `stock` -/
  | stock : List UInt8 → Int32 → ℚ → BookEnv → Op
  /-- `sold` -/
  | sold : List UInt8 → Int32 → ℚ → BookEnv → Op

/-- One call. -/
def step (w : BookStore) : Op → BookStore
  | .setNewBook bookNo price num cost env => (w.setNewBook J M env bookNo price num cost).2
  | .stock bookNo num cost env => (w.stock J M env bookNo num cost).2
  | .sold bookNo num money env => (w.sold J M env bookNo num money).2

/-! ## What the calls do -/

variable {J M env} {w : BookStore} {bookNo : List UInt8} {num : Int32}

@[simp] theorem mgr_saveBookToDB (w : BookStore) (bookId : Int32) :
    (w.saveBookToDB J M env bookId).2.mgr = w.mgr := by
  rw [saveBookToDB]
  split <;> rfl

@[simp] theorem mgr_saveBookStore (w : BookStore) : (w.saveBookStore J M env).2.mgr = w.mgr := rfl

theorem mgr_commit (w : BookStore) (bookId : Int32) (book : Book) (money : ℚ) :
    (w.commit J M env bookId book money).mgr =
      { w.mgr with bookMap := w.mgr.bookMap.insert bookId book, money := money } := by
  simp only [commit, mgr_saveBookStore, mgr_saveBookToDB]

/-- The book that `setNewBook` makes. -/
def newBook (env : BookEnv) (w : BookStore) (bookNo : List UInt8) (price : ℚ) (num : Int32) :
    Book :=
  Book.create (w.getBookCount env + 1) bookNo num price

/-- **What `setNewBook` does.** -/
theorem setNewBook_cases (J : JsonLib) (M : MongoLib) (env : BookEnv) (w : BookStore)
    (bookNo : List UInt8) (price : ℚ) (num : Int32) (cost : ℚ) :
    (¬ (cost ≤ w.mgr.money ∧ w.getIdFromBookNo bookNo = -1) ∧
      w.setNewBook J M env bookNo price num cost = (false, w)) ∨
    (cost ≤ w.mgr.money ∧ w.getIdFromBookNo bookNo = -1 ∧
      w.setNewBook J M env bookNo price num cost =
        (true, (((w.addBook bookNo (w.newBook env bookNo price num)
          (w.mgr.money - cost)).saveBookToDB J M env (w.getBookCount env + 1)).2.saveBookStore
            J M env).2)) := by
  rw [setNewBook]
  split_ifs with hpoor hknown
  · exact .inl ⟨fun h => absurd h.1 (not_le.mpr hpoor), rfl⟩
  · exact .inl ⟨fun h => hknown h.2.symm, rfl⟩
  · exact .inr ⟨not_lt.mp hpoor, (not_not.mp hknown).symm, rfl⟩

/-- **What `stock` does.** -/
theorem stock_cases (J : JsonLib) (M : MongoLib) (env : BookEnv) (w : BookStore)
    (bookNo : List UInt8) (num : Int32) (cost : ℚ) :
    (¬ (cost ≤ w.mgr.money ∧ w.mgr.bookMap[w.getIdFromBookNo bookNo]? ≠ none) ∧
      w.stock J M env bookNo num cost = (false, w)) ∨
    ∃ book, cost ≤ w.mgr.money ∧ w.mgr.bookMap[w.getIdFromBookNo bookNo]? = some book ∧
      w.stock J M env bookNo num cost =
        (true, w.commit J M env (w.getIdFromBookNo bookNo) (book.addStock num)
          (w.mgr.money - cost)) := by
  rw [stock]
  split_ifs with hpoor
  · exact .inl ⟨fun h => absurd h.1 (not_le.mpr hpoor), rfl⟩
  · dsimp only
    rcases hbook : w.mgr.bookMap[w.getIdFromBookNo bookNo]? with _ | book
    · exact .inl ⟨fun h => h.2 rfl, rfl⟩
    · exact .inr ⟨book, not_lt.mp hpoor, rfl, rfl⟩

/-- The conditions of a sale. -/
def Sells (book : Book) (num : Int32) (money : ℚ) : Prop :=
  num ≤ book.stock ∧ book.price * num.toInt ≤ money ∧ 0 < num

/-- **What `sold` does.** -/
theorem sold_cases (J : JsonLib) (M : MongoLib) (env : BookEnv) (w : BookStore)
    (bookNo : List UInt8) (num : Int32) (money : ℚ) :
    ((∀ book, w.mgr.bookMap[w.getIdFromBookNo bookNo]? = some book → ¬ Sells book num money) ∧
      w.sold J M env bookNo num money = (false, w)) ∨
    ∃ book, w.mgr.bookMap[w.getIdFromBookNo bookNo]? = some book ∧ Sells book num money ∧
      w.sold J M env bookNo num money =
        (true, w.commit J M env (w.getIdFromBookNo bookNo)
          { book with stock := book.stock - num } (w.mgr.money + book.price * num.toInt)) := by
  rw [sold]
  rcases hbook : w.mgr.bookMap[w.getIdFromBookNo bookNo]? with _ | book
  · exact .inl ⟨fun _ h => absurd h (Option.some_ne_none _).symm, rfl⟩
  dsimp only
  by_cases hfew : num > book.stock
  · rw [if_pos hfew]
    refine .inl ⟨?_, rfl⟩
    rintro _ ⟨⟩ hsells
    exact absurd hsells.1 (Int32.not_le.mpr hfew)
  rw [if_neg hfew]
  by_cases hpoor : money < book.price * num.toInt
  · rw [if_pos hpoor]
    refine .inl ⟨?_, rfl⟩
    rintro _ ⟨⟩ hsells
    exact absurd hsells.2.1 (not_le.mpr hpoor)
  rw [if_neg hpoor, Book.minusStock, if_neg hfew]
  by_cases hnone : num ≤ 0
  · rw [if_pos hnone]
    refine .inl ⟨?_, rfl⟩
    rintro _ ⟨⟩ hsells
    exact absurd hsells.2.2 (Int32.not_lt.mpr hnone)
  · rw [if_neg hnone]
    exact .inr ⟨book, rfl, ⟨Int32.not_lt.mp hfew, not_lt.mp hpoor, Int32.not_le.mp hnone⟩, rfl⟩

/-! ## Solvency -/

/-- There is no debt, and every stock is a number of books. -/
structure Solvent (w : BookStore) : Prop where
  /-- the money -/
  money : 0 ≤ w.mgr.money
  /-- the stocks -/
  stock : ∀ (id : Int32) (book : Book), w.mgr.bookMap[id]? = some book →
    0 ≤ book.stock.toInt ∧ book.stock.toInt ≤ 2 ^ 31 - 1

/-- What a call must not do: make a book with a negative stock, add more books than an `int`
can count, or sell at a negative price for more than the store has. -/
def SolventOk (w : BookStore) : Op → Prop
  | .setNewBook bookNo _ num cost env =>
    cost ≤ w.mgr.money → w.getIdFromBookNo bookNo = -1 →
      w.mgr.bookMap[w.getBookCount env + 1]? = none → 0 ≤ num.toInt
  | .stock bookNo num cost _ =>
    cost ≤ w.mgr.money → ∀ book, w.mgr.bookMap[w.getIdFromBookNo bookNo]? = some book →
      0 < num → book.stock.toInt + num.toInt ≤ 2 ^ 31 - 1
  | .sold bookNo num money _ =>
    ∀ book, w.mgr.bookMap[w.getIdFromBookNo bookNo]? = some book → Sells book num money →
      0 ≤ w.mgr.money + book.price * num.toInt

theorem stock_le (book : Book) : book.stock.toInt ≤ 2 ^ 31 - 1 := by
  have hlt := book.stock.toInt_lt
  omega

/-- Solvency after `stock` and `sold`. -/
theorem solvent_commit_iff (h : w.Solvent) {id : Int32} {book : Book} {money : ℚ} :
    (w.commit J M env id book money).Solvent ↔ 0 ≤ money ∧ 0 ≤ book.stock.toInt := by
  have hmgr : (w.commit J M env id book money).mgr = _ := w.mgr_commit id book money
  constructor
  · intro hs
    refine ⟨?_, ?_⟩
    · have hnext := hs.money
      rwa [hmgr] at hnext
    · refine (hs.stock id book ?_).1
      rw [hmgr]
      exact (lookup_insert ..).trans (if_pos rfl)
  · rintro ⟨hmoney, hstock⟩
    refine ⟨?_, fun d other hd => ?_⟩
    · rw [hmgr]
      exact hmoney
    · rw [hmgr, lookup_insert] at hd
      split at hd
      · obtain rfl := Option.some.inj hd
        exact ⟨hstock, stock_le _⟩
      · exact h.stock d other hd

/-- Solvency after `setNewBook`. -/
theorem solvent_add_iff (h : w.Solvent) {book : Book} {money : ℚ} (hmoney : 0 ≤ money)
    {w' : BookStore} (hmgr : w'.mgr = (w.addBook bookNo book money).mgr) :
    w'.Solvent ↔ (w.mgr.bookMap[book.bookId]? = none → 0 ≤ book.stock.toInt) := by
  have hmap : ∀ d other, w'.mgr.bookMap[d]? = some other ↔ w.mgr.bookMap[d]? = some other ∨
      (d = book.bookId ∧ w.mgr.bookMap[d]? = none ∧ other = book) := by
    intro d other
    rw [hmgr]
    exact lookup_insertIfNew ..
  refine ⟨fun hs hfree => ?_, fun hstock => ⟨?_, fun d other hd => ?_⟩⟩
  · exact (hs.stock book.bookId book ((hmap _ _).mpr (.inr ⟨rfl, hfree, rfl⟩))).1
  · rw [hmgr]
    exact hmoney
  · rcases (hmap d other).mp hd with hold | ⟨rfl, hfree, rfl⟩
    · exact h.stock d other hold
    · exact ⟨hstock hfree, stock_le _⟩

/-- A stock that grows stays one exactly when an `int` can count it. -/
theorem stock_addStock_nonneg_iff {book : Book} (h : 0 ≤ book.stock.toInt) :
    0 ≤ (book.addStock num).stock.toInt ↔
      (0 < num → book.stock.toInt + num.toInt ≤ 2 ^ 31 - 1) := by
  have hzero : (0 : Int32).toInt = 0 := by decide
  have hlt := book.stock.toInt_lt
  have hnum := num.toInt_lt
  rw [Book.addStock, Int32.lt_iff_toInt_lt, hzero]
  split_ifs with hnone <;> rw [Int32.le_iff_toInt_le, hzero] at hnone
  · exact iff_of_true h fun hpos => by omega
  · change 0 ≤ (book.stock + num).toInt ↔ _
    rw [Int32.toInt_add]
    by_cases hfits : book.stock.toInt + num.toInt ≤ 2 ^ 31 - 1
    · rw [Int.bmod_eq_of_le (by omega) (by omega)]
      exact iff_of_true (by omega) fun _ => hfits
    · refine iff_of_false ?_ fun hall => hfits (hall (by omega))
      rw [Int.bmod_def]
      omega

/-- A sale takes no more than there is, so nothing wraps around. -/
theorem toInt_stock_sold {book : Book} {money : ℚ} (h : Sells book num money) :
    (book.stock - num).toInt = book.stock.toInt - num.toInt ∧ 0 < num.toInt ∧
      num.toInt ≤ book.stock.toInt := by
  have hzero : (0 : Int32).toInt = 0 := by decide
  have hle := Int32.le_iff_toInt_le.mp h.1
  have hpos := Int32.lt_iff_toInt_lt.mp h.2.2
  have hlt := book.stock.toInt_lt
  rw [hzero] at hpos
  refine ⟨?_, hpos, hle⟩
  rw [Int32.toInt_sub, Int.bmod_eq_of_le (by omega) (by omega)]

/-- What is left of a stock after a sale is a stock. -/
theorem stock_sold_nonneg {book : Book} {money : ℚ} (h : Sells book num money) :
    0 ≤ (book.stock - num).toInt := by
  obtain ⟨heq, -, hle⟩ := toInt_stock_sold h
  omega

/-- **Exact step lemma.** -/
theorem solvent_step_iff (J : JsonLib) (M : MongoLib) (h : w.Solvent) (op : Op) :
    (w.step J M op).Solvent ↔ w.SolventOk op := by
  cases op with
  | setNewBook bookNo price num cost env =>
    rw [step, SolventOk]
    obtain ⟨hnot, heq⟩ | ⟨hcost, hid, heq⟩ := setNewBook_cases J M env w bookNo price num cost
    · rw [heq]
      exact iff_of_true h fun hcost hid => absurd ⟨hcost, hid⟩ hnot
    · rw [heq, solvent_add_iff h (sub_nonneg.mpr hcost)
        ((mgr_saveBookStore _).trans (mgr_saveBookToDB _ _))]
      exact ⟨fun hs _ _ => hs, fun hs => hs hcost hid⟩
  | stock bookNo num cost env =>
    rw [step, SolventOk]
    obtain ⟨hnot, heq⟩ | ⟨book, hcost, hbook, heq⟩ := stock_cases J M env w bookNo num cost
    · rw [heq]
      refine iff_of_true h fun hcost book hbook => absurd ⟨hcost, ?_⟩ hnot
      rw [hbook]
      exact Option.some_ne_none book
    · rw [heq, solvent_commit_iff h, stock_addStock_nonneg_iff (h.stock _ book hbook).1, hbook]
      refine ⟨fun hs _ other hother => ?_, fun hs => ⟨sub_nonneg.mpr hcost, hs hcost book rfl⟩⟩
      obtain rfl := Option.some.inj hother
      exact hs.2
  | sold bookNo num money env =>
    rw [step, SolventOk]
    obtain ⟨hnot, heq⟩ | ⟨book, hbook, hsells, heq⟩ := sold_cases J M env w bookNo num money
    · rw [heq]
      exact iff_of_true h fun book hbook hsells => absurd hsells (hnot book hbook)
    · rw [heq, solvent_commit_iff h, hbook]
      refine ⟨fun hs other hother _ => ?_, fun hs => ⟨hs book rfl hsells, stock_sold_nonneg hsells⟩⟩
      obtain rfl := Option.some.inj hother
      exact hs.1

theorem solvent_init : init.Solvent := by
  refine ⟨by decide, fun id book hbook => ?_⟩
  rw [init, Std.TreeMap.getElem?_emptyc] at hbook
  cases hbook

/-- **Solvency.** Whatever the database does, over any calls the money stays non-negative and
every stock between 0 and the largest `int`, if and only if no book is made with a negative
stock, no stock is raised beyond the largest `int`, and no sale at a negative price takes
more than the store has. -/
theorem solvent_always_iff (J : JsonLib) (M : MongoLib) (ops : List Op) :
    Always (step J M) Solvent init ops ↔ EachStep (step J M) SolventOk init ops :=
  always_iff_eachStep (I := fun _ => True) (fun _ _ _ => trivial)
    (fun _ op _ h => solvent_step_iff J M h op) trivial solvent_init

/-- A call during which no database call throws. -/
def calmCall : BookEnv := ⟨AccountMgr.calmEnv, AccountMgr.calmEnv⟩

/-- A book is made with a negative stock; a stock goes beyond the largest `int`; a book with
a negative price is sold. -/
theorem solvent_fails :
    ¬ Always (step wholeJson wholeMongo) Solvent init
      [.setNewBook [97] 0 (-1) 0 calmCall] ∧
    ¬ Always (step wholeJson wholeMongo) Solvent init
      [.setNewBook [97] 0 2147483647 0 calmCall, .stock [97] 1 0 calmCall] ∧
    ¬ Always (step wholeJson wholeMongo) Solvent init
      [.setNewBook [97] (-2000) 1 0 calmCall, .sold [97] 1 0 calmCall] := by
  refine ⟨fun hall => ?_, fun hall => ?_, fun hall => ?_⟩
  · exact absurd (hall.last.stock 1 (.create 1 [97] (-1) 0) rfl).1 (by decide)
  · have hbook := hall.last.stock 1 ((Book.create 1 [97] 2147483647 0).addStock 1)
      (by decide +kernel)
    exact absurd hbook.1 (by decide)
  · exact absurd hall.last.money (by decide +kernel)

end BookStore

/-! ## The two maps -/

/-- The store, and for which number each of its books was made. -/
structure Shelf : Type where
  /-- the store -/
  store : BookStore
  /-- the book number that `setNewBook` made the book with an id for -/
  madeFor : Int32 → List UInt8

namespace Shelf

open BookStore

variable (J : JsonLib) (M : MongoLib)

/-- An empty store. -/
def init : Shelf := ⟨.init, fun _ => []⟩

/-- One call. A book is made for a number when `setNewBook` puts it into the map. -/
def step (s : Shelf) (op : Op) : Shelf where
  store := s.store.step J M op
  madeFor :=
    match op with
    | .setNewBook bookNo _ _ cost env =>
      let bookId := s.store.getBookCount env + 1
      if cost ≤ s.store.mgr.money ∧ s.store.getIdFromBookNo bookNo = -1 ∧
          s.store.mgr.bookMap[bookId]? = none then
        Function.update s.madeFor bookId bookNo
      else s.madeFor
    | .stock _ _ _ _ => s.madeFor
    | .sold _ _ _ _ => s.madeFor

/-- Every book number leads to the book that was made for it. -/
structure Indexed (s : Shelf) : Prop where
  /-- the book is there, and it was made for the number -/
  present : ∀ {bookNo : List UInt8} {id : Int32}, s.store.mgr.bookNoMap[bookNo]? = some id →
    s.store.mgr.bookMap[id]? ≠ none ∧ s.madeFor id = bookNo
  /-- different numbers have different ids -/
  distinct : ∀ {bookNo bookNo' : List UInt8} {id : Int32},
    s.store.mgr.bookNoMap[bookNo]? = some id → s.store.mgr.bookNoMap[bookNo']? = some id →
      bookNo = bookNo'

/-- The number of every book is known. -/
def Listed (s : Shelf) : Prop :=
  ∀ id : Int32, s.store.mgr.bookMap[id]? ≠ none → s.store.mgr.bookNoMap[s.madeFor id]? ≠ none

/-- A new number gets a free id. -/
def FreshOk (s : Shelf) : Op → Prop
  | .setNewBook bookNo _ _ cost env =>
    cost ≤ s.store.mgr.money → s.store.mgr.bookNoMap[bookNo]? = none →
      s.store.mgr.bookMap[s.store.getBookCount env + 1]? = none
  | .stock _ _ _ _ => True
  | .sold _ _ _ _ => True

variable {J M} {s s' : Shelf} {op : Op}

/-- The same books are there, for the same numbers. -/
structure Same (s s' : Shelf) : Prop where
  /-- the numbers -/
  bookNoMap : s'.store.mgr.bookNoMap = s.store.mgr.bookNoMap
  /-- the ids -/
  bookMap : ∀ id : Int32, s'.store.mgr.bookMap[id]? ≠ none ↔ s.store.mgr.bookMap[id]? ≠ none
  /-- what they were made for -/
  madeFor : s'.madeFor = s.madeFor

theorem Same.refl (s : Shelf) : s.Same s := ⟨rfl, fun _ => Iff.rfl, rfl⟩

theorem Same.indexed (h : s.Same s') (hs : s.Indexed) : s'.Indexed := by
  refine ⟨fun {b id} hb => ?_, fun {b b' id} hb hb' => ?_⟩
  · rw [h.bookNoMap] at hb
    rw [h.bookMap, h.madeFor]
    exact hs.present hb
  · rw [h.bookNoMap] at hb hb'
    exact hs.distinct hb hb'

theorem Same.listed (h : s.Same s') (hs : s.Listed) : s'.Listed := by
  intro id hid
  rw [h.bookMap] at hid
  rw [h.bookNoMap, h.madeFor]
  exact hs id hid

/-- A number is inserted with an id, and a book where there was none. -/
structure Added (bookNo : List UInt8) (id : Int32) (s s' : Shelf) : Prop where
  /-- the number -/
  bookNoMap : ∀ b i, s'.store.mgr.bookNoMap[b]? = some i ↔
    s.store.mgr.bookNoMap[b]? = some i ∨
      (b = bookNo ∧ s.store.mgr.bookNoMap[b]? = none ∧ i = id)
  /-- the book -/
  bookMap : ∀ d : Int32, s'.store.mgr.bookMap[d]? ≠ none ↔
    s.store.mgr.bookMap[d]? ≠ none ∨ d = id
  /-- what it was made for -/
  madeFor : s'.madeFor = if s.store.mgr.bookMap[id]? = none
    then Function.update s.madeFor id bookNo else s.madeFor

/-- `stock` and `sold` put a book where one is. -/
theorem same_commit (s : Shelf) (env : BookEnv) {id : Int32} {old : Book}
    (hold : s.store.mgr.bookMap[id]? = some old) (book : Book) (money : ℚ) :
    s.Same ⟨s.store.commit J M env id book money, s.madeFor⟩ := by
  have hmgr : (s.store.commit J M env id book money).mgr = _ := s.store.mgr_commit id book money
  refine ⟨?_, fun d => ?_, rfl⟩
  · rw [hmgr]
  · rw [hmgr, lookup_insert]
    split
    · rename_i heq
      rw [← heq, hold]
      exact iff_of_true (Option.some_ne_none _) (Option.some_ne_none _)
    · exact Iff.rfl

/-- A call that refuses, or that puts a book where one is, leaves the maps as they are. -/
theorem same_of_cases (J : JsonLib) (M : MongoLib) (env : BookEnv) (id : Int32)
    {r : Bool × BookStore}
    (h : r.2 = s.store ∨ ∃ old book money, s.store.mgr.bookMap[id]? = some old ∧
      r.2 = s.store.commit J M env id book money) : s.Same ⟨r.2, s.madeFor⟩ := by
  obtain hstore | ⟨old, book, money, hold, hstore⟩ := h
  · rw [hstore]
    exact .refl s
  · rw [hstore]
    exact s.same_commit env hold book money

/-- **What a call does to the maps.** -/
theorem step_cases (J : JsonLib) (M : MongoLib) (s : Shelf) (op : Op) :
    (s.Same (s.step J M op) ∧ s.FreshOk op) ∨
    ∃ bookNo id, Added bookNo id s (s.step J M op) ∧
      (s.FreshOk op ↔
        (s.store.mgr.bookNoMap[bookNo]? = none → s.store.mgr.bookMap[id]? = none)) := by
  cases op with
  | setNewBook bookNo price num cost env =>
    obtain ⟨hnot, heq⟩ | ⟨hcost, hid, heq⟩ :=
      setNewBook_cases J M env s.store bookNo price num cost
    · have hmade : (s.step J M (.setNewBook bookNo price num cost env)).madeFor = s.madeFor :=
        if_neg fun h => hnot ⟨h.1, h.2.1⟩
      have hstore : (s.step J M (.setNewBook bookNo price num cost env)).store = s.store :=
        congrArg Prod.snd heq
      refine .inl ⟨⟨?_, fun d => ?_, hmade⟩, fun hcost hb => absurd ⟨hcost, ?_⟩ hnot⟩
      · rw [hstore]
      · rw [hstore]
      · rw [getIdFromBookNo, hb]
        rfl
    · have hmgr : (s.step J M (.setNewBook bookNo price num cost env)).store.mgr =
          (s.store.addBook bookNo (s.store.newBook env bookNo price num)
            (s.store.mgr.money - cost)).mgr :=
        (congrArg (fun r : Bool × BookStore => r.2.mgr) heq).trans
          ((mgr_saveBookStore _).trans (mgr_saveBookToDB _ _))
      refine .inr ⟨bookNo, s.store.getBookCount env + 1, ⟨fun b i => ?_, fun d => ?_, ?_⟩, ?_⟩
      · rw [hmgr]
        exact lookup_insertIfNew ..
      · rw [hmgr]
        exact lookup_insertIfNew_ne_none ..
      · exact if_congr ⟨fun h => h.2.2, fun h => ⟨hcost, hid, h⟩⟩ rfl rfl
      · exact ⟨fun h => h hcost, fun h _ => h⟩
  | stock bookNo num cost env =>
    refine .inl ⟨same_of_cases J M env (s.store.getIdFromBookNo bookNo) ?_, trivial⟩
    obtain ⟨-, heq⟩ | ⟨book, -, hbook, heq⟩ := stock_cases J M env s.store bookNo num cost
    · exact .inl (congrArg Prod.snd heq)
    · exact .inr ⟨book, _, _, hbook, congrArg Prod.snd heq⟩
  | sold bookNo num money env =>
    refine .inl ⟨same_of_cases J M env (s.store.getIdFromBookNo bookNo) ?_, trivial⟩
    obtain ⟨-, heq⟩ | ⟨book, hbook, -, heq⟩ := sold_cases J M env s.store bookNo num money
    · exact .inl (congrArg Prod.snd heq)
    · exact .inr ⟨book, _, _, hbook, congrArg Prod.snd heq⟩

/-- A call keeps every number known. -/
theorem Listed.step (h : s.Listed) (J : JsonLib) (M : MongoLib) (op : Op) :
    (s.step J M op).Listed := by
  obtain ⟨hsame, -⟩ | ⟨bookNo, id, hadd, -⟩ := step_cases J M s op
  · exact hsame.listed h
  have hkeep : ∀ b : List UInt8, s.store.mgr.bookNoMap[b]? ≠ none →
      (s.step J M op).store.mgr.bookNoMap[b]? ≠ none := by
    intro b hb
    obtain ⟨i, hi⟩ := Option.ne_none_iff_exists'.mp hb
    rw [(hadd.bookNoMap b i).mpr (.inl hi)]
    exact Option.some_ne_none i
  have hnew : (s.step J M op).store.mgr.bookNoMap[bookNo]? ≠ none := by
    by_cases hb : s.store.mgr.bookNoMap[bookNo]? = none
    · rw [(hadd.bookNoMap bookNo id).mpr (.inr ⟨rfl, hb, rfl⟩)]
      exact Option.some_ne_none id
    · exact hkeep bookNo hb
  intro d hd
  rw [hadd.madeFor]
  split
  · rename_i hfree
    by_cases hdid : d = id
    · rw [hdid, Function.update_self]
      exact hnew
    · rw [Function.update_of_ne hdid]
      exact hkeep _ (h d (((hadd.bookMap d).mp hd).resolve_right hdid))
  · rename_i htaken
    rcases (hadd.bookMap d).mp hd with hold | rfl
    · exact hkeep _ (h d hold)
    · exact hkeep _ (h d htaken)

/-- An inserted number leads to its book exactly when the book was inserted too. -/
theorem Added.indexed_iff {bookNo : List UInt8} {id : Int32} (hadd : Added bookNo id s s')
    (h : s.Indexed) (hl : s.Listed) :
    s'.Indexed ↔
      (s.store.mgr.bookNoMap[bookNo]? = none → s.store.mgr.bookMap[id]? = none) := by
  refine ⟨fun hs hnew => ?_, fun hfresh => ?_⟩
  · by_contra htaken
    -- the book that is there was made for another number, which is known
    have hmade := (hs.present ((hadd.bookNoMap bookNo id).mpr (.inr ⟨rfl, hnew, rfl⟩))).2
    rw [hadd.madeFor, if_neg htaken] at hmade
    refine hl id htaken ?_
    rw [hmade]
    exact hnew
  · have hpresent : ∀ {b i}, s'.store.mgr.bookNoMap[b]? = some i →
        s'.store.mgr.bookMap[i]? ≠ none ∧ s'.madeFor i = b := by
      intro b i hb
      rw [hadd.madeFor, hadd.bookMap]
      rcases (hadd.bookNoMap b i).mp hb with hold | ⟨rfl, hnew, rfl⟩
      · obtain ⟨hthere, hmade⟩ := h.present hold
        refine ⟨.inl hthere, ?_⟩
        split
        · rename_i hfree
          have hne : i ≠ id := fun heq => hthere (heq ▸ hfree)
          rw [Function.update_of_ne hne]
          exact hmade
        · exact hmade
      · rw [if_pos (hfresh hnew), Function.update_self]
        exact ⟨.inr rfl, rfl⟩
    refine ⟨hpresent, fun {b b' i} hb hb' => ?_⟩
    exact (hpresent hb).2.symm.trans (hpresent hb').2

theorem indexed_step_iff (J : JsonLib) (M : MongoLib) (h : s.Indexed) (hl : s.Listed) (op : Op) :
    (s.step J M op).Indexed ↔ s.FreshOk op := by
  obtain ⟨hsame, hok⟩ | ⟨bookNo, id, hadd, hok⟩ := step_cases J M s op
  · exact iff_of_true (hsame.indexed h) hok
  · rw [hadd.indexed_iff h hl, hok]

/-- **Book numbers.** From a store in which every number leads to its book, over any calls
and any faults of the database, every number leads to the book that was made for it, and
different numbers to different books, if and only if every new number is given an id that
no book has. -/
theorem indexed_always_iff (J : JsonLib) (M : MongoLib) (h : s.Indexed) (hl : s.Listed)
    (ops : List Op) :
    Always (step J M) Indexed s ops ↔ EachStep (step J M) FreshOk s ops :=
  always_iff_eachStep (fun _ op hs => hs.step J M op)
    (fun _ op hs h => indexed_step_iff J M h hs op) hl h

theorem lookup_init (bookNo : List UInt8) (id : Int32) :
    init.store.mgr.bookNoMap[bookNo]? = none ∧ init.store.mgr.bookMap[id]? = none :=
  ⟨Std.TreeMap.getElem?_emptyc, Std.TreeMap.getElem?_emptyc⟩

theorem indexed_init : init.Indexed := by
  refine ⟨fun {b id} hb => ?_, fun {b b' id} hb => ?_⟩
  · cases ((lookup_init b id).1).symm.trans hb
  · cases ((lookup_init b id).1).symm.trans hb

theorem listed_init : init.Listed := fun id hid => absurd (lookup_init [] id).2 hid

/-- The save of the first book fails. -/
def firstSaveFails : List Op :=
  [.setNewBook [97] 1 1 0 ⟨AccountMgr.stormEnv, AccountMgr.calmEnv⟩,
   .setNewBook [98] 1 1 0 calmCall]

/-- Two books are indexed, and one is sold. -/
theorem indexed_second_book :
    init.Indexed ∧ init.Listed ∧
      Always (step wholeJson wholeMongo) Indexed init
        [.setNewBook [97] 1 1 0 calmCall, .setNewBook [98] 1 1 0 calmCall,
          .sold [97] 1 1 calmCall] := by
  refine ⟨indexed_init, listed_init, ?_⟩
  refine (indexed_always_iff wholeJson wholeMongo indexed_init listed_init _).mpr
    ⟨fun _ _ => (lookup_init [] _).2, fun _ _ => ?_, trivial, trivial⟩
  decide +kernel

/-- After a failed save the second book has the id of the first, and its number leads to the
first. -/
theorem indexed_fails_after_failed_save :
    ¬ Always (step wholeJson wholeMongo) Indexed init firstSaveFails := by
  intro hall
  have hlookup : ∀ b : List UInt8, b = [97] ∨ b = [98] →
      (runFrom (step wholeJson wholeMongo) init firstSaveFails).store.mgr.bookNoMap[b]? =
        some 1 := by
    rintro b (rfl | rfl) <;> decide +kernel
  have hsame := hall.last.distinct (hlookup [97] (.inl rfl)) (hlookup [98] (.inr rfl))
  exact absurd hsame (by decide)

end Shelf

end MyServer
