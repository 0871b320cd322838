import MyServer.BookStore

/-!
# What the calls of the book store change

`stock` and `sold` move the stock of one book and the money, `setNewBook` adds one book; a
call that returns false changes nothing. `exact_iff` says for which calls this is so: not for
a `stock` of a negative number, which `addStock` ignores while the cost is paid, nor for one
that an `int` cannot count, nor for a `setNewBook` whose id is taken, where `insert` keeps the
book that is there.
-/

namespace MyServer

namespace BookStore

variable {J : JsonLib} {M : MongoLib} {env : BookEnv} {w w' : BookStore} {id num : Int32}
  {book : Book}

/-! ## The changes -/

/-- The stock of one book and the money have changed, by these amounts, and nothing else. -/
structure Moves (w w' : BookStore) (id : Int32) (book : Book) (delta : ℤ) (gain : ℚ) : Prop where
  /-- the book before -/
  before : w.mgr.bookMap[id]? = some book
  /-- the book afterwards -/
  after : ∃ n : Int32, n.toInt = book.stock.toInt + delta ∧
    w'.mgr.bookMap[id]? = some { book with stock := n }
  /-- the other books -/
  others : ∀ d : Int32, d ≠ id → w'.mgr.bookMap[d]? = w.mgr.bookMap[d]?
  /-- the numbers -/
  index : w'.mgr.bookNoMap = w.mgr.bookNoMap
  /-- the money -/
  money : w'.mgr.money = w.mgr.money + gain

/-- One book was added under an id that no book had, and its cost was paid. -/
structure Adds (w w' : BookStore) (bookNo : List UInt8) (book : Book) (cost : ℚ) : Prop where
  /-- there was no such book -/
  unused : w.mgr.bookMap[book.bookId]? = none
  /-- there is one now -/
  added : w'.mgr.bookMap[book.bookId]? = some book
  /-- the other books -/
  others : ∀ d : Int32, d ≠ book.bookId → w'.mgr.bookMap[d]? = w.mgr.bookMap[d]?
  /-- the other numbers -/
  index : ∀ b : List UInt8, b ≠ bookNo → w'.mgr.bookNoMap[b]? = w.mgr.bookNoMap[b]?
  /-- the money -/
  money : w'.mgr.money = w.mgr.money - cost

/-- The call does what its name says if it returns true, and nothing if it returns false. -/
def Exact (J : JsonLib) (M : MongoLib) (w : BookStore) : Op → Prop
  | .stock bookNo num cost env =>
    let r := w.stock J M env bookNo num cost
    (r.1 = true → ∃ book, w.Moves r.2 (w.getIdFromBookNo bookNo) book num.toInt (-cost)) ∧
      (r.1 = false → r.2.mgr = w.mgr)
  | .sold bookNo num money env =>
    let r := w.sold J M env bookNo num money
    (r.1 = true → 1 ≤ num.toInt ∧ ∃ book, w.Moves r.2 (w.getIdFromBookNo bookNo) book
        (-num.toInt) (book.price * num.toInt)) ∧
      (r.1 = false → r.2.mgr = w.mgr)
  | .setNewBook bookNo price num cost env =>
    let r := w.setNewBook J M env bookNo price num cost
    (r.1 = true → ∃ id, w.Adds r.2 bookNo (.create id bookNo num price) cost) ∧
      (r.1 = false → r.2.mgr = w.mgr)

/-- What a call must not do: stock a negative number of books or more than an `int` can
count, or make a book under an id that is taken. -/
def ExactOk (w : BookStore) : Op → Prop
  | .stock bookNo num cost _ =>
    cost ≤ w.mgr.money → ∀ book, w.mgr.bookMap[w.getIdFromBookNo bookNo]? = some book →
      0 ≤ num.toInt ∧ book.stock.toInt + num.toInt < 2 ^ 31
  | .sold _ _ _ _ => True
  | .setNewBook bookNo _ _ cost env =>
    cost ≤ w.mgr.money → w.getIdFromBookNo bookNo = -1 →
      w.mgr.bookMap[w.getBookCount env + 1]? = none

/-! ## Each call -/

/-- What `commit` changes: the book it is given, and the money. -/
theorem moves_commit_iff (J : JsonLib) (M : MongoLib) (env : BookEnv)
    (hbook : w.mgr.bookMap[id]? = some book) (n : Int32) (delta : ℤ) (gain : ℚ) :
    w.Moves (w.commit J M env id { book with stock := n } (w.mgr.money + gain)) id book delta
      gain ↔ n.toInt = book.stock.toInt + delta := by
  have hmgr : (w.commit J M env id { book with stock := n } (w.mgr.money + gain)).mgr = _ :=
    w.mgr_commit ..
  have hlook : ∀ d : Int32, (w.commit J M env id { book with stock := n }
      (w.mgr.money + gain)).mgr.bookMap[d]? =
        if id = d then some { book with stock := n } else w.mgr.bookMap[d]? := by
    intro d
    rw [hmgr]
    exact lookup_insert ..
  refine ⟨fun h => ?_, fun hn => ⟨hbook, ⟨n, hn, ?_⟩, fun d hd => ?_, ?_, ?_⟩⟩
  · obtain ⟨k, hk, hafter⟩ := h.after
    rw [hlook, if_pos rfl] at hafter
    have hstock : n = k := congrArg Book.stock (Option.some.inj hafter)
    rw [hstock, hk]
  · rw [hlook, if_pos rfl]
  · rw [hlook, if_neg (Ne.symm hd)]
  · rw [hmgr]
  · rw [hmgr]

theorem addStock_eq (book : Book) (num : Int32) :
    book.addStock num = { book with stock := (book.addStock num).stock } := by
  rw [Book.addStock]
  split <;> rfl

/-- A stock grows by a number exactly when it is not negative and the sum can be counted. -/
theorem toInt_addStock_iff :
    (book.addStock num).stock.toInt = book.stock.toInt + num.toInt ↔
      0 ≤ num.toInt ∧ book.stock.toInt + num.toInt < 2 ^ 31 := by
  have hzero : (0 : Int32).toInt = 0 := by decide
  have hlo := book.stock.le_toInt
  have hlt := book.stock.toInt_lt
  have hnum := num.toInt_lt
  rw [Book.addStock]
  split_ifs with hnone <;> rw [Int32.le_iff_toInt_le, hzero] at hnone
  · omega
  · change (book.stock + num).toInt = _ ↔ _
    rw [Int32.toInt_add, Int.bmod_def]
    omega

theorem exact_stock_iff (w : BookStore) (bookNo : List UInt8) (num : Int32) (cost : ℚ)
    (env : BookEnv) :
    w.Exact J M (.stock bookNo num cost env) ↔ w.ExactOk (.stock bookNo num cost env) := by
  rw [Exact, ExactOk]
  obtain ⟨hnot, heq⟩ | ⟨book, hcost, hbook, heq⟩ := stock_cases J M env w bookNo num cost
  · rw [heq]
    refine iff_of_true ⟨fun h => absurd h Bool.false_ne_true, fun _ => rfl⟩ fun hcost b hb => ?_
    exact absurd ⟨hcost, hb ▸ Option.some_ne_none b⟩ hnot
  · rw [heq, addStock_eq, sub_eq_add_neg]
    have hmoves := moves_commit_iff J M env hbook (book.addStock num).stock num.toInt (-cost)
    rw [toInt_addStock_iff] at hmoves
    refine ⟨fun h _ b hb => ?_, fun h => ⟨fun _ => ?_, fun h => absurd h.symm Bool.false_ne_true⟩⟩
    · obtain ⟨c, hc⟩ := h.1 rfl
      obtain rfl := Option.some.inj (hbook.symm.trans hb)
      obtain rfl := Option.some.inj (hbook.symm.trans hc.before)
      exact hmoves.mp hc
    · exact ⟨book, hmoves.mpr (h hcost book hbook)⟩

theorem exact_sold (w : BookStore) (bookNo : List UInt8) (num : Int32) (money : ℚ)
    (env : BookEnv) : w.Exact J M (.sold bookNo num money env) := by
  rw [Exact]
  obtain ⟨-, heq⟩ | ⟨book, hbook, hsells, heq⟩ := sold_cases J M env w bookNo num money
  · rw [heq]
    exact ⟨fun h => absurd h Bool.false_ne_true, fun _ => rfl⟩
  · rw [heq]
    obtain ⟨hstock, hpos, -⟩ := toInt_stock_sold hsells
    refine ⟨fun _ => ⟨hpos, book, ?_⟩, fun h => absurd h.symm Bool.false_ne_true⟩
    rw [moves_commit_iff J M env hbook, hstock, sub_eq_add_neg]

/-- What `setNewBook` adds: its book if the id is not taken. -/
theorem adds_add_iff {bookNo : List UInt8} {cost : ℚ}
    (hmgr : w'.mgr = (w.addBook bookNo book (w.mgr.money - cost)).mgr) :
    w.Adds w' bookNo book cost ↔ w.mgr.bookMap[book.bookId]? = none := by
  refine ⟨fun h => h.unused, fun hfree => ⟨hfree, ?_, fun d hd => ?_, fun b hb => ?_, ?_⟩⟩
  · rw [hmgr]
    exact (lookup_insertIfNew ..).mpr (.inr ⟨rfl, hfree, rfl⟩)
  · rw [hmgr]
    refine (lookup_insertIfNew_eq ..).trans ?_
    rw [if_neg (Ne.symm hd), Option.or_none]
  · rw [hmgr]
    refine (lookup_insertIfNew_eq ..).trans ?_
    rw [if_neg (Ne.symm hb), Option.or_none]
  · rw [hmgr]
    rfl

theorem exact_setNewBook_iff (w : BookStore) (bookNo : List UInt8) (price : ℚ) (num : Int32)
    (cost : ℚ) (env : BookEnv) :
    w.Exact J M (.setNewBook bookNo price num cost env) ↔
      w.ExactOk (.setNewBook bookNo price num cost env) := by
  rw [Exact, ExactOk]
  obtain ⟨hnot, heq⟩ | ⟨hcost, hid, heq⟩ := setNewBook_cases J M env w bookNo price num cost
  · rw [heq]
    refine iff_of_true ⟨fun h => absurd h Bool.false_ne_true, fun _ => rfl⟩ fun hcost hid => ?_
    exact absurd ⟨hcost, hid⟩ hnot
  · rw [heq]
    set added := w.addBook bookNo (w.newBook env bookNo price num) (w.mgr.money - cost)
    set saved := (added.saveBookToDB J M env (w.getBookCount env + 1)).2
    have hmgr : (saved.saveBookStore J M env).2.mgr = added.mgr :=
      (mgr_saveBookStore saved).trans (mgr_saveBookToDB added _)
    refine ⟨fun h _ _ => ?_, fun h => ⟨fun _ => ⟨w.getBookCount env + 1, ?_⟩, fun h => ?_⟩⟩
    · obtain ⟨id, hadds⟩ := h.1 rfl
      by_contra htaken
      -- the id that is taken keeps its book, and no other id gets one
      have hthere : _ = some _ := hadds.added
      rw [hmgr] at hthere
      rcases (lookup_insertIfNew ..).mp hthere with hold | ⟨heq, hfree, -⟩
      · exact absurd (hadds.unused.symm.trans hold) (Option.some_ne_none _).symm
      · rw [heq] at hfree
        exact htaken hfree
    · exact (adds_add_iff hmgr).mpr (h hcost hid)
    · exact absurd h.symm Bool.false_ne_true

/-- **Exactness of the book store.** A call that returns true changes one book and the money
by exactly its arguments, and a call that returns false changes nothing, if and only if it
does not stock a negative number of books or more than an `int` can count, nor make a book
under an id that is taken. -/
theorem exact_iff (J : JsonLib) (M : MongoLib) (w : BookStore) (op : Op) :
    w.Exact J M op ↔ w.ExactOk op := by
  cases op with
  | stock bookNo num cost env => exact exact_stock_iff w bookNo num cost env
  | sold bookNo num money env => exact iff_of_true (exact_sold w bookNo num money env) trivial
  | setNewBook bookNo price num cost env =>
    exact exact_setNewBook_iff w bookNo price num cost env

/-- The store after its first book, number `a` at the price 1, of which there is one. -/
def oneBook : BookStore := init.step wholeJson wholeMongo (.setNewBook [97] 1 1 0 calmCall)

/-- Stocking minus one book for 5 returns true: the money is paid and the stock stays. -/
theorem stock_ignores_negative :
    let r := oneBook.stock wholeJson wholeMongo calmCall [97] (-1) 5
    r.1 = true ∧ r.2.mgr.money = oneBook.mgr.money - 5 ∧
      (r.2.mgr.bookMap[(1 : Int32)]?.map Book.stock) = some 1 ∧
      ¬ oneBook.Exact wholeJson wholeMongo (.stock [97] (-1) 5 calmCall) := by
  refine ⟨by decide +kernel, by decide +kernel, by decide +kernel, fun h => ?_⟩
  have hthere : oneBook.mgr.bookMap[oneBook.getIdFromBookNo [97]]? ≠ none := by decide +kernel
  obtain ⟨book, hbook⟩ := Option.ne_none_iff_exists'.mp hthere
  have hok := (exact_stock_iff ..).mp h (by decide +kernel) book hbook
  exact absurd hok.1 (by decide)

end BookStore

end MyServer
