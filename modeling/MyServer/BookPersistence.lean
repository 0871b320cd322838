import MyServer.BookStore
import MyServer.PlayerStore

/-!
# The book store and its database

Whether a new manager that loads the two collections is the one that saved them. The
collection of the books has one row for each book, written from the book each time it
changes; what is in a row is the book as its JSON text keeps it (`Book.stored`): without
the blanks that `tighten` takes for space between tokens, and with the price as the database
reads it of its text. When a row is loaded the price comes from a second text. A loaded manager
finds in the rows the ids of the book numbers too, but only the 14 bytes that the books have of
them.

`reloads_always_iff` says when the two managers agree in every state of a run without
faults: every new number is one that a book and its text keep as it is, its id is free, and
the numbers of money are kept by their texts.
-/

namespace MyServer

open Json

variable {J : JsonLib} {M : MongoLib} {inDb outDb : ℚ → ℚ} {num : ℚ → Json}

/-- What is squeezed once is squeezed. -/
theorem squeeze_squeeze (f : Bool) (s : List UInt8) : squeeze f (squeeze f s) = squeeze f s := by
  induction s generalizing f with
  | nil => rfl
  | cons c s ih =>
    rw [squeeze]
    split_ifs with hblank hquote
    · exact ih f
    · rw [squeeze, if_neg hblank, if_pos hquote, ih]
    · rw [squeeze, if_neg hblank, if_neg hquote, ih]

/-! ## Rows -/

namespace Book

/-- What the database has of a book. -/
def stored (round : ℚ → ℚ) (b : Book) : Book :=
  { b with
    bookNo := b.bookNo.squeeze true
    price := round b.price
    short := lt_of_le_of_lt (squeeze_sublist true b.bookNo.val).length_le b.short }

/-- What is loaded of a book in the database. -/
def loaded (outDb : ℚ → ℚ) (b : Book) : Book := { b with price := outDb b.price }

/-- Only the number and the price can change: the id and the stock are integers. -/
theorem stored_eq_self_iff {round : ℚ → ℚ} {b : Book} : b.stored round = b ↔
    b.bookNo.squeeze true = b.bookNo ∧ round b.price = b.price := by
  refine ⟨fun h => ⟨congrArg Book.bookNo h, congrArg Book.price h⟩, fun h => ?_⟩
  obtain ⟨hno, hprice⟩ := h
  cases b
  simp only [stored] at hno hprice ⊢
  simp only [hno, hprice]

theorem toJson_eq (b : Book) : b.toJson =
    [(Db.Book.bookId, .int b.bookId), (Db.Book.bookNo, .str b.bookNo),
     (Db.Book.price, .real b.price), (Db.Book.stock, .int b.stock)] := rfl

/-- A book as an object. -/
def plain (b : Book) : PlainObject where
  members := b.toJson
  sorted := by
    have hnames : [Db.Book.bookId.val, Db.Book.bookNo.val, Db.Book.price.val,
        Db.Book.stock.val].Pairwise (· < ·) := by decide
    exact List.pairwise_map.mp hnames
  names := by
    have hnames : ∀ k ∈ [Db.Book.bookId, Db.Book.bookNo, Db.Book.price, Db.Book.stock],
        PlainName k := by decide
    exact fun m hm => hnames m.1 (List.mem_map_of_mem (f := Prod.fst) hm)
  apart := by
    have hnames : ∀ k ∈ [idKey, PlayerMgr.playerId, Db.Book.bookId, Db.Book.bookNo,
        Db.Book.price, Db.Book.stock], 32 ∉ k.val := by decide
    exact apart_of_noBlank hnames
  values := by
    simp only [toJson_eq, List.forall_mem_cons]
    exact ⟨fun _ => .int _, fun _ => .str _, fun _ => .real _, fun _ => .int _,
      List.forall_mem_nil _⟩
  ids := by
    have hnames : ∀ k ∈ [Db.Book.bookId, Db.Book.bookNo, Db.Book.price, Db.Book.stock],
        k ≠ idKey := by decide
    intro m hm hid
    exact absurd hid (hnames m.1 (List.mem_map_of_mem (f := Prod.fst) hm))

/-- The book as the database reads it. -/
theorem fromjson_toJson (h : StandardStore J M inDb outDb num) (b : Book) :
    M.fromjson (tighten (J.toStyledString (.obj b.toJson))) = some (b.stored inDb).toJson := by
  -- only the flag that the book number leaves is not known
  have hkeys : ∀ f, Db.Book.price.squeeze f = Db.Book.price ∧
      flagAfter f Db.Book.price.val = f ∧ Db.Book.stock.squeeze f = Db.Book.stock := by
    intro f
    cases f <;> exact ⟨rfl, rfl, rfl⟩
  have hsqueezed : squeezeObject false b.toJson =
      [(Db.Book.bookId, .int b.bookId), (Db.Book.bookNo, .str (b.bookNo.squeeze true)),
       (Db.Book.price, .real b.price), (Db.Book.stock, .int b.stock)] := by
    simp only [toJson_eq, squeezeObject, squeezeJson, flagJson, hkeys]
    rfl
  have hstored : b.plain.stored inDb = (b.stored inDb).toJson := by
    rw [PlainObject.stored, plain, hsqueezed]
    exact insertAll_of_sorted (b.stored inDb).plain.sorted
  rw [← hstored]
  exact h.fromjson b.plain

/-- A row of the collection: the `_id` and the book. -/
abbrev Row : Type := Json × Book

/-- The document of a row. -/
def document (r : Row) : Document := ⟨r.1, r.2.toJson⟩

/-- Put a book into its row, or into a new one. -/
def put (oid : Json) (book : Book) : List Row → List Row
  | [] => [(oid, book)]
  | r :: rows => if r.2.bookId = book.bookId then (r.1, book) :: rows else r :: put oid book rows

/-- The first book with an id. -/
def rowOf (id : Int32) (rows : List Row) : Option Book :=
  (rows.find? fun r => r.2.bookId = id).map Prod.snd

/-- The book number and the id of a row. -/
def entry (r : Row) : List UInt8 × Int32 := (r.2.bookNo.val, r.2.bookId)

/-- The first id for a book number. -/
def idOf (bookNo : List UInt8) (rows : List Row) : Option Int32 :=
  ((rows.map entry).find? fun e => e.1 = bookNo).map Prod.snd

variable {oid : Json} {book : Book} {rows : List Row}

theorem rowOf_cons (id : Int32) (r : Row) (rows : List Row) :
    rowOf id (r :: rows) = if r.2.bookId = id then some r.2 else rowOf id rows := by
  rw [rowOf, rowOf, List.find?_cons]
  split_ifs with h <;> simp [h]

/-- `put` replaces the first row with the id, and that is the one `rowOf` finds. -/
theorem rowOf_put (oid : Json) (book : Book) (rows : List Row) (id : Int32) :
    rowOf id (put oid book rows) = if book.bookId = id then some book else rowOf id rows := by
  induction rows with
  | nil => rw [put, rowOf_cons]
  | cons r rows ih =>
    rw [put]
    by_cases hr : r.2.bookId = book.bookId
    · rw [if_pos hr, rowOf_cons, rowOf_cons, hr]
      split_ifs <;> rfl
    · rw [if_neg hr, rowOf_cons, rowOf_cons, ih]
      by_cases hid : r.2.bookId = id
      · rw [if_pos hid, if_pos hid, if_neg fun h => hr (hid.trans h.symm)]
      · rw [if_neg hid, if_neg hid]

/-- A book without a row gets the last one. -/
theorem put_of_rowOf_none (oid : Json) (h : rowOf book.bookId rows = none) :
    put oid book rows = rows ++ [(oid, book)] := by
  induction rows with
  | nil => rfl
  | cons r rows ih =>
    rw [rowOf_cons] at h
    by_cases hr : r.2.bookId = book.bookId
    · rw [if_pos hr] at h
      cases h
    · rw [if_neg hr] at h
      rw [put, if_neg hr, ih h, List.cons_append]

/-- A book with a row leaves the numbers and ids as they are. -/
theorem map_entry_put (oid : Json) {old : Book} (h : rowOf book.bookId rows = some old)
    (hno : old.bookNo = book.bookNo) : (put oid book rows).map entry = rows.map entry := by
  induction rows with
  | nil => cases h
  | cons r rows ih =>
    rw [rowOf_cons] at h
    by_cases hr : r.2.bookId = book.bookId
    · rw [if_pos hr] at h
      obtain rfl := Option.some.inj h
      rw [put, if_pos hr, List.map_cons, List.map_cons, entry, entry, hno, hr]
    · rw [if_neg hr] at h
      rw [put, if_neg hr, List.map_cons, List.map_cons, ih h]

/-- The rows after a save are the old ones and the book. -/
theorem mem_put {r : Row} (h : r ∈ put oid book rows) : r ∈ rows ∨ r.2 = book := by
  induction rows with
  | nil =>
    rw [List.mem_singleton.mp h]
    exact .inr rfl
  | cons q rows ih =>
    rw [put] at h
    split_ifs at h with hq
    · rcases List.mem_cons.mp h with rfl | hr
      · exact .inr rfl
      · exact .inl (List.mem_cons_of_mem q hr)
    · rcases List.mem_cons.mp h with rfl | hr
      · exact .inl List.mem_cons_self
      · exact (ih hr).imp_left (List.mem_cons_of_mem q)

theorem put_ne_nil (oid : Json) (book : Book) (rows : List Row) : put oid book rows ≠ [] := by
  cases rows with
  | nil => exact List.cons_ne_nil _ _
  | cons r rows =>
    rw [put]
    split_ifs <;> exact List.cons_ne_nil _ _

/-- **A save, in terms of rows.** The query is the id of the book, and each document of the
collection has the id of its row; so the document the database replaces is the row that `put`
replaces. -/
theorem saveFrom_document (oid : ObjectId) (book : Book) (before rows : List Row) :
    Document.saveFrom [(Db.Book.bookId, .int book.bookId)] book.toJson oid (before.map document)
        (rows.map document) =
      (before ++ put oid.json book rows).map document := by
  have hid : book.toJson.lookup idKey = none := rfl
  have hown : Document.withoutId book.toJson = book.toJson := rfl
  induction rows generalizing before with
  | nil =>
    rw [List.map_nil, Document.saveFrom, Document.inserted, hid, put, List.map_append]
    rfl
  | cons r rows ih =>
    have hmatch : (document r).isMatch [(Db.Book.bookId, .int book.bookId)] =
        decide (r.2.bookId = book.bookId) := by
      have hfind : Json.find Db.Book.bookId (document r).fields = .int r.2.bookId := rfl
      rw [Document.isMatch, List.all_cons, List.all_nil, Bool.and_true, hfind]
      simp
    rw [List.map_cons, Document.saveFrom, put, hmatch]
    by_cases hr : r.2.bookId = book.bookId
    · rw [if_pos (decide_eq_true hr), if_pos hr, Document.replaced, hid, Option.getD_none,
        if_pos rfl, hown, List.map_append]
      rfl
    · have hnext := ih (before ++ [r])
      rw [List.map_append, List.map_singleton, List.append_assoc, List.singleton_append] at hnext
      rw [if_neg (by simpa using hr), if_neg hr, hnext]

/-- `saveJson` of a book is `put`. -/
theorem save_document (oid : ObjectId) (book : Book) (rows : List Row) :
    Document.save [(Db.Book.bookId, .int book.bookId)] book.toJson oid (rows.map document) =
      (put oid.json book rows).map document := saveFrom_document oid book [] rows

/-! ### Reading a row -/

/-- A number of at most fourteen bytes fits into the array with its final 0. -/
theorem cut_of_short {s : CString} (h : s.val.length < 15) : cut s.val = s := by
  have hall : s.val.takeWhile (· ≠ 0) = s.val := by
    refine List.takeWhile_eq_self_iff.mpr fun c hc => ?_
    simp only [ne_eq, decide_not, Bool.not_eq_eq_eq_not, Bool.not_true, decide_eq_false_iff_not]
    rintro rfl
    exact s.property hc
  refine Subtype.ext ?_
  change (s.val.takeWhile _).take 14 = s.val
  rw [hall]
  exact List.take_of_length_le (by omega)

/-- A book that is made of its own fields is itself. -/
theorem create_self (b : Book) : create b.bookId b.bookNo.val b.stock b.price = b := by
  have hcut := cut_of_short b.short
  cases b
  simp only [create, hcut]

end Book

namespace BookStore

open Book

/-- A row is loaded. -/
def withRow (outDb : ℚ → ℚ) (mgr : BookStoreMgr) (r : Row) : BookStoreMgr :=
  { mgr with
    bookMap := mgr.bookMap.insertIfNew r.2.bookId (loaded outDb r.2)
    bookNoMap := mgr.bookNoMap.insertIfNew (entry r).1 (entry r).2 }

/-- The document of the store. -/
def storeDocument (oid : Json) (money : ℚ) : Document :=
  ⟨oid, [(Db.BookStore.money, .real money), (Db.DataBase.system, .str Db.DataBase.system)]⟩

/-! ### Numbers as they are read -/

/-- An `int` that comes back as a `double` is the same `int`. -/
theorem asInt_demote (n : Int32) : (Reader.demote (.int n)).asInt = .ok n := by
  rw [Reader.demote]
  split_ifs
  · rfl
  · have hle := n.le_toInt
    have hlt := n.toInt_lt
    have hrange : (-2 ^ 31 : ℚ) ≤ n.toInt ∧ (n.toInt : ℚ) ≤ 2 ^ 31 - 1 :=
      ⟨by exact_mod_cast hle, by exact_mod_cast Int.le_sub_one_of_lt hlt⟩
    rw [Json.asInt, if_pos hrange, Rat.num_intCast, Rat.den_intCast]
    simp

/-- A number is read by its value, whatever its kind. -/
theorem asDouble_of_normal {v : Json} {q : ℚ} (h : v.normal = .real q) : v.asDouble = .ok q := by
  cases v with
  | int n | uint n | real r =>
    rw [Json.normal, Json.real.injEq] at h
    rw [Json.asDouble, h]
  | null | bool _ | str _ | arr _ | obj _ =>
    rw [Json.normal] at h
    cases h

/-- A price as it is read. -/
theorem asDouble_num (h : StandardStore J M inDb outDb num) (q : ℚ) :
    (Reader.demote (num q)).asDouble = .ok (outDb q) :=
  asDouble_of_normal ((Reader.normal_demote _).trans (h.value q))

/-- One document is loaded: its integers may come back as `double`s, but `asInt` gives the same
numbers, and the book number is short because it was cut before it was saved. -/
theorem loadBook_row (h : StandardStore J M inDb outDb num) (r : Row) (mgr : BookStoreMgr) :
    loadBook mgr (Reader.demote (reread num (.obj (document r).members))) =
      .ok (withRow outDb mgr r) := by
  have hload : loadBook mgr (Reader.demote (reread num (.obj (document r).members))) = (do
      let bookId ← (Reader.demote (.int r.2.bookId)).asInt
      let stock ← (Reader.demote (.int r.2.stock)).asInt
      let price ← (Reader.demote (num r.2.price)).asDouble
      return { mgr with
        bookMap := mgr.bookMap.insertIfNew bookId
          (create bookId r.2.bookNo.val stock price)
        bookNoMap := mgr.bookNoMap.insertIfNew r.2.bookNo.val bookId }) := rfl
  have hsame := create_self (loaded outDb r.2)
  rw [hload, asInt_demote, asInt_demote, asDouble_num h, withRow, ← hsame]
  rfl

/-- So the loop over the documents does not throw, and enters one row after the other. -/
theorem foldlM_loadBook (h : StandardStore J M inDb outDb num) (rows : List Row)
    (mgr : BookStoreMgr) :
    (rows.map fun r => Reader.demote (reread num (.obj (document r).members))).foldlM loadBook mgr =
      .ok (rows.foldl (withRow outDb) mgr) := by
  induction rows generalizing mgr with
  | nil => rfl
  | cons r rows ih =>
    rw [List.map_cons, List.foldlM_cons, loadBook_row h, List.foldl_cons, ← ih]
    rfl

/-- What is found after all rows are loaded. -/
theorem foldl_withRow (outDb : ℚ → ℚ) (rows : List Row) (mgr : BookStoreMgr) :
    (rows.foldl (withRow outDb) mgr).bookMap =
        rows.foldl (fun m r => m.insertIfNew r.2.bookId (loaded outDb r.2)) mgr.bookMap ∧
      (rows.foldl (withRow outDb) mgr).bookNoMap =
        (rows.map entry).foldl (fun m e => m.insertIfNew e.1 e.2) mgr.bookNoMap := by
  induction rows generalizing mgr with
  | nil => exact ⟨rfl, rfl⟩
  | cons r rows ih => exact ih (withRow outDb mgr r)

/-- No document is skipped, since each text is read. -/
theorem findAll_rows (h : StandardStore J M inDb outDb num) (rows : List Row) :
    (rows.map document).filterMap (fun obj => J.parse (M.jsonString obj.members)) =
      rows.map fun r => Reader.demote (reread num (.obj (document r).members)) := by
  rw [List.filterMap_map]
  induction rows with
  | nil => rfl
  | cons r rows ih =>
    have hr : J.parse (M.jsonString (document r).members) =
        some (Reader.demote (reread num (.obj (document r).members))) := h.rereads (document r)
    rw [List.filterMap_cons, Function.comp_apply, hr, List.map_cons, ← ih]

theorem fromjson_system (h : StandardStore J M inDb outDb num) :
    M.fromjson (tighten (J.toStyledString
      (.obj [(Db.DataBase.system, .str Db.DataBase.system)]))) =
        some [(Db.DataBase.system, .str Db.DataBase.system)] :=
  h.standardJson.fromjson _ (flatObject_singleton trivial (by decide))

/-- The query for the store finds its one document. -/
theorem findJson_store (h : StandardStore J M inDb outDb num) {env : Env} (henv : env.Calm)
    (oid : Json) (money : ℚ) :
    MongoMgr.findJson J M env [storeDocument oid money]
      (.obj [(Db.DataBase.system, .str Db.DataBase.system)]) =
        Reader.demote (reread num (.obj (storeDocument oid money).members)) := by
  have hmatch : [storeDocument oid money].find?
      (Document.isMatch [(Db.DataBase.system, .str Db.DataBase.system)]) =
        some (storeDocument oid money) := rfl
  rw [MongoMgr.findJson, MongoMgr.findText, tighten_tighten, fromjson_system h]
  dsimp only
  rw [henv.1, if_neg Bool.false_ne_true, hmatch]
  dsimp only
  rw [h.rereads, Option.getD_some]

/-- Empty collections are loaded as a new store. -/
theorem load_nil (h : StandardStore J M inDb outDb num) (env : Env) :
    load J M env [] [] = .ok ⟨∅, ∅, initFund⟩ := by
  have hnull : MongoMgr.findJson J M env []
      (.obj [(Db.DataBase.system, .str Db.DataBase.system)]) = .null := by
    rw [MongoMgr.findJson, MongoMgr.findText, tighten_tighten, fromjson_system h]
    exact ite_self _
  rw [load, hnull]
  rfl

/-- A collection of rows is loaded row by row, and then the money. -/
theorem load_rows (h : StandardStore J M inDb outDb num) {env : Env} (henv : env.Calm)
    (rows : List Row) (oid : Json) (money : ℚ) :
    load J M env (rows.map document) [storeDocument oid money] =
      .ok { rows.foldl (withRow outDb) ⟨∅, ∅, initFund⟩ with money := outDb money } := by
  have hall : ∃ v, MongoMgr.findAll J M (rows.map document) = v ∧ v.isArray = true ∧ v.elements =
      rows.map fun r => Reader.demote (reread num (.obj (document r).members)) := by
    rw [MongoMgr.findAll, findAll_rows h]
    cases rows with
    | nil => exact ⟨_, rfl, rfl, rfl⟩
    | cons r rows => exact ⟨_, rfl, rfl, rfl⟩
  obtain ⟨v, hv, harray, helements⟩ := hall
  have hmoney : (do
      (← (Reader.demote (reread num (.obj (storeDocument oid money).members))).member
        Db.BookStore.money).asDouble : Except JsonFault ℚ) = .ok (outDb money) :=
    asDouble_num h money
  have hempty : (Reader.demote (reread num (.obj (storeDocument oid money).members))).empty =
      false := rfl
  rw [load, findJson_store h henv oid, hv]
  dsimp only
  rw [harray, helements, foldlM_loadBook h, hempty]
  change (do
    let money ← (do
      (← (Reader.demote (reread num (.obj (storeDocument oid money).members))).member
        Db.BookStore.money).asDouble : Except JsonFault ℚ)
    return { rows.foldl (withRow outDb) ⟨∅, ∅, initFund⟩ with money := money }) = _
  rw [hmoney]
  rfl

/-! ## Saving -/

/-- A book is saved, and then the money. -/
def save (J : JsonLib) (M : MongoLib) (env : BookEnv) (w : BookStore) (id : Int32) : BookStore :=
  ((w.saveBookToDB J M env id).2.saveBookStore J M env).2

/-- No call throws. -/
def Op.Calm : Op → Prop
  | .setNewBook _ _ _ _ env => env.book.Calm ∧ env.store.Calm
  | .stock _ _ _ env => env.book.Calm ∧ env.store.Calm
  | .sold _ _ _ env => env.book.Calm ∧ env.store.Calm

variable {env : BookEnv} {w : BookStore} {rows : List Row} {id : Int32} {book : Book}

/-- The manager with a book changed, and the money. -/
def withBook (w : BookStore) (id : Int32) (book : Book) (money : ℚ) : BookStore :=
  { w with mgr := { w.mgr with bookMap := w.mgr.bookMap.insert id book, money := money } }

/-- Stocking and selling change the map first and save then; the save reads the changed map. -/
theorem commit_eq (w : BookStore) (id : Int32) (book : Book) (money : ℚ) :
    w.commit J M env id book money = save J M env (w.withBook id book money) book.bookId := by
  rw [commit, save, saveBookToDB, saveBookToDB]
  dsimp only [withBook]
  rcases (w.mgr.bookMap.insert id book)[book.bookId]? with _ | found <;> rfl

theorem fromjson_bookId (h : StandardStore J M inDb outDb num) (id : Int32) :
    M.fromjson (tighten (J.toStyledString (.obj [(Db.Book.bookId, .int id)]))) =
      some [(Db.Book.bookId, .int id)] :=
  h.standardJson.fromjson _ (flatObject_singleton trivial (by decide))

/-- The money as an object. -/
def moneyObject (money : ℚ) : PlainObject where
  members := [(Db.BookStore.money, .real money),
    (Db.DataBase.system, .str Db.DataBase.system)]
  sorted := by
    have hnames : [Db.BookStore.money.val, Db.DataBase.system.val].Pairwise (· < ·) := by decide
    exact List.pairwise_map.mp hnames
  names := by
    have hnames : ∀ k ∈ [Db.BookStore.money, Db.DataBase.system], PlainName k := by decide
    exact fun m hm => hnames m.1 (List.mem_map_of_mem (f := Prod.fst) hm)
  apart := by
    have hnames : ∀ k ∈ [idKey, PlayerMgr.playerId, Db.BookStore.money, Db.DataBase.system],
        32 ∉ k.val := by decide
    exact apart_of_noBlank hnames
  values := by
    simp only [List.forall_mem_cons]
    exact ⟨fun _ => .real _, fun _ => .str _, List.forall_mem_nil _⟩
  ids := by
    have hnames : ∀ k ∈ [Db.BookStore.money, Db.DataBase.system], k ≠ idKey := by decide
    intro m hm hid
    exact absurd hid (hnames m.1 (List.mem_map_of_mem (f := Prod.fst) hm))

theorem fromjson_money (h : StandardStore J M inDb outDb num) (money : ℚ) (oid : Json) :
    M.fromjson (tighten (J.toStyledString (.obj (insertMember Db.BookStore.money (.real money)
      [(Db.DataBase.system, .str Db.DataBase.system)])))) =
        some (storeDocument oid (inDb money)).fields := h.fromjson (moneyObject money)

/-- A book is saved into its row. -/
theorem saveBookToDB_rows (h : StandardStore J M inDb outDb num) (henv : env.book.Calm)
    (hbooks : w.books = rows.map document) (hbook : w.mgr.bookMap[id]? = some book) :
    (w.saveBookToDB J M env id).2 =
      { w with books := (put env.book.oid.json (book.stored inDb) rows).map document } := by
  rw [saveBookToDB, hbook]
  dsimp only
  rw [MongoMgr.saveJson, fromjson_bookId h, fromjson_toJson h]
  dsimp only
  rw [henv.2.2, if_neg Bool.false_ne_true, hbooks, ← save_document]
  rfl

/-- The collection of the store is empty or has its one document. -/
def OneStore (store : List Document) : Prop :=
  store = [] ∨ ∃ oid money, store = [storeDocument oid money]

/-- The money is saved into the one document, which is made the first time. -/
theorem saveBookStore_one (h : StandardStore J M inDb outDb num) (henv : env.store.Calm)
    (hstore : OneStore w.store) :
    ∃ oid, (w.saveBookStore J M env).2 =
      { w with store := [storeDocument oid (inDb w.mgr.money)] } := by
  have hsave : (w.saveBookStore J M env).2 =
      ⟨w.mgr, w.books, Document.save [(Db.DataBase.system, .str Db.DataBase.system)]
        (storeDocument env.store.oid.json (inDb w.mgr.money)).fields env.store.oid w.store⟩ := by
    rw [saveBookStore, MongoMgr.saveJson, fromjson_system h,
      fromjson_money h w.mgr.money env.store.oid.json]
    dsimp only
    rw [henv.2.2]
    rfl
  rw [hsave]
  rcases hstore with hnil | ⟨oid, money, hone⟩
  · rw [hnil]
    exact ⟨env.store.oid.json, rfl⟩
  · have hmatch : (storeDocument oid money).isMatch
        [(Db.DataBase.system, .str Db.DataBase.system)] = true := rfl
    have hnone : (storeDocument env.store.oid.json (inDb w.mgr.money)).fields.lookup idKey =
      none := rfl
    rw [hone, Document.save, Document.saveFrom, if_pos hmatch, Document.replaced, hnone,
      Option.getD_none, if_pos rfl]
    exact ⟨oid, rfl⟩

/-- **What a save leaves.** -/
theorem save_spec (h : StandardStore J M inDb outDb num) (hbook : env.book.Calm)
    (hstore : env.store.Calm) (hbooks : w.books = rows.map document) (hone : OneStore w.store)
    (hin : w.mgr.bookMap[id]? = some book) :
    ∃ oid, save J M env w id =
      ⟨w.mgr, (put env.book.oid.json (book.stored inDb) rows).map document,
        [storeDocument oid (inDb w.mgr.money)]⟩ := by
  rw [save, saveBookToDB_rows h hbook hbooks hin]
  exact saveBookStore_one h hstore hone

/-! ## The rows mirror the map -/

/-- What the collections have of the manager. -/
structure Mirrors (inDb : ℚ → ℚ) (w : BookStore) (rows : List Row) : Prop where
  /-- the collection consists of the rows -/
  books : w.books = rows.map document
  /-- a book is in the map under its id -/
  keys : ∀ {id : Int32} {book : Book}, w.mgr.bookMap[id]? = some book → book.bookId = id
  /-- each book has a row -/
  row : ∀ id : Int32, rowOf id rows = w.mgr.bookMap[id]?.map (stored inDb)
  /-- the book numbers in the rows are squeezed -/
  squeezed : ∀ r ∈ rows, r.2.bookNo.squeeze true = r.2.bookNo
  /-- the money is saved with the first book -/
  money : (rows = [] ∧ w.store = [] ∧ w.mgr.money = initFund) ∨
    (rows ≠ [] ∧ ∃ oid, w.store = [storeDocument oid (inDb w.mgr.money)])

/-- The loaded manager is the one that saved. -/
def Reloads (J : JsonLib) (M : MongoLib) (w : BookStore) : Prop :=
  ∀ env : Env, env.Calm → ∃ mgr, load J M env w.books w.store = .ok mgr ∧
    (∀ id : Int32, mgr.bookMap[id]? = w.mgr.bookMap[id]?) ∧
    (∀ bookNo : List UInt8, mgr.bookNoMap[bookNo]? = w.mgr.bookNoMap[bookNo]?) ∧
    mgr.money = w.mgr.money

/-- The same, in terms of the rows. -/
structure Faithful (round : ℚ → ℚ) (w : BookStore) (rows : List Row) : Prop where
  /-- the books are kept -/
  books : ∀ {id : Int32} {book : Book}, w.mgr.bookMap[id]? = some book → book.stored round = book
  /-- the numbers lead to their ids -/
  index : ∀ bookNo : List UInt8, idOf bookNo rows = w.mgr.bookNoMap[bookNo]?
  /-- the money is kept -/
  money : rows ≠ [] → round w.mgr.money = w.mgr.money

/-- The first book that is saved makes the document of the store. -/
theorem Mirrors.oneStore (hw : Mirrors inDb w rows) : OneStore w.store := by
  rcases hw.money with ⟨-, hnil, -⟩ | ⟨-, oid, hone⟩
  · exact .inl hnil
  · exact .inr ⟨oid, _, hone⟩

/-- What is loaded from mirroring collections. -/
theorem Mirrors.load (h : StandardStore J M inDb outDb num) (hw : Mirrors inDb w rows) {env : Env}
    (henv : env.Calm) :
    ∃ mgr, load J M env w.books w.store = .ok mgr ∧
      (∀ id : Int32, mgr.bookMap[id]? = w.mgr.bookMap[id]?.map (stored (outDb ∘ inDb))) ∧
      (∀ bookNo : List UInt8, mgr.bookNoMap[bookNo]? = idOf bookNo rows) ∧
      mgr.money = if rows = [] then w.mgr.money else outDb (inDb w.mgr.money) := by
  have hmap : ∀ id : Int32, (rows.foldl (withRow outDb) ⟨∅, ∅, initFund⟩).bookMap[id]? =
      w.mgr.bookMap[id]?.map (stored (outDb ∘ inDb)) := by
    intro id
    have hrow := congrArg (Option.map (loaded outDb)) (hw.row id)
    rw [rowOf, Option.map_map, Option.map_map] at hrow
    rw [(foldl_withRow outDb rows _).1, lookup_foldl_insertIfNew, Std.TreeMap.getElem?_emptyc,
      Option.none_or]
    exact hrow
  have hno : ∀ b : List UInt8, (rows.foldl (withRow outDb) ⟨∅, ∅, initFund⟩).bookNoMap[b]? =
      idOf b rows := by
    intro b
    rw [(foldl_withRow outDb rows _).2, lookup_foldl_insertIfNew, Std.TreeMap.getElem?_emptyc,
      Option.none_or]
    rfl
  rw [hw.books]
  rcases hw.money with ⟨rfl, hnil, hmoney⟩ | ⟨hne, oid, hstore⟩
  · rw [hnil]
    exact ⟨_, load_nil h env, hmap, hno, hmoney.symm⟩
  · rw [hstore]
    refine ⟨_, load_rows h henv rows oid _, hmap, hno, ?_⟩
    rw [if_neg hne]

/-- What is loaded are the rows, and the rows have what was saved; so the loaded manager is the
old one just when nothing was changed on the way and the first row with a number is the one the
index leads to. -/
theorem Mirrors.reloads_iff (h : StandardStore J M inDb outDb num) (hw : Mirrors inDb w rows) :
    w.Reloads J M ↔ Faithful (outDb ∘ inDb) w rows := by
  refine ⟨fun hs => ?_, fun hs env henv => ?_⟩
  · have hcalm : AccountMgr.calmEnv.Calm := ⟨rfl, rfl, rfl⟩
    obtain ⟨mgr, hload, hmap, hno, hmoney⟩ := hs AccountMgr.calmEnv hcalm
    obtain ⟨mgr', hload', hmap', hno', hmoney'⟩ := hw.load h hcalm
    obtain rfl : mgr = mgr' := Except.ok.inj (hload.symm.trans hload')
    refine ⟨fun {id book} hbook => ?_, fun b => (hno' b).symm.trans (hno b), fun hne => ?_⟩
    · have hsame := (hmap' id).symm.trans (hmap id)
      rw [hbook] at hsame
      exact Option.some.inj hsame
    · rw [if_neg hne] at hmoney'
      exact hmoney'.symm.trans hmoney
  · obtain ⟨mgr, hload, hmap, hno, hmoney⟩ := hw.load h henv
    refine ⟨mgr, hload, fun id => ?_, fun b => (hno b).trans (hs.index b), ?_⟩
    · rw [hmap]
      rcases hbook : w.mgr.bookMap[id]? with _ | book
      · rfl
      · exact congrArg some (hs.books hbook)
    · rw [hmoney]
      split
      · rfl
      · rename_i hne
        exact hs.money hne

/-! ## One call -/

/-- Saving only reads the manager. -/
@[simp] theorem mgr_save (w : BookStore) (id : Int32) : (save J M env w id).mgr = w.mgr := by
  rw [save, mgr_saveBookStore, mgr_saveBookToDB]

/-- Being faithful is a property of the manager and of the rows. -/
theorem Faithful.congr {round : ℚ → ℚ} {w' : BookStore} (hs : Faithful round w rows)
    (hmgr : w'.mgr = w.mgr) : Faithful round w' rows := by
  obtain ⟨hbooks, hindex, hmoney⟩ := hs
  rw [← hmgr] at hbooks hindex hmoney
  exact ⟨hbooks, hindex, hmoney⟩

/-- So it can be looked at before the save. -/
theorem faithful_save_iff {round : ℚ → ℚ} :
    Faithful round (save J M env w id) rows ↔ Faithful round w rows :=
  ⟨fun hs => hs.congr (mgr_save w id).symm, fun hs => hs.congr (mgr_save w id)⟩

/-- A book is entered into the map, or changed there, and then saved into its row. -/
theorem Mirrors.saved (h : StandardStore J M inDb outDb num) (hw : Mirrors inDb w rows)
    (hbookEnv : env.book.Calm) (hstoreEnv : env.store.Calm) (w' : BookStore)
    (hbooks : w'.books = w.books) (hstore : w'.store = w.store) (hid : book.bookId = id)
    (hmap : ∀ d : Int32,
      w'.mgr.bookMap[d]? = if id = d then some book else w.mgr.bookMap[d]?) :
    Mirrors inDb (save J M env w' id) (put env.book.oid.json (book.stored inDb) rows) := by
  obtain ⟨oid, hsave⟩ := save_spec h hbookEnv hstoreEnv (hbooks.trans hw.books)
    (hstore ▸ hw.oneStore) ((hmap id).trans (if_pos rfl))
  have hne := put_ne_nil env.book.oid.json (book.stored inDb) rows
  have hrow : ∀ d, rowOf d (put env.book.oid.json (book.stored inDb) rows) =
      if id = d then some (book.stored inDb) else rowOf d rows := by
    intro d
    rw [rowOf_put, show (book.stored inDb).bookId = id from hid]
  rw [hsave]
  refine ⟨rfl, fun {d b} hb => ?_, fun d => ?_, fun r hr => ?_, .inr ⟨hne, oid, rfl⟩⟩
  · rw [hmap] at hb
    split at hb
    · rename_i heq
      obtain rfl := Option.some.inj hb
      exact hid.trans heq
    · exact hw.keys hb
  · rw [hrow, hmap, hw.row]
    split <;> rfl
  · rcases mem_put hr with hold | heq
    · exact hw.squeezed r hold
    · rw [heq]
      exact Subtype.ext (squeeze_squeeze true book.bookNo.val)

/-- A book and the money change, but not the number and the price of the book. -/
theorem Mirrors.commit (h : StandardStore J M inDb outDb num) (hw : Mirrors inDb w rows)
    (hbookEnv : env.book.Calm) (hstoreEnv : env.store.Calm) {old : Book} (new : Book)
    (hold : w.mgr.bookMap[id]? = some old) (hid : new.bookId = old.bookId)
    (hno : new.bookNo = old.bookNo) (hprice : new.price = old.price) (money : ℚ) :
    ∃ rows', Mirrors inDb (w.commit J M env id new money) rows' ∧
      (Faithful (outDb ∘ inDb) w rows →
        (Faithful (outDb ∘ inDb) (w.commit J M env id new money) rows' ↔
          outDb (inDb money) = money)) := by
  obtain rfl := hw.keys hold
  have hmap : ∀ d : Int32, (w.withBook old.bookId new money).mgr.bookMap[d]? =
      if old.bookId = d then some new else w.mgr.bookMap[d]? := fun d => lookup_insert ..
  have hmirrors := hw.saved h hbookEnv hstoreEnv (w.withBook old.bookId new money) rfl rfl hid hmap
  have hrow : rowOf (new.stored inDb).bookId rows = some (old.stored inDb) := by
    change rowOf new.bookId rows = _
    rw [hid, hw.row, hold]
    rfl
  have hentries : (put env.book.oid.json (new.stored inDb) rows).map entry = rows.map entry :=
    map_entry_put _ hrow (congrArg (CString.squeeze true) hno.symm)
  rw [commit_eq, hid]
  simp only [faithful_save_iff]
  refine ⟨_, hmirrors, fun hs => ⟨fun hs' => hs'.money (put_ne_nil _ _ _), fun hmoney => ?_⟩⟩
  refine ⟨fun {d b} hb => ?_, fun b => ?_, fun _ => hmoney⟩
  · rw [hmap] at hb
    split at hb
    · obtain rfl := Option.some.inj hb
      rw [stored_eq_self_iff, hno, hprice]
      exact stored_eq_self_iff.mp (hs.books hold)
    · exact hs.books hb
  · rw [idOf, hentries]
    exact hs.index b

/-- A book and its text keep the number. -/
def Kept (bookNo : List UInt8) : Prop := ((Book.cut bookNo).squeeze true).val = bookNo

instance (bookNo : List UInt8) : Decidable (Kept bookNo) :=
  inferInstanceAs (Decidable (_ = _))

/-- A number that is kept is not cut and not squeezed. -/
theorem Kept.squeeze_cut {bookNo : List UInt8} (h : Kept bookNo) :
    (Book.cut bookNo).squeeze true = Book.cut bookNo := by
  have hprefix : (Book.cut bookNo).val <+: bookNo :=
    (List.take_prefix _ _).trans (List.takeWhile_prefix _)
  have hle := (squeeze_sublist true (Book.cut bookNo).val).length_le
  have hlen : (squeeze true (Book.cut bookNo).val).length = bookNo.length := congrArg List.length h
  have hcut : (Book.cut bookNo).val = bookNo :=
    hprefix.eq_of_length_le (hlen ▸ hle)
  exact Subtype.ext (Eq.trans h hcut.symm)

/-- The numbers in the rows are kept. -/
theorem Mirrors.kept (hw : Mirrors inDb w rows) {bookNo : List UInt8}
    (h : idOf bookNo rows ≠ none) : Kept bookNo := by
  rw [idOf, ne_eq, Option.map_eq_none_iff] at h
  obtain ⟨e, he⟩ := Option.ne_none_iff_exists'.mp h
  obtain ⟨r, hr, rfl⟩ := List.mem_map.mp (List.mem_of_find?_eq_some he)
  have hentry : (entry r).1 = bookNo := by simpa using List.find?_some he
  have hno : r.2.bookNo.val = bookNo := hentry
  have hcut : Book.cut bookNo = r.2.bookNo := hno ▸ cut_of_short r.2.short
  rw [Kept, hcut, hw.squeezed r hr, hno]

/-- The first row with a number counts, as in the loader, which inserts only new entries. -/
theorem idOf_append (bookNo : List UInt8) (rows : List Row) (r : Row) :
    idOf bookNo (rows ++ [r]) =
      (idOf bookNo rows).or (if (entry r).1 = bookNo then some (entry r).2 else none) := by
  rw [idOf, idOf, List.map_append, List.find?_append, List.map_singleton, List.find?_singleton]
  rcases (rows.map entry).find? _ with _ | e
  · split_ifs with h h' h' <;> simp_all
  · rfl

/-- What `setNewBook` leaves to find. -/
theorem lookup_addBook (w : BookStore) (bookNo : List UInt8) (book : Book) (money : ℚ) :
    (∀ d : Int32, (w.addBook bookNo book money).mgr.bookMap[d]? =
      w.mgr.bookMap[d]?.or (if book.bookId = d then some book else none)) ∧
    ∀ b : List UInt8, (w.addBook bookNo book money).mgr.bookNoMap[b]? =
      w.mgr.bookNoMap[b]?.or (if bookNo = b then some book.bookId else none) :=
  ⟨fun _ => lookup_insertIfNew_eq .., fun _ => lookup_insertIfNew_eq ..⟩

/-- A book with a free id is added. -/
theorem Mirrors.add_free (h : StandardStore J M inDb outDb num) (hw : Mirrors inDb w rows)
    (hbookEnv : env.book.Calm) (hstoreEnv : env.store.Calm) {bookNo : List UInt8} (book : Book)
    (hfree : w.mgr.bookMap[book.bookId]? = none) (hcut : book.bookNo = Book.cut bookNo)
    (money : ℚ) :
    ∃ rows', Mirrors inDb (save J M env (w.addBook bookNo book money) book.bookId) rows' ∧
      (Faithful (outDb ∘ inDb) w rows →
        (Faithful (outDb ∘ inDb) (save J M env (w.addBook bookNo book money) book.bookId) rows' ↔
          outDb (inDb money) = money ∧ outDb (inDb book.price) = book.price ∧ Kept bookNo)) := by
  obtain ⟨hadd, hindex⟩ := lookup_addBook w bookNo book money
  have hmap : ∀ d : Int32, (w.addBook bookNo book money).mgr.bookMap[d]? =
      if book.bookId = d then some book else w.mgr.bookMap[d]? := by
    intro d
    rw [hadd]
    split
    · rename_i heq
      rw [← heq, hfree, Option.none_or]
    · exact Option.or_none
  have hmirrors := hw.saved h hbookEnv hstoreEnv (w.addBook bookNo book money) rfl rfl rfl hmap
  have hrow : rowOf (book.stored inDb).bookId rows = none := by
    change rowOf book.bookId rows = none
    rw [hw.row, hfree]
    rfl
  rw [put_of_rowOf_none _ hrow] at hmirrors
  have hentry : (entry (env.book.oid.json, book.stored inDb)).1 =
      ((Book.cut bookNo).squeeze true).val := congrArg (fun s => (CString.squeeze true s).val) hcut
  have hidOf : ∀ b, idOf b (rows ++ [(env.book.oid.json, book.stored inDb)]) = (idOf b rows).or
      (if ((Book.cut bookNo).squeeze true).val = b then some book.bookId else none) := by
    intro b
    rw [idOf_append, hentry]
    rfl
  simp only [faithful_save_iff]
  refine ⟨_, hmirrors, fun hs => ⟨fun hs' => ?_, ?_⟩⟩
  · have hmoney := hs'.money (List.append_ne_nil_of_right_ne_nil _ (List.cons_ne_nil _ _))
    have hbook := stored_eq_self_iff.mp (hs'.books ((hmap _).trans (if_pos rfl)))
    refine ⟨hmoney, hbook.2, ?_⟩
    by_cases hnew : w.mgr.bookNoMap[bookNo]? = none
    · -- the number is found again only if the row has it
      have hfound := hs'.index bookNo
      rw [hindex, hidOf, hs.index, hnew, if_pos rfl, Option.none_or, Option.none_or] at hfound
      by_contra hkept
      rw [Kept] at hkept
      rw [if_neg hkept] at hfound
      cases hfound
    · rw [← hs.index] at hnew
      exact hw.kept hnew
  · rintro ⟨hmoney, hprice, hkept⟩
    refine ⟨fun {d b} hb => ?_, fun b => ?_, fun _ => hmoney⟩
    · rw [hmap] at hb
      split at hb
      · obtain rfl := Option.some.inj hb
        rw [stored_eq_self_iff, hcut]
        exact ⟨hkept.squeeze_cut, hprice⟩
      · exact hs.books hb
    · rw [hindex, hidOf, hs.index, hkept]

/-- A book whose id is taken is not added; its number is, and the money changes. -/
theorem Mirrors.add_taken (h : StandardStore J M inDb outDb num) (hw : Mirrors inDb w rows)
    (hbookEnv : env.book.Calm) (hstoreEnv : env.store.Calm) (bookNo : List UInt8) (book : Book)
    {old : Book} (hold : w.mgr.bookMap[book.bookId]? = some old) (money : ℚ) :
    ∃ rows', Mirrors inDb (save J M env (w.addBook bookNo book money) book.bookId) rows' ∧
      (Faithful (outDb ∘ inDb) w rows →
        (Faithful (outDb ∘ inDb) (save J M env (w.addBook bookNo book money) book.bookId) rows' ↔
          outDb (inDb money) = money ∧ w.mgr.bookNoMap[bookNo]? ≠ none)) := by
  obtain ⟨hadd, hindex⟩ := lookup_addBook w bookNo book money
  have hmap : ∀ d : Int32, (w.addBook bookNo book money).mgr.bookMap[d]? =
      if book.bookId = d then some old else w.mgr.bookMap[d]? := by
    intro d
    rw [hadd]
    split
    · rename_i heq
      rw [← heq, hold, Option.some_or]
    · exact Option.or_none
  have hmirrors := hw.saved h hbookEnv hstoreEnv (w.addBook bookNo book money) rfl rfl
    (hw.keys hold) hmap
  have hrow : rowOf (old.stored inDb).bookId rows = some (old.stored inDb) := by
    change rowOf old.bookId rows = _
    rw [hw.keys hold, hw.row, hold]
    rfl
  have hentries : (put env.book.oid.json (old.stored inDb) rows).map entry = rows.map entry :=
    map_entry_put _ hrow rfl
  simp only [faithful_save_iff]
  refine ⟨_, hmirrors, fun hs => ⟨fun hs' => ⟨hs'.money (put_ne_nil _ _ _), fun hnew => ?_⟩,
    fun hok => ⟨fun {d b} hb => ?_, fun b => ?_, fun _ => hok.1⟩⟩⟩
  · -- no row has the new number
    have hfound := hs'.index bookNo
    rw [hindex, idOf, hentries, ← idOf, hs.index, hnew, if_pos rfl] at hfound
    cases hfound
  · rw [hmap] at hb
    split at hb
    · obtain rfl := Option.some.inj hb
      exact hs.books hold
    · exact hs.books hb
  · rw [hindex, idOf, hentries, ← idOf, hs.index]
    by_cases hb : bookNo = b
    · subst hb
      rw [Option.or_of_isSome (Option.isSome_iff_ne_none.mpr hok.2)]
    · rw [if_neg hb, Option.or_none]

/-- What a call must not do: have money or a price that its text does not keep, or add a
number that its book or its text does not keep, or whose id is taken. -/
def KeepsOk (round : ℚ → ℚ) (w : BookStore) : Op → Prop
  | .setNewBook bookNo price _ cost env =>
    cost ≤ w.mgr.money → w.getIdFromBookNo bookNo = -1 →
      round (w.mgr.money - cost) = w.mgr.money - cost ∧
      (w.mgr.bookMap[w.getBookCount env + 1]? = none → round price = price) ∧
      (w.mgr.bookNoMap[bookNo]? = none →
        Kept bookNo ∧ w.mgr.bookMap[w.getBookCount env + 1]? = none)
  | .stock bookNo _ cost _ =>
    cost ≤ w.mgr.money → w.mgr.bookMap[w.getIdFromBookNo bookNo]? ≠ none →
      round (w.mgr.money - cost) = w.mgr.money - cost
  | .sold bookNo num money _ =>
    ∀ book, w.mgr.bookMap[w.getIdFromBookNo bookNo]? = some book → Sells book num money →
      round (w.mgr.money + book.price * num.toInt) = w.mgr.money + book.price * num.toInt

/-- **Exact step lemma**, in terms of the rows. -/
theorem Mirrors.step (h : StandardStore J M inDb outDb num) (hw : Mirrors inDb w rows) {op : Op}
    (hop : op.Calm) :
    ∃ rows', Mirrors inDb (w.step J M op) rows' ∧
      (Faithful (outDb ∘ inDb) w rows →
        (Faithful (outDb ∘ inDb) (w.step J M op) rows' ↔ w.KeepsOk (outDb ∘ inDb) op)) := by
  cases op with
  | setNewBook bookNo price num cost env =>
    rw [BookStore.step, KeepsOk]
    obtain ⟨hnot, heq⟩ | ⟨hcost, hid, heq⟩ := setNewBook_cases J M env w bookNo price num cost
    · rw [heq]
      exact ⟨rows, hw, fun hs => iff_of_true hs fun hcost hid => absurd ⟨hcost, hid⟩ hnot⟩
    · rw [heq]
      change ∃ rows', Mirrors inDb (save J M env _ (w.newBook env bookNo price num).bookId) rows' ∧
        (_ → (Faithful (outDb ∘ inDb)
          (save J M env _ (w.newBook env bookNo price num).bookId) rows' ↔ _))
      rcases hbook : w.mgr.bookMap[w.getBookCount env + 1]? with _ | old
      · obtain ⟨rows', hmirrors, hiff⟩ := hw.add_free h hop.1 hop.2
          (w.newBook env bookNo price num) hbook rfl (w.mgr.money - cost)
        refine ⟨rows', hmirrors, fun hs => (hiff hs).trans ⟨?_, ?_⟩⟩
        · rintro ⟨hmoney, hprice, hkept⟩ - -
          exact ⟨hmoney, fun _ => hprice, fun _ => ⟨hkept, rfl⟩⟩
        · intro hok
          obtain ⟨hmoney, hprice, hkept⟩ := hok hcost hid
          refine ⟨hmoney, hprice rfl, ?_⟩
          by_cases hnew : w.mgr.bookNoMap[bookNo]? = none
          · exact (hkept hnew).1
          · rw [← hs.index] at hnew
            exact hw.kept hnew
      · obtain ⟨rows', hmirrors, hiff⟩ := hw.add_taken h hop.1 hop.2 bookNo
          (w.newBook env bookNo price num) hbook (w.mgr.money - cost)
        refine ⟨rows', hmirrors, fun hs => (hiff hs).trans ⟨?_, ?_⟩⟩
        · rintro ⟨hmoney, hknown⟩ - -
          exact ⟨hmoney, fun hnone => (Option.some_ne_none old hnone).elim,
            fun hnew => absurd hnew hknown⟩
        · intro hok
          obtain ⟨hmoney, -, hkept⟩ := hok hcost hid
          exact ⟨hmoney, fun hnew => Option.some_ne_none old (hkept hnew).2⟩
  | stock bookNo num cost env =>
    rw [BookStore.step, KeepsOk]
    obtain ⟨hnot, heq⟩ | ⟨book, hcost, hbook, heq⟩ := stock_cases J M env w bookNo num cost
    · rw [heq]
      exact ⟨rows, hw, fun hs => iff_of_true hs fun hcost hfound => absurd ⟨hcost, hfound⟩ hnot⟩
    · have hsame : (book.addStock num).bookId = book.bookId ∧
          (book.addStock num).bookNo = book.bookNo ∧ (book.addStock num).price = book.price := by
        rw [addStock]
        split <;> exact ⟨rfl, rfl, rfl⟩
      rw [heq]
      obtain ⟨rows', hmirrors, hiff⟩ := hw.commit h hop.1 hop.2 _ hbook hsame.1 hsame.2.1
        hsame.2.2 (w.mgr.money - cost)
      refine ⟨rows', hmirrors, fun hs => (hiff hs).trans ⟨fun hmoney _ _ => hmoney, fun hok => ?_⟩⟩
      refine hok hcost ?_
      rw [hbook]
      exact Option.some_ne_none book
  | sold bookNo num money env =>
    rw [BookStore.step, KeepsOk]
    obtain ⟨hnot, heq⟩ | ⟨book, hbook, hsells, heq⟩ := sold_cases J M env w bookNo num money
    · rw [heq]
      exact ⟨rows, hw, fun hs => iff_of_true hs fun book hbook hsells =>
        absurd hsells (hnot book hbook)⟩
    · rw [heq]
      obtain ⟨rows', hmirrors, hiff⟩ := hw.commit h hop.1 hop.2
        { book with stock := book.stock - num } hbook rfl rfl rfl
        (w.mgr.money + book.price * num.toInt)
      refine ⟨rows', hmirrors, fun hs => (hiff hs).trans ⟨fun hmoney other hother _ => ?_,
        fun hok => hok book hbook hsells⟩⟩
      obtain rfl := Option.some.inj (hbook.symm.trans hother)
      exact hmoney

/-! ## Runs -/

/-- A call during which no database call fails. -/
abbrev CalmOp : Type := {op : Op // op.Calm}

/-- One such call. -/
def calmStep (J : JsonLib) (M : MongoLib) (w : BookStore) (op : CalmOp) : BookStore :=
  w.step J M op.val

theorem mirrors_init (inDb : ℚ → ℚ) : Mirrors inDb init [] where
  books := rfl
  keys h := by
    rw [init, Std.TreeMap.getElem?_emptyc] at h
    cases h
  row _ := by
    rw [init, Std.TreeMap.getElem?_emptyc]
    rfl
  squeezed := List.forall_mem_nil _
  money := .inl ⟨rfl, rfl, rfl⟩

/-- Nothing has been saved yet, so there is nothing to lose. -/
theorem faithful_init (round : ℚ → ℚ) : Faithful round init [] where
  books h := by
    rw [init, Std.TreeMap.getElem?_emptyc] at h
    cases h
  index _ := by
    rw [init, Std.TreeMap.getElem?_emptyc]
    rfl
  money h := absurd rfl h

/-- A call leaves a store that can be loaded exactly when it is allowed. -/
theorem reloads_step_iff (h : StandardStore J M inDb outDb num) (hw : Mirrors inDb w rows)
    (hs : w.Reloads J M) (op : CalmOp) :
    (calmStep J M w op).Reloads J M ↔ w.KeepsOk (outDb ∘ inDb) op.val := by
  obtain ⟨rows', hmirrors, hiff⟩ := hw.step h op.property
  exact (hmirrors.reloads_iff h).trans (hiff ((hw.reloads_iff h).mp hs))

/-- **Persistence of the book store.** Over any calls on an empty database that never fails,
a new manager always loads the same books, the same book numbers and the same money, if and
only if the texts keep the money after each call and the price of each new book, and every
new book number is one that the book and its text keep, with a free id. -/
theorem reloads_always_iff (h : StandardStore J M inDb outDb num) (ops : List CalmOp) :
    Always (calmStep J M) (Reloads J M) init ops ↔
      EachStep (calmStep J M) (fun w op => w.KeepsOk (outDb ∘ inDb) op.val) init ops := by
  refine always_iff_eachStep (I := fun w => ∃ rows, Mirrors inDb w rows) ?_ ?_
    ⟨[], mirrors_init inDb⟩ (((mirrors_init inDb).reloads_iff h).mpr (faithful_init _))
  · rintro w op ⟨rows, hw⟩
    obtain ⟨rows', hmirrors, -⟩ := hw.step h op.property
    exact ⟨rows', hmirrors⟩
  · rintro w op ⟨rows, hw⟩ hs
    exact reloads_step_iff h hw hs op

/-- A book with a number is added. -/
def addOp (bookNo : List UInt8) : CalmOp :=
  ⟨.setNewBook bookNo 5 1 0 calmCall, ⟨rfl, rfl, rfl⟩, rfl, rfl, rfl⟩

/-- A copy of a book is sold. -/
def soldOp (bookNo : List UInt8) : CalmOp :=
  ⟨.sold bookNo 1 5 calmCall, ⟨rfl, rfl, rfl⟩, rfl, rfl, rfl⟩

/-- The store with the books `a` and `b`. -/
def twoBooks : BookStore :=
  calmStep wholeJson wholeMongo (calmStep wholeJson wholeMongo init (addOp [97])) (addOp [98])

/-- Two books with short numbers are added and one is sold. -/
theorem reloads_short_number :
    StandardStore wholeJson wholeMongo (fun q => whole q) (fun q => whole q)
        countJson ∧
      Always (calmStep wholeJson wholeMongo) (Reloads wholeJson wholeMongo) init
        [addOp [97], addOp [98], soldOp [97]] := by
  refine ⟨standardStore_whole, (reloads_always_iff standardStore_whole _).mpr ⟨?_, ?_, ?_, trivial⟩⟩
  · intro _ _
    exact ⟨by decide +kernel, fun _ => by decide +kernel, fun _ => ⟨by decide, rfl⟩⟩
  · intro _ _
    exact ⟨by decide +kernel, fun _ => by decide +kernel, fun _ => ⟨by decide, by decide +kernel⟩⟩
  · intro book hbook _
    have hfound : (twoBooks.mgr.bookMap[twoBooks.getIdFromBookNo [97]]?).map Book.price = some 5 ∧
        whole (whole (twoBooks.mgr.money + 5)) = twoBooks.mgr.money + 5 := by decide +kernel
    obtain ⟨b, hb, hprice⟩ := Option.map_eq_some_iff.mp hfound.1
    obtain rfl := Option.some.inj (hbook.symm.trans hb)
    have hone : (1 : Int32).toInt = 1 := rfl
    rw [hprice, hone, Int.cast_one, mul_one]
    exact hfound.2

/-- A number of 15 bytes is not: the book and its row have 14 of them. -/
theorem reloads_fails_on_long_number :
    ¬ Always (calmStep wholeJson wholeMongo) (Reloads wholeJson wholeMongo) init
      [addOp (List.replicate 15 97)] := by
  intro hall
  have hstart : init.Reloads wholeJson wholeMongo :=
    ((mirrors_init _).reloads_iff standardStore_whole).mpr (faithful_init _)
  have hlast : (calmStep wholeJson wholeMongo init (addOp (List.replicate 15 97))).Reloads
      wholeJson wholeMongo := hall.last
  have hok := (reloads_step_iff standardStore_whole (mirrors_init _) hstart
    (addOp (List.replicate 15 97))).mp hlast
  have hkept := ((hok (by decide +kernel) rfl).2.2 rfl).1
  exact absurd hkept (by decide)

end BookStore

end MyServer
