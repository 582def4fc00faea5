import FsServer.Listing
import FsServer.Proof.Calls
import FsServer.Lib.Paging
import Mathlib.Data.List.Lex
import Mathlib.Data.Char

/-!
# Paging through a listing

Each page is cut out of a sorting of its own, and rows that compare equal may stand in another order
in the next query. So the pages make up the matching rows exactly when no page boundary falls inside
a block of rows that compare equal, and when the limit and the offsets do not overflow.
-/

namespace FsServer

open Lib Program Service Database

theorem SortColumn.le_trans (collation : Collation) (column : SortColumn) (a b c : FileListItem)
    (hab : column.le collation a b = true) (hbc : column.le collation b c = true) :
    column.le collation a c = true := by
  cases column with
  | name => exact collation.textLe_trans _ _ _ hab hbc
  | path => exact collation.textLe_trans _ _ _ hab hbc
  | size => exact decide_eq_true (Int.le_trans (of_decide_eq_true hab) (of_decide_eq_true hbc))
  | createdAt => exact collation.timeLe_trans _ _ _ hab hbc
  | type => exact collation.textLe_trans _ _ _ hab hbc

theorem SortColumn.le_total (collation : Collation) (column : SortColumn) (a b : FileListItem) :
    (column.le collation a b || column.le collation b a) = true := by
  cases column with
  | name => exact collation.textLe_total _ _
  | path => exact collation.textLe_total _ _
  | size => simpa [SortColumn.le] using Int.le_total a.size b.size
  | createdAt => exact collation.timeLe_total _ _
  | type => exact collation.textLe_total _ _

namespace ListQuery

variable (collation : Collation) (query : ListQuery)

theorem orderBy_trans (a b c : FileListItem) (hab : query.orderBy collation a b = true)
    (hbc : query.orderBy collation b c = true) : query.orderBy collation a c = true := by
  unfold orderBy at *
  split_ifs at * with hdesc
  · exact SortColumn.le_trans _ _ _ _ _ hbc hab
  · exact SortColumn.le_trans _ _ _ _ _ hab hbc

theorem orderBy_total (a b : FileListItem) :
    (query.orderBy collation a b || query.orderBy collation b a) = true := by
  unfold orderBy
  split_ifs with hdesc
  · exact SortColumn.le_total _ _ _ _
  · exact SortColumn.le_total _ _ _ _

def rows (db : Database) : List FileListItem := db.matching query.whereClause

def size : Nat := query.pageSizeOrDefault.toNat

theorem size_pos : 0 < query.size := by
  unfold size pageSizeOrDefault
  split_ifs <;> omega

theorem pageSizeOrDefault_eq : query.pageSizeOrDefault = query.size := by
  unfold size pageSizeOrDefault
  split_ifs <;> omega

structure Sorts (db : Database) (sorted : List FileListItem) : Prop where
  ordered : sorted.Pairwise fun a b => query.orderBy collation a b = true
  perm : sorted.Perm (query.rows db)

/-- The database accepts the limit, no offset overflows, and no page boundary falls between two rows
that compare equal. -/
structure Pageable (db : Database) : Prop where
  limit : db.dialect = .postgresql → query.pageSize ≠ maxInt64
  offset : ∀ page : Nat, page * query.size < (query.rows db).length →
    ((page * query.size : Nat) : Int) ≤ maxInt64
  separated : ∀ page : Nat, ∀ row ∈ query.rows db,
    ¬ Straddles (query.orderBy collation) (query.rows db) row (page * query.size)

end ListQuery

theorem Database.nodup_matching (db : Database) (filter : PathFilter) :
    (db.matching filter).Nodup := by
  refine List.nodup_append.mpr ⟨?_, ?_, ?_⟩
  · refine List.Nodup.of_map FileListItem.id ?_
    rw [List.map_map]
    exact db.files.nodup_id.sublist (List.filter_sublist.map _)
  · refine List.Nodup.of_map FileListItem.id ?_
    rw [List.map_map]
    exact db.directories.nodup_id.sublist (List.filter_sublist.map _)
  · intro a ha b hb hab
    obtain ⟨file, _, rfl⟩ := List.mem_map.mp ha
    obtain ⟨directory, _, rfl⟩ := List.mem_map.mp hb
    cases congrArg FileListItem.type hab

def Env.ordering {rows sorted : List FileListItem} (h : sorted.Perm rows) : Env :=
  { Env.textual with
    shuffle := fun items => if items = rows then sorted else items
    shuffle_perm := by
      intro items
      split_ifs with hitems
      · exact hitems ▸ h
      · exact List.Perm.refl items }

namespace FileListService

variable {collation : Collation} {query : ListQuery} {world : World}

variable {dialect : Dialect}

theorem window_page {offset : Nat} (hlimit : dialect = .postgresql → query.pageSize ≠ maxInt64)
    (hoffset : (offset : Int) ≤ maxInt64) (items : List FileListItem) :
    ∃ fetched, window dialect (int64 (query.pageSizeOrDefault + 1)) (int64 offset) items
        = .ok fetched ∧
      (fetched = items.drop offset ∨ fetched = (items.drop offset).take (query.size + 1)) := by
  have hstart : int64 offset = offset := int64_of_range (by omega) hoffset
  have hsize := query.pageSizeOrDefault_eq
  by_cases hmax : query.pageSize = maxInt64
  · have hnegative : int64 (query.pageSizeOrDefault + 1) < 0 := by
      unfold ListQuery.pageSizeOrDefault int64
      rw [hmax]
      decide
    have hsqlite : dialect = .sqlite := by
      cases dialect with
      | sqlite => rfl
      | postgresql => exact absurd hmax (hlimit rfl)
    subst hsqlite
    refine ⟨items.drop offset, ?_, .inl rfl⟩
    rw [window, hstart, if_pos hnegative, Int.toNat_natCast]
  · have hbound : query.pageSizeOrDefault + 1 ≤ maxInt64 := by
      have hle := query.pageSize_le
      unfold ListQuery.pageSizeOrDefault
      split_ifs
      · decide
      · omega
    have hend : int64 (query.pageSizeOrDefault + 1) = ((query.size + 1 : Nat) : Int) := by
      rw [int64_of_range (by omega) hbound, hsize]
      rfl
    refine ⟨_, ?_, .inr rfl⟩
    rw [hstart, hend]
    cases dialect with
    | sqlite => rw [window, if_neg (by omega), Int.toNat_natCast, Int.toNat_natCast]
    | postgresql =>
      rw [window, if_neg (by omega), if_neg (by omega), Int.toNat_natCast,
        Int.toNat_natCast]

theorem trim_fetched {size : Nat} {rest fetched : List FileListItem}
    (hfetched : fetched = rest ∨ fetched = rest.take (size + 1)) :
    decide ((size : Int) < fetched.length) = decide (size < rest.length) ∧
    (if decide ((size : Int) < fetched.length) = true then fetched.take size else fetched) =
      rest.take size := by
  have hmore : (size : Int) < fetched.length ↔ size < rest.length := by
    rcases hfetched with rfl | rfl
    · exact Nat.cast_lt
    · rw [List.length_take]
      omega
  refine ⟨decide_eq_decide.mpr hmore, ?_⟩
  simp only [decide_eq_true_iff, hmore]
  split_ifs with hlength
  · rcases hfetched with rfl | rfl
    · rfl
    · rw [List.take_take, Nat.min_eq_left (Nat.le_succ size)]
  · rw [List.take_of_length_le (Nat.le_of_not_lt hlength)]
    rcases hfetched with rfl | rfl
    · rfl
    · exact List.take_of_length_le (by omega)

def answer (query : ListQuery) (dialect : Dialect) (page : Nat) (sorted : List FileListItem) :
    Except ListError FileListResult :=
  match window dialect (int64 (query.pageSizeOrDefault + 1))
    (int64 (page * query.size : Nat)) sorted with
  | .error cause => .error (.listItems cause)
  | .ok fetched =>
    .ok ⟨-1, page + 1, query.pageSizeOrDefault, decide (query.pageSizeOrDefault < fetched.length),
      if decide (query.pageSizeOrDefault < fetched.length) = true
        then fetched.take query.pageSizeOrDefault.toNat else fetched⟩

theorem sorts_mergeSort (env : Env) :
    query.Sorts collation world.db
      ((env.shuffle (query.rows world.db)).mergeSort (query.orderBy collation)) where
  ordered := List.pairwise_mergeSort (query.orderBy_trans collation) (query.orderBy_total collation) _
  perm := (List.mergeSort_perm _ _).trans (env.shuffle_perm _)

theorem shuffle_ordering {rows sorted : List FileListItem} (h : sorted.Perm rows) :
    (Env.ordering h).shuffle rows = sorted := if_pos rfl

theorem total_listFilesWith (page : Nat) (includeTotal : Bool)
    (post : Except ListError FileListResult → World → Prop) :
    (listFilesWith collation query (page + 1) includeTotal).Total World.handle post world ↔
      ∀ sorted, query.Sorts collation world.db sorted →
        post ((answer query world.db.dialect page sorted).map fun result =>
          { result with total := if includeTotal then (query.rows world.db).length else -1 })
          world := by
  have hpage : ¬ ((page + 1 : Int) < 1) := by omega
  have hstart : ((page + 1 : Int) - 1) * query.pageSizeOrDefault
      = ((page * query.size : Nat) : Int) := by
    rw [query.pageSizeOrDefault_eq, Int.add_sub_cancel, Nat.cast_mul]
  have henv : (listFilesWith collation query (page + 1) includeTotal).Total World.handle post world ↔
      ∀ env : Env, post ((answer query world.db.dialect page
        ((env.shuffle (query.rows world.db)).mergeSort (query.orderBy collation))).map fun result =>
          { result with total := if includeTotal then (query.rows world.db).length else -1 })
          world := by
    unfold listFilesWith
    simp only [if_neg hpage, hstart]
    rw [total_sql]
    refine forall_congr' fun env => ?_
    have hexec : world.db.exec env (.listItems query.whereClause (query.orderBy collation)
        (int64 (query.pageSizeOrDefault + 1)) (int64 (page * query.size : Nat))) =
      (window world.db.dialect (int64 (query.pageSizeOrDefault + 1))
        (int64 (page * query.size : Nat))
        ((env.shuffle (query.rows world.db)).mergeSort (query.orderBy collation)), world.db) := rfl
    rw [hexec]
    unfold answer
    cases window world.db.dialect (int64 (query.pageSizeOrDefault + 1))
        (int64 (page * query.size : Nat))
        ((env.shuffle (query.rows world.db)).mergeSort (query.orderBy collation)) with
    | error cause => rfl
    | ok fetched =>
      cases includeTotal with
      | false => rfl
      | true =>
        dsimp only
        rw [if_pos rfl, total_sql]
        exact ⟨fun h => h .textual, fun h _ => h⟩
  rw [henv]
  constructor
  · intro h sorted hsorted
    have hpost := h (Env.ordering hsorted.perm)
    rwa [shuffle_ordering, List.mergeSort_of_pairwise hsorted.ordered] at hpost
  · intro h env
    exact h _ (sorts_mergeSort env)

theorem total_listFiles (page : Nat) (post : Except ListError FileListResult → World → Prop) :
    (listFiles collation query (page + 1)).Total World.handle post world ↔
      ∀ sorted, query.Sorts collation world.db sorted →
        post (answer query world.db.dialect page sorted) world := by
  rw [listFiles, total_listFilesWith]
  refine forall₂_congr fun sorted _ => ?_
  have hsame : (answer query world.db.dialect page sorted).map
      (fun result => { result with total := -1 }) = answer query world.db.dialect page sorted := by
    unfold answer
    split <;> rfl
  rw [if_neg Bool.false_ne_true, hsame]

theorem answer_page {page : Nat} (hlimit : dialect = .postgresql → query.pageSize ≠ maxInt64)
    (hoffset : ((page * query.size : Nat) : Int) ≤ maxInt64) (sorted : List FileListItem) :
    answer query dialect page sorted = .ok ⟨-1, page + 1, query.size,
      decide ((page + 1) * query.size < sorted.length),
      (sorted.drop (page * query.size)).take query.size⟩ := by
  obtain ⟨fetched, hwindow, hfetched⟩ := window_page hlimit hoffset sorted
  obtain ⟨hmore, hitems⟩ := trim_fetched hfetched
  have hlast : decide (query.size < (sorted.drop (page * query.size)).length) =
      decide ((page + 1) * query.size < sorted.length) := by
    rw [List.length_drop, Nat.succ_mul, decide_eq_decide]
    omega
  rw [answer, hwindow, query.pageSizeOrDefault_eq, Int.toNat_natCast]
  simp only [hitems]
  rw [hmore, hlast]

theorem answer_limit (hmax : query.pageSize = maxInt64) (page : Nat) (sorted : List FileListItem) :
    answer query .postgresql page sorted = .error (.listItems .negativeLimit) := by
  have hnegative : int64 (query.pageSizeOrDefault + 1) < 0 := by
    unfold ListQuery.pageSizeOrDefault
    rw [hmax]
    decide
  rw [answer, window, if_pos hnegative]

theorem answer_overflow {page : Nat} (hbefore : ((page * query.size : Nat) : Int) ≤ maxInt64)
    (hover : maxInt64 < (((page + 1) * query.size : Nat) : Int)) (sorted : List FileListItem) :
    (∃ cause, answer query dialect (page + 1) sorted = .error cause) ∨
    ∃ result, answer query dialect (page + 1) sorted = .ok result ∧
      result.items = sorted.take query.size := by
  have hsize : (query.size : Int) ≤ maxInt64 := by
    rw [← query.pageSizeOrDefault_eq]
    unfold ListQuery.pageSizeOrDefault
    split_ifs
    · decide
    · exact query.pageSize_le
  have hnegative : int64 ((page + 1) * query.size : Nat) < 0 := by
    unfold int64
    unfold maxInt64 at *
    rw [Nat.succ_mul] at hover ⊢
    omega
  cases dialect with
  | sqlite =>
    have hzero : ((0 : Nat) : Int) ≤ maxInt64 := by decide
    obtain ⟨fetched, hwindow, hfetched⟩ :=
      window_page (fun h : Dialect.sqlite = .postgresql => nomatch h) hzero sorted
    have hanew : window .sqlite (int64 (query.pageSizeOrDefault + 1))
        (int64 ((page + 1) * query.size : Nat)) sorted = .ok fetched := by
      rw [← hwindow, window, window, Int.toNat_of_nonpos hnegative.le]
      rfl
    refine .inr ⟨_, by rw [answer, hanew], ?_⟩
    rw [query.pageSizeOrDefault_eq, Int.toNat_natCast]
    exact (trim_fetched hfetched).2
  | postgresql =>
    refine .inl ?_
    by_cases hlimit : int64 (query.pageSizeOrDefault + 1) < 0
    · exact ⟨_, by rw [answer, window, if_pos hlimit]⟩
    · exact ⟨_, by rw [answer, window, if_neg hlimit, if_pos hnegative]⟩

/-! ### One page after another -/

def afterPage (collation : Collation) (query : ListQuery) (fuel page : Nat)
    (collected : List FileListItem) :
    Except ListError FileListResult → Service (Option (Except ListError (List FileListItem)))
  | .error cause => return some (.error cause)
  | .ok result =>
    if result.hasMore then
      listPages collation query fuel ((page + 1 : Nat) + 1) (collected ++ result.items)
    else return some (.ok (collected ++ result.items))

variable {post : Option (Except ListError (List FileListItem)) → World → Prop} {fuel page : Nat}
  {collected : List FileListItem}

theorem total_listPages :
    (listPages collation query (fuel + 1) (page + 1) collected).Total World.handle post world ↔
      ∀ sorted, query.Sorts collation world.db sorted →
        (afterPage collation query fuel page collected
          (answer query world.db.dialect page sorted)).Total World.handle post world := by
  have hnext : listPages collation query (fuel + 1) (page + 1) collected =
      listFiles collation query (page + 1) >>= afterPage collation query fuel page collected := by
    rw [listPages]
    refine congrArg _ (funext fun reply => ?_)
    cases reply with
    | error cause => rfl
    | ok result => rfl
  rw [hnext, total_bind, total_listFiles]

/-- The rows as a whole, each once. -/
def Complete (query : ListQuery) (world : World)
    (result : Option (Except ListError (List FileListItem))) (after : World) : Prop :=
  after = world ∧ ∃ items, result = some (.ok items) ∧ items.Perm (query.rows world.db)

/-- The pages from `page` on complete what was collected before them. -/
theorem total_of_pageable (hquery : query.Pageable collation world.db)
    (hstart : page * query.size ≤ (query.rows world.db).length)
    (hfuel : (query.rows world.db).length < fuel + page * query.size)
    (hnonempty : page = 0 ∨ page * query.size < (query.rows world.db).length)
    (hcollected : ∀ sorted, query.Sorts collation world.db sorted →
      collected.Perm (sorted.take (page * query.size))) :
    (listPages collation query fuel (page + 1) collected).Total World.handle
      (Complete query world) world := by
  have hpos := query.size_pos
  induction fuel generalizing page collected with
  | zero => omega
  | succ fuel ih =>
    rw [total_listPages]
    intro sorted hsorted
    have hlength := hsorted.perm.length_eq
    have hoffset : ((page * query.size : Nat) : Int) ≤ maxInt64 := by
      rcases hnonempty with rfl | hlt
      · rw [Nat.zero_mul]
        decide
      · exact hquery.offset page hlt
    have hsucc : (page + 1) * query.size = page * query.size + query.size := Nat.succ_mul _ _
    -- what was collected and the page make up the pages up to here
    have hpage : (collected ++ (sorted.drop (page * query.size)).take query.size).Perm
        (sorted.take ((page + 1) * query.size)) := by
      rw [hsucc, List.take_add]
      exact (hcollected sorted hsorted).append_right _
    rw [answer_page hquery.limit hoffset, afterPage]
    by_cases hmore : (page + 1) * query.size < sorted.length
    · rw [if_pos (decide_eq_true hmore)]
      refine ih (by omega) (by omega) (.inr (by omega)) fun other hother => ?_
      exact hpage.trans (take_perm_take (query.orderBy_trans collation)
        (query.orderBy_total collation) (hquery.separated (page + 1)) hsorted.ordered hsorted.perm
        hother.ordered hother.perm)
    · rw [if_neg (by simpa using hmore)]
      have hall : sorted.take ((page + 1) * query.size) = sorted :=
        List.take_of_length_le (Nat.le_of_not_lt hmore)
      rw [hall] at hpage
      exact ⟨rfl, _, rfl, hpage.trans hsorted.perm⟩

/-! ### What a complete listing needs -/

theorem not_complete_error {cause : ListError} : ¬ Complete query world (some (.error cause)) world := by
  rintro ⟨_, items, hitems, _⟩
  cases hitems

theorem nodup_of_afterPage {result : FileListResult}
    (hrest : ∀ {page : Nat} {collected : List FileListItem},
      (listPages collation query fuel (page + 1) collected).Total World.handle
        (Complete query world) world → collected.Nodup)
    (h : (afterPage collation query fuel page collected (.ok result)).Total World.handle
      (Complete query world) world) : (collected ++ result.items).Nodup := by
  rw [afterPage] at h
  split_ifs at h with hmore
  · exact hrest h
  · obtain ⟨_, items, hitems, hperm⟩ := h
    cases hitems
    exact hperm.symm.nodup (world.db.nodup_matching _)

section

variable
  (h : (listPages collation query fuel (page + 1) collected).Total World.handle (Complete query world) world)
include h

theorem nodup_of_total : collected.Nodup := by
  induction fuel generalizing page collected with
  | zero =>
    obtain ⟨_, items, hitems, _⟩ := h
    cases hitems
  | succ fuel ih =>
    have hafter := total_listPages.mp h _ (sorts_mergeSort Env.textual)
    revert hafter
    cases answer query world.db.dialect page _ with
    | error cause => exact fun hafter => absurd hafter not_complete_error
    | ok result => exact fun hafter => (nodup_of_afterPage ih hafter).of_append_left

theorem afterPage_of_total {sorted : List FileListItem}
    (hsorted : query.Sorts collation world.db sorted) :
    ∃ left, (afterPage collation query left page collected
      (answer query world.db.dialect page sorted)).Total World.handle (Complete query world)
        world := by
  cases fuel with
  | zero =>
    obtain ⟨_, items, hitems, _⟩ := h
    cases hitems
  | succ fuel => exact ⟨fuel, total_listPages.mp h sorted hsorted⟩

end

section Necessity

variable {sorted : List FileListItem}
  (hlimit : world.db.dialect = .postgresql → query.pageSize ≠ maxInt64)
  (hsorted : query.Sorts collation world.db sorted)
include hlimit hsorted

section

variable (h : (listPages collation query fuel 1 []).Total World.handle (Complete query world) world)
  (hpage : page * query.size < (query.rows world.db).length)
include h hpage

/-- Every query may sort the rows alike, and then the client holds the pages it has asked for. -/
theorem total_after_pages
    (hoffset : ∀ earlier < page, ((earlier * query.size : Nat) : Int) ≤ maxInt64) :
    ∃ left, (listPages collation query left (page + 1) (sorted.take (page * query.size))).Total
      World.handle (Complete query world) world := by
  induction page with
  | zero => exact ⟨fuel, by simpa using h⟩
  | succ page ih =>
    have hsucc : (page + 1) * query.size = page * query.size + query.size := Nat.succ_mul _ _
    obtain ⟨left, htotal⟩ := ih (by omega) fun earlier hearlier => hoffset earlier (by omega)
    obtain ⟨left, hafter⟩ := afterPage_of_total htotal hsorted
    have hmore : (page + 1) * query.size < sorted.length := by
      rwa [hsorted.perm.length_eq]
    rw [answer_page hlimit (hoffset page (Nat.lt_succ_self page)), afterPage,
      if_pos (decide_eq_true hmore), ← List.take_add, ← hsucc] at hafter
    exact ⟨left, hafter⟩

/-- An offset that overflows fails the listing or begins it anew. -/
theorem offset_of_total : ((page * query.size : Nat) : Int) ≤ maxInt64 := by
  induction page with
  | zero =>
    rw [Nat.zero_mul]
    decide
  | succ page ih =>
    have hsucc : (page + 1) * query.size = page * query.size + query.size := Nat.succ_mul _ _
    have hbefore := ih (by omega)
    by_contra hover
    obtain ⟨left, htotal⟩ := total_after_pages hlimit hsorted h hpage fun earlier hearlier =>
      Int.le_trans (Int.ofNat_le.mpr (Nat.mul_le_mul_right _ (Nat.le_of_lt_succ hearlier))) hbefore
    obtain ⟨left, hafter⟩ := afterPage_of_total htotal hsorted
    have hover : maxInt64 < (((page + 1) * query.size : Nat) : Int) := Int.lt_of_not_ge hover
    rcases @answer_overflow query world.db.dialect page hbefore hover sorted with
      ⟨cause, hanswer⟩ | ⟨result, hanswer, hitems⟩
    · rw [hanswer] at hafter
      exact not_complete_error hafter
    · rw [hanswer] at hafter
      have hnodup := nodup_of_afterPage nodup_of_total hafter
      rw [hitems] at hnodup
      -- the first row was on the first page already
      have hpos := query.size_pos
      have hlength := hsorted.perm.length_eq
      have hfirst : ∀ {n : Nat}, query.size ≤ n → sorted[0] ∈ sorted.take n := fun hn =>
        List.mem_take_iff_getElem.mpr ⟨0, by omega, rfl⟩
      exact List.disjoint_of_nodup_append hnodup (hfirst (by omega)) (hfirst (Nat.le_refl _))

end

/-- The pages not asked for yet may all be cut out of the same sorting. -/
theorem perm_of_total
    (h : (listPages collation query fuel (page + 1) collected).Total World.handle
      (Complete query world) world)
    (hpage : page * query.size < (query.rows world.db).length)
    (hoffset : ∀ page : Nat, page * query.size < (query.rows world.db).length →
      ((page * query.size : Nat) : Int) ≤ maxInt64) :
    (collected ++ sorted.drop (page * query.size)).Perm (query.rows world.db) := by
  induction fuel generalizing page collected with
  | zero =>
    obtain ⟨_, items, hitems, _⟩ := h
    cases hitems
  | succ fuel ih =>
    have hafter := total_listPages.mp h sorted hsorted
    have hlength := hsorted.perm.length_eq
    rw [answer_page hlimit (hoffset page hpage), afterPage] at hafter
    by_cases hmore : (page + 1) * query.size < sorted.length
    · rw [if_pos (decide_eq_true hmore)] at hafter
      have hperm := ih hafter (by omega)
      rwa [Nat.succ_mul, ← List.drop_drop, List.append_assoc, List.take_append_drop] at hperm
    · rw [if_neg (by simpa using hmore)] at hafter
      obtain ⟨_, items, hitems, hperm⟩ := hafter
      cases hitems
      rwa [List.take_of_length_le (by rw [List.length_drop]; rw [Nat.succ_mul] at hmore; omega)]
        at hperm

end Necessity

/-- The pages make up the matching rows, each once, exactly when the query is pageable. -/
theorem listPages_complete_iff (collation : Collation) (query : ListQuery) (world : World) :
    (∃ fuel, (listPages collation query fuel 1 []).Total World.handle (Complete query world) world) ↔
      query.Pageable collation world.db := by
  have hfirst : ((0 : Nat) : Int) + 1 = 1 := rfl
  constructor
  · rintro ⟨fuel, h⟩
    have hlimit : world.db.dialect = .postgresql → query.pageSize ≠ maxInt64 := by
      intro hdialect hmax
      rw [← hfirst] at h
      obtain ⟨left, hafter⟩ := afterPage_of_total h (sorts_mergeSort Env.textual)
      rw [hdialect, answer_limit hmax] at hafter
      exact not_complete_error hafter
    have hoffset : ∀ page : Nat, page * query.size < (query.rows world.db).length →
        ((page * query.size : Nat) : Int) ≤ maxInt64 :=
      fun page hpage => offset_of_total hlimit (sorts_mergeSort Env.textual) h hpage
    refine ⟨hlimit, hoffset, fun page row hrow hstraddles => ?_⟩
    have hpage : page * query.size < (query.rows world.db).length :=
      Nat.lt_of_lt_of_le hstraddles.2 List.countP_le_length
    obtain ⟨first, second, hfirst, hfirst_perm, hsecond, hsecond_perm, hnot⟩ :=
      exists_sortings_of_straddles (query.orderBy_trans collation) (query.orderBy_total collation)
        (world.db.nodup_matching _) hstraddles
    obtain ⟨left, htotal⟩ := total_after_pages hlimit ⟨hfirst, hfirst_perm⟩ h hpage
      fun earlier hearlier => hoffset earlier
        (Nat.lt_of_le_of_lt (Nat.mul_le_mul_right _ (Nat.le_of_lt hearlier)) hpage)
    exact hnot (perm_of_total hlimit ⟨hsecond, hsecond_perm⟩ htotal hpage hoffset)
  · intro hquery
    refine ⟨(query.rows world.db).length + 1, ?_⟩
    rw [← hfirst]
    refine total_of_pageable hquery (by omega) (by omega) (.inl rfl) fun sorted _ => ?_
    rw [Nat.zero_mul, List.take_zero]

/-! ### Two directories, one to a page -/

def bytewise : Collation where
  textLe := fun a b => a ≤ b
  textLe_trans := fun a b c hab hbc =>
    decide_eq_true (le_trans (of_decide_eq_true hab) (of_decide_eq_true hbc))
  textLe_total := fun a b => by simpa using le_total a b
  timeLe := fun a b => a ≤ b
  timeLe_trans := fun a b c hab hbc =>
    decide_eq_true (String.le_trans (of_decide_eq_true hab) (of_decide_eq_true hbc))
  timeLe_total := fun a b => by simpa using String.le_total a b

def twoDirectories : World :=
  { World.initial .postgresql [['r']] with
    db :=
      { dialect := .postgresql
        files := .empty
        directories := ⟨[⟨"1", ['a'], ['a'], "2024-01-01", "2024-01-01", false⟩,
          ⟨"2", ['b'], ['b'], "2024-01-02", "2024-01-02", false⟩], by decide, by decide⟩ } }

def bySize : ListQuery where
  path := []
  recursive := true
  pageSize := 1
  pageSize_le := by decide
  sortBy := "size"
  sortOrder := "asc"

/-- Both directories have size 0, and the second query returns them the other way round: one is
listed twice and one never. -/
theorem listPages_repeats_directory :
    bySize.rows twoDirectories.db =
      [⟨"1", ['a'], ['a'], 0, .directory, "2024-01-01"⟩,
        ⟨"2", ['b'], ['b'], 0, .directory, "2024-01-02"⟩] ∧
    Runs World.handle (listPages bytewise bySize 2 1 []) twoDirectories
      (some (.ok [⟨"1", ['a'], ['a'], 0, .directory, "2024-01-01"⟩,
        ⟨"1", ['a'], ['a'], 0, .directory, "2024-01-01"⟩])) twoDirectories := by
  have hrows : bySize.rows twoDirectories.db =
      [⟨"1", ['a'], ['a'], 0, .directory, "2024-01-01"⟩,
        ⟨"2", ['b'], ['b'], 0, .directory, "2024-01-02"⟩] := by decide
  have hswap : [⟨"2", ['b'], ['b'], 0, .directory, "2024-01-02"⟩,
      ⟨"1", ['a'], ['a'], 0, .directory, "2024-01-01"⟩].Perm (bySize.rows twoDirectories.db) := by
    rw [hrows]
    exact List.Perm.swap _ _ _
  have hfirst : World.handle _ Env.textual (.sql (.listItems bySize.whereClause
      (bySize.orderBy bytewise) 2 0)) twoDirectories =
      some (.ok (bySize.rows twoDirectories.db), twoDirectories) := by
    have hsort : (bySize.rows twoDirectories.db).mergeSort (bySize.orderBy bytewise) =
        bySize.rows twoDirectories.db := by
      rw [hrows]
      exact List.mergeSort_of_pairwise (by decide)
    change some (window .postgresql 2 0 ((bySize.rows twoDirectories.db).mergeSort
      (bySize.orderBy bytewise)), twoDirectories) = _
    rw [hsort, hrows]
    rfl
  have hsecond : World.handle _ (Env.ordering hswap) (.sql (.listItems bySize.whereClause
      (bySize.orderBy bytewise) 2 1)) twoDirectories =
      some (.ok [⟨"1", ['a'], ['a'], 0, .directory, "2024-01-01"⟩], twoDirectories) := by
    change some (window .postgresql 2 1 (((Env.ordering hswap).shuffle
      (bySize.rows twoDirectories.db)).mergeSort (bySize.orderBy bytewise)), twoDirectories) = _
    rw [shuffle_ordering, List.mergeSort_of_pairwise (by decide)]
    rfl
  rw [hrows] at hfirst
  exact ⟨hrows, Runs.call _ hfirst (Runs.call _ hsecond (Runs.done _ _))⟩

end FileListService

end FsServer
