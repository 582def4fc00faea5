import Mathlib.Data.List.Nodup
import Mathlib.Data.List.Perm.Basic

/-!
# A table with two unique keys

Rows with a primary key `id` and a second unique key `path`. A statement that would make two rows
share either key fails and leaves the table as it was, so the two uniqueness facts are part of the
type. Read through its second key the table is a partial function (`atPath`), and every statement is
described by what it does to that function.
-/

namespace FsServer.Lib

variable {R I P : Type}

inductive Violation where
  | primaryKey
  | uniquePath
  deriving DecidableEq, Repr

structure Table {R I P : Type} (id : R → I) (path : R → P) where
  rows : List R
  nodup_id : (rows.map id).Nodup
  nodup_path : (rows.map path).Nodup

namespace Table

variable {id : R → I} {path : R → P}

def empty : Table id path where
  rows := []
  nodup_id := List.nodup_nil
  nodup_path := List.nodup_nil

theorem nodup_rows (table : Table id path) : table.rows.Nodup := table.nodup_id.of_map

variable {other : R}

theorem eq_of_id_eq (table : Table id path) {row : R} (hrow : row ∈ table.rows)
    (hother : other ∈ table.rows) (hid : id row = id other) : row = other :=
  List.inj_on_of_nodup_map table.nodup_id hrow hother hid

theorem eq_of_path_eq (table : Table id path) {row : R} (hrow : row ∈ table.rows)
    (hother : other ∈ table.rows) (hpath : path row = path other) : row = other :=
  List.inj_on_of_nodup_map table.nodup_path hrow hother hpath

variable {related : R → R → Prop} {xs ys : List R}

theorem forall₂_mem (h : List.Forall₂ related xs ys) :
    List.Forall₂ (fun x y => x ∈ xs ∧ y ∈ ys ∧ related x y) xs ys := by
  induction h with
  | nil => exact .nil
  | cons hhead _ ih =>
    refine .cons ⟨List.mem_cons_self .., List.mem_cons_self .., hhead⟩ (ih.imp ?_)
    rintro x y ⟨hx, hy, hrelated⟩
    exact ⟨List.mem_cons_of_mem _ hx, List.mem_cons_of_mem _ hy, hrelated⟩

theorem exists_of_forall₂ (h : List.Forall₂ related xs ys) {x : R} (hx : x ∈ xs) :
    ∃ y ∈ ys, related x y := by
  induction h with
  | nil => cases hx
  | @cons head other rest others hhead _ ih =>
    rcases List.mem_cons.mp hx with rfl | hrest
    · exact ⟨other, List.mem_cons_self .., hhead⟩
    · obtain ⟨y, hy, hrelated⟩ := ih hrest
      exact ⟨y, List.mem_cons_of_mem _ hy, hrelated⟩

variable {first second : R → R → Prop}

theorem forall₂_both (hfirst : List.Forall₂ first xs ys) (hsecond : List.Forall₂ second xs ys) :
    List.Forall₂ (fun x y => first x y ∧ second x y) xs ys := by
  induction hfirst with
  | nil => exact .nil
  | cons hhead _ ih =>
    cases hsecond with
    | cons hother hrest => exact .cons ⟨hhead, hother⟩ (ih hrest)

theorem forall₂_trans {third : R → R → Prop} {zs : List R} (hfirst : List.Forall₂ first xs ys)
    (hsecond : List.Forall₂ second ys zs) (hcompose : ∀ x y z, first x y → second y z → third x z) :
    List.Forall₂ third xs zs := by
  induction hfirst generalizing zs with
  | nil =>
    cases hsecond
    exact .nil
  | cons hhead _ ih =>
    cases hsecond with
    | cons hnext hrest => exact .cons (hcompose _ _ _ hhead hnext) (ih hrest)

section Statements

variable [DecidableEq I] [DecidableEq P]

def atPath (table : Table id path) (key : P) : Option R :=
  table.rows.find? fun row => path row = key

def byId (table : Table id path) (key : I) : Option R :=
  table.rows.find? fun row => id row = key

def ofRows (rows : List R) : Except Violation (Table id path) :=
  if hid : (rows.map id).Nodup then
    if hpath : (rows.map path).Nodup then .ok ⟨rows, hid, hpath⟩ else .error .uniquePath
  else .error .primaryKey

def insert (table : Table id path) (row : R) : Except Violation (Table id path) :=
  ofRows (table.rows ++ [row])

def update (table : Table id path) (select : R → Bool) (change : R → R) :
    Except Violation (Table id path) :=
  ofRows (table.rows.map fun row => if select row then change row else row)

def delete (table : Table id path) (select : R → Bool) : Table id path where
  rows := table.rows.filter fun row => !select row
  nodup_id := table.nodup_id.sublist (List.filter_sublist.map id)
  nodup_path := table.nodup_path.sublist (List.filter_sublist.map path)

def select (table : Table id path) (condition : R → Bool) : List R :=
  table.rows.filter condition

def selectOne (table : Table id path) (condition : R → Bool) : Option R :=
  table.rows.find? condition

end Statements

section Lookup

variable [DecidableEq P]

theorem atPath_eq_some {table : Table id path} {key : P} {row : R} :
    table.atPath key = some row ↔ row ∈ table.rows ∧ path row = key := by
  constructor
  · intro h
    exact ⟨List.mem_of_find?_eq_some h, by simpa using List.find?_some h⟩
  · rintro ⟨hrow, rfl⟩
    have hfound : (table.atPath (path row)).isSome :=
      List.find?_isSome.mpr ⟨row, hrow, by simp⟩
    obtain ⟨found, hfound⟩ := Option.isSome_iff_exists.mp hfound
    have hpath : path found = path row := by simpa using List.find?_some hfound
    rw [hfound, table.eq_of_path_eq (List.mem_of_find?_eq_some hfound) hrow hpath]

theorem atPath_eq_none {table : Table id path} {key : P} :
    table.atPath key = none ↔ ∀ row ∈ table.rows, path row ≠ key := by
  simp [atPath]

theorem mem_rows_iff {table : Table id path} {row : R} :
    row ∈ table.rows ↔ table.atPath (path row) = some row := by
  simp [atPath_eq_some]

theorem path_of_atPath {table : Table id path} {key : P} {row : R}
    (h : table.atPath key = some row) : path row = key := (atPath_eq_some.mp h).2

theorem selectOne_path (table : Table id path) (key : P) (condition : R → Bool) :
    table.selectOne (fun row => decide (path row = key) && condition row)
      = (table.atPath key).filter condition := by
  apply Option.ext
  intro row
  constructor
  · intro h
    have hcond := List.find?_some h
    rw [Bool.and_eq_true, decide_eq_true_eq] at hcond
    rw [Option.filter_eq_some_iff, atPath_eq_some]
    exact ⟨⟨List.mem_of_find?_eq_some h, hcond.1⟩, hcond.2⟩
  · intro h
    rw [Option.filter_eq_some_iff, atPath_eq_some] at h
    obtain ⟨⟨hrow, rfl⟩, hcond⟩ := h
    have hfound : (table.selectOne fun other =>
        decide (path other = path row) && condition other).isSome :=
      List.find?_isSome.mpr ⟨row, hrow, by simp [hcond]⟩
    obtain ⟨found, hfound⟩ := Option.isSome_iff_exists.mp hfound
    have hpath := List.find?_some hfound
    rw [Bool.and_eq_true, decide_eq_true_eq] at hpath
    rw [hfound, table.eq_of_path_eq (List.mem_of_find?_eq_some hfound) hrow hpath.1]

end Lookup

section Statements

variable [DecidableEq I] [DecidableEq P]

variable {rows : List R}

theorem rows_of_ofRows {table : Table id path} (h : ofRows rows = .ok table) :
    table.rows = rows := by
  unfold ofRows at h
  split_ifs at h
  cases h
  rfl

theorem ofRows_eq_ok (hid : (rows.map id).Nodup) (hpath : (rows.map path).Nodup) :
    ofRows rows = .ok (⟨rows, hid, hpath⟩ : Table id path) := by
  rw [ofRows, dif_pos hid, dif_pos hpath]

theorem insert_ok {table after : Table id path} {row : R} (h : table.insert row = .ok after)
    (key : P) : after.atPath key = if key = path row then some row else table.atPath key := by
  have hrows : after.rows = table.rows ++ [row] := rows_of_ofRows h
  apply Option.ext
  intro found
  rw [atPath_eq_some, hrows, List.mem_append, List.mem_singleton]
  split_ifs with hkey
  · subst hkey
    rw [Option.some.injEq]
    constructor
    · rintro ⟨hfound, hpath⟩
      exact (after.eq_of_path_eq (by simp [hrows]) (by simpa [hrows] using hfound) hpath.symm)
    · rintro rfl
      exact ⟨.inr rfl, rfl⟩
  · rw [atPath_eq_some]
    constructor
    · rintro ⟨hfound | rfl, hpath⟩
      · exact ⟨hfound, hpath⟩
      · exact absurd hpath.symm hkey
    · rintro ⟨hfound, hpath⟩
      exact ⟨.inl hfound, hpath⟩

theorem insert_eq_ok {table : Table id path} {row : R} (hid : ∀ other ∈ table.rows, id other ≠ id row)
    (hpath : table.atPath (path row) = none) : ∃ after, table.insert row = .ok after := by
  refine ⟨_, ofRows_eq_ok ?_ ?_⟩
  · rw [List.map_append, List.map_singleton]
    refine table.nodup_id.append (List.nodup_singleton _) ?_
    simpa [List.disjoint_singleton] using hid
  · rw [List.map_append, List.map_singleton]
    refine table.nodup_path.append (List.nodup_singleton _) ?_
    simpa [List.disjoint_singleton] using atPath_eq_none.mp hpath

variable {select : R → Bool} {change : R → R}

theorem update_none {table : Table id path} (hselect : ∀ row ∈ table.rows, select row = false) :
    table.update select change = .ok table := by
  have hrows : (table.rows.map fun row => if select row then change row else row) = table.rows := by
    conv_rhs => rw [← List.map_id table.rows]
    apply List.map_congr_left
    intro row hrow
    simp [hselect row hrow]
  rw [update, hrows, ofRows_eq_ok table.nodup_id table.nodup_path]

section

variable {table after : Table id path} {row : R} (hrow : row ∈ table.rows)
  (hselect : ∀ other ∈ table.rows, select other = true ↔ other = row)
  (h : table.update select change = .ok after)
include hrow hselect h

theorem update_mem (found : R) :
    found ∈ after.rows ↔ found = change row ∨ found ∈ table.rows ∧ found ≠ row := by
  rw [rows_of_ofRows h, List.mem_map]
  constructor
  · rintro ⟨other, hother, rfl⟩
    by_cases heq : other = row
    · subst heq
      simp [(hselect other hother).mpr rfl]
    · simp [Bool.eq_false_iff.mpr fun ht => heq ((hselect other hother).mp ht), hother, heq]
  · rintro (rfl | ⟨hfound, hne⟩)
    · exact ⟨row, hrow, by simp [(hselect row hrow).mpr rfl]⟩
    · exact ⟨found, hfound, by
        simp [Bool.eq_false_iff.mpr fun ht => hne ((hselect found hfound).mp ht)]⟩

theorem update_ok (key : P) :
    after.atPath key =
      if key = path (change row) then some (change row)
      else if key = path row then none else table.atPath key := by
  have hmem := update_mem hrow hselect h
  apply Option.ext
  intro found
  rw [atPath_eq_some, hmem]
  split_ifs with hnew hold
  · subst hnew
    rw [Option.some.injEq]
    constructor
    · rintro ⟨hfound, hpath⟩
      exact (after.eq_of_path_eq ((hmem found).mpr hfound) ((hmem _).mpr (.inl rfl)) hpath).symm
    · rintro rfl
      exact ⟨.inl rfl, rfl⟩
  · subst hold
    simp only [iff_false]
    rintro ⟨rfl | ⟨hfound, hne⟩, hpath⟩
    · exact hnew hpath.symm
    · exact hne (table.eq_of_path_eq hfound hrow hpath)
  · rw [atPath_eq_some]
    constructor
    · rintro ⟨rfl | ⟨hfound, -⟩, hpath⟩
      · exact absurd hpath.symm hnew
      · exact ⟨hfound, hpath⟩
    · rintro ⟨hfound, hpath⟩
      refine ⟨.inr ⟨hfound, ?_⟩, hpath⟩
      rintro rfl
      exact hold hpath.symm

end

theorem update_eq_ok {table : Table id path} {row : R}
    (hselect : ∀ other ∈ table.rows, select other = true ↔ other = row)
    (hid : ∀ other ∈ table.rows, other ≠ row → id other ≠ id (change row))
    (hpath : ∀ other ∈ table.rows, other ≠ row → path other ≠ path (change row)) :
    ∃ after, table.update select change = .ok after := by
  have hnodup : ∀ {K : Type} (key : R → K), (table.rows.map key).Nodup →
      (∀ other ∈ table.rows, other ≠ row → key other ≠ key (change row)) →
      ((table.rows.map fun other => if select other then change other else other).map key).Nodup := by
    intro K key hkey hfree
    rw [List.map_map, List.nodup_map_iff_inj_on table.nodup_rows]
    intro first hfirst second hsecond heq
    simp only [Function.comp_apply] at heq
    by_cases hone : first = row <;> by_cases htwo : second = row
    · rw [hone, htwo]
    · subst hone
      rw [if_pos ((hselect first hfirst).mpr rfl),
        if_neg fun ht => htwo ((hselect second hsecond).mp ht)] at heq
      exact absurd heq.symm (hfree second hsecond htwo)
    · subst htwo
      rw [if_pos ((hselect second hsecond).mpr rfl),
        if_neg fun ht => hone ((hselect first hfirst).mp ht)] at heq
      exact absurd heq (hfree first hfirst hone)
    · rw [if_neg fun ht => hone ((hselect first hfirst).mp ht),
        if_neg fun ht => htwo ((hselect second hsecond).mp ht)] at heq
      exact List.inj_on_of_nodup_map hkey hfirst hsecond heq
  exact ⟨_, ofRows_eq_ok (hnodup id table.nodup_id hid) (hnodup path table.nodup_path hpath)⟩

/-- Updates one after another: every row goes through all of them. -/
theorem foldlM_update {C : Type} {select : C → R → Bool} {change : C → R → R} {changes : List C}
    {table after : Table id path}
    (h : changes.foldlM (fun table c => table.update (select c) (change c)) table = .ok after) :
    after.rows = table.rows.map fun row =>
      changes.foldl (fun row c => if select c row then change c row else row) row := by
  induction changes generalizing table with
  | nil =>
    cases h
    exact (List.map_id _).symm
  | cons c rest ih =>
    rw [List.foldlM_cons] at h
    cases hfirst : table.update (select c) (change c) with
    | error violation =>
      rw [hfirst] at h
      cases h
    | ok middle =>
      rw [hfirst] at h
      rw [ih h, rows_of_ofRows hfirst, List.map_map]
      rfl

theorem update_marks (hid : ∀ row, id (change row) = id row)
    (hpath : ∀ row, path (change row) = path row) (table : Table id path) (select : R → Bool) :
    ∃ after, table.update select change = .ok after ∧
      after.rows = table.rows.map fun row => if select row then change row else row := by
  have hkeys : ∀ {K : Type} (key : R → K), (∀ row, key (change row) = key row) →
      (table.rows.map fun row => if select row then change row else row).map key
        = table.rows.map key := by
    intro K key hkey
    rw [List.map_map]
    refine List.map_congr_left fun row _ => ?_
    rw [Function.comp_apply]
    split_ifs
    · exact hkey row
    · rfl
  refine ⟨_, ofRows_eq_ok ?_ ?_, rfl⟩
  · rw [hkeys id hid]
    exact table.nodup_id
  · rw [hkeys path hpath]
    exact table.nodup_path

/-- Rows that are marked one after another are marked at once. -/
theorem foldlM_update_marks (hid : ∀ row, id (change row) = id row)
    (hpath : ∀ row, path (change row) = path row)
    (htwice : ∀ row, change (change row) = change row) (keys : List I) (table : Table id path) :
    keys.foldlM (fun table key => table.update (fun row => id row = key) change) table
      = table.update (fun row => id row ∈ keys) change := by
  induction keys generalizing table with
  | nil => exact (update_none fun row _ => by simp).symm
  | cons key rest ih =>
    obtain ⟨middle, hmiddle, hrows⟩ := update_marks hid hpath table fun row => id row = key
    rw [List.foldlM_cons, hmiddle]
    refine (ih middle).trans ?_
    rw [update, update, hrows, List.map_map]
    refine congrArg ofRows (List.map_congr_left fun row _ => ?_)
    by_cases hkey : id row = key
    · by_cases hmem : id row ∈ rest <;> simp_all
    · simp [hkey]

section Marked

variable {N : Type} {mark : N → R → R} {ids : List I} {table : Table id path} {row kept last : R}

/-- The row is as it was, or it was selected and is marked. -/
def Kept (mark : N → R → R) (select : R → Bool) (row kept : R) : Prop :=
  kept = row ∨ select row = true ∧ ∃ n, kept = mark n row

/-- The row is marked if it is one of these, and unchanged otherwise. -/
def Marked (mark : N → R → R) (selected : R → Prop) (row after : R) : Prop :=
  (selected row → ∃ n, after = mark n row) ∧ (¬ selected row → after = row)

section

variable {selected others : R → Prop} (h : Marked mark selected row kept)
include h

theorem Marked.congr (hsame : selected row ↔ others row) : Marked mark others row kept :=
  ⟨fun hother => h.1 (hsame.mpr hother), fun hnot => h.2 (mt hsame.mp hnot)⟩

theorem Marked.of_both (hother : Marked mark others row kept) (hmark : ∀ n, mark n row ≠ row)
    (hselected : selected row) : others row := by
  by_contra hnot
  obtain ⟨n, hmarked⟩ := h.1 hselected
  exact hmark n (hmarked.symm.trans (hother.2 hnot))

end

theorem Kept.trans (hmark : ∀ n row, select (mark n row) = false) (h : Kept mark select row kept)
    (hthen : Kept mark select kept last) : Kept mark select row last := by
  rcases h with rfl | ⟨hselect, n, rfl⟩
  · exact hthen
  · rcases hthen with rfl | ⟨hdead, -⟩
    · exact .inr ⟨hselect, n, rfl⟩
    · rw [hmark] at hdead
      cases hdead

theorem eq_of_kept (h : List.Forall₂ (Kept mark select) xs ys)
    (hnone : ∀ row ∈ xs, ¬ select row = true) : ys = xs := by
  have hsame : List.Forall₂ (fun row kept => row = kept) xs ys := by
    refine ((List.forall₂_and_left _ _).mpr ⟨hnone, h⟩).imp ?_
    rintro row kept ⟨hother, rfl | ⟨hselect, -⟩⟩
    · rfl
    · exact absurd hselect hother
  rw [List.forall₂_eq_eq_eq] at hsame
  exact hsame.symm

/-- When nothing is left to select, everything selected has been marked. -/
theorem marked_of_kept (h : List.Forall₂ (Kept mark select) xs ys)
    (hnone : ∀ row ∈ ys, ¬ select row = true) :
    List.Forall₂ (Marked mark fun row => select row = true) xs ys := by
  refine (forall₂_mem h).imp ?_
  rintro row kept ⟨-, hkept, rfl | ⟨hselect, hmarked⟩⟩
  · exact ⟨fun hselect => absurd hselect (hnone kept hkept), fun _ => rfl⟩
  · exact ⟨fun _ => hmarked, fun hnot => absurd hselect hnot⟩

/-- Rows of a selection are marked by their ids, which takes them out of it. -/
theorem update_batch (hmark : ∀ n row, select (mark n row) = false)
    (hid : ∀ n row, id (mark n row) = id row) (hpath : ∀ n row, path (mark n row) = path row) (n : N)
    (hids : ∀ key ∈ ids, ∃ row ∈ table.rows, select row = true ∧ id row = key) :
    ∃ after, table.update (fun row => id row ∈ ids) (mark n) = .ok after ∧
      List.Forall₂ (Kept mark select) table.rows after.rows ∧
      (ids ≠ [] → (after.rows.filter select).length < (table.rows.filter select).length) := by
  obtain ⟨after, hafter, hrows⟩ := update_marks (hid n) (hpath n) table fun row => id row ∈ ids
  refine ⟨after, hafter, ?_, fun hne => ?_⟩
  · rw [hrows, List.forall₂_map_right_iff, List.forall₂_same]
    intro row hrow
    split_ifs with hmem
    · obtain ⟨other, hother, hselect, hkey⟩ := hids (id row) (by simpa using hmem)
      obtain rfl := table.eq_of_id_eq hother hrow hkey
      exact .inr ⟨hselect, n, rfl⟩
    · exact .inl rfl
  · have hfilter : ∀ rows : List R, ((rows.map fun row =>
        if decide (id row ∈ ids) = true then mark n row else row).filter select)
          = (rows.filter select).filter fun row => !decide (id row ∈ ids) := by
      intro rows
      induction rows with
      | nil => rfl
      | cons row rest ih =>
        rw [List.map_cons, List.filter_cons, List.filter_cons, ih]
        by_cases hmem : id row ∈ ids
        · by_cases hselect : select row = true <;> simp [hmem, hmark, hselect]
        · by_cases hselect : select row = true <;> simp [hmem, hselect]
    obtain ⟨key, hkey⟩ := List.exists_mem_of_ne_nil ids hne
    obtain ⟨row, hrow, hselect, rfl⟩ := hids key hkey
    rw [hrows, hfilter, List.length_filter_lt_length_iff_exists]
    exact ⟨row, List.mem_filter.mpr ⟨hrow, hselect⟩, by simpa using hkey⟩

end Marked

section Keyed

variable {C : Type} {key : C → I} {set : R → C → R} {changes : List C} {row : R}

theorem foldl_keyed_of_ne (h : ∀ c ∈ changes, id row ≠ key c) :
    changes.foldl (fun row c => if decide (id row = key c) = true then set row c else row) row
      = row := by
  induction changes with
  | nil => rfl
  | cons first rest ih =>
    have hfirst := h first (List.mem_cons_self ..)
    rw [List.foldl_cons, if_neg (by simpa using hfirst)]
    exact ih fun other hother => h other (List.mem_cons_of_mem _ hother)

/-- Of changes for different rows each row goes through the one that is for it. -/
theorem foldl_keyed {c : C} (hset : ∀ row c, id (set row c) = id row)
    (hnodup : (changes.map key).Nodup) (hmem : c ∈ changes) (hkey : id row = key c) :
    changes.foldl (fun row c => if decide (id row = key c) = true then set row c else row) row
      = set row c := by
  induction changes with
  | nil => cases hmem
  | cons first rest ih =>
    rw [List.map_cons, List.nodup_cons] at hnodup
    rw [List.foldl_cons]
    rcases List.mem_cons.mp hmem with rfl | hrest
    · rw [if_pos (by simpa using hkey)]
      refine foldl_keyed_of_ne fun other hother heq => hnodup.1 ?_
      have hsame : key other = key c := by rw [← heq, hset, hkey]
      exact hsame ▸ List.mem_map_of_mem hother
    · have hne : id row ≠ key first := fun heq =>
        hnodup.1 (heq ▸ hkey ▸ List.mem_map_of_mem hrest)
      rw [if_neg (by simpa using hne)]
      exact ih hnodup.2 hrest

/-- Changes for different rows, one statement after another: each row goes through the one that is
for it, or through none. -/
theorem foldlM_keyed {table after : Table id path} (hset : ∀ row c, id (set row c) = id row)
    (hnodup : (changes.map key).Nodup)
    (h : changes.foldlM (fun table c => update table (fun row => id row = key c)
      fun row => set row c) table = .ok after) :
    List.Forall₂ (fun row changed => row ∈ table.rows ∧
      ((∃ c ∈ changes, id row = key c ∧ changed = set row c) ∨
        (∀ c ∈ changes, id row ≠ key c) ∧ changed = row)) table.rows after.rows := by
  rw [foldlM_update h, List.forall₂_map_right_iff, List.forall₂_same]
  intro row hrow
  refine ⟨hrow, ?_⟩
  by_cases hchanged : ∃ c ∈ changes, id row = key c
  · obtain ⟨c, hmem, hkey⟩ := hchanged
    exact .inl ⟨c, hmem, hkey, foldl_keyed hset hnodup hmem hkey⟩
  · have hne : ∀ c ∈ changes, id row ≠ key c := fun c hmem hkey => hchanged ⟨c, hmem, hkey⟩
    exact .inr ⟨hne, foldl_keyed_of_ne hne⟩

end Keyed

theorem update_conflict {table : Table id path} {row : R} (hrow : row ∈ table.rows)
    (hselect : ∀ other ∈ table.rows, select other = true ↔ other = row)
    (hother : other ∈ table.rows) (hne : other ≠ row) (hpath : path other = path (change row)) :
    ∃ violation, table.update select change = .error violation := by
  cases h : table.update select change with
  | error violation => exact ⟨violation, rfl⟩
  | ok after =>
    exfalso
    have hmem := update_mem hrow hselect h
    have hsame := after.eq_of_path_eq ((hmem other).mpr (.inr ⟨hother, hne⟩))
      ((hmem (change row)).mpr (.inl rfl)) hpath
    have hnodup := after.nodup_path
    rw [rows_of_ofRows h, List.map_map, List.nodup_map_iff_inj_on table.nodup_rows] at hnodup
    refine hne (hnodup other hother row hrow ?_)
    simp only [Function.comp_apply]
    rw [if_pos ((hselect row hrow).mpr rfl),
      if_neg fun ht => hne ((hselect other hother).mp ht), hpath]

end Statements

end Table

end FsServer.Lib
