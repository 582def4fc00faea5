import FsServer.Lib.Table

/-!
# A table that keeps its dead rows

One table keeps rows that are no longer live, another has the live rows only. The rows are compared
up to their order. A statement on live rows does the same to both, unless a dead row holds the path
that a live one is to get. Marking a row dead is deleting it, and taking over a dead row is inserting
a new one.
-/

namespace FsServer.Lib.Table

variable {R I P : Type} {id : R → I} {path : R → P} {live : R → Bool}

/-- The rows of `lean` are the live rows of `full`. -/
def Shadows (live : R → Bool) (full lean : Table id path) : Prop :=
  lean.rows.Perm (full.rows.filter live)

variable {full lean : Table id path}

variable {row : R}

theorem Shadows.mem (h : Shadows live full lean) :
    row ∈ lean.rows ↔ row ∈ full.rows ∧ live row = true := by
  rw [h.mem_iff, List.mem_filter]

/-! ### Queries -/

theorem Shadows.select (h : Shadows live full lean) (condition : R → Bool) :
    (lean.select fun row => condition row && live row).Perm
      (full.select fun row => condition row && live row) := by
  unfold Table.select
  have hfilter := h.filter fun row => condition row && live row
  rw [List.filter_filter] at hfilter
  have hsame : (full.rows.filter fun row => (condition row && live row) && live row) =
      full.rows.filter fun row => condition row && live row := by
    apply List.filter_congr
    intro row _
    cases live row <;> simp
  rw [hsame] at hfilter
  exact hfilter

section Lookup

variable [DecidableEq P]

theorem Shadows.atPath (h : Shadows live full lean) (key : P) :
    (lean.atPath key).filter live = (full.atPath key).filter live := by
  apply Option.ext
  intro row
  rw [Option.filter_eq_some_iff, Option.filter_eq_some_iff, atPath_eq_some, atPath_eq_some, h.mem]
  constructor
  · rintro ⟨⟨⟨hrow, -⟩, hpath⟩, hlive⟩
    exact ⟨⟨hrow, hpath⟩, hlive⟩
  · rintro ⟨⟨hrow, hpath⟩, hlive⟩
    exact ⟨⟨⟨hrow, hlive⟩, hpath⟩, hlive⟩

theorem Shadows.no_dead (h : Shadows live full lean) {key : P} (hrow : lean.atPath key = some row) :
    live row = true :=
  (h.mem.mp (atPath_eq_some.mp hrow).1).2

end Lookup

/-! ### Updates of live rows -/

variable {select : R → Bool} {change : R → R}

/-- The selected rows are live, stay live and keep their ids. -/
structure Tame (live select : R → Bool) (change : R → R) (full : Table id path) : Prop where
  live : ∀ row ∈ full.rows, select row = true → live row = true ∧ live (change row) = true
  id : ∀ row ∈ full.rows, select row = true → id (change row) = id row

/-- No dead row holds a path that the update gives to a live one. -/
def Clear (live select : R → Bool) (change : R → R) (full : Table id path) : Prop :=
  ∀ row ∈ full.rows, select row = true → ∀ dead ∈ full.rows, live dead = false →
    path (change row) ≠ path dead

theorem Tame.live_update (h : Tame live select change full) (hrow : row ∈ full.rows) :
    live (if select row then change row else row) = live row := by
  by_cases hselect : select row = true
  · rw [if_pos hselect, (h.live row hrow hselect).1, (h.live row hrow hselect).2]
  · rw [if_neg hselect]

theorem Tame.id_update (h : Tame live select change full) (hrow : row ∈ full.rows) :
    id (if select row then change row else row) = id row := by
  by_cases hselect : select row = true
  · rw [if_pos hselect, h.id row hrow hselect]
  · rw [if_neg hselect]

variable {dead : R}

theorem Tame.update_dead (h : Tame live select change full) (hdead : dead ∈ full.rows)
    (hlive : live dead = false) : (if select dead then change dead else dead) = dead := by
  rw [if_neg]
  intro hselect
  rw [(h.live dead hdead hselect).1] at hlive
  exact Bool.noConfusion hlive

theorem Clear.eq_dead (hclear : Clear live select change full) (hrow : row ∈ full.rows)
    (hdead : dead ∈ full.rows) (hlive : live dead = false)
    (hpath : path (if select row then change row else row) = path dead) : row = dead := by
  by_cases hselect : select row = true
  · rw [if_pos hselect] at hpath
    exact absurd hpath (hclear row hrow hselect dead hdead hlive)
  · rw [if_neg hselect] at hpath
    exact full.eq_of_path_eq hrow hdead hpath

theorem Tame.nodup_id (h : Tame live select change full) :
    ((full.rows.map fun row => if select row then change row else row).map id).Nodup := by
  have hsame : (full.rows.map fun row => if select row then change row else row).map id =
      full.rows.map id := by
    rw [List.map_map]
    exact List.map_congr_left fun row hrow => h.id_update hrow
  rw [hsame]
  exact full.nodup_id

theorem Tame.filter_update (h : Tame live select change full) :
    (full.rows.map fun row => if select row then change row else row).filter live =
      (full.rows.filter live).map fun row => if select row then change row else row := by
  rw [List.filter_map]
  congr 1
  exact List.filter_congr fun row hrow => h.live_update hrow

theorem Tame.nodup_path (h : Tame live select change full) (hclear : Clear live select change full)
    (hlive : (((full.rows.map fun row => if select row then change row else row).filter live).map
      path).Nodup) :
    ((full.rows.map fun row => if select row then change row else row).map path).Nodup := by
  rw [h.filter_update, List.map_map, List.nodup_map_iff_inj_on (full.nodup_rows.filter _)] at hlive
  rw [List.map_map, List.nodup_map_iff_inj_on full.nodup_rows]
  intro row hrow other hother heq
  simp only [Function.comp_apply] at heq
  cases hrowLive : live row with
  | false =>
    rw [h.update_dead hrow hrowLive] at heq
    exact (hclear.eq_dead hother hrow hrowLive heq.symm).symm
  | true =>
    cases hotherLive : live other with
    | false =>
      rw [h.update_dead hother hotherLive] at heq
      exact hclear.eq_dead hrow hother hotherLive heq
    | true =>
      exact hlive row (List.mem_filter.mpr ⟨hrow, hrowLive⟩) other
        (List.mem_filter.mpr ⟨hother, hotherLive⟩) heq

section Statements

variable [DecidableEq I] [DecidableEq P]

/-- Both fail for the same reason, or both succeed and the rows go on corresponding. -/
def SameResult (live : R → Bool) (result result' : Except Violation (Table id path)) : Prop :=
  (∃ violation, result = .error violation ∧ result' = .error violation) ∨
    ∃ full lean, result = .ok full ∧ result' = .ok lean ∧ Shadows live full lean

theorem Shadows.update (h : Shadows live full lean) (htame : Tame live select change full)
    (hclear : Clear live select change full) :
    SameResult live (full.update select change) (lean.update select change) := by
  have hperm : (lean.rows.map fun row => if select row then change row else row).Perm
      ((full.rows.map fun row => if select row then change row else row).filter live) := by
    rw [htame.filter_update]
    exact h.map _
  have hid := htame.nodup_id
  have hid' : ((lean.rows.map fun row => if select row then change row else row).map id).Nodup := by
    rw [(hperm.map id).nodup_iff]
    exact hid.sublist (List.filter_sublist.map id)
  unfold Table.update ofRows
  rw [dif_pos hid, dif_pos hid']
  by_cases hpath :
      ((full.rows.map fun row => if select row then change row else row).map path).Nodup
  · have hpath' :
        ((lean.rows.map fun row => if select row then change row else row).map path).Nodup := by
      rw [(hperm.map path).nodup_iff]
      exact hpath.sublist (List.filter_sublist.map path)
    rw [dif_pos hpath, dif_pos hpath']
    exact Or.inr ⟨_, _, rfl, rfl, hperm⟩
  · have hpath' :
        ¬ ((lean.rows.map fun row => if select row then change row else row).map path).Nodup := by
      rw [(hperm.map path).nodup_iff]
      exact fun hnodup => hpath (htame.nodup_path hclear hnodup)
    rw [dif_neg hpath, dif_neg hpath']
    exact Or.inl ⟨_, rfl, rfl⟩

theorem Shadows.foldlM_update {C : Type} (h : Shadows live full lean) (key : C → I)
    (target : C → P) (change : C → R → R) (changes : List C)
    (hid : ∀ c row, id (change c row) = id row) (hlive : ∀ c row, live (change c row) = live row)
    (hpath : ∀ c row, path (change c row) = target c)
    (hselected : ∀ c ∈ changes, ∀ row ∈ full.rows, id row = key c → live row = true)
    (hclear : ∀ c ∈ changes, ∀ dead ∈ full.rows, live dead = false → target c ≠ path dead) :
    SameResult live
      (changes.foldlM (fun table c => table.update (fun row => id row = key c) (change c)) full)
      (changes.foldlM (fun table c => table.update (fun row => id row = key c) (change c)) lean) := by
  induction changes generalizing full lean with
  | nil => exact Or.inr ⟨full, lean, rfl, rfl, h⟩
  | cons c rest ih =>
    have htame : Tame live (fun row => decide (id row = key c)) (change c) full := by
      refine ⟨fun row hrow hselect => ?_, fun row _ _ => hid c row⟩
      have hrowLive := hselected c List.mem_cons_self row hrow (of_decide_eq_true hselect)
      exact ⟨hrowLive, (hlive c row).trans hrowLive⟩
    have hfree : Clear live (fun row => decide (id row = key c)) (change c) full := by
      intro row _ _ dead hdead hdeadLive
      rw [hpath]
      exact hclear c List.mem_cons_self dead hdead hdeadLive
    rw [List.foldlM_cons, List.foldlM_cons]
    rcases h.update htame hfree with ⟨violation, hfull, hlean⟩ | ⟨full', lean', hfull, hlean, h'⟩
    · rw [hfull, hlean]
      exact Or.inl ⟨violation, rfl, rfl⟩
    · rw [hfull, hlean]
      have hrows := rows_of_ofRows hfull
      refine ih h' (fun c' hc' row' hrow' hkey => ?_) fun c' hc' dead hdead hdeadLive => ?_
      · rw [hrows, List.mem_map] at hrow'
        obtain ⟨row, hrow, rfl⟩ := hrow'
        rw [htame.id_update hrow] at hkey
        rw [htame.live_update hrow]
        exact hselected c' (List.mem_cons_of_mem c hc') row hrow hkey
      · -- a dead row has been dead before
        rw [hrows, List.mem_map] at hdead
        obtain ⟨row, hrow, rfl⟩ := hdead
        rw [htame.live_update hrow] at hdeadLive
        rw [htame.update_dead hrow hdeadLive]
        exact hclear c' (List.mem_cons_of_mem c hc') row hrow hdeadLive

/-! ### Rows that die and rows that come to life -/

theorem Shadows.kill (h : Shadows live full lean) (select : R → Bool) (change : R → R)
    (hdead : ∀ row, live (change row) = false)
    (hid : ∀ row, id (change row) = id row) (hpath : ∀ row, path (change row) = path row) :
    ∃ after, full.update select change = .ok after ∧ Shadows live after (lean.delete select) := by
  have hkeep : ∀ {K : Type} (key : R → K), (∀ row, key (change row) = key row) →
      (full.rows.map fun row => if select row then change row else row).map key =
        full.rows.map key := by
    intro K key hkey
    rw [List.map_map]
    apply List.map_congr_left
    intro row _
    by_cases hselect : select row = true
    · simp only [Function.comp_apply, if_pos hselect, hkey]
    · simp only [Function.comp_apply, if_neg hselect]
  refine ⟨_, ofRows_eq_ok ((hkeep id hid).symm ▸ full.nodup_id)
    ((hkeep path hpath).symm ▸ full.nodup_path), ?_⟩
  have hrows : (full.rows.map fun row => if select row then change row else row).filter live =
      (full.rows.filter live).filter fun row => !select row := by
    rw [List.filter_filter]
    induction full.rows with
    | nil => rfl
    | cons row rest ih =>
      rw [List.map_cons, List.filter_cons, List.filter_cons, ih]
      by_cases hselect : select row = true
      · simp [hselect, hdead]
      · simp [hselect]
  change (lean.rows.filter fun row => !select row).Perm _
  rw [hrows]
  exact h.filter _

theorem Shadows.insert (h : Shadows live full lean) (hlive : live row = true)
    (hfresh : ∀ other ∈ full.rows, id other ≠ id row)
    (hclear : ∀ other, full.atPath (path row) = some other → live other = true) :
    SameResult live (full.insert row) (lean.insert row) := by
  have hfresh' : ∀ other ∈ lean.rows, id other ≠ id row := fun other hother =>
    hfresh other (h.mem.mp hother).1
  have hid : ∀ table : Table id path, (∀ other ∈ table.rows, id other ≠ id row) →
      ((table.rows ++ [row]).map id).Nodup := by
    intro table htable
    rw [List.map_append, List.map_singleton]
    refine table.nodup_id.append (List.nodup_singleton _) ?_
    simpa [List.disjoint_singleton] using htable
  have hperm : (lean.rows ++ [row]).Perm ((full.rows ++ [row]).filter live) := by
    rw [List.filter_append, List.filter_singleton, hlive]
    exact h.append_right _
  unfold Table.insert ofRows
  rw [dif_pos (hid full hfresh), dif_pos (hid lean hfresh')]
  cases hfound : full.atPath (path row) with
  | none =>
    obtain ⟨after, hafter⟩ := insert_eq_ok hfresh hfound
    have hpath : ((full.rows ++ [row]).map path).Nodup := rows_of_ofRows hafter ▸ after.nodup_path
    have hpath' : ((lean.rows ++ [row]).map path).Nodup := by
      rw [(hperm.map path).nodup_iff]
      exact hpath.sublist (List.filter_sublist.map path)
    rw [dif_pos hpath, dif_pos hpath']
    exact Or.inr ⟨_, _, rfl, rfl, hperm⟩
  | some other =>
    obtain ⟨hother, hsame⟩ := atPath_eq_some.mp hfound
    have htaken : ∀ rows : List R, other ∈ rows → ¬ ((rows ++ [row]).map path).Nodup := by
      intro rows hmem hnodup
      rw [List.map_append, List.map_singleton, List.nodup_append] at hnodup
      exact hnodup.2.2 _ (List.mem_map_of_mem hmem) _ (List.mem_singleton_self _) hsame
    rw [dif_neg (htaken _ hother), dif_neg (htaken _ (h.mem.mpr ⟨hother, hclear other hfound⟩))]
    exact Or.inl ⟨_, rfl, rfl⟩

theorem Shadows.revive (h : Shadows live full lean) (row : R) (change : R → R)
    (hlive : live row = true) (hfound : full.atPath (path row) = some dead)
    (hdead : live dead = false) (hfresh : ∀ other ∈ full.rows, id other ≠ id row)
    (hchange : change dead = row) :
    ∃ full' lean', full.update (fun other => path other = path row) change = .ok full' ∧
      lean.insert row = .ok lean' ∧ Shadows live full' lean' := by
  obtain ⟨hmem, hsame⟩ := atPath_eq_some.mp hfound
  have hselect : ∀ other ∈ full.rows, decide (path other = path row) = true ↔ other = dead := by
    intro other hother
    rw [decide_eq_true_eq, ← hsame]
    exact ⟨fun heq => full.eq_of_path_eq hother hmem heq, fun heq => heq ▸ rfl⟩
  obtain ⟨full', hfull'⟩ : ∃ full',
      full.update (fun other => path other = path row) change = .ok full' := by
    refine update_eq_ok hselect (fun other hother _ => ?_) fun other hother hne heq => ?_
    · rw [hchange]
      exact hfresh other hother
    · rw [hchange, ← hsame] at heq
      exact hne (full.eq_of_path_eq hother hmem heq)
  have hnone : lean.atPath (path row) = none := by
    rw [atPath_eq_none]
    intro other hother heq
    obtain ⟨hother, hotherLive⟩ := h.mem.mp hother
    rw [full.eq_of_path_eq hother hmem (heq.trans hsame.symm), hdead] at hotherLive
    exact Bool.noConfusion hotherLive
  obtain ⟨lean', hlean'⟩ := insert_eq_ok (fun other hother => hfresh other (h.mem.mp hother).1) hnone
  refine ⟨full', lean', hfull', hlean', ?_⟩
  refine (List.perm_ext_iff_of_nodup lean'.nodup_rows (full'.nodup_rows.filter _)).mpr fun other => ?_
  rw [rows_of_ofRows hlean', List.mem_append, List.mem_singleton, List.mem_filter,
    update_mem hmem hselect hfull', h.mem, hchange]
  constructor
  · rintro (⟨hother, hotherLive⟩ | rfl)
    · refine ⟨Or.inr ⟨hother, ?_⟩, hotherLive⟩
      rintro rfl
      rw [hdead] at hotherLive
      exact Bool.noConfusion hotherLive
    · exact ⟨Or.inl rfl, hlive⟩
  · rintro ⟨rfl | ⟨hother, -⟩, hotherLive⟩
    · exact Or.inr rfl
    · exact Or.inl ⟨hother, hotherLive⟩

end Statements

end FsServer.Lib.Table
