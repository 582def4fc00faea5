import FsServer.Session
import Mathlib.Order.Basic

/-!
# The list of covered ranges

`addCoveredRange` walks the list once and carries the range it is adding. On a list of non-empty
ranges in order with gaps between them it is the insertion below, which is easier to reason about.
-/

namespace FsServer

def ByteRange.Holds (r : ByteRange) (position : Int) : Prop :=
  r.start ≤ position ∧ position < r.stop

/-- The ranges are in order, non-empty, and do not touch. -/
structure Separated (ranges : List ByteRange) : Prop where
  gaps : ranges.Pairwise fun r s => r.stop < s.start
  nonempty : ∀ r ∈ ranges, r.start < r.stop

theorem Separated.nil : Separated [] := ⟨List.Pairwise.nil, by simp⟩

variable {r : ByteRange} {ranges : List ByteRange}

theorem Separated.tail (h : Separated (r :: ranges)) : Separated ranges :=
  ⟨(List.pairwise_cons.mp h.gaps).2, fun s hs => h.nonempty s (List.mem_cons_of_mem _ hs)⟩

theorem Separated.lt_start {s : ByteRange} (h : Separated (r :: ranges)) (hs : s ∈ ranges) :
    r.stop < s.start :=
  (List.pairwise_cons.mp h.gaps).1 s hs

theorem Separated.cons (h : Separated ranges) (hnonempty : r.start < r.stop)
    (hgap : ∀ s ∈ ranges, r.stop < s.start) :
    Separated (r :: ranges) := by
  refine ⟨List.pairwise_cons.mpr ⟨hgap, h.gaps⟩, ?_⟩
  intro s hs
  rcases List.mem_cons.mp hs with rfl | hs
  · exact hnonempty
  · exact h.nonempty s hs

def insertRange : List ByteRange → Int → Int → List ByteRange
  | [], start, stop => [⟨start, stop⟩]
  | r :: rest, start, stop =>
    if r.stop < start then r :: insertRange rest start stop
    else if r.start > stop then ⟨start, stop⟩ :: r :: rest
    else
      insertRange rest (if r.start < start then r.start else start)
        (if r.stop > stop then r.stop else stop)

theorem foldl_next_inserted {merge : RangeMerge} (hinserted : merge.inserted = true)
    (hrange : merge.start ≤ merge.stop)
    (hafter : ∀ r ∈ ranges, merge.stop < r.start ∧ r.start < r.stop) :
    ranges.foldl RangeMerge.next merge = { merge with merged := merge.merged ++ ranges } := by
  induction ranges generalizing merge with
  | nil => simp
  | cons r rest ih =>
    obtain ⟨hstart, hnonempty⟩ := hafter r (List.mem_cons_self ..)
    have hnext : merge.next r = { merge with merged := merge.merged ++ [r] } := by
      rw [RangeMerge.next, if_neg (by omega), if_pos (by omega), if_pos hinserted]
    have hrest := @ih { merge with merged := merge.merged ++ [r] } hinserted hrange fun s hs =>
      hafter s (List.mem_cons_of_mem _ hs)
    rw [List.foldl_cons, hnext, hrest]
    simp

variable {start stop : Int}

theorem addCoveredRange_eq_insertRange (h : Separated ranges) (hrange : start < stop) :
    addCoveredRange ranges start stop = insertRange ranges start stop := by
  -- what the loop and the final test yield from a state that has put nothing in yet
  have hloop : ∀ (ranges : List ByteRange) (start stop : Int) (merged : List ByteRange),
      Separated ranges → start < stop →
      (let merge := ranges.foldl RangeMerge.next ⟨start, stop, false, merged⟩
       if merge.inserted then merge.merged else merge.merged ++ [⟨merge.start, merge.stop⟩])
        = merged ++ insertRange ranges start stop := by
    intro ranges
    induction ranges with
    | nil =>
      intro start stop merged _ _
      simp [insertRange]
    | cons r rest ih =>
      intro start stop merged hsep hlt
      have hnonempty := hsep.nonempty r (List.mem_cons_self ..)
      rw [List.foldl_cons, insertRange, RangeMerge.next]
      by_cases hbefore : r.stop < start
      · rw [if_pos hbefore, if_pos hbefore, ih start stop _ hsep.tail hlt]
        simp
      · rw [if_neg hbefore, if_neg hbefore]
        by_cases hafter : r.start > stop
        · rw [if_pos hafter, if_pos hafter, if_neg Bool.false_ne_true,
            foldl_next_inserted rfl (le_of_lt hlt)]
          · simp
          · intro s hs
            have hgap := hsep.lt_start hs
            exact ⟨by simp only; omega, hsep.tail.nonempty s hs⟩
        · rw [if_neg hafter, if_neg hafter]
          apply ih _ _ _ hsep.tail
          split_ifs <;> omega
  rw [addCoveredRange, if_neg (by omega)]
  exact hloop ranges start stop [] h hrange

theorem holds_insertRange (h : Separated ranges) (hrange : start < stop) (position : Int) :
    (∃ r ∈ insertRange ranges start stop, r.Holds position) ↔
      (∃ r ∈ ranges, r.Holds position) ∨ start ≤ position ∧ position < stop := by
  induction ranges generalizing start stop with
  | nil => simp [insertRange, ByteRange.Holds]
  | cons r rest ih =>
    have hnonempty := h.nonempty r (List.mem_cons_self ..)
    rw [insertRange]
    split_ifs with hbefore hafter hlow hhigh hhigh
    · simp only [List.exists_mem_cons_iff, ih h.tail hrange, or_assoc]
    · simp only [List.exists_mem_cons_iff, ByteRange.Holds]
      exact or_comm
    all_goals
      rw [ih h.tail (by omega), List.exists_mem_cons_iff]
      unfold ByteRange.Holds
      constructor
      · rintro (hrest | hposition)
        · exact Or.inl (Or.inr hrest)
        · by_cases hr : r.start ≤ position ∧ position < r.stop
          · exact Or.inl (Or.inl hr)
          · exact Or.inr (by omega)
      · rintro ((hr | hrest) | hposition)
        · exact Or.inr (by omega)
        · exact Or.inl hrest
        · exact Or.inr (by omega)

theorem lt_start_insertRange {bound : Int} (hstart : bound < start)
    (hranges : ∀ r ∈ ranges, bound < r.start) :
    ∀ r ∈ insertRange ranges start stop, bound < r.start := by
  induction ranges generalizing start stop with
  | nil => simpa [insertRange] using hstart
  | cons r rest ih =>
    have hr := hranges r (List.mem_cons_self ..)
    have hrest : ∀ s ∈ rest, bound < s.start := fun s hs => hranges s (List.mem_cons_of_mem _ hs)
    rw [insertRange]
    split_ifs
    · intro s hs
      rcases List.mem_cons.mp hs with rfl | hs
      · exact hr
      · exact ih hstart hrest s hs
    · intro s hs
      rcases List.mem_cons.mp hs with rfl | hs
      · exact hstart
      · exact hranges s hs
    all_goals exact ih (by omega) hrest

theorem Separated.insertRange (h : Separated ranges) (hrange : start < stop) :
    Separated (insertRange ranges start stop) := by
  induction ranges generalizing start stop with
  | nil => exact Separated.nil.cons hrange (by simp)
  | cons r rest ih =>
    have hnonempty := h.nonempty r (List.mem_cons_self ..)
    rw [insertRange]
    split_ifs with hbefore hafter
    · exact (ih h.tail hrange).cons hnonempty
        (lt_start_insertRange hbefore fun s hs => h.lt_start hs)
    · refine h.cons hrange ?_
      intro s hs
      rcases List.mem_cons.mp hs with rfl | hs
      · exact hafter
      · have hgap := h.lt_start hs
        simp only
        omega
    all_goals exact ih h.tail (by omega)

theorem addCoveredRange_separated (h : Separated ranges) (start stop : Int) :
    Separated (addCoveredRange ranges start stop) := by
  by_cases hrange : start < stop
  · rw [addCoveredRange_eq_insertRange h hrange]
    exact h.insertRange hrange
  · rw [addCoveredRange, if_pos (by omega)]
    exact h

/-- The list after a call holds what it held before and the positions of the new range. -/
theorem holds_addCoveredRange (h : Separated ranges) (start stop position : Int) :
    (∃ r ∈ addCoveredRange ranges start stop, r.Holds position) ↔
      (∃ r ∈ ranges, r.Holds position) ∨ start ≤ position ∧ position < stop := by
  by_cases hrange : start < stop
  · rw [addCoveredRange_eq_insertRange h hrange]
    exact holds_insertRange h hrange position
  · rw [addCoveredRange, if_pos (by omega), or_iff_left]
    omega

variable {totalSize : Int}

theorem holds_of_isFullyCovered (h : Separated ranges)
    (hcovered : isFullyCovered ranges totalSize = true) (position : Int) :
    (∃ r ∈ ranges, r.Holds position) ↔ 0 ≤ position ∧ position < totalSize := by
  match ranges, h, hcovered with
  | [], _, hcovered =>
    simp only [isFullyCovered, List.head?_nil, decide_eq_true_eq] at hcovered
    simp only [List.not_mem_nil, false_and, exists_false, false_iff]
    omega
  | [r], _, hcovered =>
    simp only [isFullyCovered, List.head?_cons, List.getLast?_singleton, Bool.and_eq_true,
      decide_eq_true_eq] at hcovered
    simp only [List.mem_singleton, exists_eq_left, ByteRange.Holds]
    rw [hcovered.1.1, hcovered.1.2]
  | r :: s :: rest, h, hcovered =>
    exfalso
    have hgap := h.lt_start (List.mem_cons_self : s ∈ s :: rest)
    have hlast : (s :: rest).getLast? = some ((s :: rest).getLast (List.cons_ne_nil s rest)) :=
      List.getLast?_eq_some_getLast _
    simp only [isFullyCovered, List.head?_cons, List.getLast?_cons_cons, hlast, adjacent,
      Bool.and_eq_true, decide_eq_true_eq] at hcovered
    omega

theorem isFullyCovered_of_holds (h : Separated ranges) (hsize : 0 ≤ totalSize)
    (hholds : ∀ position, (∃ r ∈ ranges, r.Holds position) ↔ 0 ≤ position ∧ position < totalSize) :
    isFullyCovered ranges totalSize = true := by
  match ranges, h, hholds with
  | [], _, hholds =>
    have hzero := hholds 0
    simp only [List.not_mem_nil, false_and, exists_false, false_iff] at hzero
    simp only [isFullyCovered, List.head?_nil, decide_eq_true_eq]
    omega
  | [r], h, hholds =>
    have hnonempty := h.nonempty r List.mem_cons_self
    simp only [List.mem_singleton, exists_eq_left, ByteRange.Holds] at hholds
    have hstart := hholds r.start
    have hstop := hholds (r.stop - 1)
    have hzero := hholds 0
    have hlast := hholds (totalSize - 1)
    simp only [isFullyCovered, List.head?_cons, List.getLast?_singleton, adjacent, Bool.and_true,
      Bool.and_eq_true, decide_eq_true_eq]
    omega
  | r :: s :: rest, h, hholds =>
    -- the position after the first range is in no range, but the second one lies beyond it
    exfalso
    have hgap := h.lt_start (List.mem_cons_self : s ∈ s :: rest)
    have hfirst := h.nonempty r List.mem_cons_self
    have hsecond := h.tail.nonempty s List.mem_cons_self
    have hbelow := (hholds r.start).mp ⟨r, by simp, le_refl _, hfirst⟩
    have habove := (hholds s.start).mp ⟨s, by simp, le_refl _, hsecond⟩
    obtain ⟨other, hother, hmiddle⟩ := (hholds r.stop).mpr (by omega)
    unfold ByteRange.Holds at hmiddle
    rcases List.mem_cons.mp hother with rfl | hother
    · omega
    · have hafter := h.lt_start hother
      omega

/-! ### After any calls -/

/-- The list after calls with these arguments, from the empty list. -/
def coveredRanges (added : List (Int × Int)) : List ByteRange :=
  added.foldl (fun ranges range => addCoveredRange ranges range.1 range.2) []

theorem holds_coveredRanges (added : List (Int × Int)) :
    Separated (coveredRanges added) ∧ ∀ position,
      (∃ r ∈ coveredRanges added, r.Holds position) ↔
        ∃ range ∈ added, range.1 ≤ position ∧ position < range.2 := by
  induction added using List.reverseRecOn with
  | nil => exact ⟨Separated.nil, by simp [coveredRanges]⟩
  | append_singleton added range ih =>
    obtain ⟨hseparated, hholds⟩ := ih
    have hlast : coveredRanges (added ++ [range])
        = addCoveredRange (coveredRanges added) range.1 range.2 := List.foldl_append
    rw [hlast]
    refine ⟨addCoveredRange_separated hseparated _ _, fun position => ?_⟩
    rw [holds_addCoveredRange hseparated, hholds]
    simp only [List.mem_append, List.mem_singleton, or_and_right, exists_or, exists_eq_left]

/-- The list is in order with gaps and holds what was added. Of ranges within the size it tells
whether they cover all of it; a negative size is never covered. -/
theorem coveredRanges_exact (added : List (Int × Int)) (totalSize : Int) :
    Separated (coveredRanges added) ∧
    (∀ position, (∃ r ∈ coveredRanges added, r.Holds position) ↔
      ∃ range ∈ added, range.1 ≤ position ∧ position < range.2) ∧
    ((∀ range ∈ added, range.1 < range.2 → 0 ≤ range.1 ∧ range.2 ≤ totalSize) →
      (isFullyCovered (coveredRanges added) totalSize = true ↔ 0 ≤ totalSize ∧
        ∀ position, 0 ≤ position → position < totalSize →
          ∃ range ∈ added, range.1 ≤ position ∧ position < range.2)) := by
  obtain ⟨hseparated, hholds⟩ := holds_coveredRanges added
  refine ⟨hseparated, hholds, fun hwithin => ⟨fun hfull => ?_, ?_⟩⟩
  · have hcovers := holds_of_isFullyCovered hseparated hfull
    refine ⟨?_, fun position hlow hhigh => (hholds position).mp ((hcovers position).mpr ⟨hlow, hhigh⟩)⟩
    cases hranges : coveredRanges added with
    | nil =>
      rw [hranges] at hfull
      exact (of_decide_eq_true hfull : totalSize = 0).ge
    | cons r rest =>
      have hmem : r ∈ coveredRanges added := by rw [hranges]; exact List.mem_cons_self
      have hstart := (hcovers r.start).mp ⟨r, hmem, le_refl _, hseparated.nonempty r hmem⟩
      omega
  · rintro ⟨hsize, hall⟩
    refine isFullyCovered_of_holds hseparated hsize fun position => ?_
    rw [hholds]
    refine ⟨?_, fun hposition => hall position hposition.1 hposition.2⟩
    rintro ⟨range, hrange, hlow, hhigh⟩
    have hinside := hwithin range hrange (by omega)
    omega

end FsServer
