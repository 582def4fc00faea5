import Mathlib.Data.List.Sort
import Mathlib.Data.List.Perm.Basic

/-!
# Cutting a sorted list into pages

A list sorted by a preorder is determined up to the order of the elements that compare equal. What
stands before position `n` is the same for every sorting exactly when no block of equal elements
reaches across `n`.
-/

namespace FsServer.Lib

variable {α : Type} {le : α → α → Bool}

/-- The elements that compare equal to `row` begin before position `n` and go on after it. -/
def Straddles (le : α → α → Bool) (rows : List α) (row : α) (n : Nat) : Prop :=
  rows.countP (fun other => !le row other) < n ∧ n < rows.countP fun other => le other row

instance (rows : List α) (row : α) (n : Nat) : Decidable (Straddles le rows row n) :=
  inferInstanceAs (Decidable (_ ∧ _))

section Sorted

variable {rows : List α} {p : α → Bool} (hsorted : rows.Pairwise fun a b => le a b = true)
  (hp : ∀ a b, le a b = true → p b = true → p a = true)
include hsorted hp

/-- A condition that is closed downwards holds of a first part of a sorted list. -/
theorem take_countP_eq_filter : rows.take (rows.countP p) = rows.filter p := by
  induction rows with
  | nil => rfl
  | cons a rows ih =>
    obtain ⟨hhead, htail⟩ := List.pairwise_cons.mp hsorted
    by_cases ha : p a = true
    · rw [List.countP_cons_of_pos ha, List.filter_cons_of_pos ha, List.take_succ_cons, ih htail]
    · have hnone : ∀ b ∈ rows, ¬ p b = true := fun b hb h => ha (hp a b (hhead b hb) h)
      rw [List.countP_cons_of_neg ha, List.filter_cons_of_neg ha,
        List.countP_eq_zero.mpr hnone, List.filter_eq_nil_iff.mpr hnone, List.take_zero]

theorem getElem_iff_lt_countP {i : Nat} (hi : i < rows.length) :
    p rows[i] = true ↔ i < rows.countP p := by
  induction rows generalizing i with
  | nil => exact absurd hi (Nat.not_lt_zero i)
  | cons a rows ih =>
    obtain ⟨hhead, htail⟩ := List.pairwise_cons.mp hsorted
    by_cases ha : p a = true
    · rw [List.countP_cons_of_pos ha]
      cases i with
      | zero => simp [ha]
      | succ i =>
        rw [List.getElem_cons_succ, ih htail (Nat.lt_of_succ_lt_succ hi), Nat.succ_lt_succ_iff]
    · have hnone : ∀ b ∈ a :: rows, ¬ p b = true := by
        intro b hb h
        rcases List.mem_cons.mp hb with rfl | hb
        · exact ha h
        · exact ha (hp a b (hhead b hb) h)
      rw [List.countP_eq_zero.mpr hnone]
      exact iff_of_false (hnone _ (List.getElem_mem hi)) (Nat.not_lt_zero i)

end Sorted

section Preorder

variable (htrans : ∀ a b c, le a b = true → le b c = true → le a c = true)
  (htotal : ∀ a b, (le a b || le b a) = true)
include htrans

theorem not_le_down {row a b : α} (hab : le a b = true) (hb : (!le row b) = true) :
    (!le row a) = true := by
  rw [Bool.not_eq_true', ← Bool.not_eq_true] at hb ⊢
  exact fun h => hb (htrans row a b h hab)

include htotal in
/-- The elements before position `n` do not depend on the sorting if no block of equal elements
reaches across `n`. -/
theorem take_perm_take {rows first second : List α} {n : Nat}
    (hn : ∀ row ∈ rows, ¬ Straddles le rows row n)
    (hfirst : first.Pairwise fun a b => le a b = true) (hfirst_perm : first.Perm rows)
    (hsecond : second.Pairwise fun a b => le a b = true) (hsecond_perm : second.Perm rows) :
    (first.take n).Perm (second.take n) := by
  by_cases hlt : n < first.length
  · -- what is strictly before the element at `n` fills the positions before `n`
    let before : α → Bool := fun other => !le first[n] other
    have hdown : ∀ a b, le a b = true → before b = true → before a = true :=
      fun a b hab hb => not_le_down htrans hab hb
    have hrow : first[n] ∈ rows := hfirst_perm.mem_iff.mp (List.getElem_mem hlt)
    have hself : le first[n] first[n] = true := by
      have h := htotal first[n] first[n]
      rwa [Bool.or_self] at h
    have hupper : n < rows.countP fun other => le other first[n] := by
      rw [← hfirst_perm.countP_eq]
      exact (getElem_iff_lt_countP hfirst (fun a b hab hb => htrans a b _ hab hb) hlt).mp hself
    have hlower : n ≤ rows.countP before := by
      by_contra h
      exact hn first[n] hrow ⟨Nat.lt_of_not_le h, hupper⟩
    have hat : ¬ n < rows.countP before := by
      rw [← hfirst_perm.countP_eq, ← getElem_iff_lt_countP hfirst hdown hlt]
      simp [before, hself]
    have hcount : rows.countP before = n := by omega
    have htake : ∀ {sorted : List α}, sorted.Pairwise (fun a b => le a b = true) →
        sorted.Perm rows → sorted.take n = sorted.filter before := by
      intro sorted hsorted hperm
      rw [← take_countP_eq_filter hsorted hdown, hperm.countP_eq, hcount]
    rw [htake hfirst hfirst_perm, htake hsecond hsecond_perm]
    exact (hfirst_perm.trans hsecond_perm.symm).filter before
  · have hlength : first.length = second.length := (hfirst_perm.trans hsecond_perm.symm).length_eq
    rw [List.take_of_length_le (by omega), List.take_of_length_le (by omega)]
    exact hfirst_perm.trans hsecond_perm.symm

include htotal in
/-- If a block of equal elements reaches across `n`, a part of one sorting and the rest of another
need not make up the whole. -/
theorem exists_sortings_of_straddles {rows : List α} (hnodup : rows.Nodup) {row : α} {n : Nat}
    (hn : Straddles le rows row n) :
    ∃ first second : List α, first.Pairwise (fun a b => le a b = true) ∧ first.Perm rows ∧
      second.Pairwise (fun a b => le a b = true) ∧ second.Perm rows ∧
      ¬ (first.take n ++ second.drop n).Perm rows := by
  have hsorted := List.pairwise_mergeSort htrans htotal rows
  have hperm := List.mergeSort_perm rows le
  generalize rows.mergeSort le = sorted at hsorted hperm
  obtain ⟨hlower, hupper⟩ := hn
  rw [← hperm.countP_eq] at hlower hupper
  have hlength := List.countP_le_length (p := fun other => le other row) (l := sorted)
  obtain ⟨m, rfl⟩ : ∃ m, n = m + 1 := ⟨n - 1, by omega⟩
  have hm : m < sorted.length := by omega
  have hm' : m + 1 < sorted.length := by omega
  have hfrom : le row sorted[m] = true := by
    have h := (getElem_iff_lt_countP (p := fun other => !le row other) hsorted
      (fun a b hab hb => not_le_down htrans hab hb) hm).not.mpr (by omega)
    simpa using h
  have hto : le sorted[m + 1] row = true :=
    (getElem_iff_lt_countP (p := fun other => le other row) hsorted
      (fun a b hab hb => htrans a b row hab hb) hm').mpr hupper
  have hback : le sorted[m + 1] sorted[m] = true := htrans _ row _ hto hfrom
  -- the two elements around the cut change places in the second sorting
  have hsplit : sorted = sorted.take m ++ sorted[m] :: sorted[m + 1] :: sorted.drop (m + 2) := by
    rw [← List.drop_eq_getElem_cons hm', ← List.drop_eq_getElem_cons hm, List.take_append_drop]
  have htake : (sorted.take m).length = m := List.length_take_of_le (Nat.le_of_lt hm)
  generalize sorted[m] = x at hsplit hback
  generalize sorted[m + 1] = y at hsplit hback
  generalize sorted.take m = before at hsplit htake
  generalize sorted.drop (m + 2) = after at hsplit
  subst hsplit
  refine ⟨_, before ++ y :: x :: after, hsorted, hperm, ?_, ?_, ?_⟩
  · simp only [List.pairwise_append, List.pairwise_cons, List.mem_cons, forall_eq_or_imp] at hsorted ⊢
    obtain ⟨hbefore, ⟨⟨_, hx⟩, hy, hafter⟩, hacross⟩ := hsorted
    exact ⟨hbefore, ⟨⟨hback, hy⟩, hx, hafter⟩,
      fun a ha => ⟨(hacross a ha).2.1, (hacross a ha).1, (hacross a ha).2.2⟩⟩
  · exact ((List.Perm.swap x y after).append_left before).trans hperm
  · intro h
    have htwice : (before ++ x :: x :: after).Nodup := by
      have hcut : (before ++ x :: y :: after).take (m + 1) ++ (before ++ y :: x :: after).drop (m + 1)
          = before ++ x :: x :: after := by
        rw [List.take_append, List.drop_append, htake, List.take_of_length_le (by omega),
          List.drop_of_length_le (by omega), Nat.add_sub_cancel_left]
        simp
      rw [← hcut]
      exact h.symm.nodup hnodup
    have hx := (List.nodup_append.mp htwice).2.1
    exact (List.nodup_cons.mp hx).1 List.mem_cons_self

end Preorder

end FsServer.Lib
