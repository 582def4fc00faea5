import Mathlib.Data.Finset.Lattice.Fold
import Mathlib.Algebra.BigOperators.Group.Finset.Basic
import Mathlib.Order.Interval.Finset.Nat

/-!
# Covering a set by a list of sets

Each entry of a list covers a finite set of positions. The positions covered are never more than the
entries' sizes together, and as many exactly when no two entries meet.
-/

namespace FsServer.Lib

variable {ι : Type} [DecidableEq ι]

def covered : List (Finset ι) → Finset ι
  | [] => ∅
  | part :: rest => part ∪ covered rest

def sizeSum : List (Finset ι) → Nat
  | [] => 0
  | part :: rest => part.card + sizeSum rest

variable {parts : List (Finset ι)}

theorem mem_covered {position : ι} :
    position ∈ covered parts ↔ ∃ part ∈ parts, position ∈ part := by
  induction parts with
  | nil => simp [covered]
  | cons part rest ih => simp [covered, ih]

variable {whole : Finset ι}

theorem covered_subset (h : ∀ part ∈ parts, part ⊆ whole) : covered parts ⊆ whole := by
  intro position hposition
  obtain ⟨part, hpart, hmem⟩ := mem_covered.mp hposition
  exact h part hpart hmem

theorem card_covered_le (parts : List (Finset ι)) : (covered parts).card ≤ sizeSum parts := by
  induction parts with
  | nil => exact le_refl 0
  | cons part rest ih => exact (Finset.card_union_le _ _).trans (Nat.add_le_add_left ih _)

def rewritten (parts : List (Finset ι)) : Nat := sizeSum parts - (covered parts).card

theorem rewritten_eq_zero_iff (parts : List (Finset ι)) :
    rewritten parts = 0 ↔ parts.Pairwise Disjoint := by
  have hle := card_covered_le parts
  have hiff : (covered parts).card = sizeSum parts ↔ parts.Pairwise Disjoint := by
    induction parts with
    | nil => simp [covered, sizeSum]
    | cons part rest ih =>
      have hrest := card_covered_le rest
      have hunion := Finset.card_union_add_card_inter part (covered rest)
      rw [List.pairwise_cons, ← ih hrest, covered, sizeSum]
      have hdisjoint : (part ∩ covered rest).card = 0 ↔ ∀ other ∈ rest, Disjoint part other := by
        rw [Finset.card_eq_zero, ← Finset.disjoint_iff_inter_eq_empty, Finset.disjoint_left]
        simp only [mem_covered, not_exists, not_and, Finset.disjoint_left]
        exact ⟨fun h other hother position hpart => h hpart other hother,
          fun h position hpart other hother => h other hother hpart⟩
      rw [← hdisjoint]
      omega
  rw [← hiff, rewritten]
  omega

/-- Entries inside a whole cover it as soon as they cover as many positions as it has. -/
theorem covered_eq_iff (h : ∀ part ∈ parts, part ⊆ whole) :
    covered parts = whole ↔ (covered parts).card = whole.card := by
  constructor
  · intro heq
    rw [heq]
  · intro hcard
    exact Finset.eq_of_subset_of_card_le (covered_subset h) hcard.ge

end FsServer.Lib
