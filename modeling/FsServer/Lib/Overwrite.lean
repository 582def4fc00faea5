import Mathlib.Data.List.Basic

/-!
# Writing into a byte string at an offset

A file written at an offset: bytes outside the written range stay, and a write past the end first
extends the file with a filler.
-/

namespace FsServer.Lib

variable {α : Type}

def overwrite (filler : α) (content data : List α) (offset : Nat) : List α :=
  if data.isEmpty then content
  else
    (content ++ List.replicate (offset - content.length) filler).take offset ++ data
      ++ content.drop (offset + data.length)

theorem overwrite_nil (filler : α) (content : List α) (offset : Nat) :
    overwrite filler content [] offset = content := rfl

variable {content data : List α} {offset : Nat}

theorem overwrite_of_le (filler : α) (hle : offset + data.length ≤ content.length) :
    overwrite filler content data offset
      = content.take offset ++ data ++ content.drop (offset + data.length) := by
  unfold overwrite
  split_ifs with hempty
  · rw [List.isEmpty_iff] at hempty
    subst hempty
    simp
  · have hpad : offset - content.length = 0 := by omega
    rw [hpad, List.replicate_zero, List.append_nil]

theorem length_overwrite (filler : α) (hle : offset + data.length ≤ content.length) :
    (overwrite filler content data offset).length = content.length := by
  rw [overwrite_of_le filler hle]
  simp only [List.length_append, List.length_take, List.length_drop]
  omega

theorem getElem?_overwrite (filler : α) (hle : offset + data.length ≤ content.length)
    (position : Nat) :
    (overwrite filler content data offset)[position]? =
      if offset ≤ position ∧ position < offset + data.length then data[position - offset]?
      else content[position]? := by
  rw [overwrite_of_le filler hle, List.append_assoc]
  by_cases hbefore : position < offset
  · rw [List.getElem?_append_left (by rw [List.length_take]; omega), List.getElem?_take_of_lt hbefore,
      if_neg (by omega)]
  · have htake : (content.take offset).length = offset := by
      rw [List.length_take]
      omega
    rw [List.getElem?_append_right (by omega), htake]
    by_cases hinside : position < offset + data.length
    · rw [List.getElem?_append_left (by omega), if_pos (by omega)]
    · rw [List.getElem?_append_right (by omega), List.getElem?_drop, if_neg (by omega)]
      congr 1
      omega

end FsServer.Lib
