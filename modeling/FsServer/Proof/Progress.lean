import FsServer.Lib.Int64
import Mathlib.Logic.Function.Basic
import Mathlib.Data.List.Induction
import Mathlib.Algebra.Order.BigOperators.Group.List
import Mathlib.Algebra.Order.Ring.Nat

/-!
# The counters of one upload session

What several instances know about the progress of one session: each that has a copy counts the bytes
and the chunks it has taken itself, and the stored record has the byte count of the last copy that
came to a multiple of eight chunks. An instance without a copy starts from the record, with no chunk
counted.
-/

namespace FsServer

open Lib

structure Progress where
  copies : Nat → Option (Int × Int)
  saved : Int

namespace Progress

def opened (inst : Nat) : Progress where
  copies := Function.update (fun _ => none) inst (some (0, 0))
  saved := 0

theorem opened_copies_self (inst : Nat) : (opened inst).copies inst = some (0, 0) := by
  simp [opened]

variable {other : Nat}

theorem opened_copies_of_ne {inst : Nat} (h : other ≠ inst) :
    (opened inst).copies other = none := by
  simp [opened, h]

/-- The bytes and chunks the instance has counted, or starts from. -/
def copy (progress : Progress) (inst : Nat) : Int × Int :=
  (progress.copies inst).getD (progress.saved, 0)

def put (progress : Progress) (inst : Nat) (counts : Int × Int) : Progress :=
  { progress with copies := Function.update progress.copies inst (some counts) }

def load (progress : Progress) (inst : Nat) : Progress := progress.put inst (progress.copy inst)

def chunk (progress : Progress) (inst length : Nat) : Progress :=
  let bytes := int64 ((progress.copy inst).1 + length)
  let chunks := int64 ((progress.copy inst).2 + 1)
  { progress.put inst (bytes, chunks) with
    saved := if chunks % 8 = 0 then bytes else progress.saved }

def afterChunks (progress : Progress) (sent : List (Nat × Nat)) : Progress :=
  sent.foldl (fun progress entry => progress.chunk entry.1 entry.2) progress

variable (progress : Progress) (inst : Nat)

@[simp]
theorem put_copies_self (counts : Int × Int) : (progress.put inst counts).copies inst = some counts :=
  Function.update_self ..

theorem put_copies_of_ne (counts : Int × Int) (h : other ≠ inst) :
    (progress.put inst counts).copies other = progress.copies other := Function.update_of_ne h ..

@[simp]
theorem put_saved (counts : Int × Int) : (progress.put inst counts).saved = progress.saved := rfl

theorem put_put (counts last : Int × Int) :
    (progress.put inst counts).put inst last = progress.put inst last := by
  unfold put
  rw [Function.update_idem]

variable {counts : Int × Int}

theorem put_eq_self (h : progress.copies inst = some counts) :
    progress.put inst counts = progress := by
  unfold put
  rw [← h, Function.update_eq_self]

@[simp]
theorem put_copy (counts : Int × Int) : (progress.put inst counts).copy inst = counts := by
  rw [copy, put_copies_self, Option.getD_some]

variable {length : Nat}

theorem chunk_of_dvd (h : int64 ((progress.copy inst).2 + 1) % 8 = 0) :
    progress.chunk inst length =
      ⟨(progress.put inst (int64 ((progress.copy inst).1 + length),
        int64 ((progress.copy inst).2 + 1))).copies, int64 ((progress.copy inst).1 + length)⟩ := by
  rw [chunk, if_pos h]

theorem chunk_of_not_dvd (h : ¬ int64 ((progress.copy inst).2 + 1) % 8 = 0) :
    progress.chunk inst length =
      progress.put inst (int64 ((progress.copy inst).1 + length),
        int64 ((progress.copy inst).2 + 1)) := by
  rw [chunk, if_neg h]
  rfl

theorem load_copy : (progress.load inst).copy inst = progress.copy inst := put_copy ..

theorem load_chunk (length : Nat) :
    (progress.load inst).chunk inst length = progress.chunk inst length := by
  unfold chunk
  rw [load_copy, load]
  dsimp only
  rw [put_put, put_saved]

theorem load_eq_self (h : progress.copies inst = some counts) : progress.load inst = progress := by
  rw [load, copy, h, Option.getD_some, put_eq_self _ _ h]

theorem afterChunks_append (sent : List (Nat × Nat)) (inst length : Nat) :
    progress.afterChunks (sent ++ [(inst, length)]) =
      (progress.afterChunks sent).chunk inst length := by
  rw [afterChunks, List.foldl_append]
  rfl

/-! ### What the counters are after any chunks -/

def bytesOn (inst : Nat) (sent : List (Nat × Nat)) : Nat :=
  ((sent.filter fun entry => entry.1 = inst).map Prod.snd).sum

def chunksOn (inst : Nat) (sent : List (Nat × Nat)) : Nat :=
  (sent.filter fun entry => entry.1 = inst).length

theorem bytesOn_append (sent : List (Nat × Nat)) (taker length : Nat) :
    bytesOn inst (sent ++ [(taker, length)]) =
      bytesOn inst sent + if taker = inst then length else 0 := by
  unfold bytesOn
  by_cases h : taker = inst <;> simp [h]

theorem chunksOn_append (sent : List (Nat × Nat)) (taker length : Nat) :
    chunksOn inst (sent ++ [(taker, length)]) =
      chunksOn inst sent + if taker = inst then 1 else 0 := by
  unfold chunksOn
  by_cases h : taker = inst <;> simp [h]

theorem creator_copies (sent : List (Nat × Nat)) :
    ((opened inst).afterChunks sent).copies inst =
      some (int64 (bytesOn inst sent), int64 (chunksOn inst sent)) := by
  induction sent using List.reverseRecOn with
  | nil => simpa [afterChunks, bytesOn, chunksOn, int64_zero] using opened_copies_self inst
  | append_singleton sent entry ih =>
    obtain ⟨taker, length⟩ := entry
    rw [afterChunks_append, bytesOn_append, chunksOn_append]
    by_cases htaker : taker = inst
    · rw [if_pos htaker, if_pos htaker, htaker]
      have hcopy : ((opened inst).afterChunks sent).copy inst =
          (int64 (bytesOn inst sent), int64 (chunksOn inst sent)) := by
        rw [copy, ih, Option.getD_some]
      rw [chunk, hcopy]
      simp only [put_copies_self, int64_int64_add]
      push_cast
      rfl
    · rw [if_neg htaker, if_neg htaker, add_zero, add_zero, ← ih]
      exact put_copies_of_ne _ _ _ (Ne.symm htaker)

/-- The chunks of a run that are in the record: all but those after the last multiple of eight. -/
def recorded (sent : List (Nat × Nat)) : List (Nat × Nat) := sent.take (8 * (sent.length / 8))

variable {entry : Nat × Nat}

theorem recorded_append_of_dvd {sent : List (Nat × Nat)} (h : 8 ∣ sent.length + 1) :
    recorded (sent ++ [entry]) = sent ++ [entry] := by
  unfold recorded
  rw [List.length_append, List.length_singleton, Nat.mul_div_cancel' h]
  exact List.take_of_length_le (by simp)

theorem recorded_append_of_not_dvd {sent : List (Nat × Nat)} (h : ¬ 8 ∣ sent.length + 1) :
    recorded (sent ++ [entry]) = recorded sent := by
  unfold recorded
  rw [List.length_append, List.length_singleton]
  have hsame : (sent.length + 1) / 8 = sent.length / 8 := by omega
  rw [hsame]
  exact List.take_append_of_le_length (Nat.mul_div_le _ _)

/-- While only the creator takes chunks, the others have no copy, and the record has the bytes up to
the last multiple of eight chunks. -/
theorem creator_saved {sent : List (Nat × Nat)} (h : ∀ entry ∈ sent, entry.1 = inst) :
    (∀ other, other ≠ inst → ((opened inst).afterChunks sent).copies other = none) ∧
      ((opened inst).afterChunks sent).saved = int64 ((recorded sent).map Prod.snd).sum := by
  induction sent using List.reverseRecOn with
  | nil => exact ⟨fun other hother => opened_copies_of_ne hother, rfl⟩
  | append_singleton sent entry ih =>
    obtain ⟨taker, length⟩ := entry
    have htaker : taker = inst := h (taker, length) (by simp)
    have hbefore : ∀ entry ∈ sent, entry.1 = inst := fun entry hentry =>
      h entry (List.mem_append_left _ hentry)
    obtain ⟨hcopies, hsaved⟩ := ih hbefore
    have hall : sent.filter (fun entry => entry.1 = inst) = sent :=
      List.filter_eq_self.mpr fun entry hentry => decide_eq_true (hbefore entry hentry)
    have hcopy : ((opened inst).afterChunks sent).copy inst =
        (int64 (sent.map Prod.snd).sum, int64 sent.length) := by
      rw [copy, creator_copies, Option.getD_some, bytesOn, chunksOn, hall]
    rw [afterChunks_append, htaker]
    refine ⟨fun other hother => (put_copies_of_ne _ _ _ hother).trans (hcopies other hother), ?_⟩
    rw [chunk, hcopy]
    simp only [int64_int64_add]
    have hcount : int64 ((sent.length : Int) + 1) % 8 = 0 ↔ 8 ∣ sent.length + 1 := by
      unfold int64
      omega
    simp only [hcount]
    split_ifs with hdvd
    · rw [recorded_append_of_dvd hdvd]
      simp
    · rw [recorded_append_of_not_dvd hdvd]
      exact hsaved

/-! ### When the counters are complete -/

theorem bytesOn_le (sent : List (Nat × Nat)) : bytesOn inst sent ≤ (sent.map Prod.snd).sum := by
  induction sent using List.reverseRecOn with
  | nil => exact le_refl 0
  | append_singleton sent entry ih =>
    rw [bytesOn_append, List.map_append, List.sum_append]
    by_cases h : entry.1 = inst
    · simpa [h] using ih
    · simp only [h, if_false, List.map_singleton, List.sum_singleton]
      omega

theorem bytesOn_eq_iff {sent : List (Nat × Nat)} (hpos : ∀ entry ∈ sent, 0 < entry.2) :
    bytesOn inst sent = (sent.map Prod.snd).sum ↔ ∀ entry ∈ sent, entry.1 = inst := by
  induction sent using List.reverseRecOn with
  | nil => simp [bytesOn]
  | append_singleton sent entry ih =>
    have hlast := hpos entry (by simp)
    have hle := bytesOn_le inst sent
    have hiff := ih fun entry hentry => hpos entry (List.mem_append_left _ hentry)
    rw [bytesOn_append, List.map_append, List.sum_append, List.forall_mem_append, ← hiff]
    by_cases h : entry.1 = inst
    · simp [h]
    · simp only [h, if_false, List.map_singleton, List.sum_singleton, List.mem_singleton,
        forall_eq, and_false, iff_false]
      omega

theorem recorded_eq_iff {sent : List (Nat × Nat)} (hpos : ∀ entry ∈ sent, 0 < entry.2) :
    ((recorded sent).map Prod.snd).sum = (sent.map Prod.snd).sum ↔ 8 ∣ sent.length := by
  constructor
  · intro heq
    have hsplit : ((recorded sent).map Prod.snd).sum +
        ((sent.drop (8 * (sent.length / 8))).map Prod.snd).sum = (sent.map Prod.snd).sum := by
      rw [recorded, ← List.sum_append, ← List.map_append, List.take_append_drop]
    have hdrop : ((sent.drop (8 * (sent.length / 8))).map Prod.snd).sum = 0 := by omega
    rw [List.sum_eq_zero_iff] at hdrop
    by_contra hdvd
    have hlt : 8 * (sent.length / 8) < sent.length := by omega
    have hmem : sent.get ⟨8 * (sent.length / 8), hlt⟩ ∈ sent.drop (8 * (sent.length / 8)) := by
      rw [List.drop_eq_getElem_cons hlt]
      exact List.mem_cons_self ..
    have hzero := hdrop _ (List.mem_map_of_mem hmem)
    have hpositive := hpos _ (List.get_mem sent ⟨8 * (sent.length / 8), hlt⟩)
    omega
  · intro hdvd
    rw [recorded, Nat.mul_div_cancel' hdvd, List.take_length]

section Complete

variable {inst : Nat} {sent : List (Nat × Nat)} {totalSize : Int}

theorem creator_complete_iff (hpos : ∀ entry ∈ sent, 0 < entry.2)
    (hsum : ((sent.map Prod.snd).sum : Int) = totalSize) (hmax : totalSize ≤ maxInt64) :
    (((opened inst).afterChunks sent).copy inst).1 = totalSize ↔
      ∀ entry ∈ sent, entry.1 = inst := by
  have hle := bytesOn_le inst sent
  have hrange : int64 (bytesOn inst sent) = bytesOn inst sent :=
    int64_of_range (by omega) (by omega)
  rw [← bytesOn_eq_iff inst hpos, copy, creator_copies, Option.getD_some, hrange]
  dsimp only
  omega

theorem other_complete_iff (hcreator : ∀ entry ∈ sent, entry.1 = inst)
    (hpos : ∀ entry ∈ sent, 0 < entry.2) (hsum : ((sent.map Prod.snd).sum : Int) = totalSize)
    (hmax : totalSize ≤ maxInt64) (hother : other ≠ inst) :
    (((opened inst).afterChunks sent).copy other).1 = totalSize ↔ 8 ∣ sent.length := by
  obtain ⟨hcopies, hsaved⟩ := creator_saved inst hcreator
  have hle : ((recorded sent).map Prod.snd).sum ≤ (sent.map Prod.snd).sum :=
    (List.take_sublist _ _ |>.map Prod.snd).sum_le_sum fun _ _ => Nat.zero_le _
  have hrange : int64 ((recorded sent).map Prod.snd).sum = ((recorded sent).map Prod.snd).sum :=
    int64_of_range (by omega) (by omega)
  rw [← recorded_eq_iff hpos, copy, hcopies other hother, Option.getD_none, hsaved, hrange]
  dsimp only
  omega

end Complete

end Progress

end FsServer
