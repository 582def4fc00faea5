import Mathlib.Data.List.Induction

/-!
# What a history says

The position of the last entry of some kind in a history, lists that are ordered by it, and the value
that is in force after a history: the one that was set last, unless something has ended it since.
-/

namespace FsServer.Lib

variable {L A K : Type}

/-! ### The last use -/

/-- One more than the position of the last entry that counts, and 0 if there is none. -/
def lastUse (counts : L → Bool) (past : List L) : Nat :=
  past.length - past.reverse.findIdx counts

theorem lastUse_le_length (counts : L → Bool) (past : List L) : lastUse counts past ≤ past.length :=
  Nat.sub_le _ _

theorem lastUse_snoc (counts : L → Bool) (past : List L) (entry : L) :
    lastUse counts (past ++ [entry]) =
      if counts entry then past.length + 1 else lastUse counts past := by
  unfold lastUse
  rw [List.reverse_append, List.reverse_singleton, List.singleton_append, List.findIdx_cons,
    List.length_append, List.length_singleton]
  cases counts entry with
  | true => rfl
  | false =>
    simp only [cond_false, Bool.false_eq_true, if_false]
    omega

def ByUse (use : K → Nat) (keys : List K) : Prop :=
  keys.Pairwise fun first second => use second < use first

section ByUse

variable {use later : K → Nat} {keys : List K}

theorem ByUse.sublist {fewer : List K} (h : ByUse use keys) (hsub : fewer.Sublist keys) :
    ByUse use fewer := List.Pairwise.sublist hsub h

theorem ByUse.congr (h : ByUse use keys) (hsame : ∀ key ∈ keys, later key = use key) :
    ByUse later keys := by
  refine List.Pairwise.imp_of_mem (fun {first second} hfirst hsecond hlt => ?_) h
  rw [hsame first hfirst, hsame second hsecond]
  exact hlt

theorem ByUse.cons {key : K} (h : ByUse use keys) (hnew : key ∉ keys)
    (hsame : ∀ other, other ≠ key → later other = use other)
    (hlast : ∀ other ∈ keys, use other < later key) : ByUse later (key :: keys) := by
  have hne : ∀ other ∈ keys, other ≠ key := by
    rintro other hmem rfl
    exact hnew hmem
  refine List.pairwise_cons.mpr ⟨fun other hmem => ?_, ?_⟩
  · rw [hsame other (hne other hmem)]
    exact hlast other hmem
  · exact h.congr fun other hmem => hsame other (hne other hmem)

theorem ByUse.getLast?_lt {last : K} (h : ByUse use keys) (hlast : keys.getLast? = some last) :
    ∀ other ∈ keys, other ≠ last → use last < use other := by
  obtain ⟨front, rfl⟩ := List.getLast?_eq_some_iff.mp hlast
  intro other hmem hne
  rw [List.mem_append, List.mem_singleton] at hmem
  exact (List.pairwise_append.mp h).2.2 other (hmem.resolve_right hne) last
    (List.mem_singleton_self _)

end ByUse

/-! ### What is in force -/

section InForce

variable (sets : L → Option A) (ends : L → A → Bool)

def inForce (past : List L) : Option A :=
  past.foldl (fun value entry => (sets entry).or (value.filter fun a => !ends entry a)) none

theorem inForce_snoc (past : List L) (entry : L) :
    inForce sets ends (past ++ [entry]) =
      (sets entry).or ((inForce sets ends past).filter fun a => !ends entry a) := by
  unfold inForce
  rw [List.foldl_append]
  rfl

variable {sets} {ends}

theorem inForce_eq_some_iff {past : List L} {a : A} :
    inForce sets ends past = some a ↔ ∃ before entry since, past = before ++ entry :: since ∧
      sets entry = some a ∧ ∀ later ∈ since, sets later = none ∧ ends later a = false := by
  induction past using List.reverseRecOn with
  | nil =>
    constructor
    · exact fun h => nomatch h
    · rintro ⟨before, entry, since, hpast, -⟩
      simp at hpast
  | append_singleton past last ih =>
    rw [inForce_snoc]
    constructor
    · intro h
      cases hset : sets last with
      | some b =>
        rw [hset, Option.some_or, Option.some.injEq] at h
        subst h
        exact ⟨past, last, [], rfl, hset, fun _ hmem => nomatch hmem⟩
      | none =>
        rw [hset, Option.none_or, Option.filter_eq_some_iff] at h
        obtain ⟨before, entry, since, rfl, hentry, hsince⟩ := ih.mp h.1
        refine ⟨before, entry, since ++ [last], ?_, hentry, fun later hmem => ?_⟩
        · rw [List.append_assoc, List.cons_append]
        · rw [List.mem_append, List.mem_singleton] at hmem
          rcases hmem with hmem | rfl
          · exact hsince later hmem
          · exact ⟨hset, by simpa using h.2⟩
    · rintro ⟨before, entry, since, hpast, hentry, hsince⟩
      rcases List.eq_nil_or_concat since with rfl | ⟨front, final, rfl⟩
      · obtain ⟨-, rfl⟩ := List.append_singleton_inj.mp hpast
        rw [hentry, Option.some_or]
      · rw [List.concat_eq_append] at hpast hsince
        have hsplit : past ++ [last] = (before ++ entry :: front) ++ [final] := by
          rw [hpast, List.append_assoc, List.cons_append]
        obtain ⟨rfl, rfl⟩ := List.append_singleton_inj.mp hsplit
        have hfinal := hsince last (List.mem_append_right _ (List.mem_singleton_self _))
        have hpastSome := ih.mpr ⟨before, entry, front, rfl, hentry, fun later hmem =>
          hsince later (List.mem_append_left _ hmem)⟩
        rw [hfinal.1, Option.none_or, hpastSome, Option.filter_some, hfinal.2]
        rfl

end InForce

end FsServer.Lib
