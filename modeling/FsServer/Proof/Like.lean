import FsServer.Metadata
import Mathlib.Data.List.Forall2
import Mathlib.Data.List.Infix

/-!
# What `LIKE` selects

The pattern of a directory matches the paths that begin with the directory and a slash, up to what
the dialect takes for the same character. So a directory and everything below it are selected
together, and in SQLite so are directories that differ from it in case only.
-/

namespace FsServer

/-- What `LIKE` takes for the same text. -/
def Dialect.Same (dialect : Dialect) : Path → Path → Prop :=
  List.Forall₂ fun c d => dialect.sameChar c d = true

/-- `LIKE` as the standard has it: a character matches itself. -/
def Dialect.MatchesExactly (dialect : Dialect) : Prop :=
  ∀ c d, dialect.sameChar c d = true → c = d

theorem escapeLikePattern_cons (c : Char) (text : List Char) :
    escapeLikePattern (c :: text) =
      (if c = '\\' ∨ c = '%' ∨ c = '_' then ['\\', c] else [c]) ++ escapeLikePattern text := by
  unfold escapeLikePattern replaceAll
  by_cases hslash : c = '\\'
  · subst hslash
    simp
  by_cases hpercent : c = '%'
  · subst hpercent
    simp
  by_cases hunderscore : c = '_'
  · subst hunderscore
    simp
  · simp [hslash, hpercent, hunderscore]

theorem likeTokens_escapeLikePattern (text rest : List Char) :
    likeTokens (escapeLikePattern text ++ rest) = text.map .literal ++ likeTokens rest := by
  induction text with
  | nil => rfl
  | cons c text ih =>
    rw [escapeLikePattern_cons]
    split_ifs with hspecial
    · rw [List.append_assoc, List.cons_append, List.cons_append, List.nil_append, likeTokens, ih]
      rfl
    · simp only [not_or] at hspecial
      rw [List.append_assoc, List.singleton_append]
      rw [likeTokens, ih]
      · rfl
      all_goals simp_all

theorem likeMatch_literals (dialect : Dialect) (text : List Char) (tokens : List LikeToken)
    (path : List Char) :
    likeMatch dialect (text.map .literal ++ tokens) path = true ↔
      ∃ head rest, path = head ++ rest ∧ dialect.Same text head ∧
        likeMatch dialect tokens rest = true := by
  induction text generalizing path with
  | nil =>
    constructor
    · intro h
      exact ⟨[], path, rfl, .nil, h⟩
    · rintro ⟨head, rest, rfl, hhead, h⟩
      cases hhead
      exact h
  | cons c text ih =>
    cases path with
    | nil =>
      simp only [List.map_cons, List.cons_append, likeMatch, Bool.false_eq_true, false_iff]
      rintro ⟨head, rest, hpath, hhead, -⟩
      cases hhead
      cases hpath
    | cons d path =>
      rw [List.map_cons, List.cons_append, likeMatch, Bool.and_eq_true, ih]
      constructor
      · rintro ⟨hsame, head, rest, rfl, hhead, h⟩
        exact ⟨d :: head, rest, rfl, .cons hsame hhead, h⟩
      · rintro ⟨head, rest, hpath, hhead, h⟩
        cases hhead with
        | cons hsame hhead =>
          rw [List.cons_append, List.cons.injEq] at hpath
          obtain ⟨rfl, rfl⟩ := hpath
          exact ⟨hsame, _, rest, rfl, hhead, h⟩

variable {dialect : Dialect} {directory path : Path}

theorem likeMatch_escaped {text : List Char} :
    likeMatch dialect (likeTokens (escapeLikePattern text ++ "%".toList)) path = true ↔
      ∃ head rest, path = head ++ rest ∧ dialect.Same text head := by
  have hany : ∀ rest, likeMatch dialect (likeTokens ['%']) rest = true := by
    intro rest
    have htokens : likeTokens ['%'] = [.anyRun] := rfl
    rw [htokens, likeMatch, List.any_eq_true]
    exact ⟨[], (List.mem_tails _ _).mpr List.nil_suffix, rfl⟩
  rw [likeTokens_escapeLikePattern, likeMatch_literals]
  constructor
  · rintro ⟨head, rest, hpath, hhead, -⟩
    exact ⟨head, rest, hpath, hhead⟩
  · rintro ⟨head, rest, hpath, hhead⟩
    exact ⟨head, rest, hpath, hhead, hany rest⟩

theorem likeUnder_iff :
    likeUnder dialect directory path = true ↔
      ∃ head rest, path = head ++ rest ∧ dialect.Same (directory ++ ['/']) head :=
  likeMatch_escaped

theorem sameChar_refl (dialect : Dialect) (c : Char) : dialect.sameChar c c = true := by
  cases dialect <;> simp [Dialect.sameChar]

theorem likeUnder_self (dialect : Dialect) (directory rest : Path) :
    likeUnder dialect directory (directory ++ '/' :: rest) = true := by
  rw [likeUnder_iff]
  refine ⟨directory ++ ['/'], rest, by simp, ?_⟩
  exact List.forall₂_same.mpr fun c _ => sameChar_refl dialect c

theorem likeUnder_append (h : likeUnder dialect directory path = true) (below : Path) :
    likeUnder dialect directory (path ++ below) = true := by
  rw [likeUnder_iff] at h ⊢
  obtain ⟨head, rest, rfl, hhead⟩ := h
  exact ⟨head, rest ++ below, by simp, hhead⟩

theorem eq_slash_of_sameChar {c : Char} (h : dialect.sameChar '/' c = true) : c = '/' := by
  cases dialect with
  | postgresql => exact (by simpa [Dialect.sameChar] using h : '/' = c).symm
  | sqlite =>
    have hlower : '/' = c.toLower := by simpa [Dialect.sameChar] using h
    unfold Char.toLower at hlower
    split at hlower
    · rename_i hupper
      have hval := congrArg (fun c : Char => c.val.toNat) hlower
      have hlow := UInt32.le_iff_toNat_le.mp hupper.1
      have hhigh := UInt32.le_iff_toNat_le.mp hupper.2
      simp at hval hlow hhigh
      omega
    · exact hlower.symm

theorem of_same_slash {text head : List Char} (h : dialect.Same (text ++ ['/']) head) :
    ∃ above, head = above ++ ['/'] ∧ dialect.Same text above := by
  induction text generalizing head with
  | nil =>
    cases h with
    | cons hslash hrest =>
      cases hrest
      exact ⟨[], by rw [eq_slash_of_sameChar hslash, List.nil_append], .nil⟩
  | cons c text ih =>
    cases h with
    | cons hsame hrest =>
      obtain ⟨above, rfl, habove⟩ := ih hrest
      exact ⟨_ :: above, rfl, .cons hsame habove⟩

theorem slash_of_likeUnder (h : likeUnder dialect directory path = true) :
    ∃ above rest, path = above ++ '/' :: rest ∧ above.length = directory.length := by
  obtain ⟨head, rest, rfl, hhead⟩ := likeUnder_iff.mp h
  obtain ⟨above, rfl, habove⟩ := of_same_slash hhead
  exact ⟨above, rest, by simp, habove.length_eq.symm⟩

theorem likeMatch_slash {text : List Char} :
    likeMatch dialect (likeTokens (escapeLikePattern text ++ "%/%".toList)) path = true ↔
      ∃ head rest, path = head ++ rest ∧ dialect.Same text head ∧ '/' ∈ rest := by
  rw [likeTokens_escapeLikePattern, likeMatch_literals]
  refine exists₂_congr fun head rest => and_congr_right fun _ => and_congr_right fun _ => ?_
  have htokens : likeTokens "%/%".toList = [.anyRun, .literal '/', .anyRun] := rfl
  rw [htokens, likeMatch, List.any_eq_true]
  constructor
  · rintro ⟨tail, htail, hmatch⟩
    cases tail with
    | nil => cases hmatch
    | cons c tail =>
      rw [likeMatch, Bool.and_eq_true] at hmatch
      obtain rfl := eq_slash_of_sameChar hmatch.1
      exact ((List.mem_tails _ _).mp htail).subset List.mem_cons_self
  · intro hslash
    obtain ⟨before, after, rfl⟩ := List.append_of_mem hslash
    refine ⟨'/' :: after, (List.mem_tails _ _).mpr (List.suffix_append _ _), ?_⟩
    rw [likeMatch, sameChar_refl, Bool.true_and, likeMatch, List.any_eq_true]
    exact ⟨[], (List.mem_tails _ _).mpr List.nil_suffix, rfl⟩

theorem same_eq (h : dialect.MatchesExactly) : dialect.Same = Eq := by
  have hchar : (fun c d => dialect.sameChar c d = true) = Eq := by
    ext c d
    refine ⟨h c d, ?_⟩
    rintro rfl
    exact sameChar_refl dialect c
  rw [Dialect.Same, hchar, List.forall₂_eq_eq_eq]

theorem matchesExactly_postgresql : Dialect.MatchesExactly .postgresql :=
  fun _ _ hsame => of_decide_eq_true hsame

/-- An escaped text matches itself only, and what follows it is left to the wildcards. -/
theorem escapeLikePattern_exact (h : dialect.MatchesExactly) (s t : List Char) :
    (likeMatch dialect (likeTokens (escapeLikePattern s ++ "%".toList)) t = true ↔ s <+: t) ∧
    (likeMatch dialect (likeTokens (escapeLikePattern s ++ "%/%".toList)) t = true ↔
      ∃ u, t = s ++ u ∧ '/' ∈ u) := by
  rw [likeMatch_escaped, likeMatch_slash, same_eq h]
  refine ⟨⟨?_, ?_⟩, ⟨?_, ?_⟩⟩
  · rintro ⟨head, rest, rfl, rfl⟩
    exact List.prefix_append _ _
  · rintro ⟨rest, rfl⟩
    exact ⟨s, rest, rfl, rfl⟩
  · rintro ⟨head, rest, hpath, rfl, hslash⟩
    exact ⟨rest, hpath, hslash⟩
  · rintro ⟨rest, hpath, hslash⟩
    exact ⟨s, rest, hpath, rfl, hslash⟩

theorem escapeLikePattern_exact_postgresql :
    (likeMatch .postgresql (likeTokens (escapeLikePattern "a%\\_".toList ++ "%".toList))
        "a%\\_/b".toList = true ↔ "a%\\_".toList <+: "a%\\_/b".toList) ∧
    (likeMatch .postgresql (likeTokens (escapeLikePattern "a%\\_".toList ++ "%/%".toList))
        "a%\\_/b".toList = true ↔ ∃ u, "a%\\_/b".toList = "a%\\_".toList ++ u ∧ '/' ∈ u) :=
  escapeLikePattern_exact matchesExactly_postgresql _ _

end FsServer
