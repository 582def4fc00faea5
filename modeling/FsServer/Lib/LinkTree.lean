import Mathlib.Data.List.Basic
import Mathlib.Data.List.Induction

/-!
# A tree with symbolic links

Directories, files and symbolic links with any target, and the walk by which a path is resolved in
such a tree: a link is replaced by its target, and a walk that meets more links than it may follow
fails. A place is the list of names from the root to a node, with no links on the way.
-/

namespace FsServer.Lib

variable {N : Type}

inductive PathStep (N : Type) where
  | here
  | up
  | down (name : N)

def PathStep.apply (place : List N) : PathStep N → List N
  | .here => place
  | .up => place.dropLast
  | .down name => place ++ [name]

structure LinkTarget (N : Type) where
  rooted : Bool
  steps : List (PathStep N)

def LinkTarget.start (target : LinkTarget N) (place : List N) : List N :=
  if target.rooted then [] else place

inductive LinkNode (N : Type) where
  | directory
  | file
  | link (target : LinkTarget N)

structure LinkTree (N : Type) where
  node : List N → Option (LinkNode N)
  entries : List (List N)
  node_root : node [] = some .directory
  node_parent : ∀ place name, node (place ++ [name]) ≠ none → node place = some .directory
  mem_entries : ∀ place, node place ≠ none → place ∈ entries

/-- Where a walk ends. At a missing place only the last name is missing: its directory exists. -/
inductive Found (N : Type) where
  | directory (place : List N)
  | file (place : List N)
  | missing (place : List N)
  | failed
  deriving DecidableEq

namespace LinkTree

variable (tree : LinkTree N)

/-- A walk from a directory, which hands over to `follow` at the first link. -/
def walkWith (follow : LinkTarget N → List (PathStep N) → List N → Found N) :
    List (PathStep N) → List N → Found N
  | [], place => .directory place
  | .here :: rest, place => walkWith follow rest place
  | .up :: rest, place => walkWith follow rest place.dropLast
  | .down name :: rest, place =>
    match tree.node (place ++ [name]) with
    | none => if rest.isEmpty then .missing (place ++ [name]) else .failed
    | some .directory => walkWith follow rest (place ++ [name])
    | some .file => if rest.isEmpty then .file (place ++ [name]) else .failed
    | some (.link target) => follow target rest place

/-- The rest of a walk at a link, when so many links may still be followed. -/
def follow : Nat → LinkTarget N → List (PathStep N) → List N → Found N
  | 0, _, _, _ => .failed
  | links + 1, target, rest, place =>
    tree.walkWith (follow links) (target.steps ++ rest) (target.start place)

def walk (links : Nat) : List (PathStep N) → List N → Found N := tree.walkWith (tree.follow links)

variable {tree} {links : Nat} {steps rest : List (PathStep N)} {place : List N} {name : N}

theorem walk_here : tree.walk links (.here :: rest) place = tree.walk links rest place := rfl

theorem walk_up : tree.walk links (.up :: rest) place = tree.walk links rest place.dropLast := rfl

theorem walk_missing (h : tree.node (place ++ [name]) = none) :
    tree.walk links (.down name :: rest) place =
      if rest.isEmpty then .missing (place ++ [name]) else .failed := by
  rw [walk, walkWith, h]

theorem walk_directory (h : tree.node (place ++ [name]) = some .directory) :
    tree.walk links (.down name :: rest) place = tree.walk links rest (place ++ [name]) := by
  rw [walk, walkWith, h]

theorem walk_file (h : tree.node (place ++ [name]) = some .file) :
    tree.walk links (.down name :: rest) place =
      if rest.isEmpty then .file (place ++ [name]) else .failed := by
  rw [walk, walkWith, h]

variable {target : LinkTarget N}

theorem walk_link (h : tree.node (place ++ [name]) = some (.link target)) :
    tree.walk links (.down name :: rest) place = tree.follow links target rest place := by
  rw [walk, walkWith, h]

theorem follow_succ (target : LinkTarget N) :
    tree.follow (links + 1) target rest place =
      tree.walk links (target.steps ++ rest) (target.start place) := rfl

/-! ### More links -/

theorem walkWith_congr {first second : LinkTarget N → List (PathStep N) → List N → Found N}
    (h : ∀ target rest place, first target rest place ≠ .failed →
      second target rest place = first target rest place)
    (hfound : tree.walkWith first steps place ≠ .failed) :
    tree.walkWith second steps place = tree.walkWith first steps place := by
  induction steps generalizing place with
  | nil => rfl
  | cons step rest ih =>
    cases step with
    | here => exact ih hfound
    | up => exact ih hfound
    | down name =>
      simp only [walkWith] at hfound ⊢
      cases hnode : tree.node (place ++ [name]) with
      | none => rfl
      | some node =>
        rw [hnode] at hfound
        cases node with
        | directory => exact ih hfound
        | file => rfl
        | link target => exact h target rest place hfound

theorem follow_add (more : Nat) (hfound : tree.follow links target rest place ≠ .failed) :
    tree.follow (links + more) target rest place = tree.follow links target rest place := by
  induction links generalizing target rest place with
  | zero => exact absurd rfl hfound
  | succ links ih =>
    rw [Nat.succ_add]
    exact walkWith_congr (fun target rest place h => ih h) hfound

theorem walk_of_le {more : Nat} (hle : links ≤ more)
    (hfound : tree.walk links steps place ≠ .failed) :
    tree.walk more steps place = tree.walk links steps place := by
  obtain ⟨extra, rfl⟩ := Nat.exists_eq_add_of_le hle
  exact walkWith_congr (fun target rest place h => follow_add extra h) hfound

/-! ### Walks in two parts -/

theorem exists_walk_append_of_follow (hrest : rest ≠ [])
    (hfollow : ∀ target tail place, tree.follow links target (tail ++ rest) place ≠ .failed →
      ∃ reached left, left ≤ links ∧ tree.follow links target tail place = .directory reached ∧
        tree.follow links target (tail ++ rest) place = tree.walk left rest reached)
    (hfound : tree.walk links (steps ++ rest) place ≠ .failed) :
    ∃ reached left, left ≤ links ∧ tree.walk links steps place = .directory reached ∧
      tree.walk links (steps ++ rest) place = tree.walk left rest reached := by
  induction steps generalizing place with
  | nil => exact ⟨place, links, Nat.le_refl _, rfl, rfl⟩
  | cons step tail ih =>
    have hgoes : (tail ++ rest).isEmpty = false := by simp [hrest]
    rw [List.cons_append] at hfound ⊢
    cases step with
    | here => exact ih hfound
    | up => exact ih hfound
    | down name =>
      cases hnode : tree.node (place ++ [name]) with
      | none =>
        rw [walk_missing hnode, hgoes] at hfound
        exact absurd rfl hfound
      | some node =>
        cases node with
        | directory =>
          rw [walk_directory hnode] at hfound ⊢
          rw [walk_directory hnode]
          exact ih hfound
        | file =>
          rw [walk_file hnode, hgoes] at hfound
          exact absurd rfl hfound
        | link target =>
          rw [walk_link hnode] at hfound ⊢
          rw [walk_link hnode]
          exact hfollow target tail place hfound

/-- A walk that goes on after some steps has reached a directory with them. -/
theorem exists_walk_append (hrest : rest ≠ [])
    (hfound : tree.walk links (steps ++ rest) place ≠ .failed) :
    ∃ reached left, left ≤ links ∧ tree.walk links steps place = .directory reached ∧
      tree.walk links (steps ++ rest) place = tree.walk left rest reached := by
  induction links generalizing steps place with
  | zero => exact exists_walk_append_of_follow hrest (fun _ _ _ h => absurd rfl h) hfound
  | succ links ih =>
    refine exists_walk_append_of_follow hrest (fun target tail place h => ?_) hfound
    rw [follow_succ, ← List.append_assoc] at h
    rw [follow_succ, follow_succ, ← List.append_assoc]
    obtain ⟨reached, left, hleft, hwalk, hsame⟩ := ih h
    exact ⟨reached, left, Nat.le_succ_of_le hleft, hwalk, hsame⟩

theorem walk_from_root (hplace : tree.node place = some .directory) :
    tree.walk links (place.map PathStep.down ++ rest) [] = tree.walk links rest place := by
  induction place using List.reverseRecOn generalizing rest with
  | nil => rfl
  | append_singleton above name ih =>
    have habove : tree.node above = some .directory :=
      tree.node_parent above name (by rw [hplace]; exact Option.some_ne_none _)
    rw [List.map_append, List.append_assoc, ih habove]
    exact walk_directory hplace

theorem node_dropLast (hplace : tree.node place = some .directory) :
    tree.node place.dropLast = some .directory := by
  induction place using List.reverseRecOn with
  | nil => exact tree.node_root
  | append_singleton above name ih =>
    rw [List.dropLast_concat]
    exact tree.node_parent above name (by rw [hplace]; exact Option.some_ne_none _)

theorem foldl_apply_down (place names : List N) :
    (names.map PathStep.down).foldl PathStep.apply place = place ++ names := by
  induction names generalizing place with
  | nil => simp
  | cons name names ih =>
    rw [List.map_cons, List.foldl_cons, ih, PathStep.apply, List.append_assoc,
      List.singleton_append]

theorem walk_lexical {ups : List (PathStep N)} {names : List N}
    (hups : ∀ step ∈ ups, step = .here ∨ step = .up) (hplace : tree.node place = some .directory) :
    tree.walk links (ups ++ names.map PathStep.down) place =
      tree.walk links (((ups ++ names.map PathStep.down).foldl PathStep.apply place).map PathStep.down) [] := by
  induction ups generalizing place with
  | nil =>
    rw [List.nil_append, foldl_apply_down, List.map_append, walk_from_root hplace]
  | cons step ups ih =>
    have hrest : ∀ other ∈ ups, other = .here ∨ other = .up :=
      fun other hother => hups other (List.mem_cons_of_mem _ hother)
    rw [List.cons_append, List.foldl_cons]
    rcases hups step List.mem_cons_self with rfl | rfl
    · rw [walk_here]
      exact ih hrest hplace
    · rw [walk_up]
      exact ih hrest (node_dropLast hplace)

end LinkTree

end FsServer.Lib
