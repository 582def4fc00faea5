import FsServer.Migration
import Mathlib.Data.List.Induction
import Mathlib.Data.List.Nodup

/-!
# Migrations run once and in order

Registering keeps the list in the order of the versions, each version once, with its last
registration. A run goes through the registered migrations that the table does not have until one has
no `Up` or fails; the ones before it are recorded, so what is pending afterwards is what was left, and
the next run begins there.
-/

namespace FsServer

open Lib Program MigrationState MigrationManager

variable {U : Type}

/-! ### Registering -/

def Ascending (migrations : List (Migration U)) : Prop :=
  migrations.Pairwise fun first second => first.version < second.version

variable {migrations : List (Migration U)}

theorem Ascending.sort_eq (h : Ascending migrations) : sortMigrations migrations = migrations :=
  List.Pairwise.insertionSort_eq (h.imp fun hlt => hlt.le)

variable {migration : Migration U}

theorem mem_sortMigrations : migration ∈ sortMigrations migrations ↔ migration ∈ migrations :=
  List.mem_insertionSort _

theorem ascending_sort (h : (migrations.map Migration.version).Nodup) :
    Ascending (sortMigrations migrations) := by
  have hperm : (sortMigrations migrations).Perm migrations := List.perm_insertionSort _ _
  have hnodup : ((sortMigrations migrations).map Migration.version).Nodup :=
    (hperm.map _).nodup_iff.mpr h
  have hsorted : (sortMigrations migrations).Pairwise fun first second =>
      first.version ≤ second.version := by
    have htotal : Std.Total fun first second : Migration U => first.version ≤ second.version :=
      ⟨fun first second => Int.le_total _ _⟩
    have htrans : IsTrans (Migration U) fun first second => first.version ≤ second.version :=
      ⟨fun _ _ _ => Int.le_trans⟩
    exact List.pairwise_insertionSort _ _
  rw [List.Nodup, List.pairwise_map] at hnodup
  exact (hsorted.and hnodup).imp fun ⟨hle, hne⟩ => lt_of_le_of_ne hle hne

theorem Ascending.nodup (h : Ascending migrations) : (migrations.map Migration.version).Nodup := by
  rw [List.Nodup, List.pairwise_map]
  exact h.imp fun hlt => hlt.ne

theorem Ascending.set_eq_map (h : Ascending migrations) {i : Nat} (hi : i < migrations.length)
    (hversion : migrations[i].version = migration.version) :
    migrations.set i migration = migrations.map fun existing =>
      if existing.version = migration.version then migration else existing := by
  refine List.ext_getElem (by simp) fun j hj hj' => ?_
  rw [List.length_set] at hj
  rw [List.getElem_set, List.getElem_map]
  by_cases hij : i = j
  · subst hij
    rw [if_pos rfl, if_pos hversion]
  · have hne : migrations[j].version ≠ migration.version := by
      intro hsame
      have hequal := List.inj_on_of_nodup_map h.nodup (List.getElem_mem hi) (List.getElem_mem hj)
        (hversion.trans hsame.symm)
      exact hij (h.nodup.of_map.getElem_inj_iff.mp hequal)
    rw [if_neg hij, if_neg hne]

variable {m : MigrationManager U}

theorem register_spec (h : Ascending m.migrations) (migration : Migration U) :
    Ascending (m.register migration).migrations ∧
      ∀ other, other ∈ (m.register migration).migrations ↔
        other = migration ∨ other ∈ m.migrations ∧ other.version ≠ migration.version := by
  unfold register
  cases hfind : m.migrations.findIdx? fun existing =>
      decide (existing.version = migration.version) with
  | some i =>
    obtain ⟨hi, hversion, -⟩ := List.findIdx?_eq_some_iff_getElem.mp hfind
    have hset := h.set_eq_map hi (of_decide_eq_true hversion)
    have hversions : (m.migrations.set i migration).map Migration.version
        = m.migrations.map Migration.version := by
      rw [hset, List.map_map]
      refine List.map_congr_left fun existing _ => ?_
      by_cases hsame : existing.version = migration.version
      · simp [hsame]
      · simp [hsame]
    refine ⟨ascending_sort ?_, fun other => ?_⟩
    · rw [hversions]
      exact h.nodup
    · rw [mem_sortMigrations, hset, List.mem_map]
      constructor
      · rintro ⟨existing, hmem, rfl⟩
        by_cases hsame : existing.version = migration.version
        · exact .inl (if_pos hsame)
        · rw [if_neg hsame]
          exact .inr ⟨hmem, hsame⟩
      · rintro (rfl | ⟨hmem, hne⟩)
        · exact ⟨m.migrations[i], List.getElem_mem hi, if_pos (of_decide_eq_true hversion)⟩
        · exact ⟨other, hmem, if_neg hne⟩
  | none =>
    rw [List.findIdx?_eq_none_iff] at hfind
    have hother : ∀ existing ∈ m.migrations, existing.version ≠ migration.version :=
      fun existing hmem => of_decide_eq_false (hfind existing hmem)
    refine ⟨ascending_sort ?_, fun other => ?_⟩
    · rw [List.map_append, List.map_singleton]
      refine h.nodup.append (List.nodup_singleton _) ?_
      rw [List.disjoint_singleton]
      intro hmem
      obtain ⟨existing, hexisting, hsame⟩ := List.mem_map.mp hmem
      exact hother existing hexisting hsame
    · rw [mem_sortMigrations, List.mem_append, List.mem_singleton]
      constructor
      · rintro (hmem | rfl)
        · exact .inr ⟨hmem, hother other hmem⟩
        · exact .inl rfl
      · rintro (rfl | ⟨hmem, -⟩)
        · exact .inr rfl
        · exact .inl hmem

def registered (registrations : List (Migration U)) : MigrationManager U :=
  registrations.foldl register newMigrationManager

def lastRegistration (registrations : List (Migration U)) (version : Int) : Option (Migration U) :=
  registrations.reverse.find? fun migration => migration.version = version

/-- **The registered list is ascending and has the last registration of each version.** -/
theorem registered_spec (registrations : List (Migration U)) :
    Ascending (registered registrations).migrations ∧
      ∀ migration, migration ∈ (registered registrations).migrations ↔
        lastRegistration registrations migration.version = some migration := by
  induction registrations using List.reverseRecOn with
  | nil =>
    refine ⟨List.Pairwise.nil, fun migration => ?_⟩
    simp [registered, newMigrationManager, lastRegistration]
  | append_singleton registrations migration ih =>
    have hstep : registered (registrations ++ [migration])
        = (registered registrations).register migration := by
      rw [registered, List.foldl_append]
      rfl
    obtain ⟨hascending, hmem⟩ := register_spec ih.1 migration
    rw [hstep]
    refine ⟨hascending, fun other => ?_⟩
    rw [hmem, ih.2, lastRegistration, lastRegistration, List.reverse_append,
      List.reverse_singleton, List.singleton_append, List.find?_cons]
    by_cases hsame : migration.version = other.version
    · rw [decide_eq_true hsame]
      constructor
      · rintro (rfl | ⟨-, hne⟩)
        · rfl
        · exact absurd hsame.symm hne
      · intro heq
        exact .inl (Option.some.inj heq).symm
    · rw [decide_eq_false hsame]
      constructor
      · rintro (rfl | ⟨hlast, -⟩)
        · exact absurd rfl hsame
        · exact hlast
      · exact fun hlast => .inr ⟨hlast, fun heq => hsame heq.symm⟩

/-! ### Running -/

namespace MigrationState

def rows (state : MigrationState U) : List MigrationRow :=
  (state.table.map SchemaMigrations.rows).getD []

def applied (state : MigrationState U) : List Int := state.rows.map MigrationRow.version

end MigrationState

def MigrationManager.pending (m : MigrationManager U) (state : MigrationState U) :
    List (Migration U) :=
  m.migrations.filter fun migration => decide (migration.version ∉ state.applied)

/-- The call of the migration's own `Up`, which succeeded. -/
def Called (migration : Migration U) (call : UpCall U) : Prop :=
  call.version = migration.version ∧ migration.up = some call.up ∧ call.result = .ok ()

def Recorded (migration : Migration U) (row : MigrationRow) : Prop :=
  row.version = migration.version ∧ row.name = migration.name

/-- What is left, the result, and the last call of an `Up`, which failed. -/
inductive Stopped : List (Migration U) → Except MigrationError Unit → List (UpCall U) → Prop
  | finished : Stopped [] (.ok ()) []
  | missing {migration : Migration U} {rest : List (Migration U)} (hup : migration.up = none) :
      Stopped (migration :: rest) (.error (.noUp migration.version migration.name)) []
  | failing {migration : Migration U} {rest : List (Migration U)} {up : U} {cause : String}
      (hup : migration.up = some up) :
      Stopped (migration :: rest) (.error (.failed migration.version migration.name cause))
        [⟨migration.version, up, .error cause⟩]

/-- The pending migrations before the rest have been called with success and recorded, in order, and
the run has stopped at the rest. -/
inductive MigrationRun (pending : List (Migration U)) (state : MigrationState U) :
    List (Migration U) → Except MigrationError Unit → MigrationState U → Prop
  | ran {finished rest : List (Migration U)} {calls last : List (UpCall U)}
      {added : List MigrationRow} {result : Except MigrationError Unit} {final : MigrationState U}
      (hpending : pending = finished ++ rest) (hcalled : List.Forall₂ Called finished calls)
      (hrecorded : List.Forall₂ Recorded finished added) (hstopped : Stopped rest result last)
      (hcalls : final.calls = state.calls ++ calls ++ last) (hrows : final.rows = state.rows ++ added) :
      MigrationRun pending state rest result final

theorem SchemaMigrations.insert_eq {table : SchemaMigrations} {row : MigrationRow}
    (h : row.version ∉ table.rows.map MigrationRow.version) :
    ∃ after, table.insert row = some after ∧ after.rows = table.rows ++ [row] := by
  have hnodup : ((table.rows ++ [row]).map MigrationRow.version).Nodup := by
    rw [List.map_append, List.map_singleton]
    refine table.nodup.append (List.nodup_singleton _) ?_
    rw [List.disjoint_singleton]
    exact h
  exact ⟨⟨_, hnodup⟩, dif_pos hnodup, rfl⟩

variable {state : MigrationState U}

theorem total_recordMigration {α : Type} {post : α → MigrationState U → Prop} {version : Int}
    {name : String} {next : Except MigrationError Unit → Program (MigrationCall U) α}
    (htable : state.table ≠ none) (hnew : version ∉ state.applied)
    (hnext : ∀ after now, after.table ≠ none → after.calls = state.calls →
      after.rows = state.rows ++ [⟨version, name, now⟩] →
      (next (.ok ())).Total calm post after) :
    (recordMigration version name >>= next).Total calm post state := by
  obtain ⟨table, htable⟩ := Option.ne_none_iff_exists'.mp htable
  intro env
  have hrows : state.rows = table.rows := by rw [rows, htable]; rfl
  rw [applied, hrows] at hnew
  obtain ⟨row, hrow⟩ : ∃ row : MigrationRow, row = ⟨version, name, env.now⟩ := ⟨_, rfl⟩
  have hother : row.version ∉ table.rows.map MigrationRow.version := by
    rw [hrow]
    exact hnew
  obtain ⟨after, hinsert, hafter⟩ := SchemaMigrations.insert_eq hother
  rw [hrow] at hinsert hafter
  refine ⟨.ok (), { state with table := some after }, ?_, ?_⟩
  · simp only [calm, handle, exec, htable, Option.bind_some, hinsert, Bool.false_eq_true, if_false]
  · refine hnext _ env.now (Option.some_ne_none _) rfl ?_
    rw [hrows]
    exact hafter

theorem total_runEach {todo : List (Migration U)} (htable : state.table ≠ none)
    (hnodup : (todo.map Migration.version).Nodup)
    (hnew : ∀ migration ∈ todo, migration.version ∉ state.applied) :
    (runEach todo).Total calm
      (fun result final => ∃ rest, MigrationRun todo state rest result final) state := by
  induction todo generalizing state with
  | nil => exact ⟨[], .ran rfl .nil .nil .finished (by simp) (by simp)⟩
  | cons migration todo ih =>
    unfold runEach
    cases hup : migration.up with
    | none => exact ⟨_, .ran rfl .nil .nil (.missing hup) (by simp) (by simp)⟩
    | some up =>
      intro env
      refine ⟨env.upResult, _, rfl, ?_⟩
      cases env.upResult with
      | error cause => exact ⟨_, .ran rfl .nil .nil (.failing hup) (by simp) (by simp; rfl)⟩
      | ok done =>
        rw [List.map_cons, List.nodup_cons] at hnodup
        refine total_recordMigration htable (hnew migration (List.mem_cons_self ..)) ?_
        intro after now hafter hcalls hrows
        refine Total.mono _ (ih hafter hnodup.2 fun other hother => ?_) ?_
        · rw [applied, hrows, List.map_append, List.mem_append, not_or]
          refine ⟨hnew other (List.mem_cons_of_mem _ hother), fun hmem => ?_⟩
          rw [List.map_singleton, List.mem_singleton] at hmem
          have hversion : other.version = migration.version := hmem
          refine hnodup.1 ?_
          rw [← hversion]
          exact List.mem_map_of_mem hother
        · rintro result final ⟨rest, hpending, hcalled, hrecorded, hstopped, hcalls', hrows'⟩
          have hrow : Recorded migration ⟨migration.version, migration.name, now⟩ := ⟨rfl, rfl⟩
          have hcall : Called migration ⟨migration.version, up, .ok ()⟩ := ⟨rfl, hup, rfl⟩
          refine ⟨rest, .ran (by rw [hpending]; rfl) (.cons hcall hcalled)
            (.cons hrow hrecorded) hstopped ?_ ?_⟩
          · rw [hcalls', hcalls]
            simp
          · rw [hrows', hrows]
            simp
            rfl

theorem Ascending.pending (h : Ascending m.migrations) (state : MigrationState U) :
    Ascending (m.pending state) := h.filter _

theorem total_runMigrations (h : Ascending m.migrations) (state : MigrationState U) :
    m.runMigrations.Total calm
      (fun result final => ∃ rest, MigrationRun (m.pending state) state rest result final) state := by
  intro env
  obtain ⟨table, hrows⟩ : ∃ table, table = state.table.getD ⟨[], List.nodup_nil⟩ := ⟨_, rfl⟩
  obtain ⟨created, hcreated⟩ : ∃ created : MigrationState U,
      created = { state with table := some table } := ⟨_, rfl⟩
  have hsame : created.rows = state.rows := by
    rw [hcreated, rows, rows, hrows]
    cases state.table with
    | none => rfl
    | some table => rfl
  refine ⟨.ok (), created, by rw [hcreated, hrows]; rfl, fun env' => ?_⟩
  refine ⟨.ok (created.applied.insertionSort (· ≤ ·)), created, by rw [hcreated]; rfl, ?_⟩
  have hpending : sortMigrations (m.migrations.filter fun migration =>
      decide (migration.version ∉ created.applied.insertionSort (· ≤ ·))) = m.pending state := by
    have hfilter : (m.migrations.filter fun migration =>
        decide (migration.version ∉ created.applied.insertionSort (· ≤ ·))) = m.pending state := by
      refine List.filter_congr fun migration _ => decide_eq_decide.mpr (not_congr ?_)
      rw [List.mem_insertionSort, applied, hsame]
      rfl
    rw [hfilter]
    exact (h.pending state).sort_eq
  have htable : created.table ≠ none := by
    rw [hcreated]
    exact Option.some_ne_none _
  have hnew : ∀ migration ∈ m.pending state, migration.version ∉ created.applied := by
    intro migration hmem
    rw [applied, hsame]
    exact of_decide_eq_true (List.mem_filter.mp hmem).2
  have hrest : (runEach (sortMigrations (m.migrations.filter fun migration =>
      decide (migration.version ∉ created.applied.insertionSort (· ≤ ·))))).Total calm
        (fun result final => ∃ rest, MigrationRun (m.pending state) state rest result final)
        created := by
    rw [hpending]
    refine Total.mono _ (total_runEach htable (h.pending state).nodup hnew) ?_
    rintro result final ⟨rest, hdone, hcalled, hrecorded, hstopped, hcalls, hfinal⟩
    refine ⟨rest, .ran hdone hcalled hrecorded hstopped ?_ ?_⟩
    · rw [hcalls, hcreated]
    · rw [hfinal, hsame]
  exact hrest

theorem versions_of_recorded {rows : List MigrationRow} (h : List.Forall₂ Recorded migrations rows) :
    rows.map MigrationRow.version = migrations.map Migration.version := by
  induction h with
  | nil => rfl
  | cons hrow _ ih => rw [List.map_cons, List.map_cons, ih, hrow.1]

variable {rest : List (Migration U)}

variable {final : MigrationState U} {result : Except MigrationError Unit}

theorem MigrationRun.pending_eq (h : Ascending m.migrations)
    (hrun : MigrationRun (m.pending state) state rest result final) : m.pending final = rest := by
  cases hrun with
  | @ran finished _ _ _ added _ _ hpending _ hrecorded _ _ hrows =>
    have happlied : final.applied = state.applied ++ finished.map Migration.version := by
      rw [applied, hrows, List.map_append, versions_of_recorded hrecorded]
      rfl
    have hnodup := (h.pending state).nodup
    rw [hpending, List.map_append, List.nodup_append'] at hnodup
    have hsplit : m.pending final = (m.pending state).filter fun migration =>
        decide (migration.version ∉ finished.map Migration.version) := by
      rw [pending, pending, List.filter_filter]
      refine List.filter_congr fun migration _ => ?_
      rw [happlied, ← Bool.decide_and, decide_eq_decide, List.mem_append, not_or, and_comm]
    have hdone : (finished.filter fun migration =>
        decide (migration.version ∉ finished.map Migration.version)) = [] := by
      rw [List.filter_eq_nil_iff]
      intro migration hmem hnot
      exact of_decide_eq_true hnot (List.mem_map_of_mem hmem)
    have hleft : (rest.filter fun migration =>
        decide (migration.version ∉ finished.map Migration.version)) = rest := by
      rw [List.filter_eq_self]
      intro migration hmem
      exact decide_eq_true fun hother => hnodup.2.2 hother (List.mem_map_of_mem hmem)
    rw [hsplit, hpending, List.filter_append, hdone, hleft, List.nil_append]

theorem Stopped.eq_nil {last : List (UpCall U)} (h : Stopped rest (.ok ()) last) : rest = [] := by
  cases h
  rfl

theorem MigrationRun.of_nil (h : MigrationRun [] state rest result final) :
    result = .ok () ∧ final.calls = state.calls ∧ final.rows = state.rows := by
  obtain ⟨hpending, hcalled, hrecorded, hstopped, hcalls, hrows⟩ := h
  obtain ⟨rfl, rfl⟩ := List.append_eq_nil_iff.mp hpending.symm
  cases hcalled
  cases hrecorded
  cases hstopped
  rw [List.append_nil, List.append_nil] at hcalls
  rw [List.append_nil] at hrows
  exact ⟨rfl, hcalls, hrows⟩

/-- **Migrations run once, in order, and a run goes on where the last one stopped.** -/
theorem migrations_resume (registrations : List (Migration U)) (state : MigrationState U) :
    Ascending (registered registrations).migrations ∧
      (∀ migration, migration ∈ (registered registrations).migrations ↔
        lastRegistration registrations migration.version = some migration) ∧
      (registered registrations).runMigrations.Total MigrationState.calm
        (fun result final => ∃ rest,
          MigrationRun ((registered registrations).pending state) state rest result final ∧
          (registered registrations).runMigrations.Total MigrationState.calm
            (fun result' final' => (∃ rest', MigrationRun rest final rest' result' final') ∧
              (result = .ok () → result' = .ok () ∧ final'.calls = final.calls)) final)
        state := by
  obtain ⟨hascending, hlast⟩ := registered_spec registrations
  refine ⟨hascending, hlast, Total.mono _ (total_runMigrations hascending state) ?_⟩
  rintro result final ⟨rest, hrun⟩
  have hagain := total_runMigrations hascending final
  rw [hrun.pending_eq hascending] at hagain
  refine ⟨rest, hrun, Total.mono _ hagain ?_⟩
  rintro result' final' ⟨rest', hrun'⟩
  refine ⟨⟨rest', hrun'⟩, fun hok => ?_⟩
  cases hrun with
  | ran _ _ _ hstopped _ _ =>
    rw [hok] at hstopped
    rw [hstopped.eq_nil] at hrun'
    exact ⟨hrun'.of_nil.1, hrun'.of_nil.2.1⟩

end FsServer
