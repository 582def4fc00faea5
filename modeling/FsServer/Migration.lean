import FsServer.Lib.Program
import Mathlib.Data.List.Sort
import Mathlib.Algebra.Order.Ring.Int

/-!
# Migrations

`database/migration.go`. Migrations are registered in the order of their versions, and a run calls the
`Up` of each one that the table `schema_migrations` does not have, and records it there. What an `Up`
does is not looked at, only that it was called and what it returned.
-/

namespace FsServer

open Lib Program

variable {U : Type}

structure Migration (U : Type) where
  version : Int
  name : String
  up : Option U

structure MigrationManager (U : Type) where
  migrations : List (Migration U)

def newMigrationManager : MigrationManager U := ⟨[]⟩

/-- `sort.Slice` by version. The versions it is given are distinct, so that it is not stable makes no
difference. -/
def sortMigrations (migrations : List (Migration U)) : List (Migration U) :=
  migrations.insertionSort fun first second => first.version ≤ second.version

def MigrationManager.register (m : MigrationManager U) (migration : Migration U) :
    MigrationManager U :=
  match m.migrations.findIdx? fun existing => existing.version = migration.version with
  | some i => ⟨sortMigrations (m.migrations.set i migration)⟩
  | none => ⟨sortMigrations (m.migrations ++ [migration])⟩

/-! ### The table of migrations -/

structure MigrationRow where
  version : Int
  name : String
  appliedAt : String

/-- `schema_migrations`, with `version` as its primary key. -/
structure SchemaMigrations where
  rows : List MigrationRow
  nodup : (rows.map MigrationRow.version).Nodup

def SchemaMigrations.insert (table : SchemaMigrations) (row : MigrationRow) :
    Option SchemaMigrations :=
  if h : ((table.rows ++ [row]).map MigrationRow.version).Nodup then some ⟨table.rows ++ [row], h⟩
  else none

inductive MigrationCall (U : Type) : Type → Type where
  | createTable : MigrationCall U (Except Unit Unit)
  | selectVersions : MigrationCall U (Except Unit (List Int))
  | insertVersion (version : Int) (name : String) : MigrationCall U (Except Unit Unit)
  | callUp (version : Int) (up : U) : MigrationCall U (Except String Unit)

/-- Whether a statement fails, what an `Up` returns, and the time. -/
structure MigrationEnv where
  statementFails : Bool
  upResult : Except String Unit
  now : String

/-- A call of an `Up` and what it returned. -/
structure UpCall (U : Type) where
  version : Int
  up : U
  result : Except String Unit

structure MigrationState (U : Type) where
  table : Option SchemaMigrations
  calls : List (UpCall U)

namespace MigrationState

def exec (state : MigrationState U) (env : MigrationEnv) :
    {β : Type} → MigrationCall U β → β × MigrationState U
  | _, .createTable =>
    if env.statementFails then (.error (), state)
    else (.ok (), { state with table := some (state.table.getD ⟨[], List.nodup_nil⟩) })
  | _, .selectVersions =>
    if env.statementFails then (.error (), state)
    else
      match state.table with
      | none => (.error (), state)
      | some table =>
        (.ok ((table.rows.map MigrationRow.version).insertionSort (· ≤ ·)), state)
  | _, .insertVersion version name =>
    if env.statementFails then (.error (), state)
    else
      match state.table.bind fun table => table.insert ⟨version, name, env.now⟩ with
      | none => (.error (), state)
      | some table => (.ok (), { state with table := some table })
  | _, .callUp version up =>
    (env.upResult, { state with calls := state.calls ++ [⟨version, up, env.upResult⟩] })

def handle : Handler MigrationEnv (MigrationCall U) (MigrationState U) := fun _ env call state =>
  some (state.exec env call)

def calm : Handler MigrationEnv (MigrationCall U) (MigrationState U) := fun _ env call state =>
  handle _ { env with statementFails := false } call state

end MigrationState

/-! ### A run -/

inductive MigrationError where
  | createTable
  | query
  | noUp (version : Int) (name : String)
  | failed (version : Int) (name : String) (cause : String)
  | record (version : Int)

/-- `Initialize`. -/
def initializeTable : Program (MigrationCall U) (Except MigrationError Unit) := do
  match ← perform .createTable with
  | .error _ => return .error .createTable
  | .ok () => return .ok ()

def getAppliedVersions : Program (MigrationCall U) (Except MigrationError (List Int)) := do
  match ← perform .selectVersions with
  | .error _ => return .error .query
  | .ok versions => return .ok versions

def recordMigration (version : Int) (name : String) :
    Program (MigrationCall U) (Except MigrationError Unit) := do
  match ← perform (.insertVersion version name) with
  | .error _ => return .error (.record version)
  | .ok () => return .ok ()

namespace MigrationManager

def getPendingMigrations (m : MigrationManager U) :
    Program (MigrationCall U) (Except MigrationError (List (Migration U))) := do
  match ← getAppliedVersions with
  | .error cause => return .error cause
  | .ok applied =>
    return .ok (sortMigrations (m.migrations.filter fun migration =>
      decide (migration.version ∉ applied)))

def runEach : List (Migration U) → Program (MigrationCall U) (Except MigrationError Unit)
  | [] => return .ok ()
  | migration :: rest => do
    match migration.up with
    | none => return .error (.noUp migration.version migration.name)
    | some up =>
      match ← perform (.callUp migration.version up) with
      | .error cause => return .error (.failed migration.version migration.name cause)
      | .ok () =>
        match ← recordMigration migration.version migration.name with
        | .error cause => return .error cause
        | .ok () => runEach rest

def runMigrations (m : MigrationManager U) :
    Program (MigrationCall U) (Except MigrationError Unit) := do
  match ← initializeTable with
  | .error cause => return .error cause
  | .ok () =>
    match ← m.getPendingMigrations with
    | .error cause => return .error cause
    | .ok pending => runEach pending

end MigrationManager

end FsServer
