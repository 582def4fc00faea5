import FsServer.GoPath
import FsServer.Lib.Table

/-!
# The metadata tables

The `files` and `directories` tables and the SQL statements the services issue on them, one call per
statement (a transaction is one call as well). Both tables have `id` as their primary key and a
`UNIQUE` path, which soft-deleted rows go on occupying. The order in which a query returns its rows
is left to the environment.
-/

namespace FsServer

open Lib

abbrev Bytes := List UInt8

structure FileMetadata where
  id : String
  path : Path
  name : Path
  size : Int
  hash : String
  storageType : String
  storageLocation : String
  createdAt : String
  updatedAt : String
  isDeleted : Bool
  deriving DecidableEq

structure DirectoryMetadata where
  id : String
  path : Path
  name : Path
  createdAt : String
  updatedAt : String
  isDeleted : Bool
  deriving DecidableEq

inductive Dialect where
  | sqlite
  | postgresql
  deriving DecidableEq

structure Database where
  dialect : Dialect
  files : Table FileMetadata.id FileMetadata.path
  directories : Table DirectoryMetadata.id DirectoryMetadata.path

inductive SqlError where
  | constraint (violation : Violation)
  | negativeLimit
  | negativeOffset
  | fault
  deriving DecidableEq

/-! ### `LIKE` -/

inductive LikeToken where
  | anyRun
  | anyChar
  | literal (c : Char)
  deriving DecidableEq

/-- A pattern read with `ESCAPE '\'`. -/
def likeTokens : List Char → List LikeToken
  | [] => []
  | '\\' :: c :: rest => .literal c :: likeTokens rest
  | '%' :: rest => .anyRun :: likeTokens rest
  | '_' :: rest => .anyChar :: likeTokens rest
  | c :: rest => .literal c :: likeTokens rest

/-- SQLite's `LIKE` ignores the case of ASCII letters unless told otherwise, which the connection
string does not do. -/
def Dialect.sameChar (dialect : Dialect) (c d : Char) : Bool :=
  match dialect with
  | .sqlite => c.toLower = d.toLower
  | .postgresql => c = d

def likeMatch (dialect : Dialect) : List LikeToken → List Char → Bool
  | [], text => text.isEmpty
  | .anyRun :: rest, text => text.tails.any (likeMatch dialect rest)
  | .anyChar :: _, [] => false
  | .anyChar :: rest, _ :: text => likeMatch dialect rest text
  | .literal _ :: _, [] => false
  | .literal c :: rest, d :: text => dialect.sameChar c d && likeMatch dialect rest text

def replaceAll (old : Char) (new text : List Char) : List Char :=
  text.flatMap fun c => if c = old then new else [c]

def escapeLikePattern (text : List Char) : List Char :=
  replaceAll '_' ['\\', '_'] (replaceAll '%' ['\\', '%'] (replaceAll '\\' ['\\', '\\'] text))

/-- `path LIKE escapeLikePattern(directory + "/") || '%'`. -/
def likeUnder (dialect : Dialect) (directory path : Path) : Bool :=
  likeMatch dialect (likeTokens (escapeLikePattern (directory ++ ['/']) ++ ['%'])) path

/-! ### Statements -/

structure Entry where
  id : String
  path : Path
  deriving DecidableEq

/-- One `UPDATE ... SET path = ?, name = ?, updated_at = ? WHERE id = ?` of a rename. -/
structure PathUpdate where
  id : String
  path : Path
  name : Path
  updatedAt : String

inductive ItemType where
  | file
  | directory
  deriving DecidableEq

structure FileListItem where
  id : String
  path : Path
  name : Path
  size : Int
  type : ItemType
  createdAt : String
  deriving DecidableEq

abbrev PathFilter := Dialect → Path → Bool

inductive SqlCall : Type → Type where
  | fileExists (path : Path) : SqlCall (Except SqlError Bool)
  | fileByPath (path : Path) : SqlCall (Except SqlError (Option FileMetadata))
  | deletedFileId (path : Path) : SqlCall (Except SqlError (Option String))
  | restoreFile (row : FileMetadata) : SqlCall (Except SqlError Unit)
  | insertFile (row : FileMetadata) : SqlCall (Except SqlError Unit)
  | updateFile (row : FileMetadata) : SqlCall (Except SqlError Unit)
  | removeFile (id : String) (updatedAt : String) : SqlCall (Except SqlError Unit)
  | filesUnder (directory : Path) : SqlCall (Except SqlError (List Entry))
  | deletedFiles (cutoff : String) : SqlCall (Except SqlError (List Entry))
  | permanentlyDeleteFile (id : String) : SqlCall (Except SqlError Unit)
  | removeFiles (ids : List String) (updatedAt : String) : SqlCall (Except SqlError Unit)
  | directoryExists (path : Path) : SqlCall (Except SqlError Bool)
  | directoryByPath (path : Path) : SqlCall (Except SqlError (Option DirectoryMetadata))
  | deletedDirectoryId (path : Path) : SqlCall (Except SqlError (Option String))
  | restoreDirectory (row : DirectoryMetadata) : SqlCall (Except SqlError Unit)
  | insertDirectory (row : DirectoryMetadata) : SqlCall (Except SqlError Unit)
  | removeDirectory (id : String) (updatedAt : String) : SqlCall (Except SqlError Unit)
  | directoriesUnder (directory : Path) : SqlCall (Except SqlError (List Entry))
  | deletedDirectories (cutoff : String) : SqlCall (Except SqlError (List Entry))
  | permanentlyDeleteDirectory (id : String) : SqlCall (Except SqlError Unit)
  | removeDirectories (ids : List String) (updatedAt : String) : SqlCall (Except SqlError Unit)
  | renameAll (files directories : List PathUpdate) : SqlCall (Except SqlError Unit)
  | listItems (filter : PathFilter) (before : FileListItem → FileListItem → Bool)
      (limit offset : Int) : SqlCall (Except SqlError (List FileListItem))
  | countItems (filter : PathFilter) : SqlCall (Except SqlError Int)

/-- What a call leaves to its surroundings: the order in which a query returns its rows, how the
database compares a timestamp column with a text, and whether the call fails, after so many of its
bytes or steps. -/
structure Env where
  scan : List Entry → List Entry
  scan_perm : ∀ entries, (scan entries).Perm entries
  shuffle : List FileListItem → List FileListItem
  shuffle_perm : ∀ items, (shuffle items).Perm items
  before : String → String → Bool
  fault : Option Nat

/-- Rows in the order they were inserted and timestamps compared as text, which is SQLite, and no
fault. -/
def Env.textual : Env where
  scan := fun entries => entries
  scan_perm := fun _ => List.Perm.refl _
  shuffle := fun items => items
  shuffle_perm := fun _ => List.Perm.refl _
  before := fun time cutoff => time < cutoff
  fault := none

def FileMetadata.entry (row : FileMetadata) : Entry := ⟨row.id, row.path⟩

def DirectoryMetadata.entry (row : DirectoryMetadata) : Entry := ⟨row.id, row.path⟩

def FileMetadata.item (row : FileMetadata) : FileListItem :=
  ⟨row.id, row.path, row.name, row.size, .file, row.createdAt⟩

def DirectoryMetadata.item (row : DirectoryMetadata) : FileListItem :=
  ⟨row.id, row.path, row.name, 0, .directory, row.createdAt⟩

def FileMetadata.setPath (row : FileMetadata) (change : PathUpdate) : FileMetadata :=
  { row with path := change.path, name := change.name, updatedAt := change.updatedAt }

def DirectoryMetadata.setPath (row : DirectoryMetadata) (change : PathUpdate) : DirectoryMetadata :=
  { row with path := change.path, name := change.name, updatedAt := change.updatedAt }

namespace Database

def onFiles (db : Database) (result : Except Violation (Table FileMetadata.id FileMetadata.path)) :
    Except SqlError Unit × Database :=
  match result with
  | .ok files => (.ok (), { db with files := files })
  | .error violation => (.error (.constraint violation), db)

def onDirectories (db : Database)
    (result : Except Violation (Table DirectoryMetadata.id DirectoryMetadata.path)) :
    Except SqlError Unit × Database :=
  match result with
  | .ok directories => (.ok (), { db with directories := directories })
  | .error violation => (.error (.constraint violation), db)

def renameAll (db : Database) (files directories : List PathUpdate) :
    Except Violation Database := do
  let renamedFiles ← files.foldlM (fun table change =>
    table.update (fun row => row.id = change.id) fun row => row.setPath change) db.files
  let renamedDirectories ← directories.foldlM (fun table change =>
    table.update (fun row => row.id = change.id) fun row => row.setPath change) db.directories
  return { db with files := renamedFiles, directories := renamedDirectories }

def matching (db : Database) (filter : PathFilter) : List FileListItem :=
  ((db.files.select fun row => !row.isDeleted && filter db.dialect row.path).map
    FileMetadata.item) ++
  (db.directories.select fun row => !row.isDeleted && filter db.dialect row.path).map
    DirectoryMetadata.item

/-- `LIMIT limit OFFSET offset`: SQLite takes a negative limit for none and a negative offset for
zero, PostgreSQL refuses both. -/
def window (dialect : Dialect) (limit offset : Int) (items : List FileListItem) :
    Except SqlError (List FileListItem) :=
  match dialect with
  | .sqlite =>
    let rest := items.drop offset.toNat
    .ok (if limit < 0 then rest else rest.take limit.toNat)
  | .postgresql =>
    if limit < 0 then .error .negativeLimit
    else if offset < 0 then .error .negativeOffset
    else .ok ((items.drop offset.toNat).take limit.toNat)

def exec (env : Env) (db : Database) : {β : Type} → SqlCall β → β × Database
  | _, .fileExists path =>
    (.ok (db.files.select fun row => decide (row.path = path) && !row.isDeleted).isEmpty.not, db)
  | _, .fileByPath path =>
    (.ok (db.files.selectOne fun row => decide (row.path = path) && !row.isDeleted), db)
  | _, .deletedFileId path =>
    (.ok ((db.files.selectOne fun row =>
      decide (row.path = path) && row.isDeleted).map FileMetadata.id), db)
  | _, .restoreFile new =>
    db.onFiles (db.files.update (fun row => row.path = new.path) fun row =>
      { row with
        id := new.id, name := new.name, size := new.size, hash := new.hash,
        storageType := new.storageType, storageLocation := new.storageLocation,
        createdAt := new.createdAt, updatedAt := new.updatedAt, isDeleted := false })
  | _, .insertFile new => db.onFiles (db.files.insert new)
  | _, .updateFile new =>
    db.onFiles (db.files.update (fun row => row.id = new.id) fun row =>
      { row with
        path := new.path, name := new.name, size := new.size, hash := new.hash,
        storageType := new.storageType, storageLocation := new.storageLocation,
        updatedAt := new.updatedAt, isDeleted := new.isDeleted })
  | _, .removeFile id now =>
    db.onFiles (db.files.update (fun row => row.id = id) fun row =>
      { row with isDeleted := true, updatedAt := now })
  | _, .filesUnder directory =>
    (.ok (env.scan ((db.files.select fun row =>
      likeUnder db.dialect directory row.path && !row.isDeleted).map FileMetadata.entry)), db)
  | _, .deletedFiles cutoff =>
    (.ok (env.scan ((db.files.select fun row =>
      row.isDeleted && env.before row.updatedAt cutoff).map FileMetadata.entry)), db)
  | _, .permanentlyDeleteFile id =>
    (.ok (), { db with files := db.files.delete fun row => row.id = id })
  | _, .removeFiles ids now =>
    db.onFiles (db.files.update (fun row => row.id ∈ ids) fun row =>
      { row with isDeleted := true, updatedAt := now })
  | _, .directoryExists path =>
    (.ok (db.directories.select fun row =>
      decide (row.path = path) && !row.isDeleted).isEmpty.not, db)
  | _, .directoryByPath path =>
    (.ok (db.directories.selectOne fun row => decide (row.path = path) && !row.isDeleted), db)
  | _, .deletedDirectoryId path =>
    (.ok ((db.directories.selectOne fun row =>
      decide (row.path = path) && row.isDeleted).map DirectoryMetadata.id), db)
  | _, .restoreDirectory new =>
    db.onDirectories (db.directories.update (fun row => row.path = new.path) fun row =>
      { row with
        id := new.id, name := new.name, createdAt := new.createdAt, updatedAt := new.updatedAt,
        isDeleted := false })
  | _, .insertDirectory new => db.onDirectories (db.directories.insert new)
  | _, .removeDirectory id now =>
    db.onDirectories (db.directories.update (fun row => row.id = id) fun row =>
      { row with isDeleted := true, updatedAt := now })
  | _, .directoriesUnder directory =>
    (.ok (env.scan ((db.directories.select fun row =>
      likeUnder db.dialect directory row.path && !row.isDeleted).map DirectoryMetadata.entry)), db)
  | _, .deletedDirectories cutoff =>
    (.ok (env.scan ((db.directories.select fun row =>
      row.isDeleted && env.before row.updatedAt cutoff).map DirectoryMetadata.entry)), db)
  | _, .permanentlyDeleteDirectory id =>
    (.ok (), { db with directories := db.directories.delete fun row => row.id = id })
  | _, .removeDirectories ids now =>
    db.onDirectories (db.directories.update (fun row => row.id ∈ ids) fun row =>
      { row with isDeleted := true, updatedAt := now })
  | _, .renameAll files directories =>
    match db.renameAll files directories with
    | .ok renamed => (.ok (), renamed)
    | .error violation => (.error (.constraint violation), db)
  -- rows that compare equal come in any order, which may be another one in the next query
  | _, .listItems filter before limit offset =>
    (window db.dialect limit offset ((env.shuffle (db.matching filter)).mergeSort before), db)
  | _, .countItems filter => (.ok (db.matching filter).length, db)

end Database

end FsServer
