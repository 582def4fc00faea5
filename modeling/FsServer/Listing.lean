import FsServer.System

/-!
# Listing files and directories

`FileListService`: one page of the rows of both tables per call, cut out of the sorted rows by
`LIMIT` and `OFFSET`. How the database orders texts and timestamps is a parameter.
-/

namespace FsServer

open Lib Program Service

structure Collation where
  textLe : List Char → List Char → Bool
  textLe_trans : ∀ a b c, textLe a b = true → textLe b c = true → textLe a c = true
  textLe_total : ∀ a b, (textLe a b || textLe b a) = true
  timeLe : String → String → Bool
  timeLe_trans : ∀ a b c, timeLe a b = true → timeLe b c = true → timeLe a c = true
  timeLe_total : ∀ a b, (timeLe a b || timeLe b a) = true

inductive SortColumn where
  | name
  | path
  | size
  | createdAt
  | type
  deriving DecidableEq

/-- `allowedSort`, with the fallback. -/
def SortColumn.ofString (sortBy : String) : SortColumn :=
  if sortBy = "name" then .name
  else if sortBy = "path" then .path
  else if sortBy = "size" then .size
  else if sortBy = "created_at" then .createdAt
  else if sortBy = "type" then .type
  else .name

def ItemType.text : ItemType → List Char
  | .file => "file".toList
  | .directory => "directory".toList

def SortColumn.le (collation : Collation) (column : SortColumn) (a b : FileListItem) : Bool :=
  match column with
  | .name => collation.textLe a.name b.name
  | .path => collation.textLe a.path b.path
  | .size => a.size ≤ b.size
  | .createdAt => collation.timeLe a.createdAt b.createdAt
  | .type => collation.textLe a.type.text b.type.text

/-- `strings.EqualFold(sortOrder, "desc")`; the long s is the only letter outside ASCII that folds to
one of these. -/
def isDesc (sortOrder : String) : Bool :=
  match sortOrder.toList with
  | [d, e, s, c] => d ∈ ['d', 'D'] && e ∈ ['e', 'E'] && s ∈ ['s', 'S', 'ſ'] && c ∈ ['c', 'C']
  | _ => false

inductive ListError where
  | listItems (cause : SqlError)
  | countItems (cause : SqlError)
  deriving DecidableEq

structure FileListResult where
  total : Int
  page : Int
  pageSize : Int
  hasMore : Bool
  items : List FileListItem

/-- What the calls for the pages of one listing have in common; the page size is an `int`. -/
structure ListQuery where
  path : Path
  recursive : Bool
  pageSize : Int
  pageSize_le : pageSize ≤ maxInt64
  sortBy : String
  sortOrder : String

namespace ListQuery

def listPath (query : ListQuery) : Path :=
  let path := normalizePath query.path
  if path = ['.'] then [] else path

def pageSizeOrDefault (query : ListQuery) : Int := if query.pageSize < 1 then 20 else query.pageSize

def whereClause (query : ListQuery) : PathFilter :=
  if query.listPath = [] then
    if query.recursive then fun _ _ => true
    else fun dialect path => !likeMatch dialect (likeTokens "%/%".toList) path
  else
    let escapedPrefix := escapeLikePattern (query.listPath ++ ['/'])
    if query.recursive then fun dialect path => likeUnder dialect query.listPath path
    else fun dialect path =>
      likeUnder dialect query.listPath path &&
        !likeMatch dialect (likeTokens (escapedPrefix ++ "%/%".toList)) path

def orderBy (collation : Collation) (query : ListQuery) (a b : FileListItem) : Bool :=
  let column := SortColumn.ofString query.sortBy
  if isDesc query.sortOrder then column.le collation b a else column.le collation a b

end ListQuery

namespace FileListService

variable (collation : Collation)

def listFilesWith (query : ListQuery) (page : Int) (includeTotal : Bool) :
    Service (Except ListError FileListResult) := do
  let page := if page < 1 then 1 else page
  let pageSize := query.pageSizeOrDefault
  let fetchLimit := int64 (pageSize + 1)
  let offset := int64 ((page - 1) * pageSize)
  match ← sql (.listItems query.whereClause (query.orderBy collation) fetchLimit offset) with
  | .error cause => return .error (.listItems cause)
  | .ok items =>
    let hasMore := decide (pageSize < items.length)
    let items := if hasMore then items.take pageSize.toNat else items
    if includeTotal then
      match ← sql (.countItems query.whereClause) with
      | .error cause => return .error (.countItems cause)
      | .ok total => return .ok ⟨total, page, pageSize, hasMore, items⟩
    else return .ok ⟨-1, page, pageSize, hasMore, items⟩

def listFiles (query : ListQuery) (page : Int) : Service (Except ListError FileListResult) :=
  listFilesWith collation query page false

def listFilesWithTotal (query : ListQuery) (page : Int) :
    Service (Except ListError FileListResult) :=
  listFilesWith collation query page true

def listPages (query : ListQuery) : (fuel : Nat) → (page : Int) → (collected : List FileListItem) →
    Service (Option (Except ListError (List FileListItem)))
  | 0, _, _ => return none
  | fuel + 1, page, collected => do
    match ← listFiles collation query page with
    | .error cause => return some (.error cause)
    | .ok result =>
      if result.hasMore then listPages query fuel (page + 1) (collected ++ result.items)
      else return some (.ok (collected ++ result.items))

end FileListService

end FsServer
