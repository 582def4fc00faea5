import FsServer.Download
import FsServer.Access

/-!
# Ranges of a file over HTTP

`handleRangeDownload` and `handleEncryptedDownload` of `api/http/server.go`. Without encryption the
server reads the range itself. With it the decrypted file goes to `http.ServeContent`, which is taken
to follow RFC 7233 for a single range.
-/

namespace FsServer

open Lib Service

inductive DownloadReply where
  | error (status : Nat) (message : String)
  | partialContent (contentRange : String) (contentLength : Int) (body : Bytes)

def digitsValue (digits : List Char) : Nat :=
  digits.foldl (fun value digit => 10 * value + (digit.toNat - '0'.toNat)) 0

/-- `strconv.ParseInt` with base 10 and 64 bits. -/
def parseInt (text : List Char) : Option Int :=
  let negative := text.head? = some '-'
  let digits := if negative ∨ text.head? = some '+' then text.tail else text
  if digits = [] ∨ ¬ digits.all Char.isDigit then none
  else
    let value : Int := if negative then -digitsValue digits else digitsValue digits
    if -2 ^ 63 ≤ value ∧ value ≤ maxInt64 then some value else none

def contentRange (start last size : Int) : String :=
  "bytes " ++ toString start ++ "-" ++ toString last ++ "/" ++ toString size

def maxRangeSize : Int := 32 * 1024 * 1024

def rangeBounds (size : Int) (first second : List Char) : Option (Int × Int) :=
  if first = [] then
    (parseInt second).map fun suffixLength => (int64 (size - suffixLength), int64 (size - 1))
  else
    (parseInt first).bind fun start =>
      if second = [] then some (start, int64 (size - 1))
      else (parseInt second).map fun last => (start, last)

def rangeSpec (rangeHeader : List Char) : List Char :=
  if "bytes=".toList.isPrefixOf rangeHeader then trimScheme "bytes=".toList rangeHeader
  else rangeHeader

def sendRange (metadata : FileMetadata) (start last : Int) : Service DownloadReply := do
  if start < 0 ∨ metadata.size ≤ start ∨ metadata.size ≤ last ∨ last < start then
    return .error 416 "Range out of bounds"
  else if int64 (last - start + 1) > maxRangeSize then
    return .error 416 "Range too large, maximum 32MB per request"
  else
    match ← FileManager.downloadFileDataAt metadata (int64 (last - start + 1)) start with
    | .error _ => return .error 500 "Failed to read file range"
    | .ok data => return .partialContent (contentRange start last metadata.size) data.length data

def handleRangeDownload (metadata : FileMetadata) (rangeHeader : List Char) :
    Service DownloadReply :=
  match (rangeSpec rangeHeader).splitOn '-' with
  | [first, second] =>
    match rangeBounds metadata.size first second with
    | none => return .error 416 "Invalid range"
    | some (start, last) => sendRange metadata start last
  | _ => return .error 416 "Invalid range"

/-! ### The standard library's ranges -/

structure Decimal where
  digits : List Char
  ne_nil : digits ≠ []
  all_digits : ∀ digit ∈ digits, digit.isDigit = true

def Decimal.value (decimal : Decimal) : Nat := digitsValue decimal.digits

/-- `bytes=a-b`, `bytes=a-` and `bytes=-k`. -/
inductive RangeForm where
  | between (first last : Decimal)
  | onward (first : Decimal)
  | suffix (length : Decimal)

namespace RangeForm

def header : RangeForm → List Char
  | between first last => "bytes=".toList ++ (first.digits ++ '-' :: last.digits)
  | onward first => "bytes=".toList ++ (first.digits ++ ['-'])
  | suffix length => "bytes=".toList ++ '-' :: length.digits

def bounds (size : Nat) : RangeForm → Option (Nat × Nat)
  | between first last =>
    if first.value < size ∧ first.value ≤ last.value then
      some (first.value, min last.value (size - 1))
    else none
  | onward first => if first.value < size then some (first.value, size - 1) else none
  | suffix length =>
    if 0 < length.value ∧ 0 < size then some (size - length.value, size - 1) else none

end RangeForm

def slice (content : Bytes) (first last : Nat) : Bytes := (content.drop first).take (last + 1 - first)

/-- `http.ServeContent`, for a request with one range, which is read as in RFC 7233. On two forms the
library differs: `bytes=-0` gets an empty part, and a number beyond `int64` is refused. -/
def serveContent (content : Bytes) (form : RangeForm) : DownloadReply :=
  match form.bounds content.length with
  | none => .error 416 "invalid range: failed to overlap"
  | some (first, last) =>
    .partialContent (contentRange first last content.length) (last + 1 - first : Nat)
      (slice content first last)

def handleEncryptedDownload (crypto : CryptoService) (filePath : Path) (form : RangeForm) :
    Service DownloadReply := do
  match ← storage (.read filePath) with
  | .error _ => return .error 500 "Failed to open encrypted file"
  | .ok stored =>
    match crypto.decrypt stored with
    | .error _ => return .error 500 "Failed to decrypt file"
    | .ok content => return serveContent content form

def handleDownloadRange (crypto : Option CryptoService) (metadata : FileMetadata) (filePath : Path)
    (form : RangeForm) : Service DownloadReply :=
  match crypto with
  | some service =>
    if service.enabled then handleEncryptedDownload service filePath form
    else handleRangeDownload metadata form.header
  | none => handleRangeDownload metadata form.header

end FsServer
