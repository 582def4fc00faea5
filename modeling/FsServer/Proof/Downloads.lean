import FsServer.GrpcServer
import FsServer.HttpDownload
import FsServer.Proof.FileManager

/-!
# Parts of a file

A gRPC download sends the file in consecutive messages, and a range over HTTP is the slice that its
header announces. Where a range is read by the server itself, one that reaches past the end of the
file is refused, which the standard library does not do.
-/

namespace FsServer

open Lib Program World GrpcServer

/-- The row's content is in storage, and its size is right. -/
structure Serves (world : World) (row : FileMetadata) (content : Bytes) : Prop where
  read : world.storage.read (normalizePath row.path) = .ok content
  size : row.size = content.length
  max : row.size ≤ maxInt64

variable {world : World} {row : FileMetadata} {content : Bytes} {size offset : Int}

theorem Serves.total_downloadFileDataAt {α : Type} {post : α → World → Prop}
    {rest : Except FileError Bytes → Service α} (h : Serves world row content) (hsize : 0 < size)
    (hoffset : 0 ≤ offset)
    (hrest : (rest (.ok ((content.drop offset.toNat).take size.toNat))).Total handle post world) :
    (FileManager.downloadFileDataAt row size offset >>= rest).Total handle post world := by
  obtain ⟨hvalid, hobject⟩ := LocalStorage.read_eq_ok.mp h.read
  unfold FileManager.downloadFileDataAt
  rw [bind_bind, total_storage]
  simp only [LocalStorage.exec, LocalStorage.readAt_object hvalid hobject hsize hoffset]
  exact hrest

/-! ### Messages -/

def Consecutive : Int → List DownloadResponse → Prop
  | _, [] => True
  | offset, message :: later =>
    message.offset = offset ∧ Consecutive (offset + message.data.length) later

structure Reassembles (content : Bytes) (start : Int) (sent : List DownloadResponse) : Prop where
  consecutive : Consecutive start sent
  sized : ∀ message ∈ sent, message.data ≠ [] ∧ message.data.length ≤ 32 * 1024 * 1024
  bytes : (sent.map DownloadResponse.data).flatten = content.drop start.toNat

theorem reassembles_nil (h : content.length ≤ offset) : Reassembles content offset [] where
  consecutive := trivial
  sized _ hmem := nomatch hmem
  bytes := by
    rw [List.drop_eq_nil_of_le (by omega)]
    rfl

theorem Reassembles.cons {data : Bytes} {count total : Int} {later : List DownloadResponse}
    (hdata : data = (content.drop offset.toNat).take count.toNat) (hne : data ≠ [])
    (hcount : count ≤ 32 * 1024 * 1024) (hoffset : 0 ≤ offset)
    (h : Reassembles content (offset + data.length) later) :
    Reassembles content offset (⟨data, offset, total⟩ :: later) where
  consecutive := ⟨rfl, h.consecutive⟩
  sized message hmem := by
    rcases List.mem_cons.mp hmem with rfl | hmem
    · refine ⟨hne, ?_⟩
      have hle : data.length ≤ count.toNat := by
        rw [hdata]
        exact List.length_take_le _ _
      change data.length ≤ _
      omega
    · exact h.sized message hmem
  bytes := by
    have hstart : (offset + data.length).toNat = offset.toNat + data.length := by omega
    rw [List.map_cons, List.flatten_cons, h.bytes, hstart, ← List.drop_drop]
    conv_rhs => rw [← List.take_append_drop data.length (content.drop offset.toNat)]
    congr 1
    rw [hdata, List.take_eq_take_iff, List.length_take]
    omega

/-- The loop is over; it has sent everything if it returns no error, which only the stream can keep
it from. -/
def Delivers (takes : DownloadResponse → Bool) (content : Bytes) (start : Int)
    (reply : List DownloadResponse × Option (Except GrpcError Unit)) : Prop :=
  ∃ outcome, reply.2 = some outcome ∧ (outcome = .ok () → Reassembles content start reply.1) ∧
    ((∀ message, takes message = true) → outcome = .ok ())

variable {rounds : Nat}

theorem Serves.total_sendFrom (h : Serves world row content) (takes : DownloadResponse → Bool)
    (hsize : 0 < size) (hmax : size ≤ 32 * 1024 * 1024) (hoffset : 0 ≤ offset)
    (hrounds : (row.size - offset).toNat < rounds) :
    (sendFrom takes row size rounds offset).Total handle
      (fun reply after => after = world ∧ Delivers takes content offset reply) world := by
  -- The bytes that are left go down with every message, so the rounds last.
  induction rounds generalizing offset with
  | zero => omega
  | succ rounds ih =>
    unfold sendFrom
    split_ifs with hleft
    · refine h.total_downloadFileDataAt hsize hoffset ?_
      generalize hdata : (content.drop offset.toNat).take size.toNat = data
      have hlength : data.length = min size.toNat (content.length - offset.toNat) := by
        rw [← hdata, List.length_take, List.length_drop]
      have hsame := h.size
      have hne : data ≠ [] := by
        apply List.ne_nil_of_length_pos
        omega
      dsimp only
      rw [if_neg hne]
      split_ifs with htakes
      · have hnext : 0 ≤ offset + (data.length : Int) := by omega
        have hfewer : (row.size - (offset + data.length)).toNat < rounds := by omega
        rw [total_bind]
        refine (ih hnext hfewer).mono handle ?_
        rintro ⟨later, result⟩ after ⟨rfl, outcome, rfl, hsent, hok⟩
        exact ⟨rfl, outcome, rfl, fun hdone => (hsent hdone).cons hdata.symm hne hmax hoffset, hok⟩
      · exact ⟨rfl, _, rfl, (fun hok => nomatch hok), fun hall => absurd (hall _) htakes⟩
    · refine ⟨rfl, _, rfl, fun _ => reassembles_nil ?_, fun _ => rfl⟩
      rw [← h.size]
      exact not_lt.mp hleft

theorem yields_sendFrom (takes : DownloadResponse → Bool)
    (hrounds : (row.size - offset).toNat < rounds) :
    (sendFrom takes row size rounds offset).Yields fun reply => reply.2 ≠ none := by
  induction rounds generalizing offset with
  | zero => omega
  | succ rounds ih =>
    unfold sendFrom
    split_ifs with hleft
    · have hread : (FileManager.downloadFileDataAt row size offset).Yields fun _ => True :=
        fun reply => by cases reply <;> trivial
      refine yields_bind hread ?_
      rintro (cause | data) -
      · exact Option.some_ne_none _
      dsimp only
      split_ifs with hdata
      · exact Option.some_ne_none _
      · have hpos := List.length_pos_of_ne_nil hdata
        exact yields_bind (ih (by omega)) fun later hlater => hlater
      · exact Option.some_ne_none _
    · exact Option.some_ne_none _

theorem downloadChunkSize_range (requested : Int) :
    0 < downloadChunkSize requested ∧
      downloadChunkSize requested ≤ 32 * 1024 * 1024 := by
  unfold downloadChunkSize
  dsimp only
  split_ifs <;> omega

/-- A download over gRPC ends, and what it has sent then is the file from the offset on. -/
theorem grpcDownload_reassembles {path : Path} (takes : DownloadResponse → Bool)
    (chunkSize offset : Int) {rounds : Nat} (hvalid : isValidFilePath path = true)
    (hlive : world.db.liveFile (normalizePath (normalizePath path)) = some row)
    (h : Serves world row content) (hrounds : (row.size - max 0 offset).toNat < rounds) :
    (GrpcServer.sendFrom takes row (GrpcServer.downloadChunkSize chunkSize) rounds
        (max 0 offset)).Yields (fun reply => reply.2 ≠ none) ∧
      (GrpcServer.downloadFile takes rounds path chunkSize offset).Total handle
        (fun reply after => after = world ∧ Delivers takes content (max 0 offset) reply) world := by
  obtain ⟨hpos, hmax⟩ := downloadChunkSize_range chunkSize
  have hstart : (if offset > 0 then offset else 0) = max 0 offset := by
    split_ifs <;> omega
  refine ⟨yields_sendFrom takes hrounds, ?_⟩
  unfold downloadFile
  rw [if_neg (not_not.mpr hvalid)]
  refine total_getFileMetadata_found hlive ?_
  dsimp only
  rw [hstart]
  exact h.total_sendFrom takes hpos hmax (le_max_left _ _) hrounds

theorem exists_served (data : Bytes) (hmax : (data.length : Int) ≤ maxInt64) :
    ∃ world row, world.db.liveFile ['f'] = some row ∧ world.storage.read ['f'] = .ok data ∧
      Serves world row data := by
  obtain ⟨-, world, row, -, hlive, hread, hpath, hsize⟩ : ∃ result world row,
      (FileManager.uploadFile (fun _ => "") (.sample 1 "a") ['f'] data).run handle .textual
        (initial .postgresql [['r']]) = some (result, world) ∧
      world.db.liveFile ['f'] = some row ∧ world.storage.read ['f'] = .ok data ∧
      normalizePath row.path = ['f'] ∧ row.size = data.length := ⟨_, _, _, rfl, rfl, rfl, rfl, rfl⟩
  exact ⟨world, row, hlive, hread, by rw [hpath, hread], hsize, by rw [hsize]; exact hmax⟩

theorem grpcDownload_reassembles_twoMessages :
    ∃ world row, world.db.liveFile ['f'] = some row ∧ Serves world row [97, 98, 99] ∧
      (GrpcServer.downloadFile (fun _ => true) 4 ['f'] 2 0).Total handle
        (fun reply after => after = world ∧ Delivers (fun _ => true) [97, 98, 99] 0 reply) world := by
  obtain ⟨world, row, hlive, -, h⟩ := exists_served [97, 98, 99] (by decide)
  refine ⟨world, row, hlive, h, ?_⟩
  have hvalid : isValidFilePath ['f'] = true := by decide
  refine (grpcDownload_reassembles (fun _ => true) 2 0 hvalid hlive h ?_).2
  rw [h.size]
  decide

/-! ### Ranges -/

def rangeReply (content : Bytes) (start last : Int) : DownloadReply :=
  if start < 0 ∨ content.length ≤ start ∨ content.length ≤ last ∨ last < start then
    .error 416 "Range out of bounds"
  else if last - start + 1 > maxRangeSize then
    .error 416 "Range too large, maximum 32MB per request"
  else
    .partialContent (contentRange start last content.length) (last + 1 - start)
      (slice content start.toNat last.toNat)

theorem Serves.total_sendRange (h : Serves world row content) (start last : Int) :
    (sendRange row start last).Total handle
      (fun reply after => reply = rangeReply content start last ∧ after = world) world := by
  have hmax := h.max
  unfold sendRange rangeReply
  rw [h.size] at hmax ⊢
  by_cases hout : start < 0 ∨ content.length ≤ start ∨ content.length ≤ last ∨ last < start
  · rw [if_pos hout, if_pos hout]
    exact ⟨rfl, rfl⟩
  rw [if_neg hout, if_neg hout, int64_of_range (by omega) (by omega)]
  by_cases hlong : last - start + 1 > maxRangeSize
  · rw [if_pos hlong, if_pos hlong]
    exact ⟨rfl, rfl⟩
  rw [if_neg hlong, if_neg hlong]
  refine h.total_downloadFileDataAt (by omega) (by omega) ⟨?_, rfl⟩
  have hcount : (last - start + 1).toNat = last.toNat + 1 - start.toNat := by omega
  have hlength : (((content.drop start.toNat).take (last - start + 1).toNat).length : Int) =
      last + 1 - start := by
    rw [List.length_take, List.length_drop]
    omega
  rw [hlength, hcount]
  rfl

def plainReply (content : Bytes) : List (List Char) → DownloadReply
  | [first, second] =>
    match rangeBounds content.length first second with
    | none => .error 416 "Invalid range"
    | some bounds => rangeReply content bounds.1 bounds.2
  | _ => .error 416 "Invalid range"

theorem Serves.total_handleRangeDownload (h : Serves world row content) (header : List Char) :
    (handleRangeDownload row header).Total handle
      (fun reply after => reply = plainReply content ((rangeSpec header).splitOn '-') ∧
        after = world) world := by
  unfold handleRangeDownload plainReply
  rw [h.size]
  rcases (rangeSpec header).splitOn '-' with _ | ⟨first, _ | ⟨second, _ | ⟨third, rest⟩⟩⟩
  · exact ⟨rfl, rfl⟩
  · exact ⟨rfl, rfl⟩
  · dsimp only
    cases rangeBounds content.length first second with
    | none => exact ⟨rfl, rfl⟩
    | some bounds => exact h.total_sendRange bounds.1 bounds.2
  · exact ⟨rfl, rfl⟩

/-- A partial answer is the slice that it announces. -/
def Announced (content : Bytes) : DownloadReply → Prop
  | .error _ _ => True
  | .partialContent range length body => ∃ start last : Nat, start ≤ last ∧ last < content.length ∧
      last + 1 - start ≤ 32 * 1024 * 1024 ∧ range = contentRange start last content.length ∧
      length = (last + 1 - start : Nat) ∧ body = slice content start last

theorem announced_rangeReply (content : Bytes) (start last : Int) :
    Announced content (rangeReply content start last) := by
  unfold rangeReply maxRangeSize
  split_ifs with hout hlong
  · trivial
  · trivial
  · refine ⟨start.toNat, last.toNat, by omega, by omega, by omega, ?_, by omega, rfl⟩
    rw [Int.toNat_of_nonneg (by omega), Int.toNat_of_nonneg (by omega)]

/-- Every range that is answered is the slice that it announces, whatever the header. -/
theorem rangeDownload_announced (h : Serves world row content) (header : List Char) :
    (handleRangeDownload row header).Total handle
      (fun reply after => Announced content reply ∧ after = world) world := by
  refine Total.mono handle (h.total_handleRangeDownload header) ?_
  rintro _ after ⟨rfl, hafter⟩
  refine ⟨?_, hafter⟩
  unfold plainReply
  split
  · split
    · trivial
    · exact announced_rangeReply _ _ _
  · trivial

theorem rangeDownload_announced_byte :
    ∃ world row, Serves world row [97] ∧ (handleRangeDownload row "bytes=0-".toList).Total handle
      (fun reply after => Announced [97] reply ∧ after = world) world := by
  obtain ⟨world, row, -, -, h⟩ := exists_served [97] (by decide)
  exact ⟨world, row, h, rangeDownload_announced h _⟩

/-! ### Both ways of reading a range -/

theorem Decimal.parseInt_digits (decimal : Decimal) :
    parseInt decimal.digits =
      if (decimal.value : Int) ≤ maxInt64 then some (decimal.value : Int) else none := by
  have hhead : decimal.digits.head? ≠ some '-' ∧ decimal.digits.head? ≠ some '+' := by
    constructor
    · intro hsign
      exact absurd (decimal.all_digits _ (List.mem_of_head? hsign)) (by decide)
    · intro hsign
      exact absurd (decimal.all_digits _ (List.mem_of_head? hsign)) (by decide)
  have hall : decimal.digits.all Char.isDigit = true := List.all_eq_true.mpr decimal.all_digits
  have hmin : (-2 ^ 63 : Int) ≤ decimal.value := by omega
  unfold parseInt
  simp only [hhead.1, hhead.2, or_self, if_false, decimal.ne_nil, hall, not_true_eq_false]
  rw [← Decimal.value]
  simp only [hmin, true_and]

theorem Decimal.splitOn_digits (decimal : Decimal) :
    decimal.digits.splitOn '-' = [decimal.digits] := by
  apply List.splitOn_eq_singleton
  intro hdash
  exact absurd (decimal.all_digits _ hdash) (by decide)

def RangeForm.parts : RangeForm → List (List Char)
  | between first last => [first.digits, last.digits]
  | onward first => [first.digits, []]
  | suffix length => [[], length.digits]

theorem RangeForm.splitOn_header (form : RangeForm) :
    (rangeSpec form.header).splitOn '-' = form.parts := by
  cases form with
  | between first last =>
    have hsplit := List.splitOn_append_cons_self first.digits last.digits (a := '-')
    rw [first.splitOn_digits, last.splitOn_digits] at hsplit
    exact hsplit
  | onward first =>
    have hsplit := List.splitOn_append_cons_self first.digits [] (a := '-')
    rw [first.splitOn_digits] at hsplit
    exact hsplit
  | suffix length =>
    have hsplit := List.splitOn_append_cons_self [] length.digits (a := '-')
    rw [length.splitOn_digits] at hsplit
    exact hsplit

/-- What a client sees of an answer: its status, and the range and bytes of a partial one. -/
def DownloadReply.seen : DownloadReply → Nat × Option (String × Bytes)
  | .error status _ => (status, none)
  | .partialContent range _ body => (206, some (range, body))

/-- The range does not go past the end of the file, unless it starts there. -/
def RangeForm.Within (size : Nat) : RangeForm → Prop
  | between first last => ¬ (first.value < size ∧ size ≤ last.value)
  | onward _ => True
  | suffix length => length.value ≤ size

/-- The form asks for no more of a file than one answer may carry. -/
def RangeForm.Short (size : Nat) (form : RangeForm) : Prop :=
  ∀ first last, form.bounds size = some (first, last) → (last : Int) - first + 1 ≤ maxRangeSize

variable {first last : Nat}

theorem seen_rangeReply (hle : first ≤ last) (hlt : last < content.length)
    (hshort : (last : Int) - first + 1 ≤ maxRangeSize) :
    (rangeReply content first last).seen =
      (206, some (contentRange first last content.length, slice content first last)) := by
  unfold rangeReply
  rw [if_neg (by omega), if_neg (not_lt.mpr hshort)]
  rfl

theorem seen_rangeReply_out {start last : Int}
    (hout : start < 0 ∨ content.length ≤ start ∨ content.length ≤ last ∨ last < start) :
    (rangeReply content start last).seen = (416, none) := by
  unfold rangeReply
  rw [if_pos hout]
  rfl

/-- The first and last position that the form names, be they in the file or not. -/
def RangeForm.asked (size : Nat) : RangeForm → Int × Int
  | between first last => (first.value, last.value)
  | onward first => (first.value, size - 1)
  | suffix length => (size - length.value, size - 1)

/-- A number that does not fit is past the end, so leaving it out makes no difference. -/
theorem seen_plainReply (form : RangeForm) (hmax : (content.length : Int) ≤ maxInt64) :
    (plainReply content form.parts).seen = (rangeReply content (form.asked content.length).1
      (form.asked content.length).2).seen := by
  have hbig : maxInt64 = 2 ^ 63 - 1 := rfl
  have hlast : int64 ((content.length : Int) - 1) = content.length - 1 :=
    int64_of_range (by omega) (by omega)
  cases form with
  | between first last =>
    simp only [RangeForm.parts, plainReply, rangeBounds, first.ne_nil, last.ne_nil, if_false,
      first.parseInt_digits, last.parseInt_digits, RangeForm.asked]
    split_ifs with hfirst hsecond
    · rfl
    · exact (seen_rangeReply_out (by omega)).symm
    · exact (seen_rangeReply_out (by omega)).symm
    · exact (seen_rangeReply_out (by omega)).symm
  | onward first =>
    simp only [RangeForm.parts, plainReply, rangeBounds, first.ne_nil, if_false, if_true,
      first.parseInt_digits, RangeForm.asked, hlast]
    split_ifs with hfirst
    · rfl
    · exact (seen_rangeReply_out (by omega)).symm
  | suffix length =>
    simp only [RangeForm.parts, plainReply, rangeBounds, if_true, length.parseInt_digits,
      RangeForm.asked, hlast]
    split_ifs with hlength
    · have hstart : int64 ((content.length : Int) - length.value) = content.length - length.value :=
        int64_of_range (by omega) (by omega)
      simp only [Option.map_some, hstart]
    · exact (seen_rangeReply_out (by omega)).symm

variable {form : RangeForm}

theorem RangeForm.bounds_eq_none {size : Nat} (hsize : 0 < size) (h : form.bounds size = none) :
    form.Within size ∧ (size ≤ (form.asked size).1 ∨ (form.asked size).2 < (form.asked size).1) := by
  cases form with
  | between first last =>
    simp only [bounds, ite_eq_right_iff, reduceCtorEq, imp_false] at h
    simp only [Within, asked]
    omega
  | onward first =>
    simp only [bounds, ite_eq_right_iff, reduceCtorEq, imp_false] at h
    simp only [Within, asked, true_and]
    omega
  | suffix length =>
    simp only [bounds, ite_eq_right_iff, reduceCtorEq, imp_false] at h
    simp only [Within, asked]
    omega

theorem RangeForm.bounds_eq_some {size : Nat} (h : form.bounds size = some (first, last)) :
    first ≤ last ∧ last < size ∧ (form.Within size → form.asked size = (↑first, ↑last)) ∧
      (¬ form.Within size → (form.asked size).1 < 0 ∨ size ≤ (form.asked size).2) := by
  cases form with
  | between a b =>
    simp only [bounds, Option.ite_none_right_eq_some, Option.some.injEq, Prod.mk.injEq] at h
    simp only [Within, asked, Prod.mk.injEq]
    omega
  | onward a =>
    simp only [bounds, Option.ite_none_right_eq_some, Option.some.injEq, Prod.mk.injEq] at h
    simp only [Within, asked, Prod.mk.injEq, true_implies, not_true_eq_false, false_implies,
      and_true]
    omega
  | suffix k =>
    simp only [bounds, Option.ite_none_right_eq_some, Option.some.injEq, Prod.mk.injEq] at h
    simp only [Within, asked, Prod.mk.injEq]
    omega

theorem seen_same_iff (hne : content ≠ []) (hmax : (content.length : Int) ≤ maxInt64)
    (hshort : form.Short content.length) :
    (plainReply content form.parts).seen = (serveContent content form).seen ↔
      form.Within content.length := by
  rw [seen_plainReply form hmax]
  unfold serveContent
  cases hbounds : form.bounds content.length with
  | none =>
    obtain ⟨hwithin, hout⟩ := RangeForm.bounds_eq_none (List.length_pos_of_ne_nil hne) hbounds
    exact iff_of_true (seen_rangeReply_out (by omega)) hwithin
  | some bounds =>
    obtain ⟨hle, hlt, hasked, hout⟩ := RangeForm.bounds_eq_some hbounds
    by_cases hwithin : form.Within content.length
    · rw [hasked hwithin]
      exact iff_of_true (seen_rangeReply hle hlt (hshort _ _ hbounds)) hwithin
    · rw [seen_rangeReply_out (by have := hout hwithin; omega)]
      exact iff_of_false (fun hsame => nomatch hsame) hwithin

section Encrypted

variable {encrypted : World} {path : Path} {crypto : CryptoService} {nonce : Nonce}

theorem total_encryptedRange (form : RangeForm) (henabled : crypto.enabled = true)
    (hread : encrypted.storage.read path = .ok (crypto.encrypt nonce content)) :
    (handleDownloadRange (some crypto) row path form).Total handle
      (fun result after => result = serveContent content form ∧ after = encrypted) encrypted := by
  unfold handleDownloadRange handleEncryptedDownload
  dsimp only
  rw [if_pos henabled, total_storage]
  simp only [LocalStorage.exec, hread, crypto.decrypt_encrypt]
  exact ⟨rfl, rfl⟩

theorem Serves.total_plainRange (h : Serves world row content) (form : RangeForm) :
    (handleDownloadRange none row path form).Total handle
      (fun result after => result = plainReply content form.parts ∧ after = world) world := by
  rw [← form.splitOn_header]
  exact h.total_handleRangeDownload form.header

/-- With and without encryption a range is answered alike exactly if it does not go past the end. -/
theorem rangeDownload_same_iff {plain : World} (form : RangeForm) (hplain : Serves plain row content)
    (hread : encrypted.storage.read path = .ok (crypto.encrypt nonce content))
    (henabled : crypto.enabled = true) (hne : content ≠ []) (hshort : form.Short content.length) :
    ∃ reply reply' : DownloadReply,
      (handleDownloadRange none row path form).Total handle
        (fun result after => result = reply ∧ after = plain) plain ∧
      (handleDownloadRange (some crypto) row path form).Total handle
        (fun result after => result = reply' ∧ after = encrypted) encrypted ∧
      (reply.seen = reply'.seen ↔ form.Within content.length) :=
  ⟨_, _, hplain.total_plainRange form, total_encryptedRange form henabled hread,
    seen_same_iff hne (hplain.size ▸ hplain.max) hshort⟩

end Encrypted

def paddingCipher : Cipher where
  sealing _ plaintext := List.replicate 16 0 ++ plaintext
  opening _ ciphertext := if 16 ≤ ciphertext.length then some (ciphertext.drop 16) else none
  opening_sealing _ plaintext := by simp
  length_sealing _ plaintext := by
    rw [List.length_append, List.length_replicate, Nat.add_comm]
  length_opening _ ciphertext plaintext h := by
    obtain ⟨hlong, hdrop⟩ := Option.ite_none_right_eq_some.mp h
    rw [← Option.some.inj hdrop, List.length_drop]
    omega

def padding : CryptoService := ⟨paddingCipher, true⟩

def zeroNonce : Nonce := (Context.sample 0 "").nonce

def zero : Decimal := ⟨['0'], by decide, List.forall_mem_singleton.mpr rfl⟩

def nine : Decimal := ⟨['9'], by decide, List.forall_mem_singleton.mpr rfl⟩

theorem exists_both : ∃ (plain : World) (row : FileMetadata) (encrypted : World),
    Serves plain row [97] ∧
    encrypted.storage.read ['f'] = .ok (padding.encrypt zeroNonce [97]) := by
  obtain ⟨plain, row, -, -, hplain⟩ := exists_served [97] (by decide)
  obtain ⟨encrypted, -, -, hread, -⟩ :=
    exists_served (padding.encrypt zeroNonce [97]) (by decide +kernel)
  exact ⟨plain, row, encrypted, hplain, hread⟩

theorem rangeDownload_same_onward : ∃ plain row encrypted, ∃ reply reply' : DownloadReply,
    (handleDownloadRange none row ['f'] (.onward zero)).Total handle
      (fun result after => result = reply ∧ after = plain) plain ∧
    (handleDownloadRange (some padding) row ['f'] (.onward zero)).Total handle
      (fun result after => result = reply' ∧ after = encrypted) encrypted ∧
    reply.seen = reply'.seen := by
  obtain ⟨plain, row, encrypted, hplain, hread⟩ := exists_both
  have hshort : (RangeForm.onward zero).Short 1 := by
    rintro _ _ ⟨⟩
    decide
  obtain ⟨reply, reply', hfirst, hsecond, hsame⟩ :=
    rangeDownload_same_iff (.onward zero) hplain hread rfl (by decide) hshort
  exact ⟨plain, row, encrypted, reply, reply', hfirst, hsecond, hsame.mpr trivial⟩

/-- `bytes=0-9` of a file of one byte: refused without encryption, the byte with it. -/
theorem rangeDownload_past_end : ∃ plain row encrypted, ∃ reply reply' : DownloadReply,
    (handleDownloadRange none row ['f'] (.between zero nine)).Total handle
      (fun result after => result = reply ∧ after = plain) plain ∧
    (handleDownloadRange (some padding) row ['f'] (.between zero nine)).Total handle
      (fun result after => result = reply' ∧ after = encrypted) encrypted ∧
    reply.seen = (416, none) ∧ reply'.seen = (206, some (contentRange 0 0 1, [97])) := by
  obtain ⟨plain, row, encrypted, hplain, hread⟩ := exists_both
  exact ⟨plain, row, encrypted, _, _, hplain.total_plainRange _, total_encryptedRange _ rfl hread,
    rfl, rfl⟩

end FsServer
