import FsServer.FileHash

/-!
# What the hash of a file covers

The hash covers all the bytes that were read, and `SHA256File` does not tell whether these are all
the bytes of the file.
-/

namespace FsServer

theorem hashResults_continued (written : Bytes) (continued : List Bytes)
    (rest : List (Bytes × Option ReadError)) :
    hashResults written (continued.map (fun data => (data, none)) ++ rest) =
      hashResults (written ++ continued.flatten) rest := by
  induction continued generalizing written with
  | nil => simp
  | cons data continued ih =>
    rw [List.map_cons, List.cons_append, hashResults, if_neg (by simp), ih, List.flatten_cons]
    split_ifs with hdata
    · rw [List.append_assoc]
    · rw [List.eq_nil_of_length_eq_zero (by omega : data.length = 0), List.nil_append]

theorem hashResults_reading (reading : Reading) :
    hashResults [] reading.results = reading.content := by
  rw [Reading.results, hashResults_continued, hashResults, Option.isSome_some, if_pos rfl,
    Reading.content, List.nil_append]
  split_ifs with hlast
  · rfl
  · rw [List.eq_nil_of_length_eq_zero (by omega : reading.last.length = 0), List.append_nil]

/-- A hash without an error comes from a file that was read to its end, exactly when no reading ends
in another error. -/
theorem sha256File_whole_iff (sha256 : Bytes → String) (file : Option Reading) :
    (∀ digest, sha256File sha256 file = .ok digest → ∃ reading, file = some reading ∧
      reading.err = .eof ∧ digest = sha256 reading.content) ↔
    ∀ reading, file = some reading → reading.err = .eof := by
  constructor
  · rintro h reading rfl
    obtain ⟨other, hother, heof, -⟩ := h _ rfl
    cases hother
    exact heof
  · intro h digest hdigest
    cases file with
    | none => cases hdigest
    | some reading =>
      cases hdigest
      exact ⟨reading, rfl, h reading rfl, by rw [hashResults_reading]⟩

def brokenReading : Reading := ⟨[[1]], [], .other, by decide⟩

/-- A device error after the first byte: the hash of that byte is returned without an error. -/
theorem sha256File_partial :
    sha256File (fun bytes => toString bytes) (some brokenReading) = .ok (toString ([1] : Bytes)) ∧
      brokenReading.err ≠ .eof := by
  exact ⟨rfl, by decide⟩

end FsServer
