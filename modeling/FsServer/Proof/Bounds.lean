import FsServer.Lib.Reach
import FsServer.Proof.Calls
import FsServer.Multipart

/-!
# The bounds of a chunk

`UploadChunk` and `UploadPartData` compare `offset + len(data)` with the size of the file in 64-bit
arithmetic. The sum of two numbers that are not negative wraps to a negative one, which is below every
size. So the write stays inside the file exactly as long as the sum does not wrap.
-/

namespace FsServer

open Lib Program World FileTransferService

/-- A write into a session of this size that is not inside the file. -/
def SessionCall.Overruns (totalSize : Int) (sessions : Sessions) : {β : Type} → SessionCall β → Prop
  | _, .writeChunk address _ data offset =>
    (sessions.uploads address).totalSize = totalSize ∧
      ¬ (0 ≤ offset ∧ offset + data.length ≤ totalSize)
  | _, .writePart address data offset =>
    (sessions.multiparts address).totalSize = totalSize ∧
      ¬ (0 ≤ offset ∧ offset + data.length ≤ totalSize)
  | _, _ => False

def Overruns (totalSize : Int) : Moment Call World := fun _ call world =>
  match call with
  | .session call => call.Overruns totalSize world.sessions
  | _ => False

def WritesNothing (β : Type) (call : Call β) : Prop :=
  ∀ totalSize world, ¬ Overruns totalSize β call world

theorem int64_add_neg {offset length : Int} (hoffset : offset ≤ maxInt64) (hlength : length ≤ maxInt64)
    (hover : maxInt64 < offset + length) : int64 (offset + length) < 0 := by
  unfold int64
  unfold maxInt64 at *
  omega

section Checks

variable {totalSize offset : Int} {data : Bytes} {world : World}

theorem inside_of_checks {size : Int} (hnegative : ¬ offset < 0)
    (hbeyond : ¬ int64 (offset + data.length) > size) (hend : offset + data.length ≤ maxInt64) :
    0 ≤ offset ∧ offset + data.length ≤ size := by
  rw [int64_of_range (by omega) hend] at hbeyond
  omega

theorem writesNothing_updateHash (address : Address) (chunk : Bytes) (start : Int) :
    (updateHash address chunk start).Only WritesNothing := by
  unfold updateHash
  refine only_call (fun _ _ h => h) fun current => ?_
  split_ifs
  · exact only_call (fun _ _ h => h) fun _ => only_call (fun _ _ h => h) fun _ => trivial
  · exact only_call (fun _ _ h => h) fun _ => trivial
  · trivial

theorem writesNothing_uploadSession (inst : Nat) (sessionID : String) :
    (uploadSession inst sessionID).Only WritesNothing := by
  unfold uploadSession
  refine only_call (fun _ _ h => h) fun found => ?_
  cases found with
  | some address => trivial
  | none =>
    refine only_call (fun _ _ h => h) fun record => ?_
    cases record with
    | none => trivial
    | some record => exact only_call (fun _ _ h => h) fun _ => only_call (fun _ _ h => h) fun _ => trivial

theorem not_reaches_of_writesNothing {α : Type} {program : Service α}
    (h : program.Only WritesNothing) : ¬ program.Reaches handle (Overruns totalSize) world :=
  not_reaches_of_only h fun _ _ state hnothing => hnothing totalSize state

theorem not_reaches_uploadChunkBody (ctx : Context) (address : Address) (sessionID : String)
    (hend : offset < 0 ∨ offset + data.length ≤ maxInt64) :
    ¬ (uploadChunkBody ctx address sessionID data offset).Reaches handle (Overruns totalSize)
      world := by
  unfold uploadChunkBody
  refine not_reaches_perform (fun h => h) fun env current after hcall => ?_
  cases hcall
  split_ifs with hclosed hnegative hbeyond
  · exact not_reaches_done _ _
  · exact not_reaches_done _ _
  · exact not_reaches_done _ _
  refine not_reaches_perform ?_ fun env outcome after _ => ?_
  · rintro ⟨hsize, houtside⟩
    rw [← hsize] at houtside
    exact houtside (inside_of_checks hnegative hbeyond (hend.resolve_left hnegative))
  · refine not_reaches_of_writesNothing ?_
    cases outcome with
    | notOpened => trivial
    | failed => trivial
    | written =>
      refine only_bind (writesNothing_updateHash address data offset) fun _ => ?_
      refine only_call (fun _ _ h => h) fun _ => only_call (fun _ _ h => h) fun counted => ?_
      split_ifs
      · exact only_call (fun _ _ h => h) fun _ => only_call (fun _ _ h => h) fun _ => trivial
      · trivial

theorem not_reaches_uploadChunk (ctx : Context) (sessionID : String)
    (hend : offset < 0 ∨ offset + data.length ≤ maxInt64) :
    ¬ (uploadChunk ctx sessionID data offset).Reaches handle (Overruns totalSize) world := by
  unfold uploadChunk
  refine not_reaches_bind (not_reaches_of_writesNothing (writesNothing_uploadSession _ _)) ?_
  refine Ensures.of_forall _ (fun found middle => ?_) _ _
  cases found with
  | none => exact not_reaches_done _ _
  | some address =>
    refine not_reaches_perform (fun h => h) fun env granted after _ => ?_
    cases granted with
    | false => exact not_reaches_done _ _
    | true =>
      refine not_reaches_bind (not_reaches_uploadChunkBody ctx address sessionID hend) ?_
      refine Ensures.of_forall _ (fun result last => ?_) _ _
      exact not_reaches_of_writesNothing (only_call (fun _ _ h => h) fun _ => trivial)

theorem not_reaches_uploadPartData (sha256 : Bytes → String) (ctx : Context) (sessionID : String)
    (partNumber : Int) (hend : offset < 0 ∨ offset + data.length ≤ maxInt64) :
    ¬ (uploadPartData sha256 ctx sessionID partNumber offset data).Reaches handle
      (Overruns totalSize) world := by
  unfold uploadPartData
  refine not_reaches_perform (fun h => h) fun env found middle hload => ?_
  cases found with
  | none => exact not_reaches_done _ _
  | some address =>
    unfold uploadPartBody
    refine not_reaches_perform (fun h => h) fun env current after hcall => ?_
    cases hcall
    split_ifs with hclosed hstatus hnumber hnegative hbeyond
    · exact not_reaches_done _ _
    · exact not_reaches_done _ _
    · exact not_reaches_done _ _
    · exact not_reaches_done _ _
    · exact not_reaches_done _ _
    refine not_reaches_perform ?_ fun env outcome after _ => ?_
    · rintro ⟨hsize, houtside⟩
      rw [← hsize] at houtside
      exact houtside (inside_of_checks hnegative hbeyond (hend.resolve_left hnegative))
    · refine not_reaches_of_writesNothing ?_
      cases outcome with
      | notOpened => trivial
      | failed => trivial
      | written =>
        refine only_call (fun _ _ h => h) fun _ => only_call (fun _ _ h => h) fun _ =>
          only_call (fun _ _ h => h) fun counted => ?_
        split_ifs
        · exact only_call (fun _ _ h => h) fun _ => trivial
        · trivial

end Checks

/-! ### A sum that wraps -/

def sessionsOfSize (totalSize : Int) : World :=
  { initial .postgresql [['r']] with
    sessions :=
      { Sessions.empty with
        instances := fun _ =>
          { Instance.empty with
            uploadSessions := AList.insert "s" 0 ∅
            multipartSessions := AList.insert "s" 0 ∅ }
        uploads := fun _ => { (default : UploadSession) with totalSize := totalSize }
        multiparts := fun _ => { (default : MultipartUploadSession) with totalSize := totalSize } } }

section Wraps

variable {totalSize offset : Int} {data : Bytes}

theorem checks_of_wraps (hsize : 0 ≤ totalSize) (hmax : totalSize ≤ maxInt64)
    (hoffset : offset ≤ maxInt64) (hlength : (data.length : Int) ≤ maxInt64)
    (hwraps : ¬ (offset < 0 ∨ offset + data.length ≤ maxInt64)) :
    ¬ offset < 0 ∧ ¬ int64 (offset + data.length) > totalSize ∧
      ¬ (0 ≤ offset ∧ offset + data.length ≤ totalSize) := by
  have hneg : int64 (offset + data.length) < 0 := int64_add_neg hoffset hlength (by omega)
  refine ⟨by omega, by omega, by omega⟩

section

variable (hnegative : ¬ offset < 0) (hbeyond : ¬ int64 (offset + data.length) > totalSize)
  (houtside : ¬ (0 ≤ offset ∧ offset + data.length ≤ totalSize))

include hnegative hbeyond houtside

theorem reaches_uploadChunkBody (ctx : Context) (address : Address) (sessionID : String)
    {world : World} (hclosed : (world.sessions.uploads address).closed = false)
    (hsize : (world.sessions.uploads address).totalSize = totalSize) :
    (uploadChunkBody ctx address sessionID data offset).Reaches handle (Overruns totalSize)
      world := by
  rw [← hsize] at hbeyond
  unfold uploadChunkBody
  have hread : handle _ .textual (.session (.readUpload address)) world =
    some (world.sessions.uploads address, world) := rfl
  refine reaches_perform .textual hread ?_
  rw [if_neg (Bool.eq_false_iff.mp hclosed), if_neg hnegative, if_neg hbeyond]
  exact .here ⟨hsize, houtside⟩

theorem reaches_uploadChunk (ctx : Context) :
    (uploadChunk ctx "s" data offset).Reaches handle (Overruns totalSize)
      (sessionsOfSize totalSize) := by
  refine reaches_perform .textual rfl (reaches_perform .textual rfl ?_)
  exact (reaches_uploadChunkBody hnegative hbeyond houtside ctx 0 "s" rfl rfl).bind _

variable {partNumber : Int}

theorem reaches_uploadPartBody (sha256 : Bytes → String) (ctx : Context) (address : Address)
    (sessionID : String) {world : World} (hnumber : ¬ partNumber > 10000)
    (hclosed : (world.sessions.multiparts address).closed = false)
    (hactive : (world.sessions.multiparts address).status = .active)
    (hsize : (world.sessions.multiparts address).totalSize = totalSize) :
    (uploadPartBody sha256 ctx address sessionID partNumber offset data).Reaches handle
      (Overruns totalSize) world := by
  rw [← hsize] at hbeyond
  unfold uploadPartBody
  have hread : handle _ .textual (.session (.readMultipart address)) world =
    some (world.sessions.multiparts address, world) := rfl
  refine reaches_perform .textual hread ?_
  rw [if_neg (Bool.eq_false_iff.mp hclosed), if_neg (fun h => h hactive), if_neg hnumber,
    if_neg hnegative, if_neg hbeyond]
  exact .here ⟨hsize, houtside⟩

theorem reaches_uploadPartData (sha256 : Bytes → String) (ctx : Context)
    (hnumber : ¬ partNumber > 10000) :
    (uploadPartData sha256 ctx "s" partNumber offset data).Reaches handle (Overruns totalSize)
      (sessionsOfSize totalSize) := by
  refine reaches_perform .textual rfl ?_
  exact reaches_uploadPartBody hnegative hbeyond houtside sha256 ctx 0 "s" hnumber rfl rfl rfl

end

end Wraps

/-- Both calls keep their writes inside the file exactly as long as the sum does not wrap. -/
theorem chunk_bounds_iff (sha256 : Bytes → String) {totalSize offset : Int} {data : Bytes}
    (hsize : 0 ≤ totalSize) (hmax : totalSize ≤ maxInt64) (hoffset : offset ≤ maxInt64)
    (hlength : (data.length : Int) ≤ maxInt64) :
    ((∀ world ctx sessionID, ¬ (uploadChunk ctx sessionID data offset).Reaches handle
        (Overruns totalSize) world) ↔ (offset < 0 ∨ offset + data.length ≤ maxInt64)) ∧
      ((∀ world ctx sessionID partNumber,
          ¬ (uploadPartData sha256 ctx sessionID partNumber offset data).Reaches handle
            (Overruns totalSize) world) ↔ (offset < 0 ∨ offset + data.length ≤ maxInt64)) := by
  refine ⟨⟨fun h => ?_, fun hend world ctx sessionID => ?_⟩,
    ⟨fun h => ?_, fun hend world ctx sessionID partNumber => ?_⟩⟩
  · by_contra hwraps
    obtain ⟨hnegative, hbeyond, houtside⟩ := checks_of_wraps hsize hmax hoffset hlength hwraps
    exact h _ (.sample 1 "") "s" (reaches_uploadChunk hnegative hbeyond houtside _)
  · exact not_reaches_uploadChunk ctx sessionID hend
  · by_contra hwraps
    obtain ⟨hnegative, hbeyond, houtside⟩ := checks_of_wraps hsize hmax hoffset hlength hwraps
    exact h _ (.sample 1 "") "s" 1
      (reaches_uploadPartData hnegative hbeyond houtside sha256 _ (by decide))
  · exact not_reaches_uploadPartData sha256 ctx sessionID partNumber hend

theorem chunk_bounds_inside :
    ¬ (uploadChunk (.sample 1 "") "s" [7] 1).Reaches handle (Overruns 2) (sessionsOfSize 2) := by
  refine (chunk_bounds_iff (fun _ => "") (by decide) (by decide) (by decide) (by decide)).1.mpr ?_ _ _ _
  exact .inr (by decide)

/-- One byte at the last offset there is gets past the checks of a file of one byte. -/
theorem chunk_bounds_wrap :
    (uploadChunk (.sample 1 "") "s" [7] maxInt64).Reaches handle (Overruns 1) (sessionsOfSize 1) ∧
      (uploadPartData (fun _ => "") (.sample 1 "") "s" 1 maxInt64 [7]).Reaches handle (Overruns 1)
        (sessionsOfSize 1) :=
  ⟨reaches_uploadChunk (by decide) (by decide) (by decide) _,
    reaches_uploadPartData (by decide) (by decide) (by decide) _ _ (by decide)⟩

end FsServer
