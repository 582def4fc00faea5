import FsServer.Proof.CalmSessions

/-!
# The two ways of a gRPC upload

A file that fits into one chunk goes to the file manager, the same file in two chunks through a
session. Both are compared from the same world with nothing failing. They refuse the same hashes and
the same places, but a session also needs a free slot and an allowed temporary directory; it encrypts
the file and records the name and hash that the client has sent, where the file manager takes the last
name of the path and the hash of the bytes.
-/

namespace FsServer

open Lib Program World FileTransferService GrpcServer UploadOperation

/-! ### What an upload has come to -/

variable {data : Bytes}

namespace GrpcServer

variable {server : GrpcServer} {draws : UploadDraws} {file : UploadMetadata} {base world : World}

theorem valid_of_checkMetadata (h : server.checkMetadata file = .ok ()) :
    isValidFilePath file.path = true ∧ 0 < file.totalSize := by
  unfold checkMetadata at h
  split_ifs at h with hpath hname hsize
  exact ⟨hpath, by omega⟩

theorem uploadFile_single (h : server.checkMetadata file = .ok ())
    (hsize : (data.length : Int) = file.totalSize) (hsmall : file.totalSize ≤ grpcFastPathMaxSize) :
    server.uploadFile draws [.metadata file, .chunk data 0] .eof
      = server.uploadFileFastPath draws file data := by
  have hfast : isFastPath file data 0 [] .eof = true := by
    simp [isFastPath, hsize, hsmall]
  simp only [uploadFile, h, hfast, if_true]

variable {first : Bytes} {rest : List Bytes}

theorem uploadFile_several {second : Bytes} (h : server.checkMetadata file = .ok ()) :
    server.uploadFile draws (.metadata file :: consecutive 0 (first :: second :: rest)) .eof
      = server.uploadFileSession draws file first 0
        (consecutive first.length (second :: rest)) .eof := by
  simp only [uploadFile, h, consecutive, isFastPath, List.isEmpty_cons, Bool.false_and,
    Bool.false_eq_true, if_false, zero_add]

theorem calm_uploadFileFastPath (hpath : Ordinary (normalizePath file.path))
    (hid : FreshId world draws.opening.id) :
    (server.uploadFileFastPath draws file data).Ensures calm
      (fun result after => Outcome world (normalizePath file.path)
        (uploadedRow world draws.opening (normalizePath file.path)
          (getFileName (normalizePath file.path)) data.length (server.sha256 data)) data
        (hashMatches server.sha256 data file.hash &&
          world.storage.accepts (normalizePath file.path)) result.isOk after) world := by
  unfold uploadFileFastPath
  split_ifs with hhash
  · have hmismatch : hashMatches server.sha256 data file.hash = false :=
      decide_eq_false (not_or.mpr hhash)
    refine .refused ?_
    rw [hmismatch, Bool.false_and]
  · have hmatches : hashMatches server.sha256 data file.hash = true := by
      rw [hashMatches, decide_eq_true_eq, or_iff_not_imp_left]
      exact fun hne => not_not.mp fun hother => hhash ⟨hne, hother⟩
    rw [hmatches, Bool.true_and, ensures_bind]
    have hfresh : FreshId world (server.here draws.opening).id := hid
    refine (calm_uploadFile server.sha256 hpath hfresh).mono _ fun result after houtcome => ?_
    cases result with
    | ok metadata => exact houtcome
    | error cause => exact houtcome

theorem calm_receiveRest {sessionID : String} {received : Bytes} (parts : List Bytes) (count : Nat)
    (h : Streaming base server.inst sessionID file received world)
    (hroom : (received.length + parts.flatten.length : Int) ≤ file.totalSize)
    (hmax : file.totalSize ≤ maxInt64) :
    (server.receiveRest draws sessionID .eof count
      (consecutive received.length parts)).Ensures calm
      (fun result after => result = .ok () ∧
        Streaming base server.inst sessionID file (received ++ parts.flatten) after) world := by
  induction parts generalizing received count world with
  | nil =>
    rw [List.flatten_nil, List.append_nil]
    exact ⟨rfl, h⟩
  | cons part rest ih =>
    rw [List.flatten_cons, List.length_append, Nat.cast_add] at hroom
    change (server.receiveChunk draws sessionID count part received.length
      (server.receiveRest draws sessionID .eof (count + 1)
        (consecutive (received.length + part.length) rest))).Ensures calm _ world
    unfold receiveChunk
    rw [ensures_bind]
    refine (calm_uploadChunk h rfl (by omega) hmax).mono _ ?_
    rintro result after ⟨rfl, hstreaming⟩
    have hlength : ((received ++ part).length : Int) = received.length + part.length := by
      rw [List.length_append, Nat.cast_add]
    have hrest := ih (count + 1) hstreaming (by rw [hlength]; omega)
    rw [hlength, List.append_assoc] at hrest
    exact hrest

theorem receiveProbed_consecutive (sessionID : String) (offset : Int) (parts : List Bytes) :
    server.receiveProbed draws sessionID (consecutive offset parts) .eof
      = server.receiveRest draws sessionID .eof 1 (consecutive offset parts) := by
  cases parts with
  | nil => rfl
  | cons part rest => rfl

theorem calm_answer {path : Path} {row : FileMetadata} {content : Bytes} {accepted : Bool}
    (hpath : Ordinary (normalizePath path)) (hrow : row.isDeleted = false)
    (h : Outcome base (normalizePath path) row content accepted true world) :
    ((FileManager.getFileMetadata path >>= fun answer =>
      match answer with
      | .error cause => return .error (.metadataAfterUpload cause)
      | .ok metadata => return .ok metadata : Service (Except GrpcError FileMetadata))).Ensures
      calm (fun result after => Outcome base (normalizePath path) row content accepted
        result.isOk after) world := by
  rw [calm_getFileMetadata hpath, (h.2 rfl).liveFile hrow]
  exact h

theorem calm_uploadFileSession (hpath : Ordinary (normalizePath file.path))
    (hid : FreshId world draws.closing.id)
    (hsize : ((first ++ rest.flatten).length : Int) = file.totalSize)
    (hpositive : 0 < file.totalSize) (hmax : file.totalSize ≤ maxInt64) :
    (server.uploadFileSession draws file first 0 (consecutive first.length rest) .eof).Ensures
      calm (fun result after => Outcome world (normalizePath file.path)
        (uploadedRow world draws.closing (normalizePath file.path) file.name file.totalSize
          (storedHash server.sha256 server.crypto draws.closing.nonce (first ++ rest.flatten)
            file.hash))
        (sealed server.crypto draws.closing.nonce (first ++ rest.flatten))
        (world.slotFree server.inst &&
          (hashMatches server.sha256 (first ++ rest.flatten) file.hash &&
            world.movable (normalizePath file.path))) result.isOk after) world := by
  have hlength : (first.length + rest.flatten.length : Int) = file.totalSize := by
    rw [← hsize, List.length_append, Nat.cast_add]
  unfold uploadFileSession
  rw [ensures_bind]
  refine (calm_createUploadSession hpositive).mono _ fun opened after hopened => ?_
  cases hfree : world.slotFree server.inst with
  | false =>
    rw [hopened.2 hfree]
    exact .refused (Bool.false_and _)
  | true =>
    obtain ⟨rfl, hstreaming⟩ := hopened.1 hfree
    have hstart : Streaming world server.inst draws.opening.id file [] after := hstreaming
    dsimp only
    rw [receiveProbed_consecutive, ensures_bind]
    have hreceive : (server.receiveChunk draws draws.opening.id 0 first 0
        (server.receiveRest draws draws.opening.id .eof 1
          (consecutive (0 + first.length) rest))).Ensures calm
        (fun result after => result = .ok () ∧
          Streaming world server.inst draws.opening.id file (first ++ rest.flatten) after) after :=
      calm_receiveRest (first :: rest) 0 hstart
        (by rw [List.flatten_cons, List.length_append, List.length_nil]; omega) hmax
    rw [zero_add] at hreceive
    refine hreceive.mono _ ?_
    rintro received sent ⟨rfl, hsent⟩
    rw [ensures_bind, Bool.true_and]
    have hfresh : FreshId world (server.here draws.closing).id := hid
    refine (calm_completeUpload hsent rfl hsize hpath hfresh).mono _ fun result done houtcome => ?_
    cases result with
    | error cause => exact houtcome
    | ok completed =>
      exact calm_answer hpath (isDeleted_uploadedRow _ _ _ _ _) houtcome

end GrpcServer

/-! ### Comparing them -/

def FileMetadata.shown (row : FileMetadata) : Path × Path × Int × String × String :=
  (row.path, row.name, row.size, row.hash, row.storageType)

/-- The object at a path, decrypted where the server encrypts. -/
def World.plaintext (crypto : Option CryptoService) (world : World) (path : Path) : Option Bytes :=
  match world.storage.read path with
  | .error _ => none
  | .ok content =>
    match crypto with
    | none => some content
    | some service => (service.decrypt content).toOption

structure SameUpload (crypto : Option CryptoService) (path : Path) (first second : World) :
    Prop where
  rows : ∃ row other, first.db.liveFile path = some row ∧ second.db.liveFile path = some other ∧
    row.shown = other.shown
  text : ∃ text, first.plaintext crypto path = some text ∧ second.plaintext crypto path = some text

def SameOutcome (crypto : Option CryptoService) (path : Path) (first second : Bool)
    (after other : World) : Prop :=
  first = second ∧ (first = true → second = true → SameUpload crypto path after other)

def encrypts (crypto : Option CryptoService) : Bool :=
  match crypto with
  | none => false
  | some service => service.enabled

/-- Both ways refuse the file, or the session is granted and chooses what the fast path chooses. -/
def Interchangeable (server : GrpcServer) (file : UploadMetadata) (data : Bytes) (world : World) :
    Prop :=
  hashMatches server.sha256 data file.hash = false ∨
    world.storage.accepts (normalizePath file.path) = false ∨
    world.slotFree server.inst = true ∧ world.sessions.tempDirAllowed = true ∧
      encrypts server.crypto = false ∧ file.hash = server.sha256 data ∧
      (file.name = getFileName (normalizePath file.path) ∨
        (world.db.liveFile (normalizePath file.path)).isSome = true)

section Compare

variable {world after : World} {crypto : Option CryptoService} {path name : Path}
  {row : FileMetadata} {content : Bytes}

theorem StoredAs.read (h : StoredAs world path row content after)
    (haccepts : world.storage.accepts path = true) : after.storage.read path = .ok content := by
  refine LocalStorage.read_eq_ok.mpr ⟨?_, h.stores.object_self⟩
  rw [LocalStorage.validatePath_congr h.stores.rootDir]
  unfold LocalStorage.accepts LocalStorage.place at haccepts
  split_ifs at haccepts with hvalid
  · exact hvalid
  · cases haccepts

theorem shown_uploadedRow (ctx : Context) (size : Int) (hash : String) :
    (uploadedRow world ctx path name size hash).shown
      = (path, ((world.db.liveFile path).map FileMetadata.name).getD name, size, hash,
        ((world.db.liveFile path).map FileMetadata.storageType).getD LocalStorage.storageType) := by
  unfold uploadedRow
  cases hlive : world.db.liveFile path with
  | none => rfl
  | some row =>
    obtain rfl := Database.path_of_liveFile hlive
    rfl

theorem decrypt_ne_self {service : CryptoService} (henabled : service.enabled = true)
    (content : Bytes) : service.decrypt content ≠ .ok content := fun h =>
  absurd (service.length_decrypt_lt henabled h) (lt_irrefl _)

theorem World.plaintext_of_read {content : Bytes} (hread : world.storage.read path = .ok content) :
    world.plaintext crypto path =
      match crypto with
      | none => some content
      | some service => (service.decrypt content).toOption := by
  simp only [plaintext, hread]

variable {nonce : Nonce}

theorem plaintext_sealed
    (hread : world.storage.read path = .ok (sealed crypto nonce content)) :
    world.plaintext crypto path = some content := by
  rw [plaintext_of_read hread]
  cases crypto with
  | none => rfl
  | some service =>
    dsimp only [sealed]
    rw [service.decrypt_encrypt]
    rfl

theorem plaintext_eq_self_iff (hread : world.storage.read path = .ok content) :
    world.plaintext crypto path = some content ↔ encrypts crypto = false := by
  rw [plaintext_of_read hread]
  cases crypto with
  | none => exact ⟨fun _ => rfl, fun _ => rfl⟩
  | some service =>
    dsimp only [encrypts]
    constructor
    · intro htext
      by_contra henabled
      refine decrypt_ne_self (Bool.eq_true_of_not_eq_false henabled) content ?_
      cases hdecrypt : service.decrypt content with
      | error cause =>
        rw [hdecrypt] at htext
        cases htext
      | ok text =>
        rw [hdecrypt] at htext
        exact congrArg Except.ok (Option.some.inj htext)
    · intro hdisabled
      rw [CryptoService.decrypt, if_neg (by rw [hdisabled]; exact Bool.false_ne_true)]
      rfl

variable {fast session : World} {opening closing : Context} {hash : String}

theorem sameUpload_iff {base : Path} {size : Int} {other : String}
    (hfast : StoredAs world path (uploadedRow world opening path base size hash) content fast)
    (hsession : StoredAs world path (uploadedRow world closing path name size other)
      (sealed crypto nonce content) session)
    (haccepts : world.storage.accepts path = true) :
    SameUpload crypto path fast session ↔
      encrypts crypto = false ∧ other = hash ∧
        (name = base ∨ (world.db.liveFile path).isSome = true) := by
  have hrow := hfast.liveFile (isDeleted_uploadedRow _ _ _ _ _)
  have hother := hsession.liveFile (isDeleted_uploadedRow _ _ _ _ _)
  have htext := plaintext_sealed (hsession.read haccepts)
  have hself : fast.plaintext crypto path = some content ↔ encrypts crypto = false :=
    plaintext_eq_self_iff (hfast.read haccepts)
  constructor
  · rintro ⟨⟨row, shown, hfirst, hsecond, hshown⟩, text, hleft, hright⟩
    rw [hrow, Option.some.injEq] at hfirst
    rw [hother, Option.some.injEq] at hsecond
    rw [htext, Option.some.injEq] at hright
    rw [← hfirst, ← hsecond, shown_uploadedRow, shown_uploadedRow] at hshown
    simp only [Prod.mk.injEq, true_and, and_true] at hshown
    refine ⟨hself.mp (hright ▸ hleft), hshown.2.symm, ?_⟩
    cases hlive : world.db.liveFile path with
    | some row => exact Or.inr rfl
    | none =>
      rw [hlive] at hshown
      exact Or.inl hshown.1.symm
  · rintro ⟨hplain, rfl, hname⟩
    refine ⟨⟨_, _, hrow, hother, ?_⟩, content, hself.mpr hplain, htext⟩
    rw [shown_uploadedRow, shown_uploadedRow]
    cases hlive : world.db.liveFile path with
    | some row => rfl
    | none =>
      rw [hlive] at hname
      rcases hname with rfl | hsome
      · rfl
      · cases hsome

theorem storedHash_of_plain {sha256 : Bytes → String} (hplain : encrypts crypto = false) :
    storedHash sha256 crypto nonce content hash = hash := by
  cases crypto with
  | none => rfl
  | some service => exact if_neg (by rw [show service.enabled = false from hplain]; simp)

theorem sameOutcome_iff {server : GrpcServer} {file : UploadMetadata} {first second : Bool}
    (hsize : (data.length : Int) = file.totalSize) (hfast : Outcome world (normalizePath file.path)
      (uploadedRow world opening (normalizePath file.path) (getFileName (normalizePath file.path))
        data.length (server.sha256 data)) data
      (hashMatches server.sha256 data file.hash &&
        world.storage.accepts (normalizePath file.path)) first fast)
    (hsession : Outcome world (normalizePath file.path)
      (uploadedRow world closing (normalizePath file.path) file.name file.totalSize
        (storedHash server.sha256 server.crypto nonce data file.hash))
      (sealed server.crypto nonce data)
      (world.slotFree server.inst && (hashMatches server.sha256 data file.hash &&
        world.movable (normalizePath file.path))) second session) :
    SameOutcome server.crypto (normalizePath file.path) first second fast session ↔
      Interchangeable server file data world := by
  rw [hsize] at hfast
  obtain ⟨rfl, hfast⟩ := hfast
  obtain ⟨rfl, hsession⟩ := hsession
  unfold Interchangeable SameOutcome
  cases hmatches : hashMatches server.sha256 data file.hash with
  | false =>
    rw [Bool.false_and, Bool.false_and, Bool.and_false]
    exact ⟨fun _ => Or.inl rfl, fun _ => ⟨rfl, fun hok => absurd hok Bool.false_ne_true⟩⟩
  | true =>
    rw [hmatches] at hfast hsession
    rw [movable] at hsession ⊢
    cases haccepts : world.storage.accepts (normalizePath file.path) with
    | false =>
      rw [Bool.and_false, Bool.and_false, Bool.and_false, Bool.and_false]
      exact ⟨fun _ => Or.inr (Or.inl rfl), fun _ => ⟨rfl, fun hok => absurd hok Bool.false_ne_true⟩⟩
    | true =>
      rw [haccepts] at hfast hsession
      simp only [Bool.and_true, Bool.true_and] at hsession ⊢
      have hsame : (world.slotFree server.inst && world.sessions.tempDirAllowed) = true → _ :=
        fun hgranted => sameUpload_iff (hfast rfl) (hsession hgranted) haccepts
      constructor
      · rintro ⟨hgranted, hupload⟩
        obtain ⟨hplain, hhash, hname⟩ := (hsame hgranted.symm).mp (hupload trivial hgranted.symm)
        obtain ⟨hslot, hallowed⟩ := Bool.and_eq_true_iff.mp hgranted.symm
        rw [storedHash_of_plain hplain] at hhash
        exact Or.inr (Or.inr ⟨hslot, hallowed, hplain, hhash, hname⟩)
      · rintro (hfalse | hfalse | ⟨hslot, hallowed, hplain, hhash, hname⟩)
        · cases hfalse
        · cases hfalse
        · have hgranted := Bool.and_eq_true_iff.mpr ⟨hslot, hallowed⟩
          refine ⟨hgranted.symm, fun _ _ => (hsame hgranted).mpr ⟨hplain, ?_, hname⟩⟩
          rw [storedHash_of_plain hplain, hhash]

end Compare

/-- Sending a file as one chunk and in several has the same outcome and leaves the same upload
exactly if both are refused or the session chooses what the fast path chooses. -/
theorem grpcUpload_agrees_iff (server : GrpcServer) (fastDraws sessionDraws : UploadDraws)
    (file : UploadMetadata) (data : Bytes) (parts : List Bytes) {world fast session : World}
    {fastResult sessionResult : Except GrpcError FileMetadata}
    (haccepted : server.checkMetadata file = .ok ()) (hsize : (data.length : Int) = file.totalSize)
    (hsmall : file.totalSize ≤ grpcFastPathMaxSize) (hparts : parts.flatten = data)
    (hcut : 2 ≤ parts.length) (hfastId : FreshId world fastDraws.opening.id)
    (hsessionId : FreshId world sessionDraws.closing.id)
    (hfast : Runs calm (server.uploadFile fastDraws [.metadata file, .chunk data 0] .eof) world
      fastResult fast)
    (hsession : Runs calm (server.uploadFile sessionDraws
      (.metadata file :: consecutive 0 parts) .eof) world sessionResult session) :
    SameOutcome server.crypto (normalizePath file.path) fastResult.isOk sessionResult.isOk fast
      session ↔ Interchangeable server file data world := by
  obtain ⟨hvalid, hpositive⟩ := valid_of_checkMetadata haccepted
  have hpath := ordinary_of_valid hvalid
  have hmax : file.totalSize ≤ maxInt64 := by
    unfold grpcFastPathMaxSize at hsmall
    unfold maxInt64
    omega
  rw [uploadFile_single haccepted hsize hsmall] at hfast
  have hfastOutcome := (calm_uploadFileFastPath hpath hfastId).of_runs _ hfast
  match parts, hcut with
  | first :: second :: rest, _ =>
    subst hparts
    rw [uploadFile_several haccepted] at hsession
    have hsessionOutcome := (calm_uploadFileSession hpath hsessionId hsize hpositive
      hmax).of_runs _ hsession
    exact sameOutcome_iff hsize hfastOutcome hsessionOutcome

def smallFile (hash : String) : UploadMetadata := ⟨['f'], ['f'], 2, hash⟩

def plainServer : GrpcServer := ⟨0, fun _ => "digest", none, 100⟩

def plainDraws : UploadDraws := ⟨.sample 1 "a", fun count => .sample (count + 3) "", .sample 2 "b"⟩

theorem freshId_initial (id : String) : FreshId (initial .postgresql [['r']]) id :=
  fun _ hrow => absurd hrow List.not_mem_nil

/-- The client gives no hash. The file manager records the hash of the bytes, the session records
none. -/
theorem grpcUpload_hash_differs :
    ∃ first second fast session row other, plainServer.checkMetadata (smallFile "") = .ok () ∧
      Runs calm (plainServer.uploadFile plainDraws
        [.metadata (smallFile ""), .chunk [1, 2] 0] .eof) (initial .postgresql [['r']]) (.ok first) fast ∧
      Runs calm (plainServer.uploadFile plainDraws
        (.metadata (smallFile "") :: consecutive 0 [[1], [2]]) .eof)
        (initial .postgresql [['r']]) (.ok second) session ∧
      fast.db.liveFile ['f'] = some row ∧ session.db.liveFile ['f'] = some other ∧
      row.hash = "digest" ∧ other.hash = "" ∧
      ¬ SameOutcome none ['f'] true true fast session := by
  have hruns := @runs_of_run Call Env World (Except GrpcError FileMetadata) calm .textual
  refine ⟨_, _, _, _, _, _, rfl, hruns rfl, hruns rfl, rfl, rfl, rfl, rfl, fun hsame => ?_⟩
  obtain ⟨found, shown, hfound, hshown, heq⟩ := (hsame.2 rfl rfl).rows
  obtain rfl := Option.some.inj hfound
  obtain rfl := Option.some.inj hshown
  have hcolumn : "digest" = "" := congrArg (fun columns => columns.2.2.2.1) heq
  exact absurd hcolumn (by decide)

/-- The hash of the bytes is given, so both ways leave the same upload. -/
theorem grpcUpload_agrees_named :
    ∃ first second fast session,
      Runs calm (plainServer.uploadFile plainDraws
        [.metadata (smallFile "digest"), .chunk [1, 2] 0] .eof) (initial .postgresql [['r']])
        (.ok first) fast ∧
      Runs calm (plainServer.uploadFile plainDraws
        (.metadata (smallFile "digest") :: consecutive 0 [[1], [2]]) .eof)
        (initial .postgresql [['r']]) (.ok second) session ∧
      SameOutcome none ['f'] true true fast session := by
  have hruns := @runs_of_run Call Env World (Except GrpcError FileMetadata) calm .textual
  refine ⟨_, _, _, _, hruns rfl, hruns rfl, ?_⟩
  refine (grpcUpload_agrees_iff plainServer plainDraws plainDraws (smallFile "digest") [1, 2]
    [[1], [2]] rfl rfl (by decide) rfl (by decide) (freshId_initial _) (freshId_initial _)
    (hruns rfl) (hruns rfl)).mpr ?_
  exact Or.inr (Or.inr ⟨rfl, rfl, rfl, rfl, Or.inl rfl⟩)

end FsServer
