import FsServer.Multipart

/-!
# What a completion returns after its checks

`CompleteUpload` and `CompleteMultipartUpload` look up their session and check that it has all bytes.
Whatever the calls they make after that answer, none of the errors they return is one of these checks.
-/

namespace FsServer

open Lib Program FileTransferService

def TransferError.Early : TransferError → Prop
  | .sessionNotFound _ => True
  | .incomplete _ _ => True
  | .gaps _ => True
  | .partNotCompleted _ _ => True
  | _ => False

/-- If the part fails, it is not for one of these checks. -/
def NotEarly {α : Type} (result : Except TransferError α) : Prop :=
  ∀ cause, result = .error cause → ¬ cause.Early

variable {α : Type}

theorem NotEarly.ok (value : α) : NotEarly (.ok value) := by
  intro cause heq
  cases heq

theorem NotEarly.error {cause : TransferError} (h : ¬ cause.Early) :
    NotEarly (.error cause : Except TransferError α) := by
  intro other heq
  cases heq
  exact h

section Parts

variable (sha256 : Bytes → String) (crypto : Option CryptoService) (sessionID : String)

theorem yields_recordUpload (ctx : Context) (filePath fileName : Path) (size : Int)
    (hash : String) : (recordUpload ctx filePath fileName size hash).Yields NotEarly := by
  unfold recordUpload
  refine yields_skip fun existing => ?_
  cases existing with
  | some metadata =>
    refine yields_skip fun updated => ?_
    cases updated with
    | ok _ => exact .ok _
    | error cause => exact .error id
  | none =>
    refine yields_skip fun created => ?_
    cases created with
    | ok _ => exact .ok _
    | error failure => exact yields_skip fun _ => .error id

theorem yields_verifyHash (address : Address) (expected : String) :
    (verifyHash sha256 address sessionID expected).Yields NotEarly := by
  unfold verifyHash
  split_ifs
  · refine yields_skip fun bytes => ?_
    cases bytes with
    | none => exact .error id
    | some bytes =>
      dsimp only
      split_ifs
      · exact .ok _
      · exact .error id
  · exact .ok _

theorem yields_verifyMultipartHash (expected : String) :
    (verifyMultipartHash sha256 sessionID expected).Yields NotEarly := by
  unfold verifyMultipartHash
  split_ifs
  · refine yields_skip fun bytes => ?_
    cases bytes with
    | none => exact .error id
    | some bytes =>
      dsimp only
      split_ifs
      · exact .ok _
      · exact .error id
  · exact .ok _

theorem yields_encryptTempFile (nonce : Nonce) (hash : String) :
    (encryptTempFile sha256 crypto nonce sessionID hash).Yields NotEarly := by
  unfold encryptTempFile
  cases crypto with
  | none => exact .ok _
  | some service =>
    dsimp only
    split_ifs
    · refine yields_skip fun data => ?_
      cases data with
      | none => exact yields_skip fun _ => .error id
      | some data =>
        refine yields_skip fun written => ?_
        split_ifs
        · refine yields_skip fun _ => yields_skip fun stored => ?_
          cases stored with
          | none => exact yields_skip fun _ => .error id
          | some stored => exact .ok _
        · exact yields_skip fun _ => .error id
    · exact .ok _

theorem yields_storeUpload (ctx : Context) (address : Address) (current : UploadSession)
    (hashVerified : Bool) (temp : TempName) (hash : String) :
    (storeUpload ctx address current sessionID hashVerified temp hash).Yields NotEarly := by
  unfold storeUpload
  refine yields_skip fun moved => ?_
  cases moved with
  | error cause => exact yields_skip fun _ => yields_skip fun _ => .error id
  | ok _ =>
    refine yields_bind (yields_recordUpload ctx _ _ _ hash) fun recorded hrecorded => ?_
    cases recorded with
    | error cause => exact yields_skip fun _ => .error (hrecorded cause rfl)
    | ok metadata =>
      exact yields_skip fun _ => yields_skip fun _ => yields_skip fun _ => yields_skip fun _ =>
        .ok _

theorem yields_finishUpload (ctx : Context) (address : Address) (current : UploadSession) :
    (finishUpload sha256 crypto ctx address current sessionID).Yields NotEarly := by
  unfold finishUpload
  refine yields_skip fun outcome => ?_
  cases outcome with
  | syncFailed => exact yields_skip fun _ => yields_skip fun _ => .error id
  | closeFailed => exact yields_skip fun _ => .error id
  | closed =>
    refine yields_bind (yields_verifyHash sha256 sessionID address _) fun verified hverified => ?_
    cases verified with
    | error cause => exact yields_skip fun _ => yields_skip fun _ => .error (hverified cause rfl)
    | ok hashVerified =>
      refine yields_bind (yields_encryptTempFile sha256 crypto sessionID _ _)
        fun encrypted hencrypted => ?_
      cases encrypted with
      | error cause => exact yields_skip fun _ => .error (hencrypted cause rfl)
      | ok sealed =>
        refine yields_skip fun taken => ?_
        cases taken with
        | false => exact yields_skip fun _ => yields_skip fun _ => .error id
        | true =>
          refine yields_bind (yields_storeUpload sessionID ctx address current hashVerified
            _ _) fun result hresult => ?_
          exact yields_skip fun _ => hresult

theorem yields_storeMultipart (ctx : Context) (address : Address)
    (current : MultipartUploadSession) (temp : TempName) (hash : String) :
    (storeMultipart ctx address current sessionID temp hash).Yields NotEarly := by
  unfold storeMultipart
  refine yields_skip fun moved => ?_
  cases moved with
  | error cause => exact yields_skip fun _ => yields_skip fun _ => .error id
  | ok _ =>
    refine yields_bind (yields_recordUpload ctx _ _ _ hash) fun recorded hrecorded => ?_
    cases recorded with
    | error cause => exact yields_skip fun _ => yields_skip fun _ => .error (hrecorded cause rfl)
    | ok metadata => exact yields_skip fun _ => yields_skip fun _ => yields_skip fun _ => .ok _

theorem yields_finishMultipart (ctx : Context) (address : Address)
    (current : MultipartUploadSession) :
    (finishMultipart sha256 crypto ctx address current sessionID).Yields NotEarly := by
  unfold finishMultipart
  refine yields_skip fun synced => ?_
  cases synced with
  | false => exact yields_skip fun _ => yields_skip fun _ => yields_skip fun _ => .error id
  | true =>
    refine yields_skip fun closed => ?_
    cases closed with
    | false => exact yields_skip fun _ => yields_skip fun _ => .error id
    | true =>
      refine yields_bind (yields_verifyMultipartHash sha256 sessionID _)
        fun verified hverified => ?_
      cases verified with
      | error cause =>
        exact yields_skip fun _ => yields_skip fun _ => .error (hverified cause rfl)
      | ok _ =>
        refine yields_bind (yields_encryptTempFile sha256 crypto sessionID _ _)
          fun encrypted hencrypted => ?_
        cases encrypted with
        | error cause => exact yields_skip fun _ => .error (hencrypted cause rfl)
        | ok sealed =>
          refine yields_skip fun taken => ?_
          cases taken with
          | false => exact yields_skip fun _ => yields_skip fun _ => .error id
          | true =>
            refine yields_bind (yields_storeMultipart sessionID ctx address current _ _)
              fun result hresult => ?_
            exact yields_skip fun _ => hresult

end Parts

end FsServer
