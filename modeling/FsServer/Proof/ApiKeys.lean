import FsServer.ApiKeys

/-!
# The expiry of API keys

The text that a client gave as the expiry is compared, character by character, with the text of the
current time in UTC. That is the order of the instants only if the expiry is written in UTC and to
the second: an offset is not looked at before the fields it would change, and a fraction makes the
text smaller than that of its own second.
-/

namespace FsServer

open Lib

/-- What the column hands back of a timestamp: the text as it was given, the text without its offset,
or with `Z` in its place. -/
inductive ExpiryColumn where
  | verbatim
  | withoutOffset
  | asUtc

def ExpiryColumn.tail (stamp : Stamp) : ExpiryColumn → Text
  | verbatim => Stamp.fractionText stamp.fraction ++ stamp.zone.text
  | withoutOffset => Stamp.fractionText stamp.fraction
  | asUtc => Stamp.fractionText stamp.fraction ++ ['Z']

/-- The last second whose text is not after the text that is handed back. -/
def ExpiryColumn.lastSecond (stamp : Stamp) (kind : ExpiryColumn) : Int :=
  stamp.lastSecond (decide (¬ kind.tail stamp < ['Z']))

theorem body_ne_nil (stamp : Stamp) (tail : Text) : stamp.body ++ tail ≠ [] :=
  fun h => by cases h

variable {sha256 : Text → Text} {uuid secret created plainKey : Text} {table after : ApiKeyTable}
  {req : CreateApiKeyRequest} {column : Text → Text} {stamp : Stamp}

theorem atPath_handleCreateApiKey
    (h : handleCreateApiKey sha256 uuid secret created table req = .ok (plainKey, after)) :
    ∃ row : ApiKeyRow, after.atPath (sha256 plainKey) = some row ∧ row.isActive = true ∧
      row.expiresAt = toNullString req.expiresAt := by
  unfold handleCreateApiKey at h
  split_ifs at h with hname hpermissions
  dsimp only at h
  split at h
  · cases h
  · next stored hcreate =>
    cases h
    have hrow := Table.insert_ok hcreate (sha256 (sha256 (uuid ++ secret)))
    rw [if_pos rfl] at hrow
    exact ⟨_, hrow, rfl, rfl⟩

theorem getByKeyHash_created (kind : ExpiryColumn) (now : Moment)
    (h : handleCreateApiKey sha256 uuid secret created table req = .ok (plainKey, after))
    (hexpires : req.expiresAt = stamp.text)
    (hcolumn : column stamp.text = stamp.body ++ kind.tail stamp) :
    (ApiKeyService.getByKeyHash column now.text after (sha256 plainKey)).isSome = true ↔
      now.seconds ≤ kind.lastSecond stamp := by
  obtain ⟨row, hrow, hactive, hexpiry⟩ := atPath_handleCreateApiKey h
  have hgiven : row.expiresAt = some stamp.text := by
    have hne : stamp.text ≠ [] := body_ne_nil _ _
    rw [hexpiry, hexpires, toNullString, if_pos hne]
  have hscan : (ApiKeyService.scanApiKey column row).expiresAt = stamp.body ++ kind.tail stamp := by
    rw [ApiKeyService.scanApiKey, hgiven, Option.map_some, Option.getD_some, hcolumn]
  unfold ApiKeyService.getByKeyHash
  rw [Table.selectOne_path, hrow, Option.filter_some, if_pos hactive, ExpiryColumn.lastSecond,
    ← not_lt, ← stamp.text_lt_iff]
  dsimp only
  unfold ApiKeyService.isExpired
  rw [hscan, if_neg (body_ne_nil _ _)]
  by_cases hlt : stamp.body ++ kind.tail stamp < now.text
  · simp [hlt]
  · simp [hlt]

/-- A key is found as long as was asked for exactly if the current second is not between that
instant and the last second that the text of the expiry admits. -/
theorem apiKey_expiry_iff (kind : ExpiryColumn) (now : Moment)
    (h : handleCreateApiKey sha256 uuid secret created table req = .ok (plainKey, after))
    (hexpires : req.expiresAt = stamp.text)
    (hcolumn : column stamp.text = stamp.body ++ kind.tail stamp) :
    ((ApiKeyService.getByKeyHash column now.text after (sha256 plainKey)).isSome = true ↔
        (now.seconds : ℚ) ≤ stamp.instant) ↔
      now.seconds ≤ min (stamp.localSeconds - stamp.zone.seconds) (kind.lastSecond stamp) ∨
        max (stamp.localSeconds - stamp.zone.seconds) (kind.lastSecond stamp) < now.seconds := by
  rw [getByKeyHash_created kind now h hexpires hcolumn, stamp.le_instant_iff]
  omega

def newYear : Date := ⟨2030, 1, 1, by decide, by decide, by decide, by decide, by decide⟩

def newYearsEve : Date := ⟨2029, 12, 31, by decide, by decide, by decide, by decide, by decide⟩

def midnight : TimeOfDay := ⟨0, 0, 0, by decide, by decide, by decide⟩

def evening : TimeOfDay := ⟨20, 0, 0, by decide, by decide, by decide⟩

def dueAtMidnight (zone : Zone) : Stamp := ⟨newYear, false, midnight, [], zone⟩

def createDue (stamp : Stamp) : Except CreateApiKeyError (Text × ApiKeyTable) :=
  handleCreateApiKey id ['i'] ['s'] [] .empty ⟨['k'], [], [], stamp.text⟩

def atEvening : Moment := ⟨newYearsEve, evening, by decide⟩

theorem apiKey_expiry_utc :
    ∃ plainKey after, createDue (dueAtMidnight .utc) = .ok (plainKey, after) ∧
      ((ApiKeyService.getByKeyHash id atEvening.text after (id plainKey)).isSome = true ↔
        (atEvening.seconds : ℚ) ≤ (dueAtMidnight .utc).instant) := by
  obtain ⟨plainKey, after, hcreated⟩ : ∃ plainKey after,
      createDue (dueAtMidnight .utc) = .ok (plainKey, after) := ⟨_, _, rfl⟩
  refine ⟨plainKey, after, hcreated, (apiKey_expiry_iff .verbatim atEvening hcreated rfl rfl).mpr ?_⟩
  decide +kernel

/-- It is past midnight eight hours ahead of UTC, and the key is still found. -/
theorem apiKey_outlives_offset :
    ∃ plainKey after, createDue (dueAtMidnight (.offset false 8 0)) = .ok (plainKey, after) ∧
      (ApiKeyService.getByKeyHash id atEvening.text after (id plainKey)).isSome = true ∧
      (dueAtMidnight (.offset false 8 0)).instant < atEvening.seconds := by
  obtain ⟨plainKey, after, hcreated⟩ : ∃ plainKey after,
      createDue (dueAtMidnight (.offset false 8 0)) = .ok (plainKey, after) := ⟨_, _, rfl⟩
  refine ⟨plainKey, after, hcreated, ?_, ?_⟩
  · rw [getByKeyHash_created .verbatim atEvening hcreated rfl rfl]
    decide +kernel
  · rw [← not_le, Stamp.le_instant_iff]
    decide +kernel

end FsServer
