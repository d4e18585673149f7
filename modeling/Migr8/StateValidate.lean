import Migr8.Model
import Mathlib.Data.List.Sort

namespace Migr8.StateValidate

open Errors Model

def damaged (message : String) : Migr8Error := { kind := .metadataDamaged, message }

def invalid (message : String) : Migr8Error := { kind := .validation, message }

def reprAttempt : Option Int → String
  | none => "None"
  | some n => toString n

def sortBySeq (rows : List HistoryRow) : List HistoryRow :=
  rows.insertionSort (fun a b => a.seq ≤ b.seq)

def checkIdentities (seen : List HistoryRow) : List HistoryRow → Except Migr8Error Unit
  | [] => .ok ()
  | row :: rows =>
      if row.seq < 1 then
        .error (damaged ("history row " ++ pyRepr row.migrationId ++ " has non-positive position " ++
          toString row.seq))
      else match seen.find? (fun r => r.seq == row.seq) with
        | some other => .error (damaged ("history position " ++ toString row.seq ++ " is used by both " ++
            pyRepr other.migrationId ++ " and " ++ pyRepr row.migrationId))
        | none =>
            if seen.any (fun r => r.migrationId == row.migrationId) then
              .error (damaged ("history contains duplicate migration id " ++ pyRepr row.migrationId))
            else checkIdentities (seen ++ [row]) rows

def checkConsecutive (index : Nat) : List HistoryRow → Except Migr8Error Unit
  | [] => .ok ()
  | row :: rows =>
      if row.seq ≠ index then
        .error (damaged ("history positions are not consecutive from 1: expected " ++ toString index ++
          ", found " ++ toString row.seq ++ " for " ++ pyRepr row.migrationId))
      else checkConsecutive (index + 1) rows

def checkFingerprint (row : HistoryRow) (label value : String) : Except Migr8Error Unit :=
  if value = "" then
    .error (damaged ("history row " ++ pyRepr row.migrationId ++ " has an empty " ++ label))
  else if !isSupportedFingerprint value then
    .error (damaged ("history row " ++ pyRepr row.migrationId ++ " " ++ label ++ " " ++ pyRepr value ++
      " uses an unsupported fingerprint format; this tool does not rewrite history"))
  else .ok ()

def attemptCounted : Option Int → Bool
  | none => false
  | some n => 1 ≤ n

def checkActiveRow (row : HistoryRow) : Except Migr8Error Unit :=
  if row.mode ≠ Mode.restartable.value then
    .error (damaged ("ACTIVE history row " ++ pyRepr row.migrationId ++ " is recorded as " ++
      pyRepr row.mode ++ "; ACTIVE implies restartable"))
  else if !attemptCounted row.attempt then
    .error (damaged ("ACTIVE history row " ++ pyRepr row.migrationId ++ " has invalid attempt " ++
      reprAttempt row.attempt))
  else if row.finishedAt.isSome then
    .error (damaged ("ACTIVE history row " ++ pyRepr row.migrationId ++ " has a completion time"))
  else if row.startedAt.isNone then
    .error (damaged ("ACTIVE history row " ++ pyRepr row.migrationId ++ " has no start time"))
  else .ok ()

def checkSuccessRow (row : HistoryRow) : Except Migr8Error Unit :=
  if row.finishedAt.isNone then
    .error (damaged ("SUCCESS history row " ++ pyRepr row.migrationId ++ " has no completion time"))
  else if row.mode = Mode.atomic.value && row.attempt.isSome then
    .error (damaged ("atomic history row " ++ pyRepr row.migrationId ++ " records attempt " ++
      reprAttempt row.attempt ++ "; atomic attempts are not counted"))
  else if row.mode = Mode.restartable.value && !attemptCounted row.attempt then
    .error (damaged ("restartable history row " ++ pyRepr row.migrationId ++ " has invalid attempt " ++
      reprAttempt row.attempt))
  else .ok ()

def validateRow (row : HistoryRow) : Except Migr8Error Unit :=
  if !(row.isActive || row.isSuccess) then
    .error (damaged ("history row " ++ pyRepr row.migrationId ++ " has unsupported status " ++
      pyRepr row.status))
  else if !(row.language = "sql" || row.language = "python") then
    .error (damaged ("history row " ++ pyRepr row.migrationId ++ " has unsupported language " ++
      pyRepr row.language))
  else if !(row.mode = "atomic" || row.mode = "restartable") then
    .error (damaged ("history row " ++ pyRepr row.migrationId ++ " has unsupported mode " ++
      pyRepr row.mode))
  else do
    checkFingerprint row "fingerprint" row.fingerprint
    checkFingerprint row "first_fingerprint" row.firstFingerprint
    if row.isActive then checkActiveRow row else checkSuccessRow row

def validateRows : List HistoryRow → Except Migr8Error Unit
  | [] => .ok ()
  | row :: rows => do
      validateRow row
      validateRows rows

def checkActivePosition (rows : List HistoryRow) : Except Migr8Error Unit :=
  match rows.filter (·.isActive) with
  | [] => .ok ()
  | [active] =>
      let successes := rows.filter (·.isSuccess)
      if active.seq ≠ successes.length + 1 then
        .error (damaged ("ACTIVE migration " ++ pyRepr active.migrationId ++ " is at position " ++
          toString active.seq ++ " but the successful prefix has length " ++
          toString successes.length ++ "; ACTIVE must be the next position"))
      else .ok ()
  | actives =>
      .error (damaged ("more than one ACTIVE history row: " ++
        String.intercalate ", " (actives.map (fun r => pyRepr r.migrationId))))

/-- The dictionary by id keeps the last row of an id; the rows are known to have
distinct ids here. -/
def checkProgress (rows : List HistoryRow) (seen : List (String × String)) :
    List ProgressRow → Except Migr8Error Unit
  | [] => .ok ()
  | entry :: entries =>
      if seen.contains (entry.migrationId, entry.progKey) then
        .error (damaged ("duplicate progress key " ++ pyRepr entry.progKey ++ " for " ++
          pyRepr entry.migrationId))
      else match rows.reverse.find? (fun r => r.migrationId == entry.migrationId) with
        | none => .error (damaged ("progress row " ++ pyRepr entry.progKey ++
            " references unknown migration " ++ pyRepr entry.migrationId))
        | some owner =>
            if owner.isSuccess then
              .error (damaged ("progress row " ++ pyRepr entry.progKey ++
                " is attached to successful migration " ++ pyRepr entry.migrationId ++
                "; restartable completion deletes progress"))
            else if entry.progValue = "" then
              .error (damaged ("progress row " ++ pyRepr entry.progKey ++ " for " ++
                pyRepr entry.migrationId ++ " has an empty value"))
            else checkProgress rows ((entry.migrationId, entry.progKey) :: seen) entries

def checkLayout : Option MetaRow → Except Migr8Error Unit
  | none => .ok ()
  | some m =>
      if m.layoutVersion ≠ layoutVersion then
        .error (damaged ("metadata layout_version " ++ toString m.layoutVersion ++
          " is not supported by this tool (expected " ++ toString layoutVersion ++
          "); history is not rewritten"))
      else .ok ()

def validateSnapshotShape (snapshot : Snapshot) : Except Migr8Error Unit := do
  checkLayout snapshot.metaRow
  let rows := sortBySeq snapshot.history
  checkIdentities [] rows
  checkConsecutive 1 rows
  validateRows rows
  checkActivePosition rows
  checkProgress rows [] snapshot.progress

def checkSuccess (units : List CapturedUnit) (row : HistoryRow) : Except Migr8Error Unit :=
  match units[(row.seq - 1).toNat]? with
  | none => .ok ()
  | some unit =>
      if unit.id ≠ row.migrationId then
        .error (invalid ("successful history at position " ++ toString row.seq ++ " is " ++
          pyRepr row.migrationId ++ " but the manifest has " ++ pyRepr unit.id ++
          "; identities and positions are permanent"))
      else if row.language ≠ unit.language.value then
        .error (invalid ("successful migration " ++ pyRepr row.migrationId ++ " recorded language " ++
          pyRepr row.language ++ " but the manifest declares " ++ pyRepr unit.language.value))
      else if row.mode ≠ unit.mode.value then
        .error (invalid ("successful migration " ++ pyRepr row.migrationId ++ " recorded mode " ++
          pyRepr row.mode ++ " but the manifest declares " ++ pyRepr unit.mode.value ++
          "; execution mode is immutable"))
      else if row.fingerprint ≠ unit.fingerprint then
        .error (invalid ("successful migration " ++ pyRepr row.migrationId ++
          " has changed: recorded " ++ row.fingerprint ++ ", current source " ++ unit.fingerprint ++
          ". Successful history is immutable; restore the published source."))
      else .ok ()

def checkSuccesses (units : List CapturedUnit) : List HistoryRow → Except Migr8Error Unit
  | [] => .ok ()
  | row :: rows => do
      checkSuccess units row
      checkSuccesses units rows

def checkActive (units : List CapturedUnit) (active : HistoryRow) : Except Migr8Error Bool :=
  match units[(active.seq - 1).toNat]? with
  | none => .ok false
  | some unit =>
      if unit.id ≠ active.migrationId then
        .error (invalid ("ACTIVE history at position " ++ toString active.seq ++ " is " ++
          pyRepr active.migrationId ++ " but the manifest has " ++ pyRepr unit.id))
      else if active.language ≠ unit.language.value ∧ active.fingerprint = unit.fingerprint then
        .error (invalid ("ACTIVE migration " ++ pyRepr active.migrationId ++ " recorded language " ++
          pyRepr active.language ++ " but the manifest declares " ++ pyRepr unit.language.value))
      else if unit.mode ≠ .restartable then
        .error (invalid ("ACTIVE migration " ++ pyRepr active.migrationId ++ " is declared " ++
          pyRepr unit.mode.value ++
          " in the manifest; an active migration's restartable mode cannot change"))
      else .ok (active.fingerprint != unit.fingerprint)

def buildPlan (capture : Capture) (snapshot : Snapshot) : Except Migr8Error Plan := do
  validateSnapshotShape snapshot
  let rows := sortBySeq snapshot.history
  let units := capture.units
  match rows[units.length]? with
  | some extra =>
      .error (invalid ("history has " ++ toString rows.length ++
        " rows but the manifest declares " ++ toString units.length ++ " migrations; position " ++
        toString extra.seq ++ " (" ++ pyRepr extra.migrationId ++ ") is not in the manifest"))
  | none => do
      let successes := rows.filter (·.isSuccess)
      checkSuccesses units successes
      let active := rows.find? (·.isActive)
      let changed ← match active with
        | none => .ok false
        | some row => checkActive units row
      return {
        capture
        snapshot
        successCount := successes.length
        active
        pending := units.drop successes.length
        activeFingerprintChanged := changed }

def requireNoRecoveryNeeded (plan : Plan) : Except Migr8Error Unit :=
  match plan.activeFingerprintChanged, plan.active with
  | true, some active =>
      let requested := ((plan.capture.atPosition active.seq).map (·.fingerprint)).getD ""
      .error {
        kind := .recoveryRequired
        message := "active migration " ++ pyRepr active.migrationId ++
          " source has changed: recorded " ++ active.fingerprint ++ ", requested " ++ requested ++
          ". To admit the amended source, rerun migrate with --recover " ++ active.migrationId ++ "."
        migrationId := some active.migrationId }
  | _, _ => .ok ()

def checkRecoveryAdmission (plan : Plan) (recoverId : String) : Except Migr8Error Unit :=
  match plan.active with
  | none => .error (invalid ("--recover " ++ recoverId ++
      " requires an ACTIVE restartable migration; there is none. Recovery never admits edits to " ++
      "successful migrations."))
  | some active =>
      if active.migrationId ≠ recoverId then
        .error { invalid ("--recover " ++ recoverId ++ " does not match the active migration " ++
            pyRepr active.migrationId ++
            "; recovery is valid only for the existing active identity") with
          migrationId := some active.migrationId }
      else match plan.capture.atPosition active.seq with
        | none => .error (invalid ("--recover " ++ recoverId ++
            " cannot change the active migration's position"))
        | some unit =>
            if unit.id ≠ active.migrationId then
              .error (invalid ("--recover " ++ recoverId ++
                " cannot change the active migration's position"))
            else if unit.mode ≠ .restartable ∨ active.mode ≠ Mode.restartable.value then
              .error { invalid ("--recover " ++ recoverId ++
                  " cannot change execution mode; switching an active restartable migration to " ++
                  "atomic is not supported") with
                migrationId := some active.migrationId }
            else .ok ()

end Migr8.StateValidate
