import Migr8.Adapters

namespace Migr8.Metadata

open Errors Model Driver Database World Adapters StateValidate Lib.Process

structure MetadataReport where
  state : MetadataState
  metaRow : Option MetaRow := none
  problems : List String := []
  deriving DecidableEq, Repr

def sortedNames : List ObjectName := [.history, .activeIndex, .metaTable, .progress]

def missingObjects (present : List ObjectName) : List ObjectName :=
  sortedNames.filter fun n => !present.contains n

def countProblem : Option Nat → (Nat → String) → List String
  | some (n + 1), text => [text (n + 1)]
  | _, _ => []

/-- With a marker the complete layout must exist and match; without one, rows in
either table are damage and anything else is a prefix to complete. -/
def classify (present : List ObjectName) (problems : List String) (metaRow : Option MetaRow)
    (historyCount progressCount : Option Nat) : MetadataReport :=
  match metaRow with
  | some m =>
      let missing := missingObjects present
      let reasons := problems ++ if missing = [] then [] else
        ["initialization marker is present but these objects are missing: " ++
          String.intercalate ", " (missing.map (·.name))]
      if reasons = [] then { state := .complete, metaRow := some m }
      else { state := .damaged, metaRow := some m, problems := reasons }
  | none =>
      if present = [] then { state := .absent }
      else
        let reasons := problems ++
          countProblem historyCount (fun n => historyTable ++ " contains " ++ toString n ++
            " row(s) but the initialization marker is absent; this is damage, not an incomplete " ++
            "initialization") ++
          countProblem progressCount (fun n => progressTable ++ " contains " ++ toString n ++
            " row(s) but the initialization marker is absent")
        if reasons = [] then { state := .incompleteCompatible }
        else { state := .damaged, problems := reasons }

section

variable (c : Config)

def readMeta : Run (Option MetaRow × Nat) := do
  let count ← exec c .countMeta ("counting " ++ metaTable) "metadata_inspection"
  let rows ← exec c .readMarker "reading the initialization marker" "metadata_inspection"
  match rows with
  | [] => return (none, count)
  | row :: _ => do
      perform .decode
      return (some row, count)

def inspectMarker (present : List ObjectName) (problems : List String) : Run (Option MetaRow × List String) :=
  if present.contains .metaTable then do
    match ← (readMeta c).attempt with
    | .error e =>
        if isDriverError c.adapter e then
          return (none, problems ++ [metaTable ++ " cannot be read: " ++ describeException c.adapter e])
        else Proc.throw e
    | .ok (some row, rows) =>
        return (some row, if rows = 1 then problems else
          problems ++ [metaTable ++ " holds " ++ toString rows ++ " rows; exactly one is expected"])
    | .ok (none, _) => return (none, problems)
  else pure (none, problems)

def countOf (table : ObjectName) (count : Run Nat) (present : List ObjectName) : Run (Option Nat) :=
  if present.contains table then do return some (← count) else pure none

def objectsPresent (phase : String) : Run (List ObjectName) :=
  exec c .objectsPresent "metadata object inspection" phase

def definitionProblems (present : List ObjectName) (phase : String) : Run (List String) :=
  exec c (.definitionProblems present) "metadata definition inspection" phase

def inspectMetadata : Run MetadataReport := do
  let present ← objectsPresent c "metadata_inspection"
  let problems ← definitionProblems c present "metadata_inspection"
  let (marker, problems) ← inspectMarker c present problems
  let historyCount ← countOf .history
    (exec c .countHistory ("counting " ++ historyTable) "metadata_inspection") present
  let progressCount ← countOf .progress
    (exec c .countProgress ("counting " ++ progressTable) "metadata_inspection") present
  return classify present problems marker historyCount progressCount

def createMetadataObject (name : ObjectName) : Run Unit :=
  match c.adapter with
  | .oracle =>
      guarded .oracle
        { operation := "create metadata object " ++ name.name
          phase := Boundary.metadataObjectCreated.value
          commitCapable := true }
        (perform (.createObject name))
  | _ => do
      begin c.adapter
      perform (.createObject name)
      durableCommit c.adapter .metadataObjectCreated

/-- Oracle's DDL commits on its own, so creating an object is commit-capable even
where the adapter wraps it in a transaction. -/
def createMissing (present : List ObjectName) : List ObjectName → Run Unit
  | [] => pure ()
  | name :: names =>
      if present.contains name then createMissing present names
      else do
        guarded c.adapter
          { operation := "creating " ++ name.name
            phase := Boundary.metadataObjectCreated.value
            commitCapable := true }
          (createMetadataObject c name)
        createMissing present names

def initializeMetadata : Run Unit := do
  let present ← objectsPresent c "initialization"
  createMissing c present creationOrder
  let present ← objectsPresent c "initialization"
  let problems ← definitionProblems c present "initialization"
  let missing := missingObjects present
  if missing ≠ [] ∨ problems ≠ [] then
    raise (damaged ("metadata layout is not complete after creating objects: " ++
      String.intercalate "; " (missing.map (fun n => "missing " ++ n.name) ++ problems)))
  else do
    begin c.adapter
    exec c
      (.insertMarker
        { layoutVersion := layoutVersion
          adapter := c.adapter.name
          lockProvider := c.lockProvider
          lockBinding := c.lockBinding
          targetNamespace := c.targetNamespace })
      "initialization marker insert" Boundary.initializationComplete.value
    durableCommit c.adapter .initializationComplete

def verifyBindings : Option MetaRow → Except Migr8Error Unit
  | none => .error (damaged "initialization marker is missing after initialization")
  | some m =>
      if m.layoutVersion ≠ layoutVersion then
        .error (damaged ("metadata layout_version " ++ toString m.layoutVersion ++
          " is not supported (expected " ++ toString layoutVersion ++ ")"))
      else if m.adapter ≠ c.adapter.name then
        .error (usage ("namespace was initialized by adapter " ++ pyRepr m.adapter ++
          " but this run uses " ++ pyRepr c.adapter.name))
      else if m.targetNamespace ≠ c.targetNamespace then
        .error (usage ("namespace binding mismatch: metadata records " ++ pyRepr m.targetNamespace ++
          ", this run targets " ++ pyRepr c.targetNamespace))
      else if m.lockBinding ≠ c.lockBinding then
        .error (usage ("lock binding mismatch: metadata records " ++ pyRepr m.lockBinding ++
          ", this run is configured for " ++ pyRepr c.lockBinding ++
          ". The runner does not switch locks mid-run."))
      else .ok ()

/-- The three reads of SQLite's snapshot: only the marker goes through the guard
on its own. -/
def readRowsSqlite : Run Snapshot := do
  let history ← perform .readHistory
  perform .decode
  let progress ← perform .readProgress
  perform .decode
  let (marker, _) ← readMeta c
  return ⟨history, progress, marker⟩

def readSnapshotSqlite : Run Snapshot := do
  let opened := (← perform .status) == .idle
  onlyIf opened do
    perform .snapshotBegin
    advanceEpoch
  (readRowsSqlite c).finally_ (onlyIf opened do
    let _ ← perform .snapshotCommit
    advanceEpoch)

def readRowsPostgres : Run Snapshot := do
  let history ← exec c .readHistory "metadata read" "metadata"
  perform .decode
  let progress ← exec c .readProgress "metadata read" "metadata"
  perform .decode
  let (marker, _) ← readMeta c
  return ⟨history, progress, marker⟩

def sessionUnusableAfter (e : Exc) (l : Local) : Bool :=
  l.latch.latched || match e with
    | .migr8 e => e.kind = .unknownOutcome
    | e => classifyException .postgres e = .communicationFailure

def endSnapshotPostgres : Run Unit := do
  let _ ← perform .snapshotCommit

def readSnapshotPostgres : Run Snapshot := do
  let opened := (← perform .status) == .idle
  onlyIf opened (perform .snapshotBegin)
  let snapshot ← (readRowsPostgres c).tryCatch fun e => do
    let unusable ← get (sessionUnusableAfter e)
    onlyIf (opened && !unusable) endSnapshotPostgres
    Proc.throw e
  onlyIf opened endSnapshotPostgres
  return snapshot

/-- One statement is read-consistent on Oracle. -/
def readSnapshotOracle : Run Snapshot := do
  let (snapshot, markers) ← perform .readSnapshot
  perform .decode
  if 1 < markers then
    raise (damaged (metaTable ++ " holds " ++ toString markers ++ " rows; exactly one is expected"))
  else return snapshot

def readSnapshot : Run Snapshot :=
  guarded c.adapter { operation := "metadata snapshot read", phase := "metadata_read" }
    (match c.adapter with
      | .sqlite => readSnapshotSqlite c
      | .postgres => readSnapshotPostgres c
      | .oracle => readSnapshotOracle)

end

end Migr8.Metadata
