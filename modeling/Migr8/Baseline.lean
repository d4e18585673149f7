import Migr8.DurableHistory
import Migr8.Inquiry
import Migr8.Staging
import Migr8.Lib.Documents

namespace Migr8.Baseline

open Errors Model Driver World Adapters Engine Outcomes Staging Lib.Documents Lib.Process

section Printing

structure Problem where
  kind : Str
  message : Str
  exitCode : Exit
  migrationId : Option String := none

/-- What is printed of any of the read-only commands. A text that names a path can hold
the lone surrogates of its name. -/
structure Report where
  command : String
  adapter : String
  server : String
  targetNamespace : String
  metadataState : String
  initialized : Bool
  successCount : Nat := 0
  pendingCount : Nat := 0
  activeId : Option String := none
  migrations : List ReadOnly.MigrationStatus := []
  problem : Option Str := none
  problemKind : Option Str := none
  problems : List Problem := []
  recoveryId : Option String := none
  recoveryCommand : Option Str := none
  checks : List Str := []
  exitCode : Exit := .ok
  runId : String := ""

def Report.problemList (r : Report) : List Problem :=
  if r.problems ≠ [] then r.problems
  else match r.problem with
    | some [] | none => []
    | some message =>
        let kind := match r.problemKind with
          | some [] | none => codes "problem"
          | some kind => kind
        [{ kind, message, exitCode := r.exitCode }]

def text (s : String) : Value := .str (codes s)

def optional {α : Type} (json : α → Value) : Option α → Value
  | some a => json a
  | none => .null

def object (members : List (String × Value)) : Value := .obj (ofPairs (members.map fun m => (codes m.1, m.2)))

variable (iso : Timestamp → String)

def statusJson (m : ReadOnly.MigrationStatus) : Value := object
  [("position", .int m.position), ("id", text m.id), ("state", text m.state), ("mode", text m.mode),
    ("language", text m.language), ("current_fingerprint", text m.currentFingerprint),
    ("recorded_fingerprint", optional text m.recordedFingerprint),
    ("recorded_matches_current", optional .bool m.recordedMatchesCurrent),
    ("first_fingerprint", optional text m.firstFingerprint),
    ("first_matches_latest", optional .bool m.firstMatchesLatest), ("attempt", optional .int m.attempt),
    ("started_at", optional (fun t => text (iso t)) m.startedAt),
    ("last_attempt_at", optional (fun t => text (iso t)) m.lastAttemptAt),
    ("finished_at", optional (fun t => text (iso t)) m.finishedAt), ("runner_host", optional text m.runnerHost),
    ("runner_user", optional text m.runnerUser), ("runner_pid", optional (fun n => .int n) m.runnerPid),
    ("db_session", optional text m.dbSession), ("tool_version", optional text m.toolVersion),
    ("session_liveness", optional text m.sessionLiveness),
    ("session_liveness_detail", optional text m.sessionLivenessDetail), ("problem", optional text m.problem)]

def problemJson (p : Problem) : Value := object
  [("kind", .str p.kind), ("message", .str p.message), ("exit_code", .int p.exitCode.code),
    ("migration_id", optional text p.migrationId)]

def reportJson (r : Report) : Value := object
  [("command", text r.command), ("adapter", text r.adapter), ("server", text r.server),
    ("namespace", text r.targetNamespace), ("metadata_state", text r.metadataState),
    ("initialized", .bool r.initialized),
    ("success_count", .int r.successCount), ("pending_count", .int r.pendingCount),
    ("active_id", optional text r.activeId),
    ("migrations", .arr (ofElements (r.migrations.map (statusJson iso)))), ("problem", optional .str r.problem),
    ("problem_kind", optional .str r.problemKind), ("problems", .arr (ofElements (r.problemList.map problemJson))),
    ("recovery_id", optional text r.recoveryId), ("recovery_command", optional .str r.recoveryCommand),
    ("checks", .arr (ofElements (r.checks.map .str))), ("exit_code", .int r.exitCode.code), ("run_id", text r.runId)]

def Report.toJson (r : Report) : List Char := dumps (reportJson iso r) 0

def Report.printed (r : Report) : List Char := r.toJson iso ++ ['\n']

end Printing

section Verify

inductive Source where
  | unreadable (reason : Str)
  | undecodable
  | text (t : List Char)

/-- What the check of a baseline raises. A `RecursionError` is no `ValueError`. -/
inductive Raised where
  | usage (message : Str)
  | validation (message : Str)
  | recursionError

/-- `dict.get`, which finds the last of several members with one key. -/
def get (members : Json .members) (key : String) : Value := ((pairs members).reverse.lookup (codes key)).getD .null

/-- `isinstance(value, int)` holds of truth values too. -/
def asInt : Value → Option Int
  | .int n => some n
  | .bool b => some (if b then 1 else 0)
  | _ => none

def isText (s : String) : Value → Bool
  | .str t => t == codes s
  | _ => false

/-- A dictionary holds the last of several values where the first stood. -/
def insertPair (d : List (Str × Str)) (entry : Str × Str) : List (Str × Str) :=
  if d.any (fun e => e.1 == entry.1) then d.map fun e => if e.1 == entry.1 then entry else e else d ++ [entry]

def Printed : Shape → Type
  | .value => Str
  | .items => List Str
  | .members => List (Str × Str)

variable (floatText : List Char → Str)

def reprJson : {s : Shape} → Json s → Printed s
  | _, .null => codes "None"
  | _, .bool true => codes "True"
  | _, .bool false => codes "False"
  | _, .int n => codes (toString n)
  | _, .float literal => floatText literal
  | _, .str t => codes (reprOf t)
  | _, .arr items => codes "[" ++ List.intercalate (codes ", ") (reprJson items) ++ codes "]"
  | _, .obj members => codes "\x7b" ++ List.intercalate (codes ", ")
      ((List.foldl insertPair [] (reprJson members)).map fun e => codes (reprOf e.1) ++ codes ": " ++ e.2) ++
      codes "\x7d"
  | _, .nil => ([] : List Str)
  | _, .cons j rest => ((reprJson j : Str) :: (reprJson rest : List Str) : List Str)
  | _, .none => ([] : List (Str × Str))
  | _, .member key j rest => ((key, (reprJson j : Str)) :: (reprJson rest : List (Str × Str)) : List (Str × Str))

def reprValue (j : Value) : Str := reprJson floatText j

def strValue (j : Value) : Str :=
  match j with
  | .str t => t
  | j => reprValue floatText j

def quoted (s : String) : Str := codes (reprOf (codes s))

def difference (capture : Capture) (entry : Json .members) : Option Str :=
  let position := get entry "position"
  let id := get entry "id"
  match (asInt position).bind capture.atPosition with
  | none => some (codes "position " ++ strValue floatText position ++ codes " holds " ++ reprValue floatText id ++
      codes " in the approved plan and nothing here")
  | some unit =>
      if isText unit.id id = false then
        some (codes "position " ++ strValue floatText position ++ codes " is " ++ quoted unit.id ++
          codes " here and " ++
          reprValue floatText id ++ codes " in the approved plan")
      else if isText unit.fingerprint (get entry "current_fingerprint") = false then
        some (quoted unit.id ++ codes " has fingerprint " ++ codes unit.fingerprint ++ codes " here and " ++
          strValue floatText (get entry "current_fingerprint") ++ codes " in the approved plan")
      else none

def asObject : Value → Option (Json .members)
  | .obj members => some members
  | _ => none

def asList : Value → Option (List Value)
  | .arr items => some (elements items)
  | _ => none

def recorded (document : Value) : Option (List (Json .members)) := do
  let members ← asObject document
  let items ← asList (get members "migrations")
  items.mapM asObject

def compare (capture : Capture) (path : Str) (entries : List (Json .members)) : Except Raised Unit :=
  let differences := entries.filterMap (difference floatText capture)
  if differences = [] then .ok ()
  else .error (.validation (codes "the plan differs from the approved plan " ++ path ++ codes ": " ++
    List.intercalate (codes "; ") differences))

def verifyBaseline (limits : Limits) (capture : Capture) (path : Str) : Source → Except Raised Unit
  | .unreadable reason => .error (.usage (codes "the baseline plan " ++ path ++ codes " cannot be read: " ++ reason))
  | .undecodable => .error (.usage (codes "the baseline plan " ++ path ++ codes " is not JSON"))
  | .text t =>
      match loads limits t with
      | .error .value => .error (.usage (codes "the baseline plan " ++ path ++ codes " is not JSON"))
      | .error .recursion => .error .recursionError
      | .ok document =>
          match recorded document with
          | none => .error (.usage (codes "the baseline plan " ++ path ++
              codes " is not a migr8 JSON report with a migrations list"))
          | some entries => compare floatText capture path entries

end Verify

section Commands

variable (limits : Limits) (floatText : List Char → Str) (input : Input)

def checks : List String :=
  ["manifest order, identity, paths and fingerprints", "supported language and mode combinations",
    "required-object declarations", "SQL statement admission for every SQL unit",
    "Python compilation of every source in every Python unit"]

def checkBaseline (baseline : Option (Str × Source)) : Except Raised Unit :=
  match baseline with
  | some (path, source) => verifyBaseline floatText limits input.capture path source
  | none => .ok ()

def offlineReport (baseline : Option (Str × Source)) : Report where
  command := "validate --offline"
  adapter := input.adapter.name
  server := "not connected"
  targetNamespace := input.config.targetNamespace
  metadataState := "not read"
  initialized := false
  pendingCount := 0
  checks := checks.map codes ++ baseline.toList.map fun b =>
    codes "published identity, order and fingerprints against " ++ b.1
  migrations := input.capture.units.map fun unit =>
    { position := unit.position
      id := unit.id
      state := "UNREAD"
      mode := unit.mode.value
      language := unit.language.value
      currentFingerprint := unit.fingerprint }

def invalid (report : Report) (message : Str) (code : Exit) : Report :=
  { report with problemKind := some (codes "validation"), problem := some message, exitCode := code }

def runOffline (baseline : Option (Str × Source)) : Run Report := do
  let report := offlineReport input baseline
  match ← (preflight input input.capture.units).attempt with
  | .error (.migr8 e) => return invalid report (codes e.report) e.exitCode
  | .error e => Proc.throw e
  | .ok _ =>
      match checkBaseline limits floatText input baseline with
      | .ok _ => return report
      | .error (.usage message) => return invalid report message .usage
      | .error (.validation message) => return invalid report (message ++ codes " [phase=baseline]") .validation
      | .error .recursionError => Proc.throw (.plain "RecursionError")

/-- The shared body of both commands that connect. What the check of the baseline
raises ends the command. -/
def runConnected (command : String) (liveness : Option ReadOnly.Probe) (recoverySuffix : String)
    (baseline : Option (Str × Source)) (deferPreflight : Bool) : Run (Except Raised ReadOnly.Report) := do
  let deferred ← ReadOnly.runPreflight input deferPreflight
  match checkBaseline limits floatText input baseline with
  | .error e => return .error e
  | .ok _ => do
      connect
      let report ← (ReadOnly.read input command liveness recoverySuffix).finally_ (close input.adapter)
      return .ok <| match deferred with
        | none => report
        | some e => ReadOnly.attachPreflightProblem report e

def runValidate (baseline : Option (Str × Source)) : Run (Except Raised ReadOnly.Report) :=
  runConnected limits floatText input "validate" none
    " This is a recovery-required condition, not permission to modify the active marker." baseline false

def runStatus (probe : ReadOnly.Probe) : Run (Except Raised ReadOnly.Report) :=
  runConnected limits floatText input "status" (some probe) "" none true

/-- The report of a command that connects, with what the command line adds to it. -/
def complete (server runId : String) (recoveryCommand : String → Str) (r : ReadOnly.Report) : Report where
  command := r.command
  adapter := r.adapter
  server := server
  targetNamespace := r.targetNamespace
  metadataState := r.metadataState
  initialized := r.initialized
  successCount := r.successCount
  pendingCount := r.pendingCount
  activeId := r.activeId
  migrations := r.migrations
  problem := r.problem.map codes
  problemKind := r.problemKind.map codes
  problems := r.problems.map fun p => ⟨codes p.kind, codes p.message, p.exitCode, p.migrationId⟩
  recoveryId := r.recoveryId
  recoveryCommand := r.recoveryId.map recoveryCommand
  exitCode := r.exitCode
  runId := runId

/-- A report that one of the commands prints for a capture, however the session goes. -/
inductive Written (c : Capture) : Report → Prop where
  | offline {limits : Limits} {floatText : List Char → Str} {input : Input} {baseline : Option (Str × Source)}
      {os : Nat → Database.Outcome} {s : Database.Session} {r : Report} (runId : String) (hc : input.capture = c)
      (hr : (whole input.adapter (runOffline limits floatText input baseline) os s).1.1 = .ok r) :
      Written c { r with runId }
  | validate {limits : Limits} {floatText : List Char → Str} {input : Input} {baseline : Option (Str × Source)}
      {os : Nat → Database.Outcome} {s : Database.Session} {r : ReadOnly.Report} (server runId : String)
      (recoveryCommand : String → Str)
      (hc : input.capture = c)
      (hr : (whole input.adapter (runValidate limits floatText input baseline) os s).1.1 = .ok (.ok r)) :
      Written c (complete server runId recoveryCommand r)
  | status {limits : Limits} {floatText : List Char → Str} {input : Input} {probe : ReadOnly.Probe}
      {os : Nat → Database.Outcome} {s : Database.Session} {r : ReadOnly.Report} (server runId : String)
      (recoveryCommand : String → Str)
      (hc : input.capture = c)
      (hr : (whole input.adapter (runStatus limits floatText input probe) os s).1.1 = .ok (.ok r)) :
      Written c (complete server runId recoveryCommand r)

end Commands

section Listing

variable {α β : Type} {adapter : Adapter} {Q : α → Prop}

/-- Whatever the session does, what the part returns satisfies `Q`. -/
def Yields (adapter : Adapter) (m : Run α) (Q : α → Prop) : Prop :=
  ∀ l s, wp (serve adapter) (fun _ _ _ => True) (fun _ _ => True) m (fun r _ _ => ∀ a, r = .ok a → Q a) l s

theorem Yields.pure {a : α} (h : Q a) : Yields adapter (Pure.pure a) Q := by
  rintro l s b ⟨⟩
  exact h

theorem Yields.throw (e : Exc) : Yields adapter (Proc.throw e) Q := by
  rintro l s b ⟨⟩

theorem Yields.trivial (m : Run α) : Yields adapter m fun _ => True := fun _ _ =>
  wp_mono (wp_top m) fun _ _ _ _ _ _ => True.intro

theorem Yields.bind {m : Run β} {Q' : β → Prop} {f : β → Run α} (hm : Yields adapter m Q')
    (hf : ∀ b, Q' b → Yields adapter (f b) Q) : Yields adapter (m >>= f) Q := by
  intro l s
  apply (wp_bind _ _).2
  apply wp_mono (hm l s)
  intro r l' s' h
  cases r with
  | error e => exact fun a ha => nomatch ha
  | ok b => exact hf b (h b rfl) l' s'

theorem Yields.finally {m : Run α} (h : Yields adapter m Q) (n : Run Unit) : Yields adapter (m.finally_ n) Q := by
  intro l s
  apply (wp_finally _ _).2
  apply wp_mono (h l s)
  intro r l' s' hr
  apply wp_mono (wp_top n)
  intro c l'' s'' _
  cases c with
  | error e => exact fun a ha => nomatch ha
  | ok u => exact hr

theorem Yields.whole {m : Run α} (h : Yields adapter m Q) {os : Nat → Database.Outcome} {a : α}
    (hr : (whole adapter m os s).1.1 = .ok a) : Q a :=
  (Lib.Interaction.whole_wp (h {} s) fun _ _ _ => True.intro).2 a hr

def listed (ms : List ReadOnly.MigrationStatus) : List (Nat × String × String) :=
  ms.map fun m => (m.position, m.id, m.currentFingerprint)

def unitsOf (us : List CapturedUnit) : List (Nat × String × String) :=
  us.map fun u => (u.position, u.id, u.fingerprint)

variable {input : Input} {rows : List HistoryRow} {liveness : Option ReadOnly.Probe}

theorem yields_fillUnit (report : ReadOnly.Report) (u : CapturedUnit) :
    Yields adapter (ReadOnly.fillUnit input rows liveness report u) fun r =>
      listed r.migrations = listed report.migrations ++ unitsOf [u] := by
  have happend {entry : ReadOnly.MigrationStatus} (h : listed [entry] = unitsOf [u]) :
      listed (report.migrations ++ [entry]) = listed report.migrations ++ unitsOf [u] := by
    rw [← h]
    exact List.map_append
  unfold ReadOnly.fillUnit
  split
  · exact Yields.pure (happend rfl)
  · next row _ =>
      dsimp only
      split
      · exact Yields.pure (happend rfl)
      · cases liveness with
        | none =>
            have hentry : listed [ReadOnly.statusFromRow u (some row)] = unitsOf [u] := rfl
            exact Yields.pure (happend hentry)
        | some probe =>
            apply Yields.bind (Yields.trivial _)
            rintro ⟨verdict, detail⟩ -
            exact Yields.pure (happend rfl)

theorem yields_fillUnits (us : List CapturedUnit) : ∀ report : ReadOnly.Report,
    Yields adapter (ReadOnly.fillUnits input rows liveness report us) fun r =>
      listed r.migrations = listed report.migrations ++ unitsOf us := by
  induction us with
  | nil => exact fun report => Yields.pure (List.append_nil _).symm
  | cons u us ih =>
      intro report
      apply Yields.bind (yields_fillUnit report u)
      intro report' h
      have hrest := ih report'
      rw [h, List.append_assoc] at hrest
      exact hrest

theorem listed_pendingOnly (report : ReadOnly.Report) :
    listed (ReadOnly.pendingOnly input report).migrations = unitsOf input.capture.units := List.map_map

theorem yields_prepare (command : String) :
    Yields adapter (ReadOnly.prepare input command) fun x =>
      x.2 = none → listed x.1.migrations = unitsOf input.capture.units := by
  apply Yields.bind (Yields.trivial _)
  intro found _
  cases hs : found.state with
  | damaged => exact Yields.pure fun _ => listed_pendingOnly _
  | absent => exact Yields.pure fun _ => listed_pendingOnly _
  | incompleteCompatible => exact Yields.pure fun _ => listed_pendingOnly _
  | complete =>
      dsimp only
      cases Metadata.verifyBindings input.config found.metaRow with
      | error e => exact Yields.pure fun _ => listed_pendingOnly _
      | ok u =>
          apply Yields.bind (Yields.trivial _)
          intro snapshot _
          exact Yields.pure fun h => nomatch h

theorem listed_recorded (report : ReadOnly.Report) (suffix : String) (e : Migr8Error) :
    (ReadOnly.recorded report suffix e).migrations = report.migrations := by
  unfold ReadOnly.recorded
  split <;> rfl

theorem yields_read (command suffix : String) :
    Yields adapter (ReadOnly.read input command liveness suffix) fun r =>
      listed r.migrations = unitsOf input.capture.units := by
  apply Yields.bind (yields_prepare command)
  rintro ⟨report, snapshot⟩ h
  cases snapshot with
  | none => exact Yields.pure (h rfl)
  | some snapshot =>
      apply Yields.bind (yields_fillUnits input.capture.units _)
      intro report' h'
      apply Yields.pure
      cases ReadOnly.checkPlan input snapshot with
      | ok u => exact h'
      | error e =>
          dsimp only
          rw [listed_recorded]
          exact h'

theorem listed_attach (report : ReadOnly.Report) (e : Migr8Error) :
    listed (ReadOnly.attachPreflightProblem report e).migrations = listed report.migrations := by
  have hmap : listed (report.migrations.map fun entry =>
      if some entry.id = e.migrationId then { entry with problem := some e.message } else entry) =
        listed report.migrations := by
    unfold listed
    rw [List.map_map]
    apply List.map_congr_left
    intro m _
    dsimp only [Function.comp_apply]
    split <;> rfl
  unfold ReadOnly.attachPreflightProblem
  dsimp only
  split <;> exact hmap

theorem yields_connected (limits : Limits) (floatText : List Char → Str) (command suffix : String)
    (baseline : Option (Str × Source)) (defer : Bool) :
    Yields adapter (runConnected limits floatText input command liveness suffix baseline defer) fun x =>
      ∀ r, x = .ok r → listed r.migrations = unitsOf input.capture.units := by
  apply Yields.bind (Yields.trivial _)
  intro deferred _
  cases checkBaseline limits floatText input baseline with
  | error e => exact Yields.pure fun r h => nomatch h
  | ok u =>
      apply Yields.bind (Yields.trivial _)
      intro _ _
      apply Yields.bind ((yields_read command suffix).finally _)
      intro report h
      apply Yields.pure
      rintro r ⟨⟩
      cases deferred with
      | none => exact h
      | some e => exact (listed_attach report e).trans h

theorem yields_offline (limits : Limits) (floatText : List Char → Str) (baseline : Option (Str × Source)) :
    Yields adapter (runOffline limits floatText input baseline) fun r =>
      listed r.migrations = unitsOf input.capture.units := by
  have hlisted : listed (offlineReport input baseline).migrations = unitsOf input.capture.units := List.map_map
  apply Yields.bind (Yields.trivial _)
  intro checked _
  cases checked with
  | error e =>
      cases e with
      | migr8 e => exact Yields.pure hlisted
      | _ => exact Yields.throw _
  | ok u =>
      dsimp only
      cases checkBaseline limits floatText input baseline with
      | ok u => exact Yields.pure hlisted
      | error e =>
          cases e with
          | recursionError => exact Yields.throw _
          | _ => exact Yields.pure hlisted

/-- A printed report lists every unit of its capture. -/
theorem Written.listed {c : Capture} {r : Report} (h : Written c r) : listed r.migrations = unitsOf c.units := by
  cases h with
  | offline runId hc hr =>
      rw [← hc]
      have hlisted := (yields_offline _ _ _).whole hr
      exact hlisted
  | validate server runId recoveryCommand hc hr =>
      rw [← hc]
      exact (yields_connected _ _ _ _ _ _).whole hr _ rfl
  | status server runId recoveryCommand hc hr =>
      rw [← hc]
      exact (yields_connected _ _ _ _ _ _).whole hr _ rfl

end Listing

section Reports

variable {iso : Timestamp → String} {limits : Limits} {floatText : List Char → Str} {c c' : Capture} {path : Str}
  {r : Report} {m : ReadOnly.MigrationStatus}

theorem codes_scalar (s : String) : ∀ n ∈ codes s, IsScalar n := by
  intro n hn
  obtain ⟨ch, -, rfl⟩ := List.mem_map.1 hn
  exact ch.valid.imp id fun h => ⟨h.1, h.2⟩

theorem codes_injective {s t : String} (h : codes s = codes t) : s = t := by
  apply String.toList_injective
  exact List.map_injective_iff.2 (fun a b hab => Char.toNat_inj.1 hab) h

theorem reread_text (s : String) : reread (text s) = text s := congrArg Json.str (rereadText_scalar (codes_scalar s))

theorem reread_object (members : List (String × Value)) :
    reread (object members) = object (members.map fun m => (m.1, reread m.2)) := by
  apply congrArg Json.obj
  induction members with
  | nil => rfl
  | cons m members ih =>
      change Json.member _ _ _ = Json.member _ _ _
      rw [rereadText_scalar (codes_scalar m.1)]
      exact congrArg (Json.member _ _) ih

theorem writable_object {members : List (String × Value)} (h : ∀ m ∈ members, Writable m.2) :
    Writable (object members) := by
  apply writable_ofPairs
  intro m hm
  obtain ⟨m', hm', rfl⟩ := List.mem_map.1 hm
  exact h m' hm'

theorem writable_optional {α : Type} {json : α → Value} (h : ∀ a, Writable (json a)) (o : Option α) :
    Writable (optional json o) := by
  cases o with
  | none => trivial
  | some a => exact h a

theorem get_object (members : List (String × Value)) (key : String) :
    get (ofPairs (members.map fun m => (codes m.1, m.2))) key = (members.reverse.lookup key).getD .null := by
  unfold get
  rw [pairs_ofPairs, ← List.map_reverse]
  refine congrArg (fun o => Option.getD o Json.null) ?_
  induction members.reverse with
  | nil => rfl
  | cons m ms ih =>
      rw [List.map_cons, List.lookup_cons, List.lookup_cons, ih]
      have hkey : (codes key == codes m.1) = (key == m.1) := by
        rw [Bool.eq_iff_iff, beq_iff_eq, beq_iff_eq]
        exact ⟨codes_injective, congrArg codes⟩
      rw [hkey]

theorem writable_status (m : ReadOnly.MigrationStatus) : Writable (statusJson iso m) := by
  have ht (o : Option String) : Writable (optional text o) := by cases o <;> trivial
  have hb (o : Option Bool) : Writable (optional .bool o) := by cases o <;> trivial
  have hiso (o : Option Timestamp) : Writable (optional (fun t => text (iso t)) o) := by cases o <;> trivial
  apply writable_object
  simp only [List.forall_mem_cons]
  exact ⟨trivial, trivial, trivial, trivial, trivial, trivial, ht _, hb _, ht _, hb _,
    writable_optional (by intro; trivial) _, hiso _, hiso _, hiso _, ht _, ht _,
    writable_optional (by intro; trivial) _,
    ht _, ht _, ht _, ht _, ht _, List.forall_mem_nil _⟩

theorem writable_list {α : Type} {json : α → Value} (h : ∀ a, Writable (json a)) (l : List α) :
    Writable (.arr (ofElements (l.map json))) := by
  apply writable_ofElements
  intro j hj
  obtain ⟨a, -, rfl⟩ := List.mem_map.1 hj
  exact h a

theorem writable_problem (p : Problem) : Writable (problemJson p) := by
  apply writable_object
  simp only [List.forall_mem_cons]
  exact ⟨trivial, trivial, trivial, writable_optional (by intro; trivial) _, List.forall_mem_nil _⟩

theorem writable_report (r : Report) : Writable (reportJson iso r) := by
  have ht (o : Option String) : Writable (optional text o) := by cases o <;> trivial
  have hs (o : Option Str) : Writable (optional .str o) := by cases o <;> trivial
  apply writable_object
  simp only [List.forall_mem_cons]
  exact ⟨trivial, trivial, trivial, trivial, trivial, trivial, trivial, trivial, ht _, writable_list writable_status _,
    hs _, hs _, writable_list writable_problem _, ht _, hs _, writable_list (by intro; trivial) _, trivial, trivial,
    List.forall_mem_nil _⟩

def entryOf (iso : Timestamp → String) (m : ReadOnly.MigrationStatus) : Json .members :=
  (asObject (reread (statusJson iso m))).getD .none

theorem reread_status (m : ReadOnly.MigrationStatus) : reread (statusJson iso m) = .obj (entryOf iso m) := by
  unfold entryOf statusJson
  rw [reread_object]
  rfl

theorem recorded_report (r : Report) :
    recorded (reread (reportJson iso r)) = some (r.migrations.map (entryOf iso)) := by
  have hitems : (List.map (fun m => reread (statusJson iso m)) r.migrations).mapM asObject =
      some (r.migrations.map (entryOf iso)) := by
    induction r.migrations with
    | nil => rfl
    | cons m ms ih =>
        rw [List.map_cons, List.mapM_cons, ih, reread_status]
        rfl
  unfold reportJson
  rw [reread_object]
  change (asList (get (ofPairs _) "migrations")).bind (fun items => items.mapM asObject) = _
  rw [get_object]
  change (asList (.arr (reread (ofElements _)))).bind _ = _
  rw [reread_ofElements, List.map_map]
  change (elements (ofElements _)).mapM asObject = _
  rw [elements_ofElements]
  exact hitems

theorem get_entry (m : ReadOnly.MigrationStatus) :
    get (entryOf iso m) "position" = .int m.position ∧ get (entryOf iso m) "id" = text m.id ∧
      get (entryOf iso m) "current_fingerprint" = text m.currentFingerprint := by
  unfold entryOf statusJson
  rw [reread_object]
  change get (ofPairs _) _ = _ ∧ get (ofPairs _) _ = _ ∧ get (ofPairs _) _ = _
  rw [get_object, get_object, get_object]
  exact ⟨rfl, reread_text m.id, reread_text m.currentFingerprint⟩

def plan (c : Capture) : List (String × String) := c.units.map fun u => (u.id, u.fingerprint)

theorem isText_text (s t : String) : isText s (text t) = true ↔ s = t := by
  change (codes t == codes s) = true ↔ s = t
  rw [beq_iff_eq]
  exact ⟨fun h => (codes_injective h).symm, fun h => congrArg codes h.symm⟩

def Holds (c : Capture) (m : Nat × String × String) : Prop :=
  ∃ u, c.atPosition m.1 = some u ∧ u.id = m.2.1 ∧ u.fingerprint = m.2.2

theorem difference_entry : difference floatText c (entryOf iso m) = none ↔
    Holds c (m.position, m.id, m.currentFingerprint) := by
  unfold difference Holds
  obtain ⟨hp, hi, hf⟩ := @get_entry iso m
  rw [hp, hi, hf]
  dsimp only [asInt, Option.bind_some]
  cases c.atPosition m.position with
  | none =>
      constructor
      · intro h
        cases h
      · rintro ⟨u, hu, -⟩
        cases hu
  | some u =>
      dsimp only
      have hid := isText_text u.id m.id
      have hfp := isText_text u.fingerprint m.currentFingerprint
      have hu : (∃ u', some u = some u' ∧ u'.id = m.id ∧ u'.fingerprint = m.currentFingerprint) ↔
          u.id = m.id ∧ u.fingerprint = m.currentFingerprint := by
        constructor
        · rintro ⟨u', hu', h⟩
          cases hu'
          exact h
        · exact fun h => ⟨u, rfl, h⟩
      rw [hu, ← hid, ← hfp]
      cases isText u.id (text m.id)
      · simp
      · cases isText u.fingerprint (text m.currentFingerprint) <;> simp

theorem compare_ok {entries : List (Json .members)} :
    compare floatText c path entries = .ok () ↔ ∀ e ∈ entries, difference floatText c e = none := by
  unfold compare
  dsimp only
  rw [← List.filterMap_eq_nil_iff]
  split
  · next h => exact ⟨fun _ => h, fun _ => rfl⟩
  · next h =>
      constructor
      · intro h'
        cases h'
      · exact fun h' => absurd h' h

theorem atPosition_succ (c : Capture) (i : Nat) : c.atPosition ((i + 1 : Nat) : Int) = c.units[i]? := by
  unfold Capture.atPosition
  split
  · next h =>
      have hi : (((i + 1 : Nat) : Int) - 1).toNat = i := by omega
      rw [hi]
  · next h =>
      rw [eq_comm, List.getElem?_eq_none_iff]
      omega

/-- The check by recorded positions is the comparison of the lists. -/
theorem holds_iff_prefix (c c' : Capture) :
    (∀ u ∈ c.units, Holds c' (u.position, u.id, u.fingerprint)) ↔ plan c <+: plan c' := by
  have hpos (i : Nat) (h : i < c.units.length) : (c.units[i]).position = i + 1 := by
    have hp := List.getElem_of_eq c.positions (i := i) (by rw [List.length_map]; exact h)
    rw [List.getElem_map, List.getElem_range'] at hp
    omega
  rw [List.prefix_iff_getElem?]
  constructor
  · intro h i hi
    rw [plan, List.length_map] at hi
    obtain ⟨u, hu, hid, hfp⟩ := h _ (List.getElem_mem hi)
    rw [hpos i hi, atPosition_succ] at hu
    simp only [plan, List.getElem?_map, hu, Option.map_some, List.getElem_map, hid, hfp]
  · intro h u hu
    obtain ⟨i, hi, rfl⟩ := List.getElem_of_mem hu
    have hu' := h i (by rw [plan, List.length_map]; exact hi)
    rw [plan, List.getElem?_map, Option.map_eq_some_iff] at hu'
    obtain ⟨u', hu', he⟩ := hu'
    simp only [plan, List.getElem_map, Prod.mk.injEq] at he
    refine ⟨u', ?_, he.1, he.2⟩
    rw [hpos i hi, atPosition_succ]
    exact hu'

end Reports

section Approval

variable {iso : Timestamp → String} {limits limits' : Limits} {floatText : List Char → Str} {c c' c'' : Capture}
  {path path' : Str} {r r' : Report}

/-- The document is within the limits of the interpreter that reads it. -/
def Fits (limits : Limits) (j : Value) : Prop := nesting j ≤ limits.nesting ∧ longest j ≤ limits.digits

theorem nesting_object {members : List (String × Value)} {n : Nat} (h : ∀ m ∈ members, nesting m.2 ≤ n) :
    nesting (object members) ≤ n + 1 := by
  apply Nat.succ_le_succ
  apply nesting_ofPairs
  intro m hm
  obtain ⟨m', hm', rfl⟩ := List.mem_map.1 hm
  exact h m' hm'

theorem nesting_list {α : Type} {json : α → Value} {n : Nat} (h : ∀ a, nesting (json a) ≤ n) (l : List α) :
    nesting (.arr (ofElements (l.map json))) ≤ n + 1 := by
  apply Nat.succ_le_succ
  apply nesting_ofElements
  intro j hj
  obtain ⟨a, -, rfl⟩ := List.mem_map.1 hj
  exact h a

theorem nesting_optional {α : Type} {json : α → Value} (h : ∀ a, nesting (json a) = 0) (o : Option α) :
    nesting (optional json o) = 0 := by
  cases o with
  | none => rfl
  | some a => exact h a

theorem nesting_status (m : ReadOnly.MigrationStatus) : nesting (statusJson iso m) ≤ 1 := by
  have ht (o : Option String) : nesting (optional text o) ≤ 0 := (nesting_optional (fun _ => rfl) o).le
  have hb (o : Option Bool) : nesting (optional .bool o) ≤ 0 := (nesting_optional (fun _ => rfl) o).le
  have hiso (o : Option Timestamp) : nesting (optional (fun t => text (iso t)) o) ≤ 0 :=
    (nesting_optional (fun _ => rfl) o).le
  apply nesting_object
  simp only [List.forall_mem_cons]
  exact ⟨Nat.le_refl 0, Nat.le_refl 0, Nat.le_refl 0, Nat.le_refl 0, Nat.le_refl 0, Nat.le_refl 0, ht _, hb _,
    ht _, hb _,
    (nesting_optional (fun _ => rfl) _).le, hiso _, hiso _, hiso _, ht _, ht _, (nesting_optional (fun _ => rfl) _).le,
    ht _, ht _, ht _, ht _, ht _, List.forall_mem_nil _⟩

theorem nesting_problem (p : Problem) : nesting (problemJson p) ≤ 1 := by
  apply nesting_object
  simp only [List.forall_mem_cons]
  exact ⟨Nat.le_refl 0, Nat.le_refl 0, Nat.le_refl 0, (nesting_optional (fun _ => rfl) _).le, List.forall_mem_nil _⟩

theorem nesting_report (r : Report) : nesting (reportJson iso r) ≤ 3 := by
  have ht (o : Option String) : nesting (optional text o) ≤ 2 := by rw [nesting_optional (fun _ => rfl)]; omega
  have hs (o : Option Str) : nesting (optional .str o) ≤ 2 := by rw [nesting_optional (fun _ => rfl)]; omega
  have hz : 0 ≤ 2 := Nat.zero_le _
  have hchecks : nesting (.arr (ofElements (r.checks.map .str))) ≤ 1 := nesting_list (fun _ => Nat.le_refl 0) _
  apply nesting_object
  simp only [List.forall_mem_cons]
  exact ⟨hz, hz, hz, hz, hz, hz, hz, hz, ht _, nesting_list nesting_status _, hs _, hs _,
    nesting_list nesting_problem _,
    ht _, hs _, Nat.le_succ_of_le hchecks, hz, hz, List.forall_mem_nil _⟩

theorem verify_loaded {t : List Char} {j : Value} (h : loads limits t = .ok j) :
    verifyBaseline floatText limits c path (.text t) = match recorded j with
      | none => .error (.usage (codes "the baseline plan " ++ path ++
          codes " is not a migr8 JSON report with a migrations list"))
      | some entries => compare floatText c path entries := by
  unfold verifyBaseline
  dsimp only
  rw [h]

theorem verify_blank (h : Written c r) {ws : List Char} (hws : ∀ x ∈ ws, isWs x = true) :
    verifyBaseline floatText limits c' path (.text (r.toJson iso ++ ws)) = .ok () ↔
      Fits limits (reportJson iso r) ∧ plan c <+: plan c' := by
  have hloads : loads limits (r.toJson iso ++ ws) =
      limited limits.digits (reportJson iso r) limits.nesting (reread (reportJson iso r)) :=
    loads_dumps (writable_report r) hws
  have hfits : offence limits.digits (reportJson iso r) limits.nesting = none ↔ Fits limits (reportJson iso r) :=
    offence_eq_none _ _
  have hentries : compare floatText c' path (r.migrations.map (entryOf iso)) = .ok () ↔ plan c <+: plan c' := by
    rw [compare_ok, ← holds_iff_prefix]
    calc (∀ e ∈ r.migrations.map (entryOf iso), difference floatText c' e = none)
        ↔ ∀ x ∈ listed r.migrations, Holds c' x := by
          simp only [listed, List.forall_mem_map, difference_entry]
      _ ↔ ∀ u ∈ c.units, Holds c' (u.position, u.id, u.fingerprint) := by
          rw [h.listed]
          simp only [unitsOf, List.forall_mem_map]
  unfold limited at hloads
  cases ho : offence limits.digits (reportJson iso r) limits.nesting with
  | none =>
      rw [ho] at hloads
      rw [verify_loaded hloads, recorded_report, and_iff_right (hfits.1 ho)]
      exact hentries
  | some f =>
      rw [ho] at hloads
      constructor
      · intro hok
        unfold verifyBaseline at hok
        dsimp only at hok
        rw [hloads] at hok
        cases f <;> cases hok
      · rintro ⟨hin, -⟩
        rw [hfits.2 hin] at ho
        cases ho

/-- A plan passes against a report, as it is printed or without the line end, exactly if
the report is within the limits, and its plan is a prefix of this one. It is never nested
deeper than three levels. -/
theorem verify_report (h : Written c r) : nesting (reportJson iso r) ≤ 3 ∧
    ∀ t ∈ [r.toJson iso, r.printed iso], verifyBaseline floatText limits c' path (.text t) = .ok () ↔
      Fits limits (reportJson iso r) ∧ plan c <+: plan c' := by
  refine ⟨nesting_report r, ?_⟩
  simp only [List.forall_mem_cons]
  refine ⟨?_, verify_blank h ?_, List.forall_mem_nil _⟩
  · rw [← List.append_nil (r.toJson iso)]
    exact verify_blank h (List.forall_mem_nil _)
  · simp [isWs]

section Example

open DurableHistory

def lintedRun : Input := soleRun .sqlite .atomic (.ret .nothing)

theorem verify_report_linted : verifyBaseline (fun _ => []) ⟨3, 4300⟩ lintedRun.capture []
    (.text ((offlineReport lintedRun none).printed fun _ => "")) = .ok () := by
  have hran : (whole lintedRun.adapter (runOffline ⟨3, 4300⟩ (fun _ => []) lintedRun none) (fun _ => {})
      (newNamespace .sqlite)).1.1 =
      .ok (offlineReport lintedRun none) := rfl
  have hw : Written lintedRun.capture (offlineReport lintedRun none) := .offline "" rfl hran
  have hl : longest (reportJson (fun _ => "") (offlineReport lintedRun none)) ≤ 4300 := by decide +kernel
  exact ((verify_report hw).2 _ (by simp)).2 ⟨⟨nesting_report _, hl⟩, List.prefix_refl _⟩

end Example

/-- Of all texts that are JSON the check lets a `RecursionError` out for those that are
nested too deeply, unless an integer of too many digits comes first. -/
theorem verify_document {t : List Char} {j : Value} (h : loads limits' t = .ok j) :
    verifyBaseline floatText limits c path (.text t) = .error .recursionError ↔
      offence limits.digits j limits.nesting = some .recursion := by
  have hload : loads limits t = limited limits.digits j limits.nesting j := loads_limited h
  unfold limited at hload
  cases ho : offence limits.digits j limits.nesting with
  | none =>
      rw [ho] at hload
      rw [verify_loaded hload]
      constructor
      · intro he
        split at he
        · cases he
        · unfold compare at he
          dsimp only at he
          split at he <;> cases he
      · intro he
        cases he
  | some f =>
      rw [ho] at hload
      unfold verifyBaseline
      dsimp only
      rw [hload]
      cases f with
      | value =>
          constructor
          · intro he
            cases he
          · intro he
            cases he
      | recursion => exact ⟨fun _ => rfl, fun _ => rfl⟩

theorem verify_document_nested :
    verifyBaseline (fun _ => []) ⟨1, 4300⟩ lintedRun.capture [] (.text "[[]]".toList) = .error .recursionError := by
  have hloads : loads ⟨2, 4300⟩ "[[]]".toList = .ok (.arr (.cons (.arr .nil) .nil)) := rfl
  exact (verify_document hloads).2 rfl

end Approval

end Migr8.Baseline
