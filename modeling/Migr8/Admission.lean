import Migr8.Normal
import Migr8.Context

namespace Migr8.Admission

open Errors Model Driver Context Characters SqlText

/-- Which leading tokens an engine admits in each context. -/
structure StatementPolicy where
  atomic : List String
  query : List String
  procedural : List String
  ddl : List String
  forbidden : List String
  allowsPlsql : Bool := false
  quotedStringIdentifiers : Bool := false
  cteBodiesModify : Bool := false

def sqlitePolicy : StatementPolicy where
  atomic := ["SELECT", "WITH", "VALUES", "INSERT", "REPLACE", "UPDATE", "DELETE", "CREATE", "ALTER", "DROP"]
  query := ["SELECT", "WITH", "VALUES"]
  procedural := []
  ddl := ["CREATE", "ALTER", "DROP"]
  forbidden := ["BEGIN", "COMMIT", "END", "ROLLBACK", "SAVEPOINT", "RELEASE", "PRAGMA", "VACUUM", "ATTACH",
    "DETACH", "ANALYZE", "REINDEX"]
  quotedStringIdentifiers := true

def postgresPolicy : StatementPolicy where
  atomic := ["SELECT", "WITH", "VALUES", "INSERT", "UPDATE", "DELETE", "MERGE", "LOCK", "CREATE", "ALTER",
    "DROP", "TRUNCATE", "COMMENT", "DO"]
  query := ["SELECT", "WITH", "VALUES"]
  procedural := ["DO", "CALL"]
  ddl := ["CREATE", "ALTER", "DROP", "TRUNCATE", "COMMENT", "REINDEX"]
  forbidden := ["BEGIN", "COMMIT", "END", "ROLLBACK", "SAVEPOINT", "RELEASE", "START", "SET", "RESET",
    "DISCARD", "LISTEN", "NOTIFY", "GRANT", "REVOKE", "VACUUM", "PREPARE", "DEALLOCATE", "COPY"]
  cteBodiesModify := true

def oraclePolicy : StatementPolicy where
  atomic := ["SELECT", "WITH", "INSERT", "UPDATE", "DELETE", "MERGE", "LOCK", "DECLARE", "BEGIN"]
  query := ["SELECT", "WITH"]
  procedural := ["DECLARE", "BEGIN"]
  ddl := ["CREATE", "ALTER", "DROP", "TRUNCATE", "RENAME", "COMMENT", "ANALYZE"]
  forbidden := ["COMMIT", "ROLLBACK", "SAVEPOINT", "SET", "GRANT", "REVOKE", "AUDIT", "NOAUDIT", "PURGE",
    "FLASHBACK"]
  allowsPlsql := true

def statementPolicy : Adapter → StatementPolicy
  | .sqlite => sqlitePolicy
  | .postgres => postgresPolicy
  | .oracle => oraclePolicy

def batchDdlTokens : List String := ["CREATE", "ALTER", "DROP", "TRUNCATE", "COMMENT"]

def cteDmlVerbs : List String := ["INSERT", "REPLACE", "UPDATE", "DELETE", "MERGE"]

def reservedObjectNames : List String := [historyTable, activeIndex, metaTable, progressTable]

def usageRefusal (message : String) : TextRefusal where
  kind := .usage
  message := message
  ofText := by decide

def unsupported (message : String) : TextRefusal where
  kind := .unsupportedCapability
  message := message
  ofText := by decide

def firstRefusal : List (Option TextRefusal) → Option TextRefusal
  | [] => none
  | some r :: _ => some r
  | none :: checks => firstRefusal checks

/-- `", ".join(sorted(tokens))`. -/
def listed (tokens : List String) : String := String.intercalate ", " (tokens.mergeSort (· ≤ ·)).dedup

section Checks

variable (u : Unicode) (adapter : Adapter)

/-- PostgreSQL asks the lead and the text itself. -/
def isConcurrent (statement : Statement) : Bool :=
  "CONCURRENTLY" ∈ statement.lead ||
    "CONCURRENTLY" ∈ (u.split statement.text).map fun word => String.ofList (u.upper word)

def noPlsql (first : String) : TextRefusal :=
  unsupported ("the " ++ adapter.name ++ " adapter has no PL/SQL support; " ++ first ++ " is not admitted")

def extraStatementChecks (statement : Statement) (mode : Mode) (inBatch : Bool) : Option TextRefusal :=
  match adapter with
  | .sqlite => none
  | .postgres =>
      if (mode = .atomic ∨ inBatch) ∧ isConcurrent u statement then
        some (usageRefusal (String.intercalate " " (statement.lead.take 3) ++
          " cannot run inside a transaction block; use ctx.ddl() in a restartable migration"))
      else none
  | .oracle =>
      match statement.lead with
      | "ALTER" :: second :: _ =>
          if second = "SESSION" ∨ second = "SYSTEM" then
            some (usageRefusal (String.intercalate " " (statement.lead.take 2) ++
              " changes session or system state and is not admitted through the facade"))
          else none
      | _ => none

def namesOf (statement : Statement) : List String :=
  if (statementPolicy adapter).quotedStringIdentifiers then statement.names ++ statement.stringNames
  else statement.names

def rejectReserved (statement : Statement) : Option TextRefusal :=
  (reservedObjectNames.find? fun reserved => reserved.toUpper ∈ namesOf adapter statement).map fun reserved =>
    usageRefusal ("migration code must not reference the reserved metadata object " ++ reserved ++
      "; use the supplied progress API")

/-- What a read outside a batch must not turn out to be. -/
def refuseWith (statement : Statement) : Option TextRefusal :=
  if statement.firstToken = "WITH" ∧ statement.cteVerb ∈ cteDmlVerbs then
    some (usageRefusal ("WITH ... " ++ statement.cteVerb ++ " outside a ctx.transaction() block is rejected " ++
      "in restartable mode; use ctx.transaction() for DML"))
  else if statement.firstToken = "WITH" ∧ (statementPolicy adapter).cteBodiesModify ∧
      statement.cteBodyVerbs ≠ [] then
    some (usageRefusal ("WITH ... AS (" ++ listed statement.cteBodyVerbs ++
      " ...) outside a ctx.transaction() block is rejected in restartable mode: the common table expression " ++
      "modifies data and would autocommit; use ctx.transaction() for DML"))
  else none

def refuseContext (statement : Statement) (mode : Mode) (inBatch : Bool) : Option TextRefusal :=
  let policy := statementPolicy adapter
  let first := statement.firstToken
  if mode = .atomic ∨ inBatch then
    if first ∈ policy.atomic then none
    else some (usageRefusal (first ++ " is not admitted in an atomic transaction or a restartable batch; " ++
      "admitted leading tokens are " ++ listed policy.atomic))
  else if first ∈ policy.query ∨ first ∈ policy.procedural then refuseWith adapter statement
  else some (usageRefusal (first ++ " outside a ctx.transaction() block is rejected in restartable mode; " ++
    "use ctx.transaction() for DML or ctx.ddl() for DDL"))

def admitStatement (statement : Statement) (mode : Mode) (inBatch : Bool) : Option TextRefusal :=
  let policy := statementPolicy adapter
  let first := statement.firstToken
  firstRefusal [
    if statement.kind ≠ .sql ∧ policy.allowsPlsql = false then some (noPlsql adapter first) else none,
    if first ∈ policy.forbidden then
      let named := String.intercalate " " (statement.lead.take 2)
      some (usageRefusal ((if named = "" then first else named) ++ " is not admitted through the " ++
        "facade: transaction control, session state and maintenance statements are engine-owned"))
    else none,
    if inBatch ∧ first ∈ batchDdlTokens then
      some (usageRefusal (first ++ " is DDL and is not admitted inside ctx.transaction() on any " ++
        "adapter; run it with ctx.ddl() outside the batch"))
    else none,
    extraStatementChecks u adapter statement mode inBatch,
    rejectReserved adapter statement,
    refuseContext adapter statement mode inBatch]

def admitDdl (statement : Statement) : Option TextRefusal :=
  let policy := statementPolicy adapter
  let first := statement.firstToken
  if statement.kind = .plsqlBlock then
    if policy.allowsPlsql then
      some (usageRefusal ("an anonymous PL/SQL block is not DDL; run it with ctx.execute() in a restartable " ++
        "migration, where it may own its own transactions"))
    else some (noPlsql adapter first)
  else firstRefusal [
    if first ∈ policy.ddl then none
    else some (usageRefusal ((if first = "" then "<empty>" else first) ++ " is not in the " ++ adapter.name ++
      " DDL allow-list (" ++ listed policy.ddl ++ ")")),
    extraStatementChecks u adapter statement .restartable false,
    rejectReserved adapter statement]

/-- Whether `execute_ddl` leaves the engine transaction out. -/
def runsDirectly (statement : Statement) : Bool := adapter = .postgres && isConcurrent u statement

inductive SqlCategory where
  | atomicStatement | restartableDdl | restartableProcedural
  deriving DecidableEq, Repr

def sqlCategory (statement : Statement) (mode : Mode) : SqlCategory :=
  if mode = .atomic then .atomicStatement
  else if statement.firstToken ∈ (statementPolicy adapter).procedural then .restartableProcedural
  else .restartableDdl

def admitEntry (statement : Statement) (mode : Mode) : Option TextRefusal :=
  match sqlCategory adapter statement mode with
  | .atomicStatement => admitStatement u adapter statement .atomic false
  | .restartableProcedural => admitStatement u adapter statement .restartable false
  | .restartableDdl => admitDdl u adapter statement

/-- Some route of the facade or of a SQL entry admits the statement. -/
def Admitted (statement : Statement) : Prop :=
  (∃ mode inBatch, admitStatement u adapter statement mode inBatch = none) ∨ admitDdl u adapter statement = none ∨
    ∃ mode, admitEntry u adapter statement mode = none

end Checks

section Passing

variable {u : Unicode} {adapter : Adapter} {st : Statement} {mode : Mode} {inBatch : Bool}

theorem firstRefusal_none {checks : List (Option TextRefusal)} : firstRefusal checks = none ↔
    ∀ r ∈ checks, r = none := by
  induction checks with
  | nil => simp [firstRefusal]
  | cons r checks ih =>
      cases r with
      | none => simp [firstRefusal, ih]
      | some r => simp [firstRefusal]

theorem some_if_none {p : Prop} [Decidable p] {r : TextRefusal} : (if p then some r else none) = none ↔ ¬ p := by
  split <;> simp_all

theorem none_if_some {p : Prop} [Decidable p] {r : TextRefusal} : (if p then none else some r) = none ↔ p := by
  split <;> simp_all

structure Passes (u : Unicode) (adapter : Adapter) (st : Statement) (mode : Mode) (inBatch : Bool) : Prop where
  kind : st.kind = .sql ∨ (statementPolicy adapter).allowsPlsql = true
  allowed : st.firstToken ∉ (statementPolicy adapter).forbidden
  noDdl : inBatch = true → st.firstToken ∉ batchDdlTokens
  extra : extraStatementChecks u adapter st mode inBatch = none
  reserved : rejectReserved adapter st = none
  context : refuseContext adapter st mode inBatch = none

theorem admitStatement_none : admitStatement u adapter st mode inBatch = none ↔ Passes u adapter st mode inBatch := by
  simp only [admitStatement, firstRefusal_none, List.mem_cons, List.not_mem_nil, or_false, forall_eq_or_imp, forall_eq,
    some_if_none, not_and, Bool.not_eq_false, ne_eq]
  constructor
  · rintro ⟨hkind, hallowed, hddl, hextra, hreserved, hcontext⟩
    exact ⟨Decidable.or_iff_not_imp_left.2 hkind, hallowed, hddl, hextra, hreserved, hcontext⟩
  · rintro ⟨hkind, hallowed, hddl, hextra, hreserved, hcontext⟩
    exact ⟨Decidable.or_iff_not_imp_left.1 hkind, hallowed, hddl, hextra, hreserved, hcontext⟩

structure PassesDdl (u : Unicode) (adapter : Adapter) (st : Statement) : Prop where
  kind : st.kind ≠ .plsqlBlock
  listed : st.firstToken ∈ (statementPolicy adapter).ddl
  extra : extraStatementChecks u adapter st .restartable false = none
  reserved : rejectReserved adapter st = none

theorem admitDdl_none : admitDdl u adapter st = none ↔ PassesDdl u adapter st := by
  by_cases hk : st.kind = .plsqlBlock
  · have hno : admitDdl u adapter st ≠ none := by
      simp only [admitDdl, hk, if_true]
      split <;> simp
    exact ⟨fun h => absurd h hno, fun h => absurd hk h.kind⟩
  · simp only [admitDdl, hk, if_false, firstRefusal_none, List.mem_cons, List.not_mem_nil, or_false,
      forall_eq_or_imp, forall_eq, none_if_some]
    constructor
    · rintro ⟨hlisted, hextra, hreserved⟩
      exact ⟨hk, hlisted, hextra, hreserved⟩
    · exact fun h => ⟨h.listed, h.extra, h.reserved⟩

theorem rejectReserved_none :
    rejectReserved adapter st = none ↔ ∀ r ∈ reservedObjectNames, r.toUpper ∉ namesOf adapter st := by
  simp [rejectReserved]

theorem extraStatementChecks_postgres : extraStatementChecks u .postgres st mode inBatch = none ↔
    ((mode = .atomic ∨ inBatch = true) → isConcurrent u st = false) := by
  simp [extraStatementChecks]

end Passing

section Texts

def textError : Failure → TextError
  | .syntaxError message => .refused { kind := .sqlSyntax, message := message, ofText := by decide }
  | .indexError => .failed "builtins.IndexError"
  | .valueError => .failed "builtins.ValueError"

variable (u : Unicode) (adapter : Adapter)

def checkText (check : Statement → Option TextRefusal) (sql : String) : Option TextError :=
  match normalize u sql.toList with
  | .ok statement => (check statement).map .refused
  | .error e => some (textError e)

/-- What is asked of a text only after it was normalised. -/
def askText (ask : Statement → Bool) (sql : String) : Bool :=
  match normalize u sql.toList with
  | .ok statement => ask statement
  | .error _ => false

/-- The decisions of this scanner and these policies, for an engine that reads its
files and checks its Python as `files` does. -/
def scanned (files : Texts) : Texts :=
  { files with
    admitStatement := fun sql mode inBatch => checkText u (fun st => admitStatement u adapter st mode inBatch) sql
    admitDdl := checkText u (admitDdl u adapter)
    isProcedural := askText u fun st => st.firstToken ∈ (statementPolicy adapter).procedural
    isConcurrent := askText u (runsDirectly u adapter) }

end Texts

end Migr8.Admission
