import Migr8.Fingerprint
import Migr8.Model
import Migr8.Errors
import Migr8.Lib.Folders
import Mathlib.Data.List.DropRight
import Mathlib.Data.List.Lex
import Mathlib.Data.Nat.Digits.Defs

namespace Migr8.Staging

open Model Fingerprint Errors Lib.Folders

/-- The code points of a `str`; a byte that is no text counts as a lone surrogate. -/
abbrev PyStr := List Nat

abbrev Path := List PyStr

abbrev Directory := Folder PyStr Bytes

inductive Refusal where
  | unitError (message : String)
  | unicodeEncodeError
  | overflowError
  | osError
  deriving DecidableEq, Repr

def codes (s : String) : PyStr := s.toList.map Char.toNat

def scalar (p : PyStr) : Option String :=
  (p.mapM fun n : Nat => if n.isValidChar then some (Char.ofNat n) else none).map String.ofList

/-- Python's `repr`, with the escapes of control characters and surrogates. -/
def reprOf (p : PyStr) : String :=
  let quote := if 39 ∈ p ∧ 34 ∉ p then 34 else 39
  let escape (n : Nat) : List Char :=
    if n = quote ∨ n = 92 then ['\\', Char.ofNat n]
    else if n = 10 then ['\\', 'n']
    else if n = 13 then ['\\', 'r']
    else if n = 9 then ['\\', 't']
    else if n < 32 ∨ n = 127 then ['\\', 'x', Nat.digitChar (n / 16), Nat.digitChar (n % 16)]
    else if n.isValidChar then [Char.ofNat n]
    else '\\' :: 'u' :: Nat.toDigits 16 n
  String.ofList (Char.ofNat quote :: (p.flatMap escape ++ [Char.ofNat quote]))

def relText (path : Path) : PyStr := List.intercalate [47] path

def components (rel : String) : Path := ((codes rel).splitOn 47).filter fun part => part ≠ [] ∧ part ≠ [46]

structure PathTables where
  nfc : PyStr → PyStr
  casefold : String → PyStr

def forbiddenDirNames : List PyStr := ["__pycache__", ".pytest_cache", ".mypy_cache"].map codes

def forbiddenFileSuffixes : List PyStr := [".pyc", ".pyo"].map codes

section Scan

variable (tables : PathTables) (migrationId : String)

def stripSpaces (part : PyStr) : PyStr := (part.dropWhile (· = 32)).rdropWhile (· = 32)

def checkPart (named : String) (part : PyStr) : Except Refusal Unit :=
  if part = [] then .error (.unitError (named ++ " must not contain empty components"))
  else if part = [46] ∨ part = [46, 46] then
    .error (.unitError (named ++ " must not contain '.' or '..' components"))
  else if part ≠ stripSpaces part then
    .error (.unitError (named ++ " must not have leading or trailing spaces in a component"))
  else .ok ()

def checkRelativePath (what : String) (text : PyStr) : Except Refusal Unit :=
  let named := what ++ " " ++ reprOf text
  if text = [] then .error (.unitError (what ++ " must not be empty"))
  else if 92 ∈ text then .error (.unitError (named ++ " must not contain a backslash"))
  else if text.any fun n => n < 32 || n = 127 then
    .error (.unitError (named ++ " must not contain control characters"))
  else if text.head? = some 47 then .error (.unitError (named ++ " must be relative, not absolute"))
  else if tables.nfc text ≠ text then .error (.unitError (named ++ " must already be Unicode NFC"))
  else (text.splitOn 47).forM (checkPart named)

def admitEntry (path : Path) (what : Option (Leaf Bytes)) : Except Refusal Unit :=
  let rel := relText path
  let name := path.getLastD []
  let unit := "migration " ++ pyRepr migrationId ++ " unit"
  match what with
  | some .link => .error (.unitError (unit ++ " contains symlink " ++ reprOf rel ++ "; symlinks are rejected"))
  | none =>
      if name ∈ forbiddenDirNames then .error (.unitError (unit ++ " contains forbidden directory " ++ reprOf rel))
      else checkRelativePath tables (unit ++ " path") rel
  | some (.file _) =>
      if forbiddenFileSuffixes.any (·.isSuffixOf name) then
        .error (.unitError (unit ++ " contains forbidden bytecode file " ++ reprOf rel))
      else checkRelativePath tables (unit ++ " path") rel
  | some .special =>
      .error (.unitError (unit ++ " contains special file " ++ reprOf rel ++
        "; only regular files and directories are accepted"))

/-- A file that was come across: its relative path and, as the tree stands still,
the bytes that reading it gives. -/
abbrev Found := PyStr × Bytes

def found (path : Path) : Leaf Bytes → List Found
  | .file data => [(relText path, data)]
  | _ => []

abbrev Result := PyStr × Except Refusal (List Found)

def nameLe (a b : Result) : Prop := a.1 ≤ b.1

instance : DecidableRel nameLe := fun a b => inferInstanceAs (Decidable (a.1 ≤ b.1))

def inOrder (results : List Result) : Except Refusal (List Found) :=
  ((results.insertionSort nameLe).mapM fun r : Result => r.2).map List.flatten

def scanEach (current : Path) : Directory → List Result
  | .empty => []
  | .leaf name what rest =>
      let path := current ++ [name]
      (name, (admitEntry tables migrationId path (some what)).map fun _ => found path what) :: scanEach current rest
  | .dir name inner rest =>
      let path := current ++ [name]
      (name, admitEntry tables migrationId path none >>= fun _ => inOrder (scanEach path inner)) ::
        scanEach current rest

def scanDir (content : Directory) : Except Refusal (List Found) := inOrder (scanEach tables migrationId [] content)

abbrev UnitFile := String × Bytes

def encodable (f : Found) : Option UnitFile := (scalar f.1).map (·, f.2)

/-- The sort by the bytes of the relative paths, which have to be text for it. -/
def sortFiles (files : List Found) : Except Refusal (List UnitFile) :=
  match files.mapM encodable with
  | none => .error .unicodeEncodeError
  | some files => .ok (files.insertionSort pathLe)

/-- `seen` holds the paths passed, by their folded form. -/
def checkNoCaseCollisions (seen : List (PyStr × String)) : List String → Except Refusal Unit
  | [] => .ok ()
  | rel :: rels =>
      let folded := tables.casefold rel
      match seen.lookup folded with
      | some other => .error (.unitError ("unit contains case-folding collision between " ++ pyRepr other ++
          " and " ++ pyRepr rel))
      | none => checkNoCaseCollisions ((folded, rel) :: seen) rels

def scanUnit (root : Path) (content : Option Directory) : Except Refusal (List UnitFile) :=
  match content with
  | none => .error .osError
  | some content => do
      let found ← scanDir tables migrationId content
      if found = [] then
        .error (.unitError ("migration " ++ pyRepr migrationId ++ " unit /" ++
          String.ofList ((relText root).map Char.ofNat) ++ " contains no files"))
      else
        let files ← sortFiles found
        checkNoCaseCollisions tables [] (files.map (·.1))
        return files

end Scan

structure MigrationDef where
  position : Nat
  id : String
  language : Language
  mode : Mode
  entry : String
  required : List RequiredObject
  unitDir : Path

/-- The reader numbers the entries and refuses a repeated id. -/
structure Manifest where
  migrations : List MigrationDef
  positions : migrations.map (·.position) = List.range' 1 migrations.length
  distinct : (migrations.map (·.id)).Nodup

def ProperName (name : PyStr) : Prop := name ≠ [] ∧ 47 ∉ name ∧ name ≠ [46] ∧ name ≠ [46, 46]

structure FileTree where
  root : Directory
  distinct : root.Distinct
  proper : ∀ x ∈ root.places, ∀ name ∈ x.1, ProperName name

section Capture

variable (tables : PathTables) (sha256 : Bytes → String)

/-- `sha256` gives the hexadecimal digest. -/
def compute (data : FingerprintInput) : Except Refusal String :=
  match canonicalBytes data with
  | none => .error .overflowError
  | some bytes => .ok ("fp1:" ++ sha256 bytes)

def fingerprintUnit (d : MigrationDef) (root : Path) (content : Option Directory) :
    Except Refusal (String × List String) := do
  let files ← scanUnit tables d.id root content
  if d.entry ∉ files.map (·.1) then
    .error (.unitError ("migration " ++ pyRepr d.id ++ " entry " ++ pyRepr d.entry ++
      " is not a regular file inside its unit"))
  else
    let fingerprint ← compute sha256
      { language := d.language.value
        mode := d.mode.value
        entry := d.entry
        required := d.required.map fun r => (r.type, r.name)
        files := files }
    return (fingerprint, files.map (·.1))

def capturedUnit (d : MigrationDef) (r : String × List String) : CapturedUnit where
  id := d.id
  position := d.position
  language := d.language
  mode := d.mode
  entry := d.entry
  required := d.required
  fingerprint := r.1
  relpaths := r.2

variable (tree : FileTree)

def unitOf (d : MigrationDef) : Option Directory := tree.root.descend d.unitDir

def captureInPlace (manifest : Manifest) : Except Refusal (List CapturedUnit) :=
  manifest.migrations.mapM fun d =>
    (fingerprintUnit tables sha256 d d.unitDir (unitOf tree d)).map (capturedUnit d)

/-- `f"{position:05d}"`. -/
def stagedDirName (d : MigrationDef) : PyStr :=
  let digits := Nat.digits 10 d.position
  (digits ++ List.replicate (5 - digits.length) 0).reverse.map (48 + ·)

def copyUnit (d : MigrationDef) (root : Directory) : Except Refusal Directory := do
  let files ← scanUnit tables d.id d.unitDir (unitOf tree d)
  if stagedDirName d ∈ root.names then .error .osError
  else
    match Folder.empty.writeAll (files.map fun f => (components f.1, f.2)) with
    | none => .error .osError
    | some copy => .ok (.dir (stagedDirName d) copy root)

def stageFrom (staging : Path) (root : Directory) :
    List MigrationDef → Except Refusal (List CapturedUnit × Directory)
  | [] => .ok ([], root)
  | d :: ds => do
      let root ← copyUnit tables tree d root
      let name := stagedDirName d
      let r ← fingerprintUnit tables sha256 d (staging ++ [name]) (root.sub name)
      let (units, root) ← stageFrom staging root ds
      return (capturedUnit d r :: units, root)

def stage (staging : Path) (manifest : Manifest) : Except Refusal (List CapturedUnit × Directory) :=
  stageFrom tables sha256 tree staging .empty manifest.migrations

end Capture

end Migr8.Staging
