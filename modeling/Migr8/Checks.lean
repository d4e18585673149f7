import Migr8.Conditions
import Migr8.Errors

namespace Migr8.Checks

open Errors Characters Conditions

def sameLetter (p c : Char) : Bool :=
  c.toUpper = p || (p = 'I' && c ∈ ['\u0130', '\u0131']) || (p = 'S' && c = '\u017f')

def isPatternLetter (c : Char) : Bool := c.isAlpha || c ∈ ['\u0130', '\u0131', '\u017f', '\u212a']

def isNameStart (c : Char) : Bool := isPatternLetter c || c = '_'

def isNamePart (c : Char) : Bool := isPatternLetter c || c.isDigit || c ∈ ['_', '$', '#']

def afterPattern : Text → Text → Option Text
  | [], t => some t
  | p :: ps, c :: cs => if sameLetter p c then afterPattern ps cs else none
  | _ :: _, [] => none

/-- `_NOT_NULL_CONDITION`, whose `$` also stands before a last line feed. -/
def isNotNullCondition (condition : Text) : Bool :=
  let name := condition.takeWhile isNamePart
  name.head?.any isNameStart &&
    (afterPattern " IS NOT NULL".toList (condition.drop name.length)).any fun rest => rest = [] || rest = ['\n']

/-- A check constraint as the dictionary lists it; a condition without a text is NULL. -/
structure CheckRow where
  stored : Option Text
  enforced : Bool
  state : String

section Compare

variable (u : Unicode) (dec : Decimals) (fold : Fold dec) (table : String) (expected : List Text)
  (renderings : List (Text × Text))

/-- The canonical condition, an alternative rendering replaced by the one it stands for. -/
def condition (row : CheckRow) : Option Text :=
  (row.stored.bind (canonicalCondition u dec fold)).map fun c => (renderings.lookup c).getD c

def rowProblem (row : CheckRow) : Option String :=
  match condition u dec fold renderings row with
  | none => some (table ++ " has a check constraint whose condition is not in a form this tool " ++
      "recognises; no equivalence is assumed")
  | some c =>
      if isNotNullCondition c then none
      else if !expected.contains c then
        some (table ++ " has an unsupported check constraint " ++ pyRepr (String.ofList c) ++
          "; the supported layout is fixed")
      else if row.enforced then none
      else some (table ++ " check constraint " ++ pyRepr (String.ofList c) ++ " is " ++ row.state)

def seenIn (row : CheckRow) : Option Text :=
  (condition u dec fold renderings row).filter fun c => !isNotNullCondition c && expected.contains c

def checkProblems (rows : List CheckRow) : List String :=
  rows.filterMap (rowProblem u dec fold table expected renderings) ++
    (expected.filter fun c => !(rows.filterMap (seenIn u dec fold expected renderings)).contains c).map fun c =>
      table ++ " is missing the check constraint " ++ pyRepr (String.ofList c)

end Compare

variable {u : Unicode} {dec : Decimals} {fold : Fold dec} {table : String} {expected : List Text}
  {renderings : List (Text × Text)} {rows rows' : List CheckRow} {row : CheckRow} {c : Text}

theorem rowProblem_none : rowProblem u dec fold table expected renderings row = none ↔
    ∃ c, condition u dec fold renderings row = some c ∧
      (isNotNullCondition c = true ∨ (c ∈ expected ∧ row.enforced = true)) := by
  unfold rowProblem
  cases condition u dec fold renderings row with
  | none => simp
  | some c =>
      by_cases hn : isNotNullCondition c = true
      · simp [hn]
      · by_cases hc : c ∈ expected
        · by_cases he : row.enforced = true <;> simp [hn, hc, he]
        · simp [hn, hc]

theorem seenIn_some (hc : c ∈ expected) (hn : isNotNullCondition c = false) :
    seenIn u dec fold expected renderings row = some c ↔ condition u dec fold renderings row = some c := by
  rw [seenIn, Option.filter_eq_some_iff]
  simp [hc, hn]

theorem checkProblems_nil (hE : ∀ c ∈ expected, isNotNullCondition c = false) :
    checkProblems u dec fold table expected renderings rows = [] ↔
      (∀ row ∈ rows, ∃ c, condition u dec fold renderings row = some c ∧
        (isNotNullCondition c = true ∨ (c ∈ expected ∧ row.enforced = true))) ∧
      ∀ c ∈ expected, ∃ row ∈ rows, condition u dec fold renderings row = some c := by
  rw [checkProblems, List.append_eq_nil_iff, List.filterMap_eq_nil_iff, List.map_eq_nil_iff, List.filter_eq_nil_iff]
  have hrows : (∀ row ∈ rows, rowProblem u dec fold table expected renderings row = none) ↔
      ∀ row ∈ rows, ∃ c, condition u dec fold renderings row = some c ∧
        (isNotNullCondition c = true ∨ (c ∈ expected ∧ row.enforced = true)) := by
    simp only [rowProblem_none]
  have hexpected : (∀ c ∈ expected, ¬ (!(rows.filterMap (seenIn u dec fold expected renderings)).contains c) = true) ↔
      ∀ c ∈ expected, ∃ row ∈ rows, condition u dec fold renderings row = some c := by
    apply forall_congr'
    intro c
    apply forall_congr'
    intro hc
    simp only [Bool.not_eq_true', Bool.not_eq_false, List.contains_iff_mem, List.mem_filterMap,
      seenIn_some hc (hE c hc)]
  rw [hrows, hexpected]

/-- The check conditions of a table are accepted just when they are the expected ones,
and then in any order. -/
theorem checkProblems_exact (u : Unicode) (dec : Decimals) (fold : Fold dec) (table : String) (expected : List Text)
    (renderings : List (Text × Text)) (hE : ∀ c ∈ expected, isNotNullCondition c = false) (rows : List CheckRow) :
    (checkProblems u dec fold table expected renderings rows = [] ↔
      (∀ row ∈ rows, ∃ c, condition u dec fold renderings row = some c ∧
        (isNotNullCondition c = true ∨ (c ∈ expected ∧ row.enforced = true))) ∧
      ∀ c ∈ expected, ∃ row ∈ rows, condition u dec fold renderings row = some c) ∧
    ∀ rows', rows.Perm rows' → (checkProblems u dec fold table expected renderings rows' = [] ↔
      checkProblems u dec fold table expected renderings rows = []) := by
  refine ⟨checkProblems_nil hE, fun rows' hp => ?_⟩
  rw [checkProblems_nil hE, checkProblems_nil hE]
  simp only [hp.mem_iff]

section Example

/-- Two spellings of one condition, and a bare NOT NULL. -/
def seqChecks : List CheckRow :=
  [⟨some "seq>0".toList, true, "ENABLED"⟩, ⟨some "\"SEQ\" IS NOT NULL".toList, true, "ENABLED"⟩]

theorem checkProblems_exact_seq :
    checkProblems .ascii .plain (.lower .plain) "m8_history" ["seq > 0".toList] [] seqChecks.reverse = [] := by
  have h := checkProblems_exact .ascii .plain (.lower .plain) "m8_history" ["seq > 0".toList] []
      (by decide +kernel) seqChecks
  exact (h.2 seqChecks.reverse (List.reverse_perm _).symm).2 (by decide +kernel)

end Example

end Migr8.Checks
