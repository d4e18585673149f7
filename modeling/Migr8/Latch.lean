import Migr8.Errors

namespace Migr8.Latch

open Errors

inductive LatchState where
  | open | unknownOutcome | contractViolation | batchFailed
  deriving DecidableEq, Repr

def LatchState.errorKind : LatchState → Option ErrorKind
  | .open => none
  | .unknownOutcome => some .unknownOutcome
  | .contractViolation => some .contractViolation
  | .batchFailed => some .migrationFailed

/-- The state and the kept error always name the same kind of failure. -/
structure RunLatch where
  state : LatchState
  error : Option Migr8Error
  agree : error.map (·.kind) = state.errorKind
  deriving DecidableEq

namespace RunLatch

def fresh : RunLatch := ⟨.open, none, rfl⟩

def latched (l : RunLatch) : Bool := l.state != .open

def unknown (l : RunLatch) : Bool := l.state == .unknownOutcome

/-- Single-shot: only an open latch takes a failure. -/
def set (l : RunLatch) (state : LatchState) (e : Migr8Error) (h : some e.kind = state.errorKind) : RunLatch :=
  if l.state = .open then ⟨state, some e, h⟩ else l

def latchUnknown (l : RunLatch) (e : Migr8Error) (h : e.kind = .unknownOutcome) : RunLatch :=
  l.set .unknownOutcome e (congrArg some h)

def latchViolation (l : RunLatch) (e : Migr8Error) (h : e.kind = .contractViolation) : RunLatch :=
  l.set .contractViolation e (congrArg some h)

def latchFailure (l : RunLatch) (e : Migr8Error) (h : e.kind = .migrationFailed) : RunLatch :=
  l.set .batchFailed e (congrArg some h)

theorem error_eq_none_iff (l : RunLatch) : l.error = none ↔ l.state = .open := by
  have h := l.agree
  constructor
  · intro he
    rw [he] at h
    cases hs : l.state <;> simp_all [LatchState.errorKind]
  · intro hs
    simpa [hs, LatchState.errorKind] using h

theorem latched_iff (l : RunLatch) : l.latched = true ↔ l.state ≠ .open := by
  simp [latched]

theorem set_of_latched {l : RunLatch} {state : LatchState} {e : Migr8Error} {h : some e.kind = state.errorKind}
    (hl : l.state ≠ .open) : l.set state e h = l := by
  simp [set, hl]

theorem set_of_open {l : RunLatch} {state : LatchState} {e : Migr8Error} {h : some e.kind = state.errorKind}
    (hl : l.state = .open) : l.set state e h = ⟨state, some e, h⟩ := by
  simp [set, hl]

/-- The kept error's exit code is the one of the latch state. -/
theorem exitCode_of_error {l : RunLatch} {e : Migr8Error} (h : l.error = some e) :
    (l.state = .unknownOutcome ∧ e.exitCode = .unknownOutcome) ∨
      (l.state = .contractViolation ∧ e.exitCode = .contractViolation) ∨
      (l.state = .batchFailed ∧ e.exitCode = .migrationFailed) := by
  have ha := l.agree
  rw [h] at ha
  cases hs : l.state <;> simp_all [LatchState.errorKind, Migr8Error.exitCode, ErrorKind.exitCode]

end RunLatch

end Migr8.Latch
