import Migr8.LatchAuthority

namespace Migr8.ExitCodes

open Errors Model Latch Driver Database World Adapters Context Engine Rules Discipline RunObedience Sessions Frames
open Execution Runs DurableHistory LatchAuthority Lib.Process
open Lib.Interaction (Exchange trace result final result_wp)

variable {input : Input} {os : List Outcome} {s : Session} {x : Except Exc Report × Local}

def calm (q : Request) (_ : Session) (o : Outcome) : Prop := ∀ event id, q.op = .log event id → o.fault ≠ .interrupted

theorem calm_calm : Calm calm := fun event id _ _ _ h => h event id rfl

structure Meaning (input : Input) (x : Except Exc Report × Local) (s : Session) : Prop where
  ok : exitOf x = .ok → AllDone input.capture s
  failed : exitOf x = .migrationFailed ∨ exitOf x = .contractViolation → started s = [] ∨
    ∃ unit ∈ input.capture.units, (started s).getLast? = some unit.id ∧ Standing input.capture unit s

/-- Exit 0 means that every unit is durably SUCCESS. A run that fails or breaks the
contract after a unit was started has left every unit before it SUCCESS, and that one
without a row if it is atomic, or ACTIVE if it is restartable and admitted. -/
theorem exit_meaning (hx : result (serve input.adapter) os (Engine.run input {}) s.afresh = some x)
    (hcalm : ∀ y ∈ trace (serve input.adapter) os (Engine.run input {}) s.afresh, calm y.request y.before y.outcome) :
    Meaning input x (final (serve input.adapter) os (Engine.run input {}) s.afresh) := by
  have hs : Frame False s.db.history s.afresh := Holds.of_none ⟨rfl, False.elim⟩ rfl
  have hwp : wp (serve input.adapter) calm (Label input False) (Engine.run input) _ {} s.afresh :=
    Runs.wp_run hs False.elim ⟨rfl, fun id => List.not_mem_nil⟩
  have hend : RunEnd input calm False x _ := result_wp hwp os hcalm hx
  exact ⟨hend.done, hend.stopped calm_calm⟩

/-- After an unknown outcome the run sends nothing more, but for the end of SQLite's
reading transaction; it does not close the connection, and says so. -/
theorem silent_after_unknown (hx : result (serve input.adapter) os (Engine.run input {}) s = some x)
    {y : Exchange Request Outcome Session} (hy : y ∈ trace (serve input.adapter) os (Engine.run input {}) s)
    (hu : y.request.state.latch.state = .unknownOutcome) :
    (y.request.op.submits input.adapter = false ∧ y.request.op ≠ .closeConnection ∨
      input.adapter = .sqlite ∧ y.request.op = .snapshotCommit) ∧
    x.2.latch = y.request.state.latch ∧ exitOf x = .unknownOutcome := by
  obtain ⟨c, ho⟩ := run_orderly hy
  have hset : y.request.state.latch.state ≠ .open := by
    rw [hu]
    decide
  have hkept := run_latch hx hy hset
  obtain ⟨e, he⟩ := Option.ne_none_iff_exists'.1 fun h => hset ((RunLatch.error_eq_none_iff _).1 h)
  refine ⟨ho.silent hu, hkept, ?_⟩
  rw [← hkept] at he hu
  rw [run_exit hx he, Migr8Error.exitCode, kind_of_unknown he hu]
  rfl

section Example

def failedRun : Input := soleRun .sqlite .restartable (.raise (.plain "ValueError"))

def failedEnd : Session :=
  final (serve .sqlite) (List.replicate 80 { now := 1 }) (Engine.run failedRun {}) (newNamespace .sqlite).afresh

theorem exit_meaning_failed : ∃ unit ∈ failedRun.capture.units, (started failedEnd).getLast? = some unit.id ∧
    Standing failedRun.capture unit failedEnd := by
  have hdone : (result (serve .sqlite) (List.replicate 80 { now := 1 }) (Engine.run failedRun {})
      (newNamespace .sqlite).afresh).map exitOf = some .migrationFailed := by
    decide +kernel
  obtain ⟨x, hx, hexit⟩ := Option.map_eq_some_iff.1 hdone
  have hcalm : ∀ y ∈ trace (serve .sqlite) (List.replicate 80 { now := 1 }) (Engine.run failedRun {})
      (newNamespace .sqlite).afresh, calm y.request y.before y.outcome := by
    have hfault : ∀ y ∈ trace (serve .sqlite) (List.replicate 80 { now := 1 }) (Engine.run failedRun {})
        (newNamespace .sqlite).afresh, y.outcome.fault = .answered := by
      decide +kernel
    intro y hy event id _ hi
    rw [hfault y hy] at hi
    cases hi
  have hrun : result (serve failedRun.adapter) (List.replicate 80 { now := 1 }) (Engine.run failedRun {})
      (newNamespace .sqlite).afresh = some x := hx
  have hstarted : started failedEnd ≠ [] := by decide +kernel
  exact ((exit_meaning hrun hcalm).failed (.inl hexit)).resolve_left hstarted

/-- Code that goes on after the reply to its commit is lost. -/
theorem silent_after_unknown_stubborn :
    (∃ y ∈ trace (serve .sqlite) lostReply (lostRun stubborn) (newNamespace .sqlite).afresh,
      y.request.state.latch.state = .unknownOutcome) ∧
    ∀ y ∈ trace (serve .sqlite) lostReply (lostRun stubborn) (newNamespace .sqlite).afresh,
      y.request.state.latch.state = .unknownOutcome →
      y.request.op.submits .sqlite = false ∨ y.request.op = .snapshotCommit := by
  have hdone : (result (serve .sqlite) lostReply (lostRun stubborn) (newNamespace .sqlite).afresh).isSome = true := by
    decide +kernel
  obtain ⟨x, hx⟩ := Option.isSome_iff_exists.1 hdone
  have hrun : result (serve stubborn.adapter) lostReply (Engine.run stubborn {}) (newNamespace .sqlite).afresh =
      some x := hx
  refine ⟨by decide +kernel, fun y hy hl => ?_⟩
  rcases (silent_after_unknown hrun hy hl).1 with ⟨hsilent, -⟩ | ⟨-, hcommit⟩
  · exact .inl hsilent
  · exact .inr hcommit

end Example

end Migr8.ExitCodes
