import Migr8.DurableHistory
import Migr8.Untouched

namespace Migr8.Reporting

open Errors Model Latch Driver Database World Adapters Context Engine StateValidate Rules Discipline Obedience
open EngineObedience Teardown RunObedience Sessions Shape Forward Frames Plans Planning Execution Runs
open Untouched DurableHistory Lib.Process
open Lib.Interaction (Act Exchange trace final result echo recorded trace_recorded wp_of_echo)

abbrev Past : Type := List (Exchange Request Outcome Session)

variable {α : Type} {input : Input} {adapter : Adapter} {rows₀ rows : List HistoryRow} {names fin : List String}
  {s s' : Session} {l : Local} {x : Session × Past} {past : Past}

section Progress

/-- A SUCCESS row was there at the start or belongs to one of `names`, and each
of `fin` has one. -/
structure Progressed (rows₀ : List HistoryRow) (names fin : List String) (d : Db) : Prop where
  known : ∀ r ∈ d.history, r.isSuccess = true → r ∈ rows₀ ∨ r.migrationId ∈ names
  finished : ∀ id ∈ fin, ∃ r ∈ d.history, r.migrationId = id ∧ r.isSuccess = true

theorem Progressed.congr {d d' : Db} (h : Progressed rows₀ names fin d) (hd : d'.history = d.history) :
    Progressed rows₀ names fin d' := by
  constructor
  · rw [hd]
    exact h.known
  · rw [hd]
    exact h.finished

theorem Progressed.mono {names' : List String} {d : Db} (h : Progressed rows₀ names fin d) (hn : names ⊆ names') :
    Progressed rows₀ names' fin d :=
  ⟨fun r hr hs => (h.known r hr hs).imp id fun hm => hn hm, h.finished⟩

theorem Progressed.update {id : String} {f : HistoryRow → HistoryRow} {d : Db} (h : Progressed rows₀ names fin d)
    (hf : ∀ r, isActiveRow id r = true → (f r).isSuccess = true → (f r).migrationId ∈ names) :
    Progressed rows₀ names fin (d.updateActive id f).2 := by
  constructor
  · intro r hr hs
    rcases mem_updateRows.1 hr with ⟨y, -, hy, rfl⟩ | ⟨hr, -⟩
    · exact .inr (hf y hy hs)
    · exact h.known r hr hs
  · intro i hi
    obtain ⟨r, hr, hid, hs⟩ := h.finished i hi
    have hn : isActiveRow id r = false := by
      by_contra hn
      have hno := not_success_of_active (eq_true_of_ne_false hn)
      rw [hs] at hno
      cases hno
    exact ⟨r, mem_updateRows.2 (.inr ⟨hr, hn⟩), hid, hs⟩

def Finishes (names : List String) : Op → Prop
  | .insertHistory i => i.migrationId ∈ names
  | .completeActive id _ => id ∈ names
  | _ => True

theorem Progressed.keeps {op : Op} (h : Finishes names op) : Keeps (Progressed rows₀ names fin) op := by
  cases op <;> try trivial
  case createObject name => exact fun d hd => hd.congr rfl
  case insertMarker row => exact fun d now hd => hd.congr rfl
  case deleteProgress id => exact fun d hd => hd.congr rfl
  case progressSet scope key value => exact fun d now w hd _ => hd.congr rfl
  case statement => exact fun d w hd => hd.congr rfl
  case insertHistory i =>
    intro d now hd _
    constructor
    · intro r hr hs
      rcases List.mem_append.1 hr with hr | hr
      · exact hd.known r hr hs
      · rw [List.mem_singleton.1 hr]
        exact .inr h
    · intro id hid
      obtain ⟨r, hr, hx⟩ := hd.finished id hid
      exact ⟨r, List.mem_append_left _ hr, hx⟩
  case updateAttempt id fingerprint language runner =>
    intro d now hd
    apply hd.update
    intro r ha hs
    have hno : (admitAttempt fingerprint language runner now r).isSuccess = false := not_success_of_active ha
    rw [hs] at hno
    cases hno
  case completeActive id toolVersion =>
    intro d now hd
    apply hd.update
    intro r ha _
    have hid : r.migrationId = id := beq_iff_eq.1 (Bool.and_eq_true_iff.1 ha).1
    rw [← hid] at h
    exact h

theorem finishes_of_unitOp {unit : CapturedUnit} {op : Op} (hn : unit.id ∈ names) (h : UnitOp unit op) :
    Finishes names op := by
  cases op <;> try trivial
  case insertHistory i =>
    have hid : i.migrationId = unit.id := h.resolve_right fun h => h.elim id id
    rw [← hid] at hn
    exact hn
  case completeActive id toolVersion =>
    have hid : id = unit.id := h.resolve_right fun h => h.elim False.elim False.elim
    rw [← hid] at hn
    exact hn

end Progress

section Account

def pendingUnits (capture : Capture) (rows : List HistoryRow) : List CapturedUnit :=
  capture.units.drop (rows.filter (·.isSuccess)).length

theorem pending_of_plan {capture : Capture} {snapshot : Snapshot} {plan : Plan}
    (h : StateValidate.buildPlan capture snapshot = .ok plan) (hp : snapshot.history.Perm rows) :
    plan.pending = pendingUnits capture rows := by
  rw [(buildPlan_ok h).2.2.2.1, (hp.filter _).length_eq]
  rfl

/-- What the run reports as executed: the next pending units in their order, each
durably SUCCESS. No other row has become SUCCESS but that of the unit started last. -/
structure Reported (input : Input) (rows₀ : List HistoryRow) (executed : List String) (s : Session) : Prop where
  order : executed <+: (pendingUnits input.capture rows₀).map (·.id)
  durable : ∀ id ∈ executed, ∃ r ∈ s.db.history, r.migrationId = id ∧ r.isSuccess = true
  further : ∀ r ∈ s.db.history, r.isSuccess = true →
    r ∈ rows₀ ∨ r.migrationId ∈ executed ∨ (started s).getLast? = some r.migrationId

/-- A commit that admits `id` has been answered, not by a rollback, and the ACTIVE row was
durable then. Only PostgreSQL answers a commit by a rollback. -/
def Acknowledged (adapter : Adapter) (id : String) (past : Past) : Prop :=
  ∃ l s o, ⟨⟨.commit .restartableAdmission, l⟩, s, o⟩ ∈ past ∧
    (∃ rolledBack, (serve adapter ⟨.commit .restartableAdmission, l⟩ o s).1 = .ok rolledBack ∧
      (adapter = .postgres → rolledBack = false)) ∧
    ∃ r ∈ (serve adapter ⟨.commit .restartableAdmission, l⟩ o s).2.db.history, isActiveRow id r = true

def Turn (input : Input) (id : String) (s : Session) (past : Past) : Prop :=
  ∃ unit ∈ input.capture.units, unit.id = id ∧
    (∀ u ∈ input.capture.units, u.position < unit.position →
      ∃ r ∈ s.db.history, r.migrationId = u.id ∧ r.isSuccess = true) ∧
    (unit.mode = .restartable → Acknowledged input.adapter id past)

/-- The report is right when a request is made and once it has been served, and
code is invoked in its turn. -/
structure Accounted (input : Input) (rows₀ : List HistoryRow) (q : Request) (x : Session × Past) : Prop where
  before : Reported input rows₀ q.state.report.executed x.1
  after : ∀ o, Reported input rows₀ q.state.report.executed (serve input.adapter q o x.1).2
  turn : ∀ id attempt, q.op = .invoke id attempt → Turn input id x.1 x.2

theorem Acknowledged.more {id : String} {y : Exchange Request Outcome Session} (h : Acknowledged adapter id past) :
    Acknowledged adapter id (past ++ [y]) := by
  obtain ⟨l, s, o, hm, h⟩ := h
  exact ⟨l, s, o, List.mem_append_left _ hm, h⟩

theorem Reported.none (h : s.db.history = rows₀) : Reported input rows₀ [] s := by
  refine ⟨List.nil_prefix, fun id hid => absurd hid List.not_mem_nil, ?_⟩
  intro r hr _
  rw [h] at hr
  exact .inl hr

theorem Reported.same {executed : List String} (h : Reported input rows₀ executed s) (hd : s'.db = s.db)
    (hm : started s' = started s) : Reported input rows₀ executed s' := by
  refine ⟨h.order, ?_, ?_⟩
  · rw [hd]
    exact h.durable
  · rw [hd, hm]
    exact h.further

variable (input rows₀) in
/-- A program whose requests keep `J`, while the list of finished units stays. -/
theorem wp_accounted {K : Op → Prop} {m : Run α} {P : Except Exc α → Local → RunLatch → Prop} {c : RunLatch}
    {J : Session × Past → Prop} (h : Safe input.adapter K m P l c) (hm : Spares m) (hx : J x)
    (hJ : ∀ q o x, K q.op → J x → J (recorded (serve input.adapter) q o x).2)
    (hrep : ∀ x, J x → Reported input rows₀ l.report.executed x.1)
    (hturn : ∀ id attempt x, K (.invoke id attempt) → J x → Turn input id x.1 x.2) :
    wp (recorded (serve input.adapter)) (fun _ _ _ => True) (Accounted input rows₀) m
      (fun r l' x => ((∃ c, P r l' c) ∧ J x) ∧ l'.report.executed = l.report.executed) l x := by
  have hkeep : wp (recorded (serve input.adapter)) (fun _ _ _ => True)
      (fun q x => (∃ c, Orderly input.adapter K q c) ∧ J x) m (fun r l' x => (∃ c, P r l' c) ∧ J x) l x :=
    wp_of_echo h hx fun q c o x hq _ hx => hJ q o x hq.kind hx
  have hsame : wp (recorded (serve input.adapter)) (fun _ _ _ => True)
      (fun q _ => (∃ _ : Unit, q.state.report.executed = l.report.executed) ∧ True) m
      (fun _ l' _ => (∃ _ : Unit, l'.report.executed = l.report.executed) ∧ True) l x :=
    wp_of_echo (hm l) trivial fun _ _ _ _ _ _ _ => trivial
  apply wp_weaken (wp_mono (wp_and hkeep hsame) ?_) (fun _ _ _ h => h) ?_
  · rintro r l' x ⟨h, ⟨-, he⟩, -⟩
    exact ⟨h, he⟩
  · rintro q x ⟨⟨⟨c, hq⟩, hx⟩, ⟨-, he⟩, -⟩
    rw [← he] at hrep
    refine ⟨hrep x hx, fun o => hrep _ (hJ q o x hq.kind hx), ?_⟩
    intro id attempt hop
    have hk := hq.kind
    rw [hop] at hk
    exact hturn id attempt x hk hx

end Account

section Admission

/-- The session is what an answered commit has left. -/
def Committed (adapter : Adapter) (b : Boundary) (x : Session × Past) : Prop :=
  ∃ l s o, ⟨⟨.commit b, l⟩, s, o⟩ ∈ x.2 ∧
    (∃ rolledBack, (serve adapter ⟨.commit b, l⟩ o s).1 = .ok rolledBack ∧ (adapter = .postgres → rolledBack = false)) ∧
    (serve adapter ⟨.commit b, l⟩ o s).2 = x.1

theorem Committed.last {b : Boundary} {o : Outcome} {a : Bool} (h : (serve adapter ⟨.commit b, l⟩ o x.1).1 = .ok a)
    (ha : adapter = .postgres → a = false) : Committed adapter b (recorded (serve adapter) ⟨.commit b, l⟩ o x).2 :=
  ⟨l, x.1, o, List.mem_append_right _ (List.mem_singleton_self _), ⟨a, h, ha⟩, rfl⟩

theorem commitFailed_throws (wasOpen : Bool) (e : Exc) :
    ∃ e', (commitFailed wasOpen e : Run α) = Proc.throw e' := by
  unfold commitFailed
  split
  · split
    · exact ⟨_, rfl⟩
    · exact ⟨_, rfl⟩
  · exact ⟨_, rfl⟩

theorem wp_doCommit_answered (b : Boundary) (l : Local) (x : Session × Past) :
    wp (recorded (serve adapter)) (fun _ _ _ => True) (fun _ _ => True) (doCommit adapter b)
      (fun r _ x => r = .ok () → Committed adapter b x) l x := by
  cases adapter with
  | oracle =>
      apply wp_perform_bind trivial
      · intro o a _ hr _
        exact Committed.last hr nofun
      · intro o e _ _ hr
        cases hr
  | postgres =>
      apply wp_perform_bind trivial
      · intro o status _ _
        apply (wp_ite _ _ _).2
        by_cases hs : status = .inError
        · rw [if_pos hs]
          intro hr
          cases hr
        · rw [if_neg hs]
          apply wp_perform_bind trivial
          · intro o a _ hr
            apply (wp_ite _ _ _).2
            by_cases ha : a = true
            · rw [if_pos ha]
              intro h
              cases h
            · rw [if_neg ha]
              exact fun _ => Committed.last hr fun _ => Bool.eq_false_iff.2 ha
          · intro o e _ _ h
            cases h
      · intro o e _ _ h
        cases h
  | sqlite =>
      apply wp_perform_bind trivial
      · intro o status _ _
        apply (wp_bind _ _).2
        apply wp_perform_tryCatch trivial
        · intro o a _ hr _
          exact Committed.last hr nofun
        · intro o e _ _
          obtain ⟨e', he⟩ := commitFailed_throws (α := Bool) (status != .idle) e
          rw [he]
          intro h
          cases h
      · intro o e _ _ h
        cases h

theorem wp_durableCommit_answered (b : Boundary) (id : Option String) (l : Local) (x : Session × Past) :
    wp (recorded (serve adapter)) (fun _ _ _ => True) (fun _ _ => True) (durableCommit adapter b id)
      (fun r _ x => r = .ok () → Committed adapter b x) l x := by
  apply (wp_guarded _ _ _).2
  cases l.latch.error with
  | some e =>
      intro h
      cases h
  | none =>
      apply (wp_bind _ _).2
      apply wp_mono (wp_doCommit_answered b l x)
      intro r l' x h
      cases r with
      | error e =>
          intro h
          cases h
      | ok u => exact fun _ => h rfl

theorem wp_admitUnit_answered (unit : CapturedUnit) (active : Option HistoryRow) (l : Local) (x : Session × Past) :
    wp (recorded (serve input.adapter)) (fun _ _ _ => True) (fun _ _ => True) (admitUnit input unit active)
      (fun r _ x => ∀ attempt, r = .ok attempt → Committed input.adapter .restartableAdmission x) l x := by
  have hnext {α : Type} {m : Run α} {n : Run Unit}
      (hn : ∀ l x, wp (recorded (serve input.adapter)) (fun _ _ _ => True) (fun _ _ => True) n
        (fun r _ x => r = .ok () → Committed input.adapter .restartableAdmission x) l x) (l : Local)
      (x : Session × Past) :
      wp (recorded (serve input.adapter)) (fun _ _ _ => True) (fun _ _ => True) (m >>= fun _ => n)
        (fun r _ x => r = .ok () → Committed input.adapter .restartableAdmission x) l x := by
    apply wp_bind_top
    · exact fun _ => hn
    · intro e l x h
      cases h
  have hattempt {n : Run Unit} {attempt : Option Int}
      (hn : ∀ l x, wp (recorded (serve input.adapter)) (fun _ _ _ => True) (fun _ _ => True) n
        (fun r _ x => r = .ok () → Committed input.adapter .restartableAdmission x) l x) :
      wp (recorded (serve input.adapter)) (fun _ _ _ => True) (fun _ _ => True) (n >>= fun _ => Pure.pure attempt)
        (fun r _ x => ∀ attempt, r = .ok attempt → Committed input.adapter .restartableAdmission x) l x := by
    apply (wp_bind _ _).2
    apply wp_mono (hn l x)
    intro r l x h
    cases r with
    | error e =>
        intro attempt ha
        cases ha
    | ok u => exact fun _ _ => h rfl
  cases active with
  | none => exact hattempt (hnext (hnext (wp_durableCommit_answered _ _)))
  | some row => exact hattempt (hnext (wp_durableCommit_answered _ _))

end Admission

section Units

variable {unit : CapturedUnit} {active : Option HistoryRow} {done rest : List CapturedUnit} {listed : List String}

/-- While `unit` runs, only its own row may become SUCCESS, and the log says about
the others what it said in `s`. -/
def Running (rows₀ : List HistoryRow) (listed : List String) (done : List CapturedUnit) (unit : CapturedUnit)
    (s : Session) (x : Session × Past) : Prop :=
  Holds (Progressed rows₀ (listed ++ [unit.id]) (done.map (·.id))) x.1 ∧ SameLog unit s x.1

theorem invoke_of_unitOp {id : String} {attempt : Option Int} (h : UnitOp unit (.invoke id attempt)) :
    id = unit.id := by
  rcases h with h | h | h
  · exact h.elim
  · exact h.elim
  · exact h

theorem Running.serve {q : Request} {o : Outcome} (h : Running rows₀ listed done unit s x) (hq : UnitOp unit q.op) :
    Running rows₀ listed done unit s (recorded (serve input.adapter) q o x).2 := by
  constructor
  · exact h.1.serve (Progressed.keeps (finishes_of_unitOp (by simp) hq))
  · exact h.2.trans (SameLog.serve hq)

theorem Running.reported (h : Running rows₀ listed done unit s x) (hlisted : listed ⊆ done.map (·.id))
    (hlast : (started s).getLast? = some unit.id)
    (hpre : listed <+: (pendingUnits input.capture rows₀).map (·.id)) :
    Reported input rows₀ listed x.1 := by
  refine ⟨hpre, fun id hid => h.1.db.finished id (hlisted hid), ?_⟩
  intro r hr hs
  rcases h.1.db.known r hr hs with hk | hk
  · exact .inl hk
  · rcases List.mem_append.1 hk with hk | hk
    · exact .inr (.inl hk)
    · rw [h.2.1, hlast, List.mem_singleton.1 hk]
      exact .inr (.inr rfl)

theorem Running.turn (h : Running rows₀ listed done unit s x) (hsplit : input.capture.units = done ++ unit :: rest)
    (hack : unit.mode = .restartable → Acknowledged input.adapter unit.id x.2) : Turn input unit.id x.1 x.2 := by
  refine ⟨unit, ?_, rfl, ?_, hack⟩
  · rw [hsplit]
    exact List.mem_append_right _ List.mem_cons_self
  · intro u hu hlt
    exact h.1.db.finished u.id (List.mem_map_of_mem (before_split hsplit hu hlt))

variable (hs : Frame False rows s)
  (hready : Ready input.capture.units input.recoverId active done (unit :: rest) rows)
  (hrun : Running rows₀ l.report.executed done unit s (s, past)) (hlisted : l.report.executed ⊆ done.map (·.id))
  (hlast : (started s).getLast? = some unit.id)
  (hpre : l.report.executed <+: (pendingUnits input.capture rows₀).map (·.id))

include hs hready hrun hlisted hlast hpre

theorem wp_runRestartable_accounted :
    wp (recorded (serve input.adapter)) (fun _ _ _ => True) (Accounted input rows₀)
      (runRestartable input unit (active.filter fun row => row.migrationId == unit.id))
      (fun _ l' x => Running rows₀ l.report.executed done unit s x ∧ l'.report.executed = l.report.executed) l
      (s, past) := by
  have hu : unit ∈ input.capture.units := by
    rw [hready.split]
    exact List.mem_append_right _ List.mem_cons_self
  have hpos := positions_split hready.split
  have hstep : Obeys input.adapter (StepOp unit) any
      (admitUnit input unit (active.filter fun row => row.migrationId == unit.id)) := Obeys.admitUnit (fun _ h => h) _
  have hwatch := wp_accounted input rows₀ (hstep l l.latch (Later.refl _) trivial) (Shows.admitUnit input unit _).spares
    hrun (fun q o x hq hx => hx.serve (.inl hq)) (fun x hx => hx.reported hlisted hlast hpre)
    fun id attempt x hk _ => hk.elim
  have hrows := wp_recorded (wp_admitUnit (A := fun _ _ _ => True) (l := l) hs hready input.capture.distinct
    (by omega) (input.capture.fingerprinted unit hu)) past
  have hpassed := wp_and (wp_and hwatch hrows) (wp_admitUnit_answered unit _ l (s, past))
  apply (wp_bind _ _).2
  apply wp_mono (wp_weaken hpassed (fun _ _ _ h => h) fun _ _ h => h.1.1)
  rintro r l₁ x₁ ⟨⟨⟨⟨-, hrun₁⟩, he₁⟩, hends, -⟩, hcommit⟩
  cases r with
  | error e => exact ⟨hrun₁, he₁⟩
  | ok attempt =>
      obtain ⟨hl₁, rows', hentered, -, hframe⟩ := hends
      have hack : Acknowledged input.adapter unit.id x₁.2 := by
        obtain ⟨l, s, o, hm, ha, hx⟩ := hcommit attempt rfl
        obtain ⟨r, hr, hact, -⟩ := hentered.active
        refine ⟨l, s, o, hm, ha, r, ?_, hact⟩
        rw [hx, hframe.db.history]
        exact hr
      have hrest := wp_accounted input rows₀
        (J := fun x => Running rows₀ l.report.executed done unit s x ∧ Acknowledged input.adapter unit.id x.2)
        (Obeys.admitted (fun _ h => h) attempt l₁ l₁.latch (Later.refl _) hl₁)
        (Shows.admitted input unit attempt).spares
        ⟨hrun₁, hack⟩ (fun q o x hq hx => ⟨hx.1.serve hq, hx.2.more⟩)
        (fun x hx => by rw [he₁]; exact hx.1.reported hlisted hlast hpre)
        (fun id attempt x hk hx => by
          rw [invoke_of_unitOp hk]
          exact hx.1.turn hready.split fun _ => hx.2)
      apply wp_mono hrest
      rintro r l₂ x₂ ⟨⟨-, hrun₂, -⟩, he₂⟩
      exact ⟨hrun₂, he₂.trans he₁⟩

theorem wp_runUnit_accounted (hl : l.latch.state = .open) :
    wp (recorded (serve input.adapter)) (fun _ _ _ => True) (Accounted input rows₀) (runUnit input active unit)
      (fun r l' x => (Running rows₀ l.report.executed done unit s x ∧ l'.report.executed = l.report.executed) ∧
        Told r l'.latch ∧ UnitEnd input False active done unit rest rows s.journal r l' x.1) l (s, past) := by
  have hobeys : Obeys input.adapter (UnitOp unit) isOpen (runUnit input active unit) := Obeys.runUnit (fun _ h => h) _
  have htold : wp (recorded (serve input.adapter)) (fun _ _ _ => True)
      (fun q _ => (∃ c, Orderly input.adapter (UnitOp unit) q c) ∧ True) (runUnit input active unit)
      (fun r l' _ => (∃ c, Later c l'.latch ∧ Onward l l' ∧ Told r l'.latch) ∧ True) l (s, past) :=
    wp_of_echo (hobeys l l.latch (Later.refl _) hl) trivial fun _ _ _ _ _ _ _ => trivial
  have hends := wp_recorded (wp_runUnit (A := fun _ _ _ => True) (l := l) hs hready) past
  have hrunUnit : wp (recorded (serve input.adapter)) (fun _ _ _ => True) (Accounted input rows₀)
      (runUnit input active unit)
      (fun _ l' x => Running rows₀ l.report.executed done unit s x ∧ l'.report.executed = l.report.executed) l
      (s, past) := by
    cases hm : unit.mode with
    | restartable =>
        have h := wp_runRestartable_accounted hs hready hrun hlisted hlast hpre
        rw [runUnit, hm]
        exact h
    | atomic =>
        have h := wp_accounted input rows₀ (hobeys l l.latch (Later.refl _) hl) (Shows.runUnit input unit active).spares
          hrun (fun q o x hq hx => hx.serve hq) (fun x hx => hx.reported hlisted hlast hpre)
          (fun id attempt x hk hx => by
            rw [invoke_of_unitOp hk]
            apply hx.turn hready.split
            intro h
            rw [hm] at h
            cases h)
        apply wp_mono h
        rintro r l' x ⟨⟨-, hx⟩, he⟩
        exact ⟨hx, he⟩
  apply wp_weaken (wp_mono (wp_and hrunUnit (wp_and htold hends)) ?_) (fun _ _ _ h => h) fun _ _ h => h.1
  rintro r l' x ⟨h, ⟨⟨c, -, -, ht⟩, -⟩, hu, -⟩
  exact ⟨h, ht, hu⟩

end Units

section Loop

variable {active : Option HistoryRow}

theorem log_after {event : String} {id : Option String} {q : Request} (hq : q.op = .log event id) (o : Outcome) :
    (serve adapter q o s).2 = s ∨ (serve adapter q o s).2 = s.note event id := by
  obtain ⟨op, l⟩ := q
  obtain rfl := hq
  change (serveLog event id o s).2 = s ∨ (serveLog event id o s).2 = s.note event id
  unfold serveLog
  split
  · exact .inl rfl
  · exact .inr rfl

/-- A log line leaves the account right unless it starts a unit while a row of the
one before is not listed. -/
theorem wp_log_accounted {event : String} {id : Option String} {P : Except Exc α → Local → Session × Past → Prop}
    {m : Run α} (hrep : Reported input rows₀ l.report.executed s)
    (hnote : Reported input rows₀ l.report.executed (s.note event id)) (herr : ∀ e x, x.1 = s ∨ x.1 = s.note event id →
      P (.error e) l x)
    (hok : ∀ past, wp (recorded (serve input.adapter)) (fun _ _ _ => True) (Accounted input rows₀) m P l
      (s.note event id, past)) :
    wp (recorded (serve input.adapter)) (fun _ _ _ => True) (Accounted input rows₀)
      (World.perform (.log event id) >>= fun _ => m) P l (s, past) := by
  have hafter (o : Outcome) : (serve input.adapter ⟨.log event id, l⟩ o s).2 = s ∨
      (serve input.adapter ⟨.log event id, l⟩ o s).2 = s.note event id := log_after rfl o
  apply wp_perform_bind
  · refine ⟨hrep, fun o => ?_, fun _ _ h => by cases h⟩
    rcases hafter o with h | h
    · rw [h]
      exact hrep
    · rw [h]
      exact hnote
  · intro o u _ hr
    have hs : (serve input.adapter ⟨.log event id, l⟩ o s).2 = s.note event id := by
      change (serveLog event id o s).1 = .ok u at hr
      change (serveLog event id o s).2 = _
      unfold serveLog at hr ⊢
      split at hr
      · cases hr
      · next h => rw [if_neg h]
    have h := hok (past ++ [⟨⟨.log event id, l⟩, s, o⟩])
    rw [← hs] at h
    exact h
  · intro o e _ _
    exact herr e _ (hafter o)

/-- Between two units everything that has succeeded is listed. -/
structure Listed (input : Input) (rows₀ : List HistoryRow) (done : List CapturedUnit) (executed : List String)
    (s : Session) : Prop where
  ran : ∃ earlier ran : List CapturedUnit, done = earlier ++ ran ∧
    earlier.length = (rows₀.filter (·.isSuccess)).length ∧ executed = ran.map (·.id)
  holds : Holds (Progressed rows₀ executed (done.map (·.id))) s

theorem Listed.subset {done : List CapturedUnit} {executed : List String} (h : Listed input rows₀ done executed s) :
    executed ⊆ done.map (·.id) := by
  obtain ⟨earlier, ran, rfl, -, rfl⟩ := h.ran
  rw [List.map_append]
  exact List.subset_append_right _ _

theorem Listed.leading {done rest : List CapturedUnit} {executed : List String}
    (h : Listed input rows₀ done executed s) (hsplit : input.capture.units = done ++ rest) :
    executed <+: (pendingUnits input.capture rows₀).map (·.id) := by
  obtain ⟨earlier, ran, rfl, hlen, rfl⟩ := h.ran
  rw [pendingUnits, hsplit, List.append_assoc, ← hlen, List.drop_left, List.map_append]
  exact List.prefix_append _ _

theorem Listed.reported {done rest : List CapturedUnit} {executed : List String}
    (h : Listed input rows₀ done executed s) (hsplit : input.capture.units = done ++ rest) :
    Reported input rows₀ executed s := by
  refine ⟨h.leading hsplit, fun id hid => h.holds.db.finished id (h.subset hid), ?_⟩
  intro r hr hs
  exact (h.holds.db.known r hr hs).imp id .inl

theorem Listed.note {done : List CapturedUnit} {executed : List String} {event : String} {id : Option String}
    (h : Listed input rows₀ done executed s) : Listed input rows₀ done executed (s.note event id) :=
  ⟨h.ran, h.holds.db, h.holds.working⟩

/-- The loop keeps the account, wherever it ends. -/
theorem wp_execute_accounted (units : List CapturedUnit) : ∀ (done : List CapturedUnit) (rows : List HistoryRow)
    (l : Local) (s : Session) (past : Past), Frame False rows s →
    Ready input.capture.units input.recoverId active done units rows → Listed input rows₀ done l.report.executed s →
    l.latch.state = .open →
    wp (recorded (serve input.adapter)) (fun _ _ _ => True) (Accounted input rows₀) (Engine.execute input active units)
      (fun _ l' x => Reported input rows₀ l'.report.executed x.1) l (s, past) := by
  induction units with
  | nil =>
      intro done rows l s past _ hready hlisted _
      exact hlisted.reported hready.split
  | cons unit units ih =>
      intro done rows l s past hs hready hlisted hl
      have hbefore := hlisted.reported hready.split
      have hnoted : Listed input rows₀ done l.report.executed (s.note "migration_start" (some unit.id)) :=
        hlisted.note
      have hstart := hnoted.reported hready.split
      apply wp_log_accounted hbefore hstart
      · rintro e x (h | h)
        · rw [h]
          exact hbefore
        · rw [h]
          exact hstart
      intro past
      have hs₁ : Frame False rows (s.note "migration_start" (some unit.id)) := ⟨hs.db, hs.working⟩
      have hlast : (started (s.note "migration_start" (some unit.id))).getLast? = some unit.id := by
        rw [started_note, if_pos rfl]
        simp
      have hholds := hnoted.holds
      have hrun : Running rows₀ l.report.executed done unit (s.note "migration_start" (some unit.id))
          (s.note "migration_start" (some unit.id), past) := by
        refine ⟨⟨hholds.db.mono ?_, fun t ht => (hholds.working t ht).mono ?_⟩, SameLog.of_journal rfl⟩
        · exact List.subset_append_left _ _
        · exact List.subset_append_left _ _
      have hpre := hlisted.leading hready.split
      apply (wp_bind _ _).2
      apply wp_mono (wp_runUnit_accounted hs₁ hready hrun hlisted.subset hlast hpre hl)
      rintro r l₂ ⟨s₂, past₂⟩ ⟨⟨hrun₂, he₂⟩, ht, hend⟩
      cases r with
      | error e =>
          have h := hrun₂.reported hlisted.subset hlast hpre
          rw [← he₂] at h
          exact h
      | ok u =>
          obtain ⟨rows', hready', hs₂⟩ := hend
          have hnext : Listed input rows₀ (done ++ [unit]) (l₂.report.executed ++ [unit.id]) s₂ := by
            rw [he₂]
            obtain ⟨earlier, ran, hdone, hlen, hran⟩ := hlisted.ran
            refine ⟨⟨earlier, ran ++ [unit], by rw [hdone, List.append_assoc], hlen, by simp [hran]⟩, ?_⟩
            have hfin {d : Db} (hd : Sound False rows' d)
                (hp : Progressed rows₀ (l.report.executed ++ [unit.id]) (done.map (·.id)) d) :
                Progressed rows₀ (l.report.executed ++ [unit.id]) ((done ++ [unit]).map (·.id)) d := by
              refine ⟨hp.known, fun id hid => ?_⟩
              obtain ⟨v, hv, rfl⟩ := List.mem_map.1 hid
              rw [hd.history]
              exact hready'.succeeded v hv
            exact ⟨hfin hs₂.db hrun₂.1.db, fun t ht => hfin (hs₂.working t ht) (hrun₂.1.working t ht)⟩
          have hafter := hnext.reported hready'.split
          have hended : Listed input rows₀ (done ++ [unit]) (l₂.report.executed ++ [unit.id])
              (s₂.note "migration_done" (some unit.id)) := hnext.note
          have hdone := hended.reported hready'.split
          apply (wp_bind _ _).2
          apply (wp_modify _).2
          apply wp_log_accounted hafter hdone
          · rintro e x (h | h)
            · rw [h]
              exact hafter
            · rw [h]
              exact hdone
          intro past
          exact ih (done ++ [unit]) rows' _ _ past ⟨hs₂.db, hs₂.working⟩ hready' hnext.note ht.isOpen

end Loop

section Run

def Returns (m : Run Report) : Prop := ∀ l c, wp (echo fun (_ : Request) (_ : Unit) => ()) (fun _ _ _ => True)
  (fun _ _ => True) m (fun r l' _ => ∀ report, r = .ok report → report = l'.report) l c

theorem Returns.finish : Returns finish := by
  intro l c report h
  cases h
  rfl

theorem Returns.bind {m : Run α} {f : α → Run Report} (hf : ∀ a, Returns (f a)) : Returns (m >>= f) := by
  intro l c
  apply wp_bind_top
  · exact fun a l c => hf a l c
  · intro e l s report h
    cases h

theorem Returns.throw (e : Exc) : Returns (Proc.throw e) := by
  intro l c report h
  cases h

theorem Returns.terminate (e : Exc) : Returns (Engine.terminate adapter e) := by
  refine Returns.bind fun found => ?_
  cases found with
  | none => exact Returns.bind fun _ => .bind fun _ => .bind fun _ => .finish
  | some error => exact Returns.bind fun _ => .bind fun _ => .bind fun _ => .bind fun _ => .finish

theorem Returns.conclude (r : Except Exc Unit) : Returns (Engine.conclude input r) := by
  cases r with
  | error e => exact .terminate e
  | ok u => exact Returns.bind fun _ => .bind fun _ => .bind fun _ => .finish

theorem Returns.settling {m : Run Report} (hm : Returns m) : Returns (Engine.settling input m) := by
  intro l c
  apply (wp_tryCatch _ _).2
  apply wp_mono (hm l c)
  intro r l' c' h
  have hlast : Returns (settleInterruptedTeardown input.adapter) :=
    .bind fun _ => .bind fun _ => .bind fun _ => .bind fun _ => .bind fun _ => .finish
  cases r with
  | ok report => exact h
  | error e =>
      cases e with
      | interrupt => exact hlast l' c'
      | migr8 e => exact Returns.throw _ l' c'
      | driver e => exact Returns.throw _ l' c'
      | commitOutcomeUnknown code => exact Returns.throw _ l' c'
      | plain name => exact Returns.throw _ l' c'
      | base name => exact Returns.throw _ l' c'

theorem Returns.run (input : Input) : Returns (Engine.run input) :=
  .settling (.bind fun _ => .bind fun r => .conclude r)

/-- The end of the run leaves the account as it finds it. -/
theorem wp_ending_accounted {K : Op → Prop} {m : Run Report} {P : Except Exc Report → Local → RunLatch → Prop}
    {c : RunLatch} (h : Safe input.adapter K m P l c) (hK : ∀ op, K op → closingOp op = true) (hm : Spares m)
    (hrep : Reported input rows₀ l.report.executed x.1) :
    wp (recorded (serve input.adapter)) (fun _ _ _ => True) (Accounted input rows₀) m
      (fun _ l' x => Reported input rows₀ l'.report.executed x.1) l x := by
  have hwatch := wp_accounted input rows₀ (J := fun y => y.1.db = x.1.db ∧ SameMarks x.1 y.1) h hm
    ⟨rfl, SameMarks.of_journal rfl⟩
    (fun q o y hq hy =>
    ⟨(Transitions.closing_db (hK _ hq)).trans hy.1, hy.2.trans (SameMarks.serve (plain_of_closingOp (hK _ hq)))⟩)
    (fun y hy => hrep.same hy.1 hy.2.1)
    (fun id attempt y hk _ => by
      have hc := hK _ hk
      cases hc)
  apply wp_mono hwatch
  rintro r l' y ⟨⟨-, hd, hmarks⟩, he⟩
  have hlast := hrep.same hd hmarks.1
  rw [← he] at hlast
  exact hlast

theorem wp_migrate_accounted (hs : Frame False rows₀ s) (hl : l.latch.state = .open) (he : l.report.executed = []) :
    wp (recorded (serve input.adapter)) (fun _ _ _ => True) (Accounted input rows₀) (Engine.migrate input)
      (fun _ l' x => Reported input rows₀ l'.report.executed x.1) l (s, past) := by
  have hserve {K : Op → Prop} (hK : ∀ op, K op → FrameOp (ownsActive rows₀) op) (q : Request) (o : Outcome)
      (x : Session × Past) (hq : K q.op) (hx : Frame False rows₀ x.1) :
      Frame False rows₀ (recorded (serve input.adapter) q o x).2.1 := hx.serve (hK _ hq).keeps
  have hnone {x : Session × Past} {l : Local} (he : l.report.executed = []) (hx : Frame False rows₀ x.1) :
      Reported input rows₀ l.report.executed x.1 := by
    rw [he]
    exact Reported.none hx.db.history
  have hopen := wp_accounted input rows₀ (x := (s, past)) (J := fun x => Frame False rows₀ x.1)
    (Safe.openNamespace (K := fun op => serviceOp op = true) (fun _ h => h) l l.latch (Later.refl _) hl)
    (Shows.openNamespace input).spares hs (hserve fun _ h => frameOp_of_serviceOp h) (fun x hx => hnone he hx)
    fun id attempt x hk _ => by cases hk
  apply (wp_bind _ _).2
  apply wp_mono hopen
  rintro r l₁ ⟨s₁, past₁⟩ ⟨⟨⟨c₁, -, ht₁, -⟩, hs₁⟩, he₁⟩
  rw [he] at he₁
  cases r with
  | error e => exact hnone he₁ hs₁
  | ok u =>
      have hobeys : Obeys input.adapter (fun op => snapshotOp op = true) any (buildPlan input) :=
        Obeys.buildPlan fun _ h => h
      have hwatch := wp_accounted input rows₀ (x := (s₁, past₁)) (J := fun x => Frame False rows₀ x.1)
        (hobeys l₁ l₁.latch (Later.refl _) trivial) (Shows.buildPlan input).spares hs₁
        (hserve fun _ h => frameOp_of_snapshotOp h) (fun x hx => hnone he₁ hx) fun id attempt x hk _ => by cases hk
      have hplan : wp (serve input.adapter) (fun _ _ _ => True) (Label input False) (Engine.buildPlan input) _ l₁ s₁ :=
        wp_buildPlan hs₁ False.elim
      have hready := wp_recorded hplan past₁
      apply (wp_bind _ _).2
      apply wp_mono (wp_weaken (wp_and hwatch hready) (fun _ _ _ h => h) fun _ _ h => h.1)
      rintro r l₂ ⟨s₂, past₂⟩ ⟨⟨-, he₂⟩, hs₂, ht₂, hready⟩
      rw [he₁] at he₂
      cases r with
      | error e => exact hnone (x := (s₂, past₂)) he₂ hs₂
      | ok plan =>
          obtain ⟨done, hready⟩ := hready plan rfl
          have hnote : Frame False rows₀ (s₂.note "plan" none) := ⟨hs₂.db, hs₂.working⟩
          apply wp_log_accounted (hnone (x := (s₂, past₂)) he₂ hs₂) (hnone (x := (_, past₂)) he₂ hnote)
          · rintro e x (h | h)
            · rw [h]
              exact hnone (x := (s₂, past₂)) he₂ hs₂
            · rw [h]
              exact hnone (x := (_, past₂)) he₂ hnote
          intro past
          apply wp_execute_accounted plan.pending done rows₀ l₂ _ past hnote hready ?_ ht₂.isOpen
          refine ⟨⟨done, [], by simp, hready.count.symm, he₂⟩, ?_⟩
          have hdone {d : Db} (hd : Sound False rows₀ d) :
              Progressed rows₀ l₂.report.executed (done.map (·.id)) d := by
            refine ⟨fun r hr _ => .inl (hd.history ▸ hr), fun id hid => ?_⟩
            obtain ⟨v, hv, rfl⟩ := List.mem_map.1 hid
            rw [hd.history]
            exact hready.succeeded v hv
          exact ⟨hdone hnote.db, fun t ht => hdone (hnote.working t ht)⟩

theorem wp_run_accounted (hs : Frame False rows₀ s) :
    wp (recorded (serve input.adapter)) (fun _ _ _ => True) (Accounted input rows₀) (Engine.run input)
      (fun _ l' x => Reported input rows₀ l'.report.executed x.1) {} (s, past) := by
  have hnote : Frame False rows₀ (s.note "run_start" none) := ⟨hs.db, hs.working⟩
  have hafter (o : Outcome) : (serve input.adapter ⟨.log "run_start", {}⟩ o s).2 = s ∨
      (serve input.adapter ⟨.log "run_start", {}⟩ o s).2 = s.note "run_start" none := log_after rfl o
  have hframe (o : Outcome) : Frame False rows₀ (serve input.adapter ⟨.log "run_start", {}⟩ o s).2 := hs.serve trivial
  apply RunObedience.wp_run.2
  apply wp_perform.2
  refine ⟨⟨Reported.none hs.db.history, fun o => Reported.none (hframe o).db.history, fun _ _ h => by cases h⟩, ?_⟩
  intro o _
  cases hr : (recorded (serve input.adapter) ⟨.log "run_start", {}⟩ o (s, past)).1 with
  | error e =>
      have hend : Safe input.adapter (fun op => closingOp op = true) (settling input (Proc.throw e)) _
          {} RunLatch.fresh :=
        Safe.settling_throw (fun _ h => h) (Later.refl _) rfl rfl
      exact wp_ending_accounted hend (fun _ h => h) (Spares.settling input (spares_iff.2 (.throw e)))
        (Reported.none (hframe o).db.history)
  | ok u =>
      have htold : wp (recorded (serve input.adapter)) (fun _ _ _ => True)
          (fun q _ => (∃ c, Orderly input.adapter (fun _ => True) q c) ∧ True) (Engine.migrate input)
          (fun r l' _ => (∃ c, Later c l'.latch ∧ Told r l'.latch ∧ Opened r {} l') ∧ True) {}
          (recorded (serve input.adapter) ⟨.log "run_start", {}⟩ o (s, past)).2 :=
        wp_of_echo (Safe.migrate (fun _ => trivial) {} RunLatch.fresh (Later.refl _) rfl) trivial
          fun _ _ _ _ _ _ _ => trivial
      apply wp_mono (wp_weaken (wp_and (wp_migrate_accounted (hframe o) rfl rfl) htold) (fun _ _ _ h => h)
        fun _ _ h => h.1)
      rintro r l x ⟨hrep, ⟨c, -, ht, -⟩, -⟩
      have hend : Safe input.adapter (fun op => closingOp op = true)
          (settling input (Engine.conclude input r)) _ l l.latch :=
        Safe.settling_conclude (fun _ h => h) (Later.refl l.latch) ht
      exact wp_ending_accounted hend (fun _ h => h) (Spares.settling input (.conclude input r)) hrep

/-- In every run, cut anywhere, code is invoked in its turn, and what the run
reports as executed is right before and after every request and at its end. -/
theorem order_and_reporting (input : Input) (os : List Outcome) (s : Session) :
    (∀ snapshot plan, snapshot.history.Perm s.db.history → StateValidate.buildPlan input.capture snapshot = .ok plan →
      plan.pending = pendingUnits input.capture s.db.history) ∧
    (∀ pre x post, trace (serve input.adapter) os (Engine.run input {}) s.afresh = pre ++ x :: post →
      Reported input s.db.history x.request.state.report.executed x.before ∧
      Reported input s.db.history x.request.state.report.executed
        (serve input.adapter x.request x.outcome x.before).2 ∧
      ∀ id attempt, x.request.op = .invoke id attempt → Turn input id x.before pre) ∧
    ∀ x, result (serve input.adapter) os (Engine.run input {}) s.afresh = some x →
      Reported input s.db.history x.2.report.executed (final (serve input.adapter) os (Engine.run input {}) s.afresh) ∧
      ∀ report, x.1 = .ok report → report = x.2.report := by
  have hs : Frame False s.db.history s.afresh := Holds.of_none ⟨rfl, False.elim⟩ rfl
  have hwp : wp (recorded (serve input.adapter)) (fun _ _ _ => True) (Accounted input s.db.history) (Engine.run input)
      _ {} (s.afresh, []) := wp_run_accounted hs
  refine ⟨fun snapshot plan hp h => pending_of_plan h hp, ?_, ?_⟩
  · intro pre x post hx
    have h : Accounted input s.db.history x.request (x.before, [] ++ pre) := trace_recorded hwp os hx
    exact ⟨h.before, h.after x.outcome, h.turn⟩
  · intro x hx
    have h := Lib.Interaction.result_recorded hwp os hx
    exact ⟨h, Lib.Interaction.result_echo (Returns.run input {} ()) os s.afresh hx⟩

section Example

def amendedUnits : Input := threeUnits true (.ret .nothing)

def invokes (id : String) : Op → Bool
  | .invoke unit _ => unit == id
  | _ => false

theorem order_and_reporting_amendedRun :
    (∃ x, result (serve .sqlite) (answers 80 2) (Engine.run amendedUnits {}) cutRun.afresh = some x ∧
      x.2.report.executed = ["m2", "m3"] ∧ ∀ report, x.1 = .ok report → report = x.2.report) ∧
    ∀ id ∈ ["m2", "m3"], ∃ pre y post,
      trace (serve .sqlite) (answers 80 2) (Engine.run amendedUnits {}) cutRun.afresh = pre ++ y :: post ∧
        Turn amendedUnits id y.before pre := by
  have h := order_and_reporting amendedUnits (answers 80 2) cutRun
  constructor
  · have hdone : (result (serve .sqlite) (answers 80 2) (Engine.run amendedUnits {}) cutRun.afresh).map
        (·.2.report.executed) = some ["m2", "m3"] := by
      decide +kernel
    obtain ⟨x, hx, he⟩ := Option.map_eq_some_iff.1 hdone
    exact ⟨x, hx, he, (h.2.2 x hx).2⟩
  · intro id hid
    have hinvoked : ∀ id ∈ ["m2", "m3"],
        ∃ y ∈ trace (serve .sqlite) (answers 80 2) (Engine.run amendedUnits {}) cutRun.afresh,
          invokes id y.request.op = true := by
      decide +kernel
    obtain ⟨y, hy, hop⟩ := hinvoked id hid
    obtain ⟨pre, post, hsplit⟩ := List.append_of_mem hy
    cases hq : y.request.op with
    | invoke unit attempt =>
        rw [hq] at hop
        obtain rfl : unit = id := beq_iff_eq.1 hop
        exact ⟨pre, y, post, hsplit, (h.2.1 pre y post hsplit).2.2 unit attempt hq⟩
    | _ =>
        rw [hq] at hop
        cases hop

end Example

end Run

end Migr8.Reporting
