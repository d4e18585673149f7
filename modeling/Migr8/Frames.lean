import Migr8.RunObedience
import Migr8.Sessions
import Migr8.Forward

namespace Migr8.Frames

open Errors Model Latch Driver Database World Adapters Metadata Context Engine StateValidate Rules Discipline
open Obedience EngineObedience Teardown Sessions Shape Forward Lib.Process

variable {α : Type} {A : Request → Session → Outcome → Prop} {adapter : Adapter} {K : Op → Prop}

instance (q : Request) : Nonempty (Reply q) := ⟨.error .interrupt⟩

/-- What is known of a program for all replies, next to what its requests keep of
the session. -/
theorem wp_lift {J : Session → Prop} {m : Run α} {P : Except Exc α → Local → RunLatch → Prop} {l : Local}
    {c : RunLatch} {s : Session} (h : Safe adapter K m P l c) (hs : J s)
    (hJ : ∀ q o s, K q.op → A q s o → J s → J (serve adapter q o s).2) :
    wp (serve adapter) A (fun q s => (∃ c, Orderly adapter K q c) ∧ J s) m
      (fun r l s => (∃ c, P r l c) ∧ J s) l s :=
  Lib.Interaction.wp_of_echo h hs fun q _ o s hq => hJ q o s hq.kind

/-- The progress rows belong to the ACTIVE row, and the marker names a layout
this tool supports. -/
structure Decent (d : Db) : Prop where
  progress : ProgressOk d.history d.progress
  marker : ∀ m ∈ d.marker, m.layoutVersion = layoutVersion

structure Good (d : Db) : Prop extends Decent d where
  history : WellFormed d.history

/-- The history is `rows`. Whether the rest of the metadata is in order is asked
only under `p`, for namespaces that start out in order. -/
structure Sound (p : Prop) (rows : List HistoryRow) (d : Db) : Prop where
  history : d.history = rows
  decent : p → Decent d

abbrev Frame (p : Prop) (rows : List HistoryRow) (s : Session) : Prop := Holds (Sound p rows) s

variable {p : Prop} {rows : List HistoryRow} {s : Session}

theorem Sound.data {d : Db} {data : List Work} (h : Sound p rows d) : Sound p rows { d with data := data } :=
  ⟨h.history, fun hp => ⟨(h.decent hp).progress, (h.decent hp).marker⟩⟩

theorem Sound.layout {d : Db} {layout : Layout} (h : Sound p rows d) : Sound p rows { d with layout := layout } :=
  ⟨h.history, fun hp => ⟨(h.decent hp).progress, (h.decent hp).marker⟩⟩

/-- The ops that leave the history alone, given who may own progress rows. -/
def FrameOp (owner : String → Prop) : Op → Prop
  | .insertHistory _ | .updateAttempt .. | .completeActive .. | .deleteProgress _ | .invoke .. => False
  | .insertMarker row => row.layoutVersion = layoutVersion
  | .progressSet scope _ value => owner scope.owner ∧ value ≠ ""
  | _ => True

def ownsActive (rows : List HistoryRow) (id : String) : Prop := ∃ r ∈ rows, r.migrationId = id ∧ r.isActive = true

theorem FrameOp.keeps {op : Op} (h : FrameOp (ownsActive rows) op) : Keeps (Sound p rows) op := by
  cases op <;> try trivial
  case createObject name => exact fun d hd => hd.layout
  case insertMarker row =>
    refine fun d now hd => ⟨hd.history, fun hp => ⟨(hd.decent hp).progress, ?_⟩⟩
    rintro m hm
    rw [List.mem_singleton.1 hm]
    exact h
  case progressSet scope key value =>
    refine fun d now w hd _ => ⟨hd.history, fun hp => ⟨?_, (hd.decent hp).marker⟩⟩
    refine ProgressOk.upsert (hd.decent hp).progress h.2 ?_
    rw [hd.history]
    exact h.1
  case statement => exact fun d w hd => hd.data

theorem frameOp_of_serviceOp {owner : String → Prop} {op : Op} (h : serviceOp op = true) : FrameOp owner op := by
  cases op <;> try trivial
  case insertMarker row => exact beq_iff_eq.1 h

theorem frameOp_of_snapshotOp {owner : String → Prop} {op : Op} (h : snapshotOp op = true) : FrameOp owner op := by
  cases op <;> trivial

theorem frameOp_of_closingOp {owner : String → Prop} {op : Op} (h : closingOp op = true) : FrameOp owner op := by
  cases op <;> trivial

theorem frameOp_of_userOp {owner : String → Prop} {unit : CapturedUnit} (ho : unit.mode = .restartable → owner unit.id)
    {op : Op} (h : UserOp unit op) : FrameOp owner op := by
  cases op <;> try trivial
  case progressSet scope key value => exact ⟨h.2.1 ▸ ho h.1, h.2.2⟩

/-- Migration code gets control only for a unit that has not succeeded. An atomic
unit has no row then, and a restartable one gets the attempt its ACTIVE row counts. -/
structure Invoked (unit : CapturedUnit) (attempt : Option Int) (rows : List HistoryRow) : Prop where
  unfinished : ∀ r ∈ rows, r.migrationId = unit.id → r.isActive = true
  atomic : unit.mode = .atomic → ∀ r ∈ rows, r.migrationId ≠ unit.id
  restartable : unit.mode = .restartable →
    ∃ a, attempt = some a ∧ ∃ r ∈ rows, isActiveRow unit.id r = true ∧ r.attempt = some a

/-- What every request of a run satisfies: what it leaves durable is in order,
what it may do to the history is a move, and migration code gets control as it
should. -/
structure Label (input : Input) (p : Prop) (q : Request) (s : Session) : Prop where
  good : p → Good s.db
  move : ∀ o, Move input.recoverId q.op s.db.history (serve input.adapter q o s).2.db.history
  invoked : ∀ id attempt, q.op = .invoke id attempt →
    ∃ unit ∈ input.capture.units, unit.id = id ∧ Invoked unit attempt s.db.history

theorem Frame.good (h : Frame p rows s) (hw : p → WellFormed rows) (hp : p) : Good s.db :=
  ⟨h.db.decent hp, h.db.history ▸ hw hp⟩

theorem Frame.label {input : Input} {q : Request} (h : Frame p rows s) (hw : p → WellFormed rows)
    (hq : FrameOp (ownsActive rows) q.op) : Label input p q s := by
  refine ⟨h.good hw, fun o => ?_, ?_⟩
  · have hs : Frame p rows (serve input.adapter q o s).2 := h.serve hq.keeps
    rw [hs.db.history, h.db.history]
    exact Move.stay
  · rintro id attempt he
    rw [he] at hq
    exact hq.elim

theorem wp_frame {input : Input} {m : Run α} {P : Except Exc α → Local → RunLatch → Prop} {l : Local} {c : RunLatch}
    (h : Safe input.adapter K m P l c) (hK : ∀ op, K op → FrameOp (ownsActive rows) op) (hs : Frame p rows s)
    (hw : p → WellFormed rows) :
    wp (serve input.adapter) A (Label input p) m (fun r l s => (∃ c, P r l c) ∧ Frame p rows s) l s := by
  refine wp_weaken (wp_lift h hs ?_) (fun _ _ _ ha => ha) ?_
  · exact fun q o s hq _ hs => hs.serve (hK q.op hq).keeps
  · rintro q s ⟨⟨c, hq⟩, hs⟩
    exact hs.label hw (hK q.op hq.kind)

end Migr8.Frames
