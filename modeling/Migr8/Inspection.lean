import Migr8.Metadata
import Migr8.Sessions
import Migr8.Transactions

namespace Migr8.Inspection

open Errors Model Latch Driver Database World Adapters Metadata Rules Sessions Transactions Lib.Process

variable {α β : Type} {A : Request → Session → Outcome → Prop} {adapter : Adapter} {c : Config} {d : Db}
  {p : Prop} {s : Session} {l : Local} {o : Outcome}

section Verdict

def listed (d : Db) (name : ObjectName) : Bool :=
  match d.layout.holder name with
  | .supported | .altered _ => true
  | .vacant | .foreign _ | .trigger => false

/-- What is not listed holds no rows. -/
structure Housed (d : Db) : Prop where
  marker : listed d .metaTable = false → d.marker = []
  history : listed d .history = false → d.history = []
  progress : listed d .progress = false → d.progress = []

def markerFound (d : Db) : Option MetaRow := if listed d .metaTable then d.marker.head? else none

def markerProblems (d : Db) : List String :=
  if (markerFound d).isSome ∧ d.marker.length ≠ 1 then
    [metaTable ++ " holds " ++ toString d.marker.length ++ " rows; exactly one is expected"]
  else []

def rowCount (d : Db) (name : ObjectName) (rows : Nat) : Option Nat := if listed d name then some rows else none

/-- The answer of an inspection whose reads are all answered. -/
def inspected (d : Db) : MetadataReport :=
  classify (presentObjects d) (layoutProblems (presentObjects d) d ++ markerProblems d) (markerFound d)
    (rowCount d .history d.history.length) (rowCount d .progress d.progress.length)

theorem mem_present {name : ObjectName} : name ∈ presentObjects d ↔ listed d name = true := by
  have hall : name ∈ creationOrder := by cases name <;> simp [creationOrder]
  have hp : presentObjects d = creationOrder.filter (listed d) := rfl
  rw [hp, List.mem_filter]
  exact and_iff_right hall

theorem contains_present {name : ObjectName} : (presentObjects d).contains name = listed d name := by
  rw [Bool.eq_iff_iff, List.contains_iff_mem]
  exact mem_present

theorem listed_of_altered {name : ObjectName} {found : Misfit} (h : d.layout.holder name = .altered found) :
    listed d name = true := by
  rw [listed, h]

/-- An index stands under a name that is listed as a table's. -/
theorem altered_of_listed {name : ObjectName} (h : listed d name = true) (ht : d.isTable name = false) :
    ∃ found, d.layout.holder name = .altered found ∧ found.noTable = true := by
  unfold listed at h
  unfold Db.isTable at ht
  cases he : d.layout.holder name with
  | vacant => rw [he] at h; cases h
  | foreign kind => rw [he] at h; cases h
  | trigger => rw [he] at h; cases h
  | supported => rw [he] at ht; cases ht
  | altered found =>
      rw [he] at ht
      exact ⟨found, rfl, by simpa using ht⟩

theorem missing_eq_nil : missingObjects (presentObjects d) = [] ↔ ∀ name, listed d name = true := by
  unfold missingObjects
  rw [List.filter_eq_nil_iff]
  constructor
  · intro h name
    have hn := h name (by cases name <;> simp [sortedNames])
    rw [contains_present] at hn
    simpa using hn
  · intro h name _
    rw [contains_present, h name]
    decide

theorem problems_eq_nil :
    layoutProblems (presentObjects d) d = [] ↔ ∀ name found, d.layout.holder name ≠ .altered found := by
  unfold layoutProblems
  rw [List.filterMap_eq_nil_iff]
  constructor
  · intro h name found he
    have hn := h name (mem_present.2 (listed_of_altered he))
    rw [he] at hn
    cases hn
  · intro h name _
    cases he : d.layout.holder name with
    | altered found => exact absurd he (h name found)
    | vacant => rfl
    | supported => rfl
    | foreign kind => rfl
    | trigger => rfl

theorem countProblem_eq_nil {count : Option Nat} {text : Nat → String} :
    countProblem count text = [] ↔ ∀ n, count = some n → n = 0 := by
  cases count with
  | none => simp [countProblem]
  | some n =>
      cases n with
      | zero => simp [countProblem]
      | succ n => simp [countProblem]

/-- The layout is complete, and one marker row says so. -/
structure Complete (d : Db) : Prop where
  layout : ∀ name, d.layout.holder name = .supported
  marker : d.marker.length = 1

theorem Complete.listed (h : Complete d) (name : ObjectName) : listed d name = true := by
  rw [Inspection.listed, h.layout name]

theorem Complete.isTable (h : Complete d) (name : ObjectName) : d.isTable name = true := by
  rw [Db.isTable, h.layout name]

theorem Complete.markerFound (h : Complete d) : ∃ m, d.marker = [m] ∧ Inspection.markerFound d = some m := by
  obtain ⟨m, hm⟩ := List.length_eq_one_iff.1 h.marker
  refine ⟨m, hm, ?_⟩
  rw [Inspection.markerFound, if_pos (h.listed .metaTable), hm]
  rfl

/-- Something that an interrupted initialization does not leave behind. -/
def Finding (d : Db) : Prop :=
  (∃ name found, d.layout.holder name = .altered found) ∨ (listed d .history = true ∧ d.history ≠ []) ∨
    (listed d .progress = true ∧ d.progress ≠ [])

/-- An index stands under the name of a table whose rows are counted. -/
def Uncounted (d : Db) : Prop := ∃ name found, (name = .history ∨ name = .progress) ∧
  d.layout.holder name = .altered found ∧ found.noTable = true

/-- The comparison of a listed object's definition raises. -/
def Unchecked (d : Db) : Prop := ∃ name found, d.layout.holder name = .altered found ∧ found.fault ≠ none

/-- An inspection fails though every read is answered. -/
def Uninspected (d : Db) : Prop := Unchecked d ∨ Uncounted d

theorem Uninspected.altered (h : Uninspected d) : ∃ name found, d.layout.holder name = .altered found := by
  rcases h with ⟨name, found, ha, -⟩ | ⟨name, found, -, ha, -⟩
  · exact ⟨name, found, ha⟩
  · exact ⟨name, found, ha⟩

theorem Complete.inspected (h : Complete d) : ¬ Uninspected d := by
  intro hu
  obtain ⟨name, found, ha⟩ := hu.altered
  rw [h.layout name] at ha
  cases ha

theorem layoutFault_eq_none : layoutFault (presentObjects d) d = none ↔ ¬ Unchecked d := by
  unfold layoutFault
  rw [List.findSome?_eq_none_iff]
  constructor
  · rintro h ⟨name, found, ha, hf⟩
    have hn := h name (mem_present.2 (listed_of_altered ha))
    rw [ha] at hn
    exact hf hn
  · intro h name _
    cases ha : d.layout.holder name with
    | altered found =>
        by_contra hf
        exact h ⟨name, found, ha, hf⟩
    | vacant => rfl
    | supported => rfl
    | foreign kind => rfl
    | trigger => rfl

theorem markerFound_nil (h : d.marker = []) : markerFound d = none := by
  unfold markerFound
  split
  · rw [h]
    rfl
  · rfl

/-- A marker that is not found is not there. -/
theorem Housed.unmarked (h : Housed d) (hm : markerFound d = none) : d.marker = [] := by
  unfold markerFound at hm
  by_cases hl : listed d .metaTable = true
  · rw [if_pos hl] at hm
    exact List.head?_eq_none_iff.1 hm
  · exact h.marker (eq_false_of_ne_true hl)

theorem rowCount_zero {name : ObjectName} {β : Type} {rows : List β} :
    (∀ n, rowCount d name rows.length = some n → n = 0) ↔ ¬ (listed d name = true ∧ rows ≠ []) := by
  unfold rowCount
  by_cases hl : listed d name = true
  · simp [hl]
  · simp [hl]

/-- Without a marker the verdict depends on what is found, and on nothing else. -/
theorem unmarked_cases (hm : markerFound d = none) :
    Finding d ∧ (inspected d).state = .damaged ∨
      ¬ Finding d ∧ ((inspected d).state = .absent ∨ (inspected d).state = .incompleteCompatible) := by
  have hproblems : markerProblems d = [] := by
    rw [markerProblems, if_neg]
    rw [hm]
    rintro ⟨h, -⟩
    cases h
  have hreasons {x y : Nat → String} : layoutProblems (presentObjects d) d ++
      countProblem (rowCount d .history d.history.length) x ++
      countProblem (rowCount d .progress d.progress.length) y = [] ↔ ¬ Finding d := by
    rw [List.append_eq_nil_iff, List.append_eq_nil_iff, problems_eq_nil, countProblem_eq_nil, countProblem_eq_nil,
      rowCount_zero, rowCount_zero, Finding]
    push Not
    exact and_assoc
  unfold inspected classify
  rw [hm, hproblems, List.append_nil]
  dsimp only
  by_cases hp : presentObjects d = []
  · have hno : ∀ name, listed d name = false := by
      intro name
      by_contra hn
      have hmem := mem_present.2 (eq_true_of_ne_false hn)
      rw [hp] at hmem
      exact absurd hmem List.not_mem_nil
    rw [if_pos hp]
    refine .inr ⟨?_, .inl rfl⟩
    rintro (⟨name, found, h⟩ | ⟨h, -⟩ | ⟨h, -⟩)
    · have hl := listed_of_altered h
      rw [hno name] at hl
      cases hl
    · rw [hno] at h
      cases h
    · rw [hno] at h
      cases h
  · rw [if_neg hp]
    by_cases hf : Finding d
    · rw [if_neg (fun h => hreasons.1 h hf)]
      exact .inl ⟨hf, rfl⟩
    · rw [if_pos (hreasons.2 hf)]
      exact .inr ⟨hf, .inr rfl⟩

theorem marked_cases {m : MetaRow} (hm : markerFound d = some m) :
    Complete d ∧ inspected d = { state := .complete, metaRow := some m } ∨
      ¬ Complete d ∧ (inspected d).state = .damaged := by
  have hreasons {x : List String} (hx : x ≠ []) : (layoutProblems (presentObjects d) d ++ markerProblems d ++
      if missingObjects (presentObjects d) = [] then [] else x) = [] ↔ Complete d := by
    have hone : markerProblems d = [] ↔ d.marker.length = 1 := by
      unfold markerProblems
      rw [hm]
      simp
    have hmissing : (if missingObjects (presentObjects d) = [] then [] else x) = [] ↔
        missingObjects (presentObjects d) = [] := by
      split
      · next h => simp [h]
      · next h => simp [h, hx]
    rw [List.append_eq_nil_iff, List.append_eq_nil_iff, hmissing, hone, problems_eq_nil, missing_eq_nil]
    constructor
    · rintro ⟨⟨hp, hlen⟩, hall⟩
      refine ⟨fun name => ?_, hlen⟩
      have hn := hall name
      unfold listed at hn
      cases he : d.layout.holder name with
      | supported => rfl
      | altered found => exact absurd he (hp name found)
      | vacant => rw [he] at hn; cases hn
      | foreign kind => rw [he] at hn; cases hn
      | trigger => rw [he] at hn; cases hn
    · intro h
      refine ⟨⟨fun name found he => ?_, h.marker⟩, h.listed⟩
      rw [h.layout name] at he
      cases he
  unfold inspected classify
  rw [hm]
  dsimp only
  by_cases hc : Complete d
  · rw [if_pos ((hreasons (List.cons_ne_nil _ _)).2 hc)]
    exact .inl ⟨hc, rfl⟩
  · rw [if_neg (fun h => hc ((hreasons (List.cons_ne_nil _ _)).1 h))]
    exact .inr ⟨hc, rfl⟩

/-- Damage is found where something listed differs from the layout. -/
theorem damaged_of_altered {name : ObjectName} {found : Misfit} (h : d.layout.holder name = .altered found) :
    (inspected d).state = .damaged := by
  cases hf : markerFound d with
  | none =>
      rcases unmarked_cases hf with ⟨-, hd⟩ | ⟨hn, -⟩
      · exact hd
      · exact absurd (.inl ⟨name, found, h⟩) hn
  | some m =>
      rcases marked_cases hf with ⟨hc, -⟩ | ⟨-, hd⟩
      · rw [hc.layout name] at h
        cases h
      · exact hd

end Verdict

section Reads

def Answered (o : Outcome) : Prop := o.fault = .answered ∧ o.refusal = none

def Answers (p : Prop) (A : Request → Session → Outcome → Prop) : Prop := p → ∀ q s o, A q s o → Answered o

structure Got {α : Type} (p : Prop) (a : α) (l : Local) (s : Session) (r : Except Exc α) (l' : Local) (s' : Session) :
    Prop where
  held : ∀ D : Db → Prop, Holds D s → Holds D s'
  rest : s.txn = none → s' = s
  ok : ∀ b, r = .ok b → b = a ∧ l' = l ∧ s' = s
  error : ∀ e, r = .error e → ¬ p ∧ (l' = l ∨ ∃ m, e = .migr8 m)

theorem fail_idle (h : s.txn = none) : s.fail adapter o = s := by
  rw [Session.fail, h]

def look (f : Session → α) (s : Session) : Except DriverError α × Session := (.ok (f s), s)

theorem submit_look {f : Session → α} {commitCapable : Bool} (ha : s.aborted = false) :
    (∀ D : Db → Prop, Holds D s → Holds D (submit adapter commitCapable o (look f) id s).2) ∧
    (s.txn = none → (submit adapter commitCapable o (look f) id s).2 = s) ∧
    ((submit adapter commitCapable o (look f) id s) = (.ok (f s), s) ∨
      (∃ e, (submit adapter commitCapable o (look f) id s).1 = .error e) ∧ o.fault ≠ .answered) := by
  have hcarry : carryOut (look f) s = (.ok (f s), s) := by
    rw [carryOut, ha]
    rfl
  refine ⟨fun D h => h.submit fun h => h, ?_⟩
  unfold submit
  cases he : o.fault.exc with
  | none =>
      simp only [hcarry]
      exact ⟨fun _ => trivial, .inl trivial⟩
  | some e =>
      have hf : o.fault ≠ .answered := by
        intro h
        rw [h] at he
        cases he
      refine ⟨fun ht => ?_, .inr ⟨⟨e, rfl⟩, hf⟩⟩
      dsimp only
      by_cases hr : o.fault.rejects adapter commitCapable = true
      · rw [if_pos hr]
        exact fail_idle ht
      · rw [if_neg hr]
        by_cases ho : o.applied = true
        · rw [if_pos ho, hcarry]
        · rw [if_neg ho]
          exact fail_idle ht

variable {I : Request → Session → Prop}

theorem wp_look {op : Op} {f : Session → Answer op} (hA : Answers p A) (hI : I ⟨op, l⟩ s)
    (hop : ∀ o, serve adapter ⟨op, l⟩ o s = submit adapter false o (look f) id s) (ha : s.aborted = false) :
    wp (serve adapter) A I (World.perform op) (Got p (f s) l s) l s := by
  apply wp_perform.2
  refine ⟨hI, fun o ho => ?_⟩
  rw [hop o]
  obtain ⟨hheld, hrest, hcases⟩ : _ ∧ _ ∧ ((submit adapter false o (look f) id s) = _ ∨ _) := submit_look ha
  refine ⟨hheld, hrest, fun b hb => ?_, fun e he => ?_⟩
  · rcases hcases with h | ⟨⟨e, h⟩, -⟩
    · rw [h] at hb ⊢
      cases hb
      exact ⟨rfl, rfl, rfl⟩
    · rw [h] at hb
      cases hb
  · rcases hcases with h | ⟨-, h⟩
    · rw [h] at he
      cases he
    · exact ⟨fun hp => h (hA hp _ _ _ ho).1, .inl rfl⟩

theorem Got.guarded {a : α} {g : Guard} {m : Run α} (hl : l.latch.state = .open)
    (h : wp (serve adapter) A I m (Got p a l s) l s) :
    wp (serve adapter) A I (guarded adapter g m) (Got p a l s) l s := by
  apply (wp_guarded _ _ _).2
  rw [(RunLatch.error_eq_none_iff _).2 hl]
  apply wp_mono h
  intro r l' s' hg
  cases r with
  | ok b => exact hg
  | error e =>
      refine ⟨hg.held, hg.rest, (fun b hb => by cases hb), ?_⟩
      intro x hx
      obtain ⟨hp, he⟩ := hg.error e rfl
      refine ⟨hp, ?_⟩
      cases hx
      rcases guardOutcome_cases adapter g e l' with h | ⟨-, -, h⟩
      · rw [h]
        exact he
      · rw [h]
        exact .inr ⟨_, rfl⟩

theorem submit_congr {run run' : Session → Except DriverError α × Session} {commitCapable : Bool}
    {kept : Session → Session}
    (h : run s = run' s) : submit adapter commitCapable o run kept s = submit adapter commitCapable o run' kept s := by
  unfold submit carryOut
  rw [h]

theorem selectRows_of_tables {tables : List ObjectName} {f : Db → α} (h : tables.all s.visible.isTable = true) :
    selectRows adapter tables f s = read f s := by
  rw [selectRows, if_pos h]

theorem wp_rows {op : Op} {tables : List ObjectName} {f : Db → Answer op} (hA : Answers p A) (hI : I ⟨op, l⟩ s)
    (hop : ∀ o, serve adapter ⟨op, l⟩ o s = submit adapter false o (selectRows adapter tables f) id s)
    (ht : tables.all s.visible.isTable = true) (ha : s.aborted = false) :
    wp (serve adapter) A I (World.perform op) (Got p (f s.visible) l s) l s := by
  have hlook (o : Outcome) : serve adapter ⟨op, l⟩ o s = submit adapter false o (look fun s => f s.visible) id s :=
    (hop o).trans (submit_congr (selectRows_of_tables ht))
  exact wp_look hA hI hlook ha

theorem wp_exec_read {op : Op} {f : Db → Answer op} {operation phase : String} (hA : Answers p A)
    (hop : ∀ l o s, serve c.adapter ⟨op, l⟩ o s = submit c.adapter false o (read f) id s)
    (hl : l.latch.state = .open) (hI : I ⟨op, l⟩ s) (ha : s.aborted = false) :
    wp (serve c.adapter) A I (exec c op operation phase) (Got p (f s.visible) l s) l s :=
  Got.guarded hl (wp_look hA hI (fun o => hop l o s) ha)

theorem wp_exec_rows {op : Op} {tables : List ObjectName} {f : Db → Answer op} {operation phase : String}
    (hA : Answers p A)
    (hop : ∀ l o s, serve c.adapter ⟨op, l⟩ o s = submit c.adapter false o (selectRows c.adapter tables f) id s)
    (ht : tables.all s.visible.isTable = true) (hl : l.latch.state = .open) (hI : I ⟨op, l⟩ s)
    (ha : s.aborted = false) :
    wp (serve c.adapter) A I (exec c op operation phase) (Got p (f s.visible) l s) l s :=
  Got.guarded hl (wp_rows hA hI (fun o => hop l o s) ht ha)

end Reads

section Inspect

variable {I : Request → Session → Prop}

/-- A session that shows `d` and has nothing open. -/
structure AtRest (d : Db) (s : Session) : Prop where
  db : s.db = d
  idle : s.txn = none

theorem AtRest.visible (h : AtRest d s) : s.visible = d := by
  rw [Session.visible, h.idle, h.db]

theorem AtRest.aborted (h : AtRest d s) : s.aborted = false := by
  rw [Session.aborted, h.idle]

theorem exec_at_rest {op : Op} {f : Db → Answer op} {operation phase : String} (hA : Answers p A)
    (hop : ∀ l o s, serve c.adapter ⟨op, l⟩ o s = submit c.adapter false o (read f) id s)
    (hl : l.latch.state = .open) (hI : I ⟨op, l⟩ s) (hs : AtRest d s) :
    wp (serve c.adapter) A I (exec c op operation phase) (Got p (f d) l s) l s := by
  rw [← hs.visible]
  exact wp_exec_read hA hop hl hI hs.aborted

theorem rows_at_rest {op : Op} {tables : List ObjectName} {f : Db → Answer op} {operation phase : String}
    (hA : Answers p A)
    (hop : ∀ l o s, serve c.adapter ⟨op, l⟩ o s = submit c.adapter false o (selectRows c.adapter tables f) id s)
    (ht : tables.all d.isTable = true) (hl : l.latch.state = .open) (hI : I ⟨op, l⟩ s) (hs : AtRest d s) :
    wp (serve c.adapter) A I (exec c op operation phase) (Got p (f d) l s) l s := by
  rw [← hs.visible] at ht ⊢
  exact wp_exec_rows hA hop ht hl hI hs.aborted

/-- A query of what is not a table fails, and says so when it is answered. -/
theorem missing_at_rest {op : Op} {tables : List ObjectName} {f : Db → Answer op} {operation phase : String}
    (hA : Answers p A)
    (hop : ∀ l o s, serve c.adapter ⟨op, l⟩ o s = submit c.adapter false o (selectRows c.adapter tables f) id s)
    (ht : tables.all d.isTable = false) (hl : l.latch.state = .open) (hI : I ⟨op, l⟩ s) (hs : AtRest d s) :
    wp (serve c.adapter) A I (exec c op operation phase) (fun r l' s' => s' = s ∧ ∃ e, r = .error e ∧
      (e = .driver (notATable c.adapter) ∧ l' = l ∨ ¬ p ∧ (l' = l ∨ ∃ m, e = .migr8 m))) l s := by
  have hrun : selectRows c.adapter tables f s = (.error (notATable c.adapter), s) := by
    rw [selectRows, hs.visible, ht]
    rfl
  apply (wp_guarded _ _ _).2
  rw [(RunLatch.error_eq_none_iff _).2 hl]
  apply wp_perform.2
  refine ⟨hI, fun o ho => ?_⟩
  rw [hop l o s]
  unfold submit carryOut
  rw [hs.aborted, hrun]
  cases he : o.fault.exc with
  | none =>
      refine ⟨fail_idle hs.idle, .driver (notATable c.adapter), ?_, .inl ⟨rfl, ?_⟩⟩
      all_goals
        simp only [guardOutcome, isDefinite, Exc.isException, classify_notATable, if_true, decide_true]
  | some e =>
      have hp : ¬ p := by
        intro hp
        rw [(hA hp _ _ _ ho).1] at he
        cases he
      have hidle : (if o.fault.rejects c.adapter false = true then Session.fail c.adapter o (id s)
          else if o.applied = true then s else Session.fail c.adapter o s) = s := by
        split
        · exact fail_idle hs.idle
        · split
          · rfl
          · exact fail_idle hs.idle
      refine ⟨hidle, _, rfl, .inr ⟨hp, ?_⟩⟩
      rcases guardOutcome_cases c.adapter ⟨operation, phase, none, false⟩ e l with h | ⟨-, -, h⟩
      · rw [h]
        exact .inl rfl
      · rw [h]
        exact .inr ⟨_, rfl⟩

theorem Got.cast {a : α} {b : β} {e : Exc} {l' : Local} {s' : Session} (h : Got p a l s (.error e) l' s') :
    Got p b l s (.error e) l' s' := by
  refine ⟨h.held, h.rest, (fun x hx => by cases hx), ?_⟩
  intro x hx
  cases hx
  exact h.error e rfl

theorem Got.stop {a : α} {e : Exc} {l' : Local} {s' : Session} (h : Got p a l s (.error e) l' s') (hs : s.txn = none) :
    s' = s ∧ ¬ p := ⟨h.rest hs, (h.error e rfl).1⟩

theorem Got.bind {a : α} {m : Run α} {f : α → Run β} {P : Except Exc β → Local → Session → Prop}
    (hm : wp (serve adapter) A I m (Got p a l s) l s) (hf : wp (serve adapter) A I (f a) P l s)
    (he : ∀ e l' s', Got p a l s (.error e) l' s' → P (.error e) l' s') : wp (serve adapter) A I (m >>= f) P l s := by
  apply (wp_bind _ _).2
  apply wp_mono hm
  intro r l' s' hg
  cases r with
  | ok b =>
      obtain ⟨rfl, rfl, rfl⟩ := hg.ok b rfl
      exact hf
  | error e => exact he e l' s' hg

theorem Got.then {a : α} {b : β} {m : Run α} {f : α → Run β} (hm : wp (serve adapter) A I m (Got p a l s) l s)
    (hf : wp (serve adapter) A I (f a) (Got p b l s) l s) : wp (serve adapter) A I (m >>= f) (Got p b l s) l s :=
  Got.bind hm hf fun _ _ _ h => h.cast

theorem Got.pure (a : α) : wp (serve adapter) A I (Pure.pure a : Run α) (Got p a l s) l s := by
  refine ⟨fun _ h => h, fun _ => rfl, ?_, (fun e he => by cases he)⟩
  intro b hb
  cases hb
  exact ⟨rfl, rfl, rfl⟩

theorem wp_decode (hA : Answers p A) (hI : I ⟨.decode, l⟩ s) :
    wp (serve adapter) A I (World.perform .decode) (Got p () l s) l s := by
  apply wp_perform.2
  refine ⟨hI, fun o ho => ⟨fun _ h => h, fun _ => rfl, fun b _ => ⟨rfl, rfl, rfl⟩, ?_⟩⟩
  intro e he
  refine ⟨fun hp => ?_, .inl rfl⟩
  have hf : o.fault = .answered := (hA hp _ _ _ ho).1
  change (serveDecode o s).1 = .error e at he
  rw [serveDecode, hf] at he
  cases he

def decisive : Op → Bool
  | .createObject _ => true
  | .log event _ => event == "plan"
  | _ => false

/-- Everything that decides nothing may be asked for. -/
def Asks (I : Request → Session → Prop) (s : Session) : Prop := ∀ op l, decisive op = false → I ⟨op, l⟩ s

theorem wp_readMeta (hA : Answers p A) (hI : Asks I s) (ht : s.visible.isTable .metaTable = true)
    (hl : l.latch.state = .open) (ha : s.aborted = false) :
    wp (serve c.adapter) A I (readMeta c) (Got p (s.visible.marker.head?, s.visible.marker.length) l s) l s := by
  have hmeta : [ObjectName.metaTable].all s.visible.isTable = true := by simp [ht]
  apply Got.then (wp_exec_rows hA (fun _ _ _ => rfl) hmeta hl (hI _ _ (by rfl)) ha)
  apply Got.then (wp_exec_rows hA (fun _ _ _ => rfl) hmeta hl (hI _ _ (by rfl)) ha)
  cases s.visible.marker with
  | nil => exact Got.pure _
  | cons row rows => exact Got.then (wp_decode hA (hI _ _ (by rfl))) (Got.pure _)

/-- What an inspection makes of the marker, when it is not what is stored: the
marker cannot be read, which is a problem of its own. -/
def Unread (p : Prop) (d : Db) (x : Option MetaRow × List String) : Prop :=
  (p → d.isTable .metaTable = false) ∧ listed d .metaTable = true ∧ x.1 = none ∧ x.2 ≠ []

theorem wp_inspectMarker {problems : List String} (hA : Answers p A) (hI : Asks I s) (hl : l.latch.state = .open)
    (hs : AtRest d s) :
    wp (serve c.adapter) A I (inspectMarker c (presentObjects d) problems) (fun r l' s' => s' = s ∧ match r with
      | .ok x => l' = l ∧ (x = (markerFound d, problems ++ markerProblems d) ∨ Unread p d x)
      | .error _ => ¬ p) l s := by
  unfold inspectMarker
  rw [contains_present]
  by_cases hlisted : listed d .metaTable = true
  · rw [if_pos hlisted]
    have hcannot (text : String) : problems ++ [text] ≠ [] :=
      List.append_ne_nil_of_right_ne_nil _ (List.cons_ne_nil _ _)
    apply (wp_bind _ _).2
    apply (wp_attempt _).2
    by_cases ht : d.isTable .metaTable = true
    · have hmeta := wp_readMeta (c := c) hA hI (by rw [hs.visible]; exact ht) hl hs.aborted
      rw [hs.visible] at hmeta
      apply wp_mono hmeta
      intro r l' s' hg
      obtain rfl := hg.rest hs.idle
      cases r with
      | error e =>
          obtain ⟨hp, hl'⟩ := hg.error e rfl
          apply (wp_ite _ _ _).2
          by_cases hd : isDriverError c.adapter e = true
          · rw [if_pos hd]
            refine ⟨rfl, ?_, .inr ⟨fun h => absurd h hp, hlisted, rfl, hcannot _⟩⟩
            apply hl'.resolve_right
            rintro ⟨m, rfl⟩
            cases ha : c.adapter <;> rw [ha] at hd <;> cases hd
          · rw [if_neg hd]
            exact ⟨rfl, hp⟩
      | ok x =>
          obtain ⟨rfl, rfl, -⟩ := hg.ok x rfl
          have hfound : markerFound d = d.marker.head? := by rw [markerFound, if_pos hlisted]
          cases hm : d.marker with
          | nil =>
              refine ⟨rfl, rfl, .inl ?_⟩
              rw [markerProblems, hfound, hm]
              simp
          | cons row rows =>
              refine ⟨rfl, rfl, .inl ?_⟩
              rw [markerProblems, hfound, hm]
              by_cases hone : (row :: rows).length = 1
              · simp [hone]
              · simp only [List.head?_cons, Option.isSome_some, ne_eq, hone, not_false_eq_true, and_self, if_true,
                  if_false]
    · have htab : [ObjectName.metaTable].all d.isTable = false := by simpa using ht
      apply (wp_bind _ _).2
      have hmissing :
          wp (serve c.adapter) A I (exec c .countMeta ("counting " ++ metaTable) "metadata_inspection") _ l s :=
        missing_at_rest hA (fun _ _ _ => rfl) htab hl (hI _ _ (by rfl)) hs
      apply wp_mono hmissing
      rintro r l' s' ⟨rfl, e, rfl, he⟩
      dsimp only
      apply (wp_ite _ _ _).2
      rcases he with ⟨rfl, rfl⟩ | ⟨hp, hl'⟩
      · rw [if_pos (by cases c.adapter <;> rfl)]
        exact ⟨rfl, rfl, .inr ⟨fun _ => eq_false_of_ne_true ht, hlisted, rfl, hcannot _⟩⟩
      · by_cases hd : isDriverError c.adapter e = true
        · rw [if_pos hd]
          refine ⟨rfl, ?_, .inr ⟨fun h => absurd h hp, hlisted, rfl, hcannot _⟩⟩
          apply hl'.resolve_right
          rintro ⟨m, rfl⟩
          cases ha : c.adapter <;> rw [ha] at hd <;> cases hd
        · rw [if_neg hd]
          exact ⟨rfl, hp⟩
  · rw [if_neg hlisted]
    refine ⟨rfl, rfl, .inl ?_⟩
    rw [markerProblems, markerFound, if_neg hlisted]
    simp

/-- Rows are counted where a table is listed, unless an index stands in its place. -/
theorem wp_countOf {table : ObjectName} {count : Run Nat} {rows : Nat}
    (hthere : d.isTable table = true → wp (serve adapter) A I count (Got p rows l s) l s)
    (hmissing : d.isTable table = false → wp (serve adapter) A I count (fun r l' s' => s' = s ∧ ∃ e, r = .error e ∧
      (e = .driver (notATable adapter) ∧ l' = l ∨ ¬ p ∧ (l' = l ∨ ∃ m, e = .migr8 m))) l s) :
    wp (serve adapter) A I (countOf table count (presentObjects d))
    (fun r l' s' => (s.txn = none → s' = s) ∧ match r with
      | .ok x => x = rowCount d table rows ∧ l' = l ∧ (listed d table = true → d.isTable table = true)
      | .error e => p → (listed d table = true ∧ d.isTable table = false) ∧ e = .driver (notATable adapter) ∧ l' = l)
      l s := by
  unfold countOf rowCount
  rw [contains_present]
  by_cases hl : listed d table = true
  · rw [if_pos hl, if_pos hl]
    apply (wp_bind _ _).2
    by_cases ht : d.isTable table = true
    · apply wp_mono (hthere ht)
      intro r l' s' hg
      cases r with
      | ok n =>
          obtain ⟨rfl, rfl, rfl⟩ := hg.ok n rfl
          exact ⟨fun _ => rfl, rfl, rfl, fun _ => ht⟩
      | error e => exact ⟨hg.rest, fun hp => absurd hp (hg.error e rfl).1⟩
    · apply wp_mono (hmissing (eq_false_of_ne_true ht))
      rintro r l' s' ⟨rfl, e, rfl, he⟩
      refine ⟨fun _ => rfl, fun hp => ?_⟩
      obtain ⟨he, hl'⟩ := he.resolve_right fun h => h.1 hp
      exact ⟨⟨hl, eq_false_of_ne_true ht⟩, he, hl'⟩
  · rw [if_neg hl, if_neg hl]
    exact ⟨fun _ => rfl, rfl, rfl, fun h => absurd h hl⟩

/-- What an inspection reports: the verdict on what is stored, or damage where a
read has failed. -/
def Reports (p : Prop) (d : Db) (report : MetadataReport) : Prop :=
  report = inspected d ∨ report.state = .damaged ∧ (p → (inspected d).state = .damaged)

theorem Reports.state {report : MetadataReport} (h : Reports p d report) (hp : p) :
    report.state = (inspected d).state := by
  rcases h with rfl | ⟨hr, hd⟩
  · rfl
  · rw [hr, hd hp]

/-- How an inspection whose reads are answered fails. What the comparison raises is
no driver's error, so the guard takes the outcome for unknown; the others are. -/
def Breaks (adapter : Adapter) (e : Exc) (l l' : Local) : Prop :=
  (∃ m, e = .migr8 m ∧ m.kind = .unknownOutcome ∧ l'.latch.state = .unknownOutcome) ∨
    e = .driver (notATable adapter) ∧ l' = l

theorem CheckFault.breaks (f : CheckFault) (g : Guard) (hl : l.latch.state = .open) :
    Breaks adapter (guardOutcome adapter g (f.exc adapter) l).1 l (guardOutcome adapter g (f.exc adapter) l).2 := by
  cases f with
  | missingModule =>
      right
      simp only [CheckFault.exc, guardOutcome, isDefinite, Exc.isException, classify_notATable, if_true, decide_true,
        and_self]
  | keylessReference =>
      left
      refine ⟨g.unknownOutcome adapter (.plain "builtins.TypeError"), rfl, rfl, ?_⟩
      exact congrArg RunLatch.state (RunLatch.set_of_open hl)

theorem serve_definitionProblems (hs : AtRest d s) : serve adapter ⟨.definitionProblems (presentObjects d), l⟩ o s =
    let answer := submit adapter false o (look fun s => layoutProblems (presentObjects d) s.visible) id s
    (faulted adapter (layoutFault (presentObjects d) d) answer.1, answer.2) := by
  rw [← hs.visible]
  rfl

theorem wp_definitionProblems {phase : String} (hA : Answers p A) (hI : Asks I s) (hl : l.latch.state = .open)
    (hs : AtRest d s) :
    wp (serve c.adapter) A I (definitionProblems c (presentObjects d) phase) (fun r l' s' => s' = s ∧ match r with
      | .ok problems => problems = layoutProblems (presentObjects d) d ∧ l' = l ∧ ¬ Unchecked d
      | .error e => p → Unchecked d ∧ Breaks c.adapter e l l') l s := by
  apply (wp_guarded _ _ _).2
  rw [(RunLatch.error_eq_none_iff _).2 hl]
  apply wp_perform.2
  refine ⟨hI _ _ (by rfl), fun o ho => ?_⟩
  have hlook : _ ∧ _ ∧
      (submit c.adapter false o (look fun s => layoutProblems (presentObjects d) s.visible) id s = _ ∨ _) :=
    submit_look hs.aborted
  rw [serve_definitionProblems hs]
  obtain ⟨-, hrest, hx | ⟨⟨e, he⟩, hfault⟩⟩ := hlook
  · rw [hx, hs.visible]
    cases hf : layoutFault (presentObjects d) d with
    | none => exact ⟨rfl, rfl, rfl, layoutFault_eq_none.1 hf⟩
    | some f =>
        have hu : Unchecked d := by
          by_contra hn
          rw [layoutFault_eq_none.2 hn] at hf
          cases hf
        exact ⟨rfl, fun _ => ⟨hu, CheckFault.breaks f _ hl⟩⟩
  · dsimp only
    rw [he]
    exact ⟨hrest hs.idle, fun hp => absurd (hA hp _ _ _ ho).1 hfault⟩

/-- An inspection whose reads are all answered gives the verdict on what is
stored. A failed read ends the inspection, or makes the verdict damage; answered
ones fail where a comparison raises, and where an index stands under the name of a
table that is counted. -/
theorem wp_inspectMetadata (hA : Answers p A) (hI : Asks I s) (hl : l.latch.state = .open) (hs : AtRest d s) :
    wp (serve c.adapter) A I (inspectMetadata c) (fun r l' s' => s' = s ∧ match r with
      | .ok report => l' = l ∧ ¬ Uninspected d ∧ Reports p d report
      | .error e => p → Uninspected d ∧ Breaks c.adapter e l l') l s := by
  have hread {op : Op} {f : Db → Answer op} {operation phase : String}
      (hop : ∀ l o s, serve c.adapter ⟨op, l⟩ o s = submit c.adapter false o (read f) id s)
      (hne : decisive op = false) : wp (serve c.adapter) A I (exec c op operation phase) (Got p (f d) l s) l s :=
    exec_at_rest hA hop hl (hI _ _ hne) hs
  have hstop {β : Type} {a : β} {e : Exc} {l' : Local} {s' : Session} (h : Got p a l s (.error e) l' s') :
      s' = s ∧ (p → Uninspected d ∧ Breaks c.adapter e l l') := by
    obtain ⟨hs', hp⟩ := h.stop hs.idle
    exact ⟨hs', fun h => absurd h hp⟩
  apply Got.bind (hread (fun _ _ _ => rfl) (by rfl)) ?_ fun e l' s' h => hstop h
  apply (wp_bind _ _).2
  apply wp_mono (wp_definitionProblems hA hI hl hs)
  rintro r l₀ s₀ ⟨rfl, h₀⟩
  cases r with
  | error e => exact ⟨rfl, fun hp => ⟨.inl (h₀ hp).1, (h₀ hp).2⟩⟩
  | ok problems =>
      obtain ⟨rfl, rfl, hchecked⟩ := h₀
      apply (wp_bind _ _).2
      apply wp_mono (wp_inspectMarker hA hI hl hs)
      intro r l' s' h
      obtain ⟨rfl, h⟩ := h
      cases r with
      | error e => exact ⟨rfl, fun hp => absurd hp h⟩
      | ok x =>
          obtain ⟨marker, problems⟩ := x
          obtain ⟨rfl, hx⟩ := h
          have huncounted {table : ObjectName} (htable : table = .history ∨ table = .progress)
              (h : listed d table = true ∧ d.isTable table = false) : Uncounted d := by
            obtain ⟨found, ha, hn⟩ := altered_of_listed h.1 h.2
            exact ⟨table, found, htable, ha, hn⟩
          have hhistory : wp (serve c.adapter) A I (countOf .history
              (exec c .countHistory ("counting " ++ historyTable) "metadata_inspection") (presentObjects d)) _ l' s' :=
            wp_countOf (fun ht => rows_at_rest hA (fun _ _ _ => rfl) (by simp [ht]) hl (hI _ _ (by rfl)) hs)
              fun ht => missing_at_rest hA (fun _ _ _ => rfl) (by simp [ht]) hl (hI _ _ (by rfl)) hs
          have hprogress : wp (serve c.adapter) A I (countOf .progress
              (exec c .countProgress ("counting " ++ progressTable) "metadata_inspection") (presentObjects d))
              _ l' s' :=
            wp_countOf (fun ht => rows_at_rest hA (fun _ _ _ => rfl) (by simp [ht]) hl (hI _ _ (by rfl)) hs)
              fun ht => missing_at_rest hA (fun _ _ _ => rfl) (by simp [ht]) hl (hI _ _ (by rfl)) hs
          apply (wp_bind _ _).2
          apply wp_mono hhistory
          rintro r l₁ s₁ ⟨hs₁, h₁⟩
          obtain rfl := hs₁ hs.idle
          cases r with
          | error e => exact ⟨rfl, fun hp => ⟨.inr (huncounted (.inl rfl) (h₁ hp).1), .inr (h₁ hp).2⟩⟩
          | ok historyCount =>
              obtain ⟨rfl, rfl, hth⟩ := h₁
              apply (wp_bind _ _).2
              apply wp_mono hprogress
              rintro r l₂ s₂ ⟨hs₂, h₂⟩
              obtain rfl := hs₂ hs.idle
              cases r with
              | error e => exact ⟨rfl, fun hp => ⟨.inr (huncounted (.inr rfl) (h₂ hp).1), .inr (h₂ hp).2⟩⟩
              | ok progressCount =>
                  obtain ⟨rfl, rfl, htp⟩ := h₂
                  refine ⟨rfl, rfl, ?_, ?_⟩
                  · rintro (hu | ⟨name, found, hn, ha, hnot⟩)
                    · exact hchecked hu
                    have hlisted := listed_of_altered ha
                    have hno : d.isTable name = false := by simp [Db.isTable, ha, hnot]
                    rcases hn with rfl | rfl
                    · rw [hth hlisted] at hno
                      cases hno
                    · rw [htp hlisted] at hno
                      cases hno
                  · rcases hx with hx | ⟨ht, hlisted, hm, hne⟩
                    · left
                      cases hx
                      rfl
                    · right
                      refine ⟨?_, fun hp => ?_⟩
                      · cases hm
                        have hpresent : presentObjects d ≠ [] := List.ne_nil_of_mem (mem_present.2 hlisted)
                        unfold classify
                        dsimp only
                        rw [if_neg hpresent, if_neg]
                        intro hnil
                        exact hne (List.append_eq_nil_iff.1 (List.append_eq_nil_iff.1 hnil).1).1
                      · obtain ⟨found, ha, -⟩ := altered_of_listed hlisted (ht hp)
                        exact damaged_of_altered ha

end Inspect

end Migr8.Inspection
