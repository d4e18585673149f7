import Migr8.Reporting
import Migr8.LatchAuthority
import Migr8.CommandLine

namespace Migr8.Ending

open Errors Model Latch Driver Database World Adapters Engine Rules Discipline EngineObedience Teardown RunObedience
open Untouched Reporting CommandLine Lib.Process
open Lib.Interaction (Act Exchange trace result whole echo recorded result_recorded wp_of_echo whole_eq_play)

variable {α β V : Type} {adapter : Adapter} {input : Input} {l : Local} {x : Session × Past} {m : Run α}
  {f : α → Run β}

variable (adapter) in
/-- What holds where the program ends, of what it has asked for until then as well. -/
abbrev Yields (m : Run α) (P : Except Exc α → Local → Session × Past → Prop) (l : Local) (x : Session × Past) : Prop :=
  wp (recorded (serve adapter)) (fun _ _ _ => True) (fun _ _ => True) m P l x

theorem Shows.yields {view : Local → V} (h : Shows view m) (l : Local) (x : Session × Past) :
    Yields adapter m (fun _ l' x' => view l' = view l ∧
      ∀ y ∈ x'.2, y ∈ x.2 ∨ view y.request.state = view l) l x := by
  have hlast : wp (recorded (serve adapter)) (fun _ _ _ => True)
      (fun q x' => (∃ _ : Unit, view q.state = view l) ∧ ∀ y ∈ x'.2, y ∈ x.2 ∨ view y.request.state = view l) m
      (fun _ l' x' => (∃ _ : Unit, view l' = view l) ∧ ∀ y ∈ x'.2, y ∈ x.2 ∨ view y.request.state = view l) l x := by
    refine wp_of_echo (h l) (fun _ hy => .inl hy) ?_
    intro q _ o x' hq _ hx' y hy
    obtain hy | hy := List.mem_append.1 hy
    · exact hx' y hy
    · rw [List.mem_singleton.1 hy]
      exact .inr hq
  apply wp_weaken (wp_mono hlast ?_) (fun _ _ _ h => h) fun _ _ _ => trivial
  rintro r l' x' ⟨⟨-, hv⟩, hx'⟩
  exact ⟨hv, hx'⟩

/-- Only requests of one kind are added. -/
theorem Safe.yields {K : Op → Prop} {P : Except Exc α → Local → RunLatch → Prop} {c : RunLatch}
    (h : Safe adapter K m P l c) (x : Session × Past) :
    Yields adapter m (fun r l' x' => (∃ c, P r l' c) ∧ ∀ y ∈ x'.2, y ∈ x.2 ∨ K y.request.op) l x := by
  have hlast : wp (recorded (serve adapter)) (fun _ _ _ => True)
      (fun q x' => (∃ c, Orderly adapter K q c) ∧ ∀ y ∈ x'.2, y ∈ x.2 ∨ K y.request.op) m
      (fun r l' x' => (∃ c, P r l' c) ∧ ∀ y ∈ x'.2, y ∈ x.2 ∨ K y.request.op) l x := by
    refine wp_of_echo h (fun _ hy => .inl hy) ?_
    intro q c o x' hq _ hx' y hy
    obtain hy | hy := List.mem_append.1 hy
    · exact hx' y hy
    · rw [List.mem_singleton.1 hy]
      exact .inr hq.kind
  exact wp_weaken hlast (fun _ _ _ h => h) fun _ _ _ => trivial

section Tame

variable (adapter) in
/-- What escapes is an interrupt or an ordinary exception. -/
def Tame (m : Run α) : Prop :=
  ∀ l x, Yields adapter m (fun r _ _ => ∀ e, r = .error e → e = .interrupt ∨ e.isException = true) l x

theorem Tame.pure (a : α) : Tame adapter (Pure.pure a : Run α) := by
  intro l x e he
  cases he

theorem Tame.get (g : Local → α) : Tame adapter (World.get g) := by
  intro l x e he
  cases he

theorem Tame.modify (g : Local → Local) : Tame adapter (World.modify g) := by
  intro l x e he
  cases he

theorem Tame.throw {e : Exc} (h : e = .interrupt ∨ e.isException = true) : Tame adapter (Proc.throw e : Run α) := by
  intro l x e' he
  cases he
  exact h

theorem Tame.bind (hm : Tame adapter m) (hf : ∀ a, Tame adapter (f a)) : Tame adapter (m >>= f) := by
  intro l x
  apply (wp_bind m f).2
  apply wp_mono (hm l x)
  intro r l' x' hr
  cases r with
  | error e =>
      intro e' he
      cases he
      exact hr e rfl
  | ok a => exact hf a l' x'

theorem Tame.onlyIf {m : Run Unit} (b : Bool) (hm : Tame adapter m) : Tame adapter (World.onlyIf b m) := by
  cases b with
  | false => exact .pure ()
  | true => exact hm

theorem Tame.finally {n : Run Unit} (hm : Tame adapter m) (hn : Tame adapter n) : Tame adapter (m.finally_ n) := by
  intro l x
  apply (wp_finally m n).2
  apply wp_mono (hm l x)
  intro r l' x' hr
  apply wp_mono (hn l' x')
  intro r' l'' x'' hr'
  cases r' with
  | error e =>
      intro e' he
      cases he
      exact hr' e rfl
  | ok u => exact hr

theorem Tame.tryCatch {h : Exc → Run α} (hm : Tame adapter m)
    (hh : ∀ e, (e = .interrupt ∨ e.isException = true) → Tame adapter (h e)) : Tame adapter (m.tryCatch h) := by
  intro l x
  apply (wp_tryCatch m h).2
  apply wp_mono (hm l x)
  intro r l' x' hr
  cases r with
  | error e => exact hh e (hr e rfl) l' x'
  | ok a =>
      intro e he
      cases he

theorem fault_tame {o : Outcome} {e : Exc} (h : o.fault.exc = some e) : e = .interrupt ∨ e.isException = true := by
  cases hf : o.fault <;> rw [hf] at h <;> cases h <;> simp [Exc.isException]

theorem Tame.perform {op : Op} (hop : closingOp op = true) : Tame adapter (World.perform op) := by
  intro l x
  refine wp_perform.2 ⟨trivial, fun o _ e he => ?_⟩
  have hroll (h : (serveRollback o x.1).1 = .error e) : e = .interrupt ∨ e.isException = true := by
    unfold serveRollback at h
    cases hf : o.fault.exc with
    | none => simp [hf] at h
    | some e' =>
        simp only [hf, Except.error.injEq] at h
        exact fault_tame (h ▸ hf)
  cases op with
  | log event id =>
      have hl : (serveLog event id o x.1).1 = .error e := he
      unfold serveLog at hl
      split at hl
      · cases hl
        exact .inl rfl
      · cases hl
  | status => cases he
  | readIdentity =>
      have hs : (submit adapter false o (fun s => (.ok (s.txn.bind (·.xid)), s)) id x.1).1 = .error e := he
      unfold submit at hs
      cases hf : o.fault.exc with
      | none =>
          simp only [hf] at hs
          split at hs
          · cases hs
          · cases hs
            exact .inr rfl
      | some e' =>
          simp only [hf, Except.error.injEq] at hs
          exact fault_tame (hs ▸ hf)
  | rollback => exact hroll he
  | closeRollback => exact hroll he
  | closeConnection => exact hroll he
  | discardConnection => exact hroll he
  | releaseLock =>
      have hs : (serve adapter ⟨.releaseLock, l⟩ o x.1).1 = .error e := he
      cases hf : o.fault.exc with
      | none => simp only [serve, hf, reduceCtorEq] at hs
      | some e' =>
          simp only [serve, hf, Except.error.injEq] at hs
          exact fault_tame (hs ▸ hf)
  | _ => cases hop

theorem Tame.suppressDriverError {m : Run Unit} (hm : Tame adapter m) :
    Tame adapter (suppressDriverError adapter m) := by
  refine .tryCatch hm fun e he => ?_
  split
  · exact .pure ()
  · exact .throw he

theorem Tame.releaseLock : Tame adapter (releaseLock adapter) := by
  refine .bind (.get _) fun _ => .onlyIf _ ?_
  cases adapter with
  | sqlite => exact .finally (.perform rfl) (.modify _)
  | postgres => exact .finally (.suppressDriverError (.perform rfl)) (.modify _)
  | oracle => exact .finally (.suppressDriverError (.perform rfl)) (.modify _)

theorem Tame.close : Tame adapter (close adapter) := by
  have hprobe : Tame adapter (probeTransaction adapter) := by
    cases adapter with
    | sqlite => exact .bind (.perform rfl) fun _ => .pure _
    | postgres => exact .bind (.perform rfl) fun _ => .pure _
    | oracle => exact .bind (.perform rfl) fun _ => .pure _
  have hclose : Tame adapter ((World.perform .closeConnection).finally_ Adapters.dropConnection) :=
    .finally (.perform rfl) (.modify _)
  cases adapter with
  | sqlite =>
      exact .bind (.get _) fun _ => .bind (.onlyIf _ (.bind (.perform rfl) fun _ => .bind (.onlyIf _ (.perform rfl))
        fun _ => .bind (.perform rfl) fun _ => .modify _)) fun _ => .releaseLock
  | postgres =>
      exact .bind (.get _) fun _ => .onlyIf _ (.finally (.bind hprobe fun _ => .bind (.onlyIf _ (.perform rfl)) fun _ =>
        .releaseLock) hclose)
  | oracle =>
      exact .bind (.get _) fun _ => .onlyIf _ (.finally (.bind hprobe fun _ => .bind (.onlyIf _ (.perform rfl)) fun _ =>
        .releaseLock) hclose)

theorem Tame.discard : Tame adapter (discard adapter) := by
  have hs : Tame adapter (Adapters.suppressDriverError adapter (World.perform .discardConnection)) :=
    .suppressDriverError (.perform rfl)
  cases adapter with
  | sqlite => exact .bind (.get _) fun _ => .bind (.onlyIf _ (.bind hs fun _ => .modify _)) fun _ => .releaseLock
  | postgres => exact .bind (.get _) fun _ => .onlyIf _ (.bind (.modify _) fun _ => .finally hs (.modify _))
  | oracle => exact .bind (.get _) fun _ => .onlyIf _ (.bind (.modify _) fun _ => .finally hs (.modify _))

theorem Tame.rollback : Tame adapter (rollback adapter) := by
  refine .bind ?_ fun _ => .modify _
  cases adapter with
  | sqlite => exact .bind (.perform rfl) fun _ => .onlyIf _ (.bind (.perform rfl) fun _ => .modify _)
  | postgres => exact .bind (.perform rfl) fun _ => .onlyIf _ (.perform rfl)
  | oracle => exact .perform rfl

end Tame

theorem Yields.and {P P' : Except Exc α → Local → Session × Past → Prop} (h : Yields adapter m P l x)
    (h' : Yields adapter m P' l x) : Yields adapter m (fun r l x => P r l x ∧ P' r l x) l x :=
  wp_weaken (wp_and h h') (fun _ _ _ h => h) fun _ _ _ => trivial

section Discarding

/-- A connection that is gone is not dropped again. -/
theorem discard_idle (hl : l.connectionHeld = false) : Yields adapter (discard adapter) (fun _ l' x' =>
    l'.connectionHeld = false ∧ ∀ y ∈ x'.2, y ∈ x.2 ∨ y.request.op ≠ .discardConnection) l x := by
  have hrelease : Yields .sqlite (releaseLock .sqlite) (fun _ l' x' =>
      l'.connectionHeld = false ∧ ∀ y ∈ x'.2, y ∈ x.2 ∨ y.request.op ≠ .discardConnection) l x := by
    refine (wp_bind _ _).2 ((wp_get _).2 ((wp_onlyIf _ _).2 ?_))
    split
    · refine (wp_finally _ _).2 (wp_perform.2 ⟨trivial, fun o _ => (wp_modify _).2 ⟨hl, fun y hy => ?_⟩⟩)
      obtain hy | hy := List.mem_append.1 hy
      · exact .inl hy
      · rw [List.mem_singleton.1 hy]
        exact .inr nofun
    · exact ⟨hl, fun y hy => .inl hy⟩
  cases adapter with
  | sqlite =>
      refine (wp_bind _ _).2 ((wp_get _).2 ((wp_bind _ _).2 ((wp_onlyIf _ _).2 ?_)))
      rw [hl]
      exact hrelease
  | postgres =>
      refine (wp_bind _ _).2 ((wp_get _).2 ((wp_onlyIf _ _).2 ?_))
      rw [hl]
      exact ⟨rfl, fun y hy => .inl hy⟩
  | oracle =>
      refine (wp_bind _ _).2 ((wp_get _).2 ((wp_onlyIf _ _).2 ?_))
      rw [hl]
      exact ⟨rfl, fun y hy => .inl hy⟩

theorem tryDiscard_idle (n : Nat) (hl : l.connectionHeld = false) : Yields adapter (tryDiscard adapter n) (fun _ _ x' =>
    ∀ y ∈ x'.2, y ∈ x.2 ∨ y.request.op ≠ .discardConnection) l x := by
  induction n generalizing l x with
  | zero => exact fun y hy => .inl hy
  | succ n ih =>
      refine (wp_bind _ _).2 ((wp_attempt _).2 (wp_mono (discard_idle hl) ?_))
      rintro r l' x' ⟨hl', hx'⟩
      have hnext : Yields adapter (tryDiscard adapter n) (fun _ _ x'' =>
          ∀ y ∈ x''.2, y ∈ x.2 ∨ y.request.op ≠ .discardConnection) l' x' := by
        refine wp_mono (ih hl') fun r l'' x'' h y hy => ?_
        exact (h y hy).elim (hx' y) .inr
      rcases r with e | u
      · cases e with
        | interrupt => exact hnext
        | base name => exact hx'
        | migr8 e => exact hx'
        | driver e => exact hx'
        | commitOutcomeUnknown code => exact hx'
        | plain name => exact hx'
      · exact hx'

/-- Two attempts are made and nothing escapes. -/
theorem tryDiscard_calm (n : Nat) : Yields adapter (tryDiscard adapter n) (fun r _ _ => r = .ok ()) l x := by
  induction n generalizing l x with
  | zero => rfl
  | succ n ih =>
      refine (wp_bind _ _).2 ((wp_attempt _).2 (wp_mono (Tame.discard l x) ?_))
      rintro (e | u) l' x' hr
      · cases e with
        | interrupt => exact ih
        | base name => exact absurd (hr _ rfl) (by simp [Exc.isException])
        | migr8 e => rfl
        | driver e => rfl
        | commitOutcomeUnknown code => rfl
        | plain name => rfl
      · rfl

/-- It says whether there was a connection to drop, and drops none when there was not. -/
theorem discardQuietly_yields (l : Local) (x : Session × Past) : Yields adapter (discardQuietly adapter) (fun r l' x' =>
    ∃ d, r = .ok d ∧ account l' = account l ∧ ∀ y ∈ x'.2, y ∈ x.2 ∨
      (account y.request.state = account l ∧ discardOp y.request.op = true ∧
        (y.request.op = .discardConnection → d = true))) l x := by
  have hkind := Safe.yields (K := fun op => discardOp op = true)
    ((Steady.discardQuietly fun _ h => h : Steady adapter _ _ _ _) l l.latch (Later.refl _) trivial) x
  have hheld : Yields adapter (discardQuietly adapter) (fun r _ x' => r = .ok l.connectionHeld ∧
      ∀ y ∈ x'.2, y ∈ x.2 ∨ (y.request.op = .discardConnection → l.connectionHeld = true)) l x := by
    refine (wp_bind _ _).2 ((wp_get _).2 ((wp_bind _ _).2 ?_))
    cases hl : l.connectionHeld with
    | false =>
        refine wp_mono ((tryDiscard_calm 2).and (tryDiscard_idle 2 hl)) ?_
        rintro r l' x' ⟨rfl, hx'⟩
        exact ⟨rfl, fun y hy => (hx' y hy).imp_right fun hne he => absurd he hne⟩
    | true =>
        refine wp_mono (tryDiscard_calm 2) ?_
        rintro r l' x' rfl
        exact ⟨rfl, fun y hy => .inr fun _ => rfl⟩
  refine wp_mono (((Shows.yields (Shows.discardQuietly adapter) l x).and hkind).and hheld) ?_
  rintro r l' x' ⟨⟨⟨ha, hview⟩, -, hop⟩, rfl, hd⟩
  refine ⟨_, rfl, ha, fun y hy => ?_⟩
  by_cases hin : y ∈ x.2
  · exact .inl hin
  · exact .inr ⟨(hview y hy).resolve_left hin, (hop y hy).resolve_left hin, (hd y hy).resolve_left hin⟩

end Discarding

def Closes (op : Op) : Prop := op = .closeRollback ∨ op = .closeConnection

/-- What was recorded before is the outcome still, an unknown one was not followed by
a close, and the drop of a connection has been told. -/
structure Intact (l : Local) (past : Past) : Prop where
  kept : ∀ y ∈ past, y.request.state.reported = true → settled y.request.state = settled l
  unclosed : ∀ y ∈ past, Closes y.request.op → y.request.state.reported = true →
    y.request.state.report.exitCode ≠ .unknownOutcome
  told : ∀ y ∈ past, y.request.op = .discardConnection → y.request.state.reported = true →
    l.report.connectionDiscarded = true

section Steps

variable {l' : Local} {past past' : Past}

theorem exitCode_of_settled (h : settled l' = settled l) : l'.report.exitCode = l.report.exitCode :=
  congrArg (fun v => v.1.2.1) h

theorem reported_of_settled (h : settled l' = settled l) : l'.reported = l.reported := congrArg (fun v => v.1.1) h

theorem settled_of_account (h : account l' = account l) : settled l' = settled l :=
  congrArg (fun a => ((a.1.1, a.1.2.1, a.1.2.2.1, a.1.2.2.2.1), a.2)) h

theorem discarded_of_account (h : account l' = account l) :
    l'.report.connectionDiscarded = l.report.connectionDiscarded := congrArg (fun a => a.1.2.2.2.2) h

theorem Intact.of_unreported (h : ∀ y ∈ past, y.request.state.reported = false) : Intact l past := by
  have hno {y} (hy : y ∈ past) : y.request.state.reported ≠ true := by simp [h y hy]
  exact ⟨fun y hy hr => absurd hr (hno hy), fun y hy _ hr => absurd hr (hno hy), fun y hy _ hr => absurd hr (hno hy)⟩

/-- Requests that show the recorded outcome are added. -/
theorem Intact.add (h : Intact l past) (hs : settled l' = settled l)
    (hd : l.report.connectionDiscarded = true → l'.report.connectionDiscarded = true)
    (hnew : ∀ y ∈ past', y ∈ past ∨ (settled y.request.state = settled l ∧
      (Closes y.request.op → l.report.exitCode ≠ .unknownOutcome) ∧
      (y.request.op = .discardConnection → l'.report.connectionDiscarded = true))) : Intact l' past' := by
  constructor
  · intro y hy hr
    obtain hy | ⟨hv, -, -⟩ := hnew y hy
    · rw [hs]
      exact h.kept y hy hr
    · rw [hs, hv]
  · intro y hy hop hr
    obtain hy | ⟨hv, hclose, -⟩ := hnew y hy
    · exact h.unclosed y hy hop hr
    · rw [exitCode_of_settled hv]
      exact hclose hop
  · intro y hy hop hr
    obtain hy | ⟨-, -, hdrop⟩ := hnew y hy
    · exact hd (h.told y hy hop hr)
    · exact hdrop hop

theorem not_closes_of_discardOp {op : Op} (h : discardOp op = true) : ¬ Closes op := by
  rintro (rfl | rfl) <;> cases h

/-- A dropped connection is still to be told. -/
theorem Intact.discardQuietly (h : Intact l x.2) : Yields adapter (discardQuietly adapter) (fun r l' x' =>
    ∃ d, r = .ok d ∧ account l' = account l ∧ ∀ l'', settled l'' = settled l →
      (d = true ∨ l.report.connectionDiscarded = true → l''.report.connectionDiscarded = true) → Intact l'' x'.2)
      l x := by
  refine wp_mono (discardQuietly_yields l x) ?_
  rintro r l' x' ⟨d, rfl, ha, hnew⟩
  refine ⟨d, rfl, ha, fun l'' hs hd => h.add hs (fun hc => hd (.inr hc)) fun y hy => ?_⟩
  refine (hnew y hy).imp_right fun ⟨hv, hop, hdrop⟩ => ⟨settled_of_account hv, ?_, fun he => hd (.inl (hdrop he))⟩
  exact fun hclose => absurd hclose (not_closes_of_discardOp hop)

theorem Intact.noteDiscarded (reason : String) {P : Except Exc Unit → Local → Session × Past → Prop} (d : Bool)
    (h : ∀ l', settled l' = settled l → (d = true ∨ l.report.connectionDiscarded = true →
      l'.report.connectionDiscarded = true) → l'.latch = l.latch → P (.ok ()) l' x) :
    Yields adapter (onlyIf d (noteDiscarded reason)) P l x := by
  refine (wp_onlyIf _ _).2 ?_
  cases d with
  | false => exact h l rfl (fun hc => hc.resolve_left nofun) rfl
  | true => exact h _ rfl (fun _ => rfl) rfl

theorem Intact.closeQuietly (h : Intact l x.2) (he : l.report.exitCode ≠ .unknownOutcome) (hk : known l.latch.state) :
    Yields adapter (closeQuietly adapter) (fun r l' x' => r = .ok () ∧ settled l' = settled l ∧ Intact l' x'.2)
    l x := by
  have hclose := (((Tame.close : Tame adapter _) l x).and (Shows.yields (Shows.close adapter) l x)).and
    (Safe.yields (Steady.close (K := fun op => closeOp op = true) (fun _ h => h) l l.latch (Later.refl _) hk) x)
  refine (wp_tryCatch _ _).2 (wp_mono hclose ?_)
  rintro r l₁ x₁ ⟨⟨htame, ha, hview⟩, -, hop⟩
  have hs₁ := settled_of_account ha
  have h₁ : Intact l₁ x₁.2 := by
    refine h.add hs₁ (fun hc => (discarded_of_account ha).trans hc) fun y hy => ?_
    by_cases hin : y ∈ x.2
    · exact .inl hin
    · refine .inr ⟨settled_of_account ((hview y hy).resolve_left hin), fun _ => he, fun hdrop => ?_⟩
      have hk := (hop y hy).resolve_left hin
      rw [hdrop] at hk
      cases hk
  have hpass (he : Exc) (hex : he.isException = true) :
      Yields adapter (if he.isException then pure () else Proc.throw he)
      (fun r l' x' => r = .ok () ∧ settled l' = settled l ∧ Intact l' x'.2) l₁ x₁ := by
    rw [if_pos hex]
    exact ⟨rfl, hs₁, h₁⟩
  rcases r with e | u
  · cases e with
    | interrupt =>
        refine (wp_bind _ _).2 (wp_mono h₁.discardQuietly ?_)
        rintro r l₂ x₂ ⟨d, rfl, ha₂, hlast⟩
        have hs₂ := settled_of_account ha₂
        refine Intact.noteDiscarded _ d fun l₃ hs₃ hd₃ _ => ?_
        refine ⟨rfl, hs₃.trans (hs₂.trans hs₁), hlast l₃ (hs₃.trans hs₂) fun hd => hd₃ (hd.imp_right fun hc => ?_)⟩
        exact (discarded_of_account ha₂).trans hc
    | base name => exact absurd (htame _ rfl) (by simp [Exc.isException])
    | migr8 e => exact hpass _ rfl
    | driver e => exact hpass _ rfl
    | commitOutcomeUnknown code => exact hpass _ rfl
    | plain name => exact hpass _ rfl
  · exact ⟨rfl, hs₁, h₁⟩

/-- Only an interrupt escapes the rollback. -/
theorem Intact.rollbackQuietly (h : Intact l x.2) (he : l.report.exitCode ≠ .unknownOutcome) :
    Yields adapter (rollbackQuietly adapter) (fun r l' x' => (∀ e, r = .error e → e = .interrupt) ∧
      settled l' = settled l ∧ l'.latch = l.latch ∧ Intact l' x'.2) l x := by
  have hsteady :
      Steady adapter (fun op => op = .status ∨ op = .rollback) standing any (Engine.rollbackQuietly adapter) :=
    Steady.rollbackQuietly (.inl rfl) (.inr rfl)
  have hescape :
      Yields adapter (Engine.rollbackQuietly adapter) (fun r _ _ => ∀ e, r = .error e → e = .interrupt) l x := by
    refine (wp_bind _ _).2 ((wp_get _).2 ((wp_ite _ _ _).2 ?_))
    split
    · exact nofun
    · refine (wp_tryCatch _ _).2 (wp_mono (Tame.rollback l x) ?_)
      rintro (e | u) l' x' hr
      · rcases hr e rfl with rfl | hex
        · rintro e he
          cases he
          rfl
        · dsimp only
          rw [if_pos hex]
          exact nofun
      · exact nofun
  have hkind := Safe.yields (hsteady l l.latch (Later.refl _) trivial) x
  refine wp_mono ((hescape.and (Shows.yields (Shows.rollbackQuietly adapter) l x)).and hkind) ?_
  rintro r l' x' ⟨⟨hr, ha, hview⟩, ⟨c, -, hsame⟩, hop⟩
  refine ⟨hr, settled_of_account ha, hsame.latch,
    h.add (settled_of_account ha) (fun hc => (discarded_of_account ha).trans hc) ?_⟩
  intro y hy
  by_cases hin : y ∈ x.2
  · exact .inl hin
  · refine .inr ⟨settled_of_account ((hview y hy).resolve_left hin), fun _ => he, fun hdrop => ?_⟩
    rcases (hop y hy).resolve_left hin with hk | hk <;> rw [hdrop] at hk <;> cases hk

end Steps

section Run

/-- The report is handed out or an interrupt escapes, and the outcome stands recorded. -/
structure Ended (r : Except Exc Report) (l : Local) (past : Past) : Prop where
  returned : r = .ok l.report ∨ r = .error .interrupt
  reported : l.reported = true
  intact : Intact l past

def Fresh (l : Local) (past : Past) : Prop := l.reported = false ∧ ∀ y ∈ past, y.request.state.reported = false

theorem log_yields {event : String} {id : Option String} {P : Except Exc Unit → Local → Session × Past → Prop}
    (h : ∀ r s o, r = .ok () ∨ r = .error .interrupt → P r l (s, x.2 ++ [⟨⟨.log event id, l⟩, x.1, o⟩])) :
    Yields adapter (World.perform (.log event id)) P l x := by
  refine wp_perform.2 ⟨trivial, fun o _ => h _ _ o ?_⟩
  have hr : (serveLog event id o x.1).1 = .ok () ∨ (serveLog event id o x.1).1 = .error .interrupt := by
    unfold serveLog
    split
    · exact .inr rfl
    · exact .inl rfl
  exact hr

theorem Intact.log {past : Past} {s : Session} {o : Outcome} {event : String} {id : Option String} (h : Intact l past) :
    Intact l (past ++ [⟨⟨.log event id, l⟩, s, o⟩]) := by
  refine h.add rfl (fun hd => hd) fun y hy => ?_
  obtain hy | hy := List.mem_append.1 hy
  · exact .inl hy
  · rw [List.mem_singleton.1 hy]
    exact .inr ⟨rfl, fun hc => hc.elim nofun nofun, nofun⟩

/-- From the record of the outcome on, the rest of the run leaves it alone. -/
theorem Fresh.fail (h : Fresh l x.2) (e : Migr8Error) (code : Exit) (discarded : Bool)
    {k : Unit → Run Report}
    (hk : ∀ l' x', Intact l' x'.2 → l'.reported = true → l'.report.exitCode = code →
      l'.report.connectionDiscarded = discarded → l'.latch = l.latch →
      Yields adapter (k ()) (fun r l' x' => Ended r l' x'.2) l' x') :
    Yields adapter (fail e code discarded >>= k) (fun r l' x' => Ended r l' x'.2) l x := by
  refine (wp_bind _ _).2 ((wp_bind _ _).2 ((wp_modify _).2 (log_yields fun r s o hr => ?_)))
  have hi {l' : Local} : Intact l' (x.2 ++ [⟨⟨.log "run_end" e.migrationId, l'⟩, x.1, o⟩]) :=
    (Intact.of_unreported h.2).log
  rcases hr with rfl | rfl
  · exact hk _ _ hi rfl rfl rfl rfl
  · exact ⟨.inr rfl, rfl, hi⟩

theorem Ended.finish {past : Past} (hi : Intact l past) (hr : l.reported = true) : Ended (.ok l.report) l past :=
  ⟨.inl rfl, hr, hi⟩

theorem closing_ends (hi : Intact l x.2) (hr : l.reported = true) (he : l.report.exitCode ≠ .unknownOutcome)
    (hk : known l.latch.state) (b : Bool) :
    Yields adapter (do
      onlyIf b (closeQuietly adapter)
      Engine.finish) (fun r l' x' => Ended r l' x'.2) l x := by
  refine (wp_bind _ _).2 ((wp_onlyIf _ _).2 ?_)
  cases b with
  | false => exact .finish hi hr
  | true =>
      rw [if_pos rfl]
      refine wp_mono (hi.closeQuietly he hk) ?_
      rintro r l' x' ⟨rfl, hs, hi'⟩
      exact .finish hi' ((reported_of_settled hs).trans hr)

theorem terminate_ends (e : Exc) (h : Fresh l x.2) :
    Yields adapter (terminate adapter e) (fun r l' x' => Ended r l' x'.2) l x := by
  refine (wp_bind _ _).2 ((wp_get _).2 ?_)
  dsimp only
  cases ht : terminalError e l with
  | none =>
      have hk := known_of_terminalError_none ht
      refine h.fail _ _ _ fun l₁ x₁ hi hr he _ hl =>
        (wp_bind _ _).2 ((wp_get _).2 ((wp_bind _ _).2 ((wp_onlyIf _ _).2 ?_)))
      have hne : l₁.report.exitCode ≠ .unknownOutcome := by rw [he]; decide
      split
      · refine (wp_bind _ _).2 (wp_mono (hi.rollbackQuietly hne) ?_)
        rintro r l₂ x₂ ⟨hesc, hs, hl₂, hi₂⟩
        have hr₂ := (reported_of_settled hs).trans hr
        rcases r with e | u
        · exact ⟨.inr (by rw [hesc e rfl]), hr₂, hi₂⟩
        · have hk₂ : known l₂.latch.state := by rw [hl₂, hl]; exact hk
          refine wp_mono (hi₂.closeQuietly (by rw [exitCode_of_settled hs]; exact hne) hk₂) ?_
          rintro r l₃ x₃ ⟨rfl, hs₃, hi₃⟩
          exact .finish hi₃ ((reported_of_settled hs₃).trans hr₂)
      · exact .finish hi hr
  | some error =>
      refine h.fail _ _ _ fun l₁ x₁ hi hr he hd hl => (wp_bind _ _).2 ?_
      have hrec : Yields adapter (recordRecovery error) (fun r l' x' => r = .ok () ∧ settled l' = settled l₁ ∧
          l'.report.connectionDiscarded = l₁.report.connectionDiscarded ∧ l'.latch = l₁.latch ∧ x' = x₁) l₁ x₁ := by
        refine (wp_onlyIf _ _).2 ?_
        split
        · exact ⟨rfl, rfl, rfl, rfl, rfl⟩
        · exact ⟨rfl, rfl, rfl, rfl, rfl⟩
      refine wp_mono hrec ?_
      rintro r l₂ x₂ ⟨rfl, hs, hd₂, hl₂, rfl⟩
      have hi₂ : Intact l₂ x₂.2 := hi.add hs (fun hc => hd₂.trans hc) fun y hy => .inl hy
      have hr₂ := (reported_of_settled hs).trans hr
      refine (wp_bind _ _).2 ((wp_get _).2 ?_)
      by_cases hc : error.exitCode = .unknownOutcome
      · rw [decide_eq_true hc, if_pos rfl]
        refine (wp_bind _ _).2 ((wp_onlyIf _ _).2 ?_)
        split
        · refine (wp_bind _ _).2 (wp_mono hi₂.discardQuietly ?_)
          rintro r l₃ x₃ ⟨d, rfl, ha, hlast⟩
          have hflag : l₃.report.connectionDiscarded = true := by
            rw [discarded_of_account ha, hd₂, hd]
            exact decide_eq_true hc
          exact .finish (hlast l₃ (settled_of_account ha) fun _ => hflag)
            ((reported_of_settled (settled_of_account ha)).trans hr₂)
        · exact .finish hi₂ hr₂
      · rw [decide_eq_false hc, if_neg Bool.false_ne_true]
        refine closing_ends hi₂ hr₂ ?_ ?_ _
        · rw [exitCode_of_settled hs, he]
          exact hc
        · rw [hl₂, hl]
          exact known_of_terminalError ht hc

theorem settleInterruptedTeardown_ends (h : Fresh l x.2 ∨ l.reported = true ∧ Intact l x.2) :
    Yields adapter (settleInterruptedTeardown adapter) (fun r l' x' => Ended r l' x'.2) l x := by
  have hi : Intact l x.2 := h.elim (fun hf => .of_unreported hf.2) And.right
  refine (wp_bind _ _).2 (wp_mono (hi.discardQuietly.and (discardQuietly_yields l x)) ?_)
  rintro r l₁ x₁ ⟨⟨d, rfl, ha, hlast⟩, d', -, -, hnew⟩
  have hs₁ := settled_of_account ha
  refine (wp_bind _ _).2 ((wp_get _).2 ((wp_bind _ _).2 ((wp_get _).2 ?_)))
  rcases h with ⟨hr, hx⟩ | ⟨hr, -⟩
  · have hr₁ : l₁.reported = false := (reported_of_settled hs₁).trans hr
    have hfresh : Fresh l₁ x₁.2 := by
      refine ⟨hr₁, fun y hy => ?_⟩
      obtain hy | ⟨hv, -, -⟩ := hnew y hy
      · exact hx y hy
      · exact (reported_of_settled (settled_of_account hv)).trans hr
    rw [hr₁]
    refine hfresh.fail _ _ _ fun l₂ x₂ hi₂ hr₂ _ _ _ => (wp_bind _ _).2 ?_
    refine Intact.noteDiscarded _ d fun l₃ hs₃ hd₃ _ => .finish ?_ ((reported_of_settled hs₃).trans hr₂)
    exact hi₂.add hs₃ (fun hc => hd₃ (.inr hc)) fun y hy => .inl hy
  · have hr₁ : l₁.reported = true := (reported_of_settled hs₁).trans hr
    refine (wp_bind _ _).2 ((wp_onlyIf _ _).2 ?_)
    rw [hr₁, Bool.not_true, if_neg Bool.false_ne_true]
    refine (wp_bind _ _).2 ?_
    refine Intact.noteDiscarded _ d fun l₂ hs₂ hd₂ _ => .finish ?_ ((reported_of_settled hs₂).trans hr₁)
    exact hlast l₂ (hs₂.trans hs₁) fun hd => hd₂ (hd.imp_right fun hc => (discarded_of_account ha).trans hc)

theorem settling_ends {m : Run Report} (hm : Yields input.adapter m (fun r l' x' => Ended r l' x'.2) l x) :
    Yields input.adapter (settling input m) (fun r l' x' => Ended r l' x'.2) l x := by
  refine (wp_tryCatch _ _).2 (wp_mono hm ?_)
  rintro r l' x' ⟨rfl | rfl, hr, hi⟩
  · exact .finish hi hr
  · exact settleInterruptedTeardown_ends (.inr ⟨hr, hi⟩)

theorem conclude_ends {r : Except Exc Unit} (h : Fresh l x.2) (ht : Told r l.latch)
    (he : l.report.exitCode ≠ .unknownOutcome) :
    Yields input.adapter (conclude input r) (fun r l' x' => Ended r l' x'.2) l x := by
  cases r with
  | error e => exact terminate_ends e h
  | ok u =>
      have ho : l.latch.state = .open := ht.isOpen
      refine (wp_bind _ _).2 ((wp_modify _).2 ((wp_bind _ _).2 ?_))
      have hi : Intact { l with reported := true } x.2 := .of_unreported h.2
      refine wp_mono (hi.closeQuietly he (by rw [known, ho]; decide)) ?_
      rintro r l' x' ⟨rfl, hs, hi'⟩
      have hr' : l'.reported = true := reported_of_settled hs
      refine (wp_bind _ _).2 (log_yields fun r s o hr => ?_)
      rcases hr with rfl | rfl
      · exact .finish hi'.log hr'
      · exact ⟨.inr rfl, hr', hi'.log⟩

theorem run_ends (s : Session) :
    Yields input.adapter (Engine.run input) (fun r l' x' => Ended r l' x'.2) {} (s, []) := by
  refine wp_run.2 (log_yields fun r s₁ o hr => ?_)
  have hfresh : Fresh {} [⟨⟨.log "run_start", {}⟩, s, o⟩] := by
    refine ⟨rfl, fun y hy => ?_⟩
    rw [List.mem_singleton.1 hy]
  rcases hr with rfl | rfl
  · have htold := Safe.yields ((Safe.migrate (fun _ => trivial) {} RunLatch.fresh (Later.refl _) rfl :
      Safe input.adapter (fun _ => True) (migrate input) _ _ _)) (s₁, [⟨⟨.log "run_start", {}⟩, s, o⟩])
    refine wp_mono ((Shows.yields (Shows.migrate input) _ _).and htold) ?_
    rintro r l x ⟨⟨hv, hx⟩, ⟨c, -, ht, -⟩, -⟩
    have he : l.report.exitCode = .ok := congrArg (fun v => v.2.1) hv
    refine settling_ends (conclude_ends ⟨congrArg Prod.fst hv, fun y hy => ?_⟩ ht (by rw [he]; decide))
    obtain hy | hy := hx y hy
    · exact hfresh.2 y hy
    · exact congrArg Prod.fst hy
  · exact settleInterruptedTeardown_ends (.inl hfresh)

/-- However the steps of the teardown go, the recorded outcome is the one the run
and the command end with, an unknown one is not followed by a close, and the
drop of a connection is told. -/
theorem teardown_keeps_outcome (input : Input) (os : Nat → Outcome) (s : Session) (root : String) (cut : Nat → Bool) :
    let run := whole (serve input.adapter) (Engine.run input {}) os s
    let r := run.2.1.1
    let l := run.2.1.2
    l.reported = true ∧
    (r = .ok l.report ∨ r = .error .interrupt) ∧
    (whole serveCli (main root r { engine := l }) cut ()).2.1.1 = .ok l.report.exitCode ∧
    ∀ y ∈ run.1,
      (y.request.state.reported = true →
        y.request.state.report.exitCode = l.report.exitCode ∧
        y.request.state.report.message = l.report.message ∧
        y.request.state.report.failedMigration = l.report.failedMigration ∧
        (y.request.op = .discardConnection → l.report.connectionDiscarded = true)) ∧
      (y.request.state.latch.state = .unknownOutcome ∨
          y.request.state.reported = true ∧ y.request.state.report.exitCode = .unknownOutcome →
        ¬ Closes y.request.op) := by
  intro run r l
  obtain ⟨n, hplay⟩ := @whole_eq_play _ _ _ _ _ (serve input.adapter) (Engine.run input {}) os s
  have htrace : trace (serve input.adapter) ((List.range n).map os) (Engine.run input {}) s = run.1 :=
    congrArg Prod.fst hplay
  have hresult : result (serve input.adapter) ((List.range n).map os) (Engine.run input {}) s = some (r, l) := by
    rw [result, hplay]
  have hend : Ended r l run.1 := by
    have h := result_recorded (run_ends s) _ hresult
    rw [htrace] at h
    exact h
  have hmain : Ends (main root r) (fun r _ => r = .ok l.report.exitCode) { engine := l } :=
    main_ends r l hend.reported hend.returned
  have hcli : (whole serveCli (main root r { engine := l }) cut ()).2.1.1 = .ok l.report.exitCode :=
    (Lib.Interaction.whole_wp hmain fun _ _ _ => trivial).2
  refine ⟨hend.reported, hend.returned, hcli, fun y hy => ⟨fun hr => ?_, ?_⟩⟩
  · have hs := hend.intact.kept y hy hr
    exact ⟨congrArg (fun v => v.1.2.1) hs, congrArg (fun v => v.1.2.2.1) hs, congrArg (fun v => v.1.2.2.2) hs,
      fun hop => hend.intact.told y hy hop hr⟩
  · rintro (hl | ⟨hr, he⟩) hop
    · rw [← htrace] at hy
      obtain ⟨c, ho⟩ := LatchAuthority.run_orderly hy
      rcases ho.silent hl with ⟨hsub, hne⟩ | ⟨-, hs⟩
      · rcases hop with hop | hop
        · rw [hop] at hsub
          cases hsub
        · exact hne hop
      · rw [hs] at hop
        rcases hop with hop | hop <;> cases hop
    · exact hend.intact.unclosed y hy hop hr he

end Run

end Migr8.Ending
