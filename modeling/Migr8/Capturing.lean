import Migr8.Staging

namespace Migr8.Capturing

open Model Fingerprint Lib.Folders Staging

variable {tables : PathTables} {sha256 : Bytes → String} {tree : FileTree} {migrationId : String} {d : MigrationDef}
  {ds : List MigrationDef} {f source copy root : Directory} {current path : Path} {name : PyStr} {s : String}
  {l l' : List Found} {files : List UnitFile} {results : List Result} {gs : List (Path × Bytes)}

section Sequences

variable {α β ε : Type} {as bs : List α} {ys : List β}

theorem mapM_except {g : α → Except ε β} : as.mapM g = .ok ys ↔ List.Forall₂ (fun a y => g a = .ok y) as ys := by
  induction as generalizing ys with
  | nil => simp [pure, Except.pure, eq_comm]
  | cons a as ih =>
      rw [List.mapM_cons, List.forall₂_cons_left_iff]
      cases hg : g a with
      | error e => simp [bind, Except.bind]
      | ok y =>
          simp only [bind, Except.bind, Except.ok.injEq]
          cases hm : as.mapM g with
          | error e =>
              simp only [reduceCtorEq, false_iff, not_exists, not_and]
              intro b zs _ hf
              rw [ih.2 hf] at hm
              cases hm
          | ok zs =>
              simp only [pure, Except.pure, Except.ok.injEq]
              constructor
              · rintro rfl
                exact ⟨y, zs, rfl, ih.1 hm, rfl⟩
              · rintro ⟨y', zs', rfl, hf, rfl⟩
                rw [ih.2 hf] at hm
                cases hm
                rfl

theorem mapM_option {g : α → Option β} : as.mapM g = some ys ↔ List.Forall₂ (fun a y => g a = some y) as ys := by
  induction as generalizing ys with
  | nil => simp [eq_comm]
  | cons a as ih =>
      rw [List.mapM_cons, List.forall₂_cons_left_iff]
      simp only [Option.bind_eq_bind, Option.bind_eq_some_iff, ih, Option.pure_def, Option.some.injEq]
      constructor
      · rintro ⟨y, hy, zs, hf, rfl⟩
        exact ⟨y, zs, hy, hf, rfl⟩
      · rintro ⟨y, zs, hy, hf, rfl⟩
        exact ⟨y, hy, zs, hf, rfl⟩

theorem forall₂_perm {R : α → β → Prop} (h : List.Forall₂ R as ys) (hp : bs.Perm as) :
    ∃ zs, List.Forall₂ R bs zs ∧ zs.Perm ys :=
  List.perm_comp_forall₂ hp h

end Sequences

section Names

theorem scalar_codes {p : PyStr} (h : scalar p = some s) : codes s = p := by
  obtain ⟨cs, hcs, rfl⟩ := Option.map_eq_some_iff.1 h
  have hf := mapM_option.1 hcs
  clear h hcs
  rw [codes, String.toList_ofList]
  induction hf with
  | nil => rfl
  | @cons n c ns cs hn _ ih =>
      split at hn
      · next hv =>
          cases hn
          rw [List.map_cons, ih]
          congr 1
          rw [Char.ofNat, dif_pos hv]
          rfl
      · cases hn

/-- A path of proper names is found again in its text. -/
theorem components_relText (hne : path ≠ []) (hp : ∀ name ∈ path, ProperName name)
    (h : scalar (relText path) = some s) :
    components s = path := by
  unfold components
  rw [scalar_codes h, relText, List.splitOn_intercalate 47 (fun name hn => (hp name hn).2.1) hne, List.filter_eq_self]
  intro name hn
  simp [(hp name hn).1, (hp name hn).2.2.1]

theorem encodable_components {g : Path × Bytes} {y : UnitFile} (hne : g.1 ≠ []) (hp : ∀ name ∈ g.1, ProperName name)
    (h : encodable (relText g.1, g.2) = some y) : (components y.1, y.2) = g := by
  obtain ⟨s, hs, rfl⟩ := Option.map_eq_some_iff.1 h
  exact Prod.ext (components_relText hne hp hs) rfl

theorem stagedDirName_injective {d' : MigrationDef} (h : stagedDirName d = stagedDirName d') :
    d.position = d'.position := by
  unfold stagedDirName at h
  have hdigits := List.reverse_injective (List.map_injective_iff.2 (add_right_injective 48) h)
  have hvalue := congrArg (Nat.ofDigits 10) hdigits
  simpa [Nat.ofDigits_append_replicate_zero, Nat.ofDigits_digits] using hvalue

end Names

section Scan

theorem inOrder_ok (h : inOrder results = .ok l) :
    ∃ ls, List.Forall₂ (fun r x => r.2 = .ok x) results ls ∧ l.Perm ls.flatten := by
  unfold inOrder at h
  cases hm : (results.insertionSort nameLe).mapM fun r : Result => r.2 with
  | error e =>
      rw [hm] at h
      cases h
  | ok ls =>
      rw [hm] at h
      cases h
      obtain ⟨zs, hf, hp⟩ := forall₂_perm (mapM_except.1 hm) (List.perm_insertionSort nameLe results).symm
      exact ⟨zs, hf, hp.symm.flatten⟩

theorem inOrder_of {ls : List (List Found)} (h : List.Forall₂ (fun r x => r.2 = .ok x) results ls) :
    ∃ l, inOrder results = .ok l ∧ l.Perm ls.flatten := by
  obtain ⟨zs, hf, hp⟩ := forall₂_perm h (List.perm_insertionSort nameLe results)
  unfold inOrder
  rw [mapM_except.2 hf]
  exact ⟨zs.flatten, rfl, hp.flatten⟩

def foundIn (current : Path) (f : Directory) : List Found := f.files.map fun g => (relText (current ++ g.1), g.2)

theorem foundIn_leaf {what : Leaf Bytes} {rest : Directory} :
    foundIn current (.leaf name what rest) = found (current ++ [name]) what ++ foundIn current rest := by
  cases what <;> rfl

theorem foundIn_dir {inner rest : Directory} :
    foundIn current (.dir name inner rest) = foundIn (current ++ [name]) inner ++ foundIn current rest := by
  have hfiles : (Folder.dir name inner rest).files = inner.files.map (fun g => (name :: g.1, g.2)) ++ rest.files := by
    simp only [Folder.files, Folder.places, List.cons_append, List.filterMap_cons, Folder.fileAt,
      List.filterMap_append, List.filterMap_map, List.map_filterMap]
    congr 2
    funext x
    obtain ⟨p, _ | what⟩ := x
    · rfl
    · cases what <;> rfl
  simp [foundIn, hfiles]

variable (tables migrationId)

def Admitted (current : Path) (f : Directory) : Prop :=
  ∀ x ∈ f.places, admitEntry tables migrationId (current ++ x.1) x.2 = .ok ()

variable {tables migrationId}

theorem admitted_dir {inner rest : Directory} : Admitted tables migrationId current (.dir name inner rest) ↔
    admitEntry tables migrationId (current ++ [name]) none = .ok () ∧
      Admitted tables migrationId (current ++ [name]) inner ∧ Admitted tables migrationId current rest := by
  constructor
  · intro h
    refine ⟨h _ (mem_dir.2 (.inl rfl)), fun x hx => ?_, fun x hx => h x (mem_dir.2 (.inr (.inr hx)))⟩
    rw [List.append_assoc]
    exact h (name :: x.1, x.2) (mem_dir.2 (.inr (.inl ⟨x, hx, rfl⟩)))
  · rintro ⟨hhere, hinner, hrest⟩ x hx
    obtain rfl | ⟨y, hy, rfl⟩ | hx := mem_dir.1 hx
    · exact hhere
    · have hpass := hinner y hy
      rwa [List.append_assoc] at hpass
    · exact hrest x hx

theorem admitted_leaf {what : Leaf Bytes} {rest : Directory} :
    Admitted tables migrationId current (.leaf name what rest) ↔
    admitEntry tables migrationId (current ++ [name]) (some what) = .ok () ∧
    Admitted tables migrationId current rest := by
  constructor
  · exact fun h => ⟨h _ (mem_leaf.2 (.inl rfl)), fun x hx => h x (mem_leaf.2 (.inr hx))⟩
  · rintro ⟨hhere, hrest⟩ x hx
    obtain rfl | hx := mem_leaf.1 hx
    · exact hhere
    · exact hrest x hx

/-- A directory whose entries pass is scanned, and its files come out. -/
theorem scanEach_of (h : Admitted tables migrationId current f) :
    ∃ ls, List.Forall₂ (fun r x => r.2 = .ok x) (scanEach tables migrationId current f) ls ∧
      ls.flatten.Perm (foundIn current f) := by
  induction f generalizing current with
  | empty => exact ⟨[], .nil, .refl _⟩
  | leaf name what rest ih =>
      obtain ⟨hhere, hrest⟩ := admitted_leaf.1 h
      obtain ⟨ls, hf, hp⟩ := ih hrest
      refine ⟨found (current ++ [name]) what :: ls, .cons ?_ hf, ?_⟩
      · simp only [hhere]
        rfl
      · rw [foundIn_leaf, List.flatten_cons]
        exact hp.append_left _
  | dir name inner rest ihi ih =>
      obtain ⟨hhere, hinner, hrest⟩ := admitted_dir.1 h
      obtain ⟨ls, hf, hp⟩ := ih hrest
      obtain ⟨ls', hf', hp'⟩ := ihi hinner
      obtain ⟨l, hl, hlp⟩ := inOrder_of hf'
      refine ⟨l :: ls, .cons ?_ hf, ?_⟩
      · simp only [hhere]
        exact hl
      · rw [foundIn_dir, List.flatten_cons]
        exact (hlp.trans hp').append hp

theorem scanEach_admits {ls : List (List Found)}
    (h : List.Forall₂ (fun r x => r.2 = .ok x) (scanEach tables migrationId current f) ls) :
    Admitted tables migrationId current f := by
  induction f generalizing current ls with
  | empty => simp [Admitted, Folder.places]
  | leaf name what rest ih =>
      obtain ⟨x, xs, hx, hrest, rfl⟩ := List.forall₂_cons_left_iff.1 h
      refine admitted_leaf.2 ⟨?_, ih hrest⟩
      cases ha : admitEntry tables migrationId (current ++ [name]) (some what) with
      | error e => simp [ha, Except.map] at hx
      | ok v => rfl
  | dir name inner rest ihi ih =>
      obtain ⟨x, xs, hx, hrest, rfl⟩ := List.forall₂_cons_left_iff.1 h
      cases ha : admitEntry tables migrationId (current ++ [name]) none with
      | error e => simp [ha, bind, Except.bind] at hx
      | ok v =>
          simp only [ha, bind, Except.bind] at hx
          obtain ⟨ls, hf, -⟩ := inOrder_ok hx
          exact admitted_dir.2 ⟨ha, ihi hf, ih hrest⟩

theorem scanDir_of (h : Admitted tables migrationId [] f) :
    ∃ l, scanDir tables migrationId f = .ok l ∧ l.Perm (foundIn [] f) := by
  obtain ⟨ls, hf, hp⟩ := scanEach_of h
  obtain ⟨l, hl, hlp⟩ := inOrder_of hf
  exact ⟨l, hl, hlp.trans hp⟩

theorem scanDir_ok (h : scanDir tables migrationId f = .ok l) :
    Admitted tables migrationId [] f ∧ l.Perm (foundIn [] f) := by
  obtain ⟨ls, hf, -⟩ := inOrder_ok h
  have ha := scanEach_admits hf
  obtain ⟨l', hl, hp⟩ := scanDir_of ha
  rw [h] at hl
  cases hl
  exact ⟨ha, hp⟩

end Scan

section Listing

/-- The places of a unit are named as a file system names them. -/
def Proper (f : Directory) : Prop := ∀ x ∈ f.places, ∀ name ∈ x.1, ProperName name

theorem relText_injective {p q : Path} (hp : p ≠ [] ∧ ∀ name ∈ p, ProperName name)
    (hq : q ≠ [] ∧ ∀ name ∈ q, ProperName name) (h : relText p = relText q) : p = q := by
  have hsplit := congrArg (List.splitOn 47) h
  unfold relText at hsplit
  rwa [List.splitOn_intercalate 47 (fun name hn => (hp.2 name hn).2.1) hp.1,
    List.splitOn_intercalate 47 (fun name hn => (hq.2 name hn).2.1) hq.1] at hsplit

theorem file_proper (h : Proper f) {g : Path × Bytes} (hg : g ∈ f.files) :
    g.1 ≠ [] ∧ ∀ name ∈ g.1, ProperName name := by
  have hx := mem_files.1 hg
  obtain ⟨name, path, hp, -⟩ := head_mem hx
  exact ⟨by simp at hp; simp [hp], h _ hx⟩

theorem foundIn_nodup (hd : f.Distinct) (h : Proper f) : ((foundIn [] f).map (·.1)).Nodup := by
  have hmap : (foundIn [] f).map (·.1) = (f.files.map (·.1)).map relText := by simp [foundIn]
  rw [hmap]
  refine (files_nodup hd).map_on fun p hp q hq hpq => ?_
  obtain ⟨g, hg, rfl⟩ := List.mem_map.1 hp
  obtain ⟨g', hg', rfl⟩ := List.mem_map.1 hq
  exact relText_injective (file_proper h hg) (file_proper h hg') hpq

theorem encoded_paths (h : List.Forall₂ (fun x y => encodable x = some y) l files) :
    l.map (·.1) = (files.map (·.1)).map codes := by
  induction h with
  | nil => rfl
  | @cons x y l files hxy _ ih =>
      obtain ⟨s, hs, rfl⟩ := Option.map_eq_some_iff.1 hxy
      simp only [List.map_cons, scalar_codes hs, ih]

theorem sortFiles_congr (hnd : (l.map (·.1)).Nodup) (h : l.Perm l') : sortFiles l = sortFiles l' := by
  unfold sortFiles
  cases hm : l.mapM encodable with
  | some ys =>
      have hys := mapM_option.1 hm
      obtain ⟨zs, hf, hp⟩ := forall₂_perm hys h.symm
      have hnodup : (ys.map (·.1)).Nodup := by
        rw [encoded_paths hys] at hnd
        exact hnd.of_map
      rw [mapM_option.2 hf]
      exact congrArg Except.ok (sorted_files hnodup hp.symm)
  | none =>
      cases hm' : l'.mapM encodable with
      | none => rfl
      | some ys =>
          obtain ⟨zs, hf, -⟩ := forall₂_perm (mapM_option.1 hm') h
          rw [mapM_option.2 hf] at hm
          cases hm

theorem sortFiles_components (hpr : Proper f) (hl : l.Perm (foundIn [] f)) (h : sortFiles l = .ok files) :
    (files.map fun y => (components y.1, y.2)).Perm f.files := by
  unfold sortFiles at h
  cases hm : l.mapM encodable with
  | none => simp [hm] at h
  | some ys =>
      simp only [hm, Except.ok.injEq] at h
      subst h
      obtain ⟨zs, hf, hp⟩ := forall₂_perm (mapM_option.1 hm) hl.symm
      have hzs : zs.map (fun y => (components y.1, y.2)) = f.files := by
        have hproper (g) (hg : g ∈ f.files) := file_proper hpr hg
        rw [foundIn, List.forall₂_map_left_iff] at hf
        clear hp
        generalize f.files = gs at hf hproper
        induction hf with
        | nil => rfl
        | @cons g y gs zs hgy _ ih =>
            obtain ⟨hne, hnames⟩ := hproper g List.mem_cons_self
            rw [List.map_cons, ih (fun g hg => hproper g (List.mem_cons_of_mem _ hg)),
              encodable_components hne hnames hgy]
      rw [← hzs]
      exact ((List.perm_insertionSort pathLe ys).trans hp.symm).map _

end Listing

section Units

theorem scanUnit_ok (h : scanUnit tables migrationId path (some f) = .ok files) :
    ∃ l, scanDir tables migrationId f = .ok l ∧ l ≠ [] ∧ sortFiles l = .ok files ∧
      checkNoCaseCollisions tables [] (files.map (·.1)) = .ok () := by
  unfold scanUnit at h
  cases hs : scanDir tables migrationId f with
  | error e => simp [hs, bind, Except.bind] at h
  | ok l =>
      simp only [hs, bind, Except.bind] at h
      split at h
      · cases h
      · next hne =>
          cases hsort : sortFiles l with
          | error e => simp [hsort] at h
          | ok ys =>
              cases hcheck : checkNoCaseCollisions tables [] (ys.map (·.1)) with
              | error e => simp [hsort, hcheck] at h
              | ok v =>
                  simp only [hsort, hcheck, pure, Except.pure, Except.ok.injEq] at h
                  subst h
                  exact ⟨l, rfl, hne, hsort, hcheck⟩

theorem scanUnit_of (hs : scanDir tables migrationId f = .ok l) (hne : l ≠ []) (hsort : sortFiles l = .ok files)
    (hcheck : checkNoCaseCollisions tables [] (files.map (·.1)) = .ok ()) :
    scanUnit tables migrationId path (some f) = .ok files := by
  unfold scanUnit
  simp [hs, hne, hsort, hcheck, bind, Except.bind, pure, Except.pure]

/-- What is staged of a unit: its files, byte for byte, and nothing else but the
directories on the way to them. Scanned again, it gives the same list. -/
structure Copied (tables : PathTables) (d : MigrationDef) (source copy : Directory) (files : List UnitFile) : Prop where
  scanned : scanUnit tables d.id d.unitDir (some source) = .ok files
  again : ∀ path, scanUnit tables d.id path (some copy) = .ok files
  same : copy.files.Perm source.files
  listed : (files.map fun y => (components y.1, y.2)).Perm copy.files
  plain : ∀ x ∈ copy.places, x.2 = none ∨ ∃ data, x.2 = some (.file data)

theorem copied_of (hd : source.Distinct) (hpr : Proper source)
    (h : scanUnit tables d.id d.unitDir (some source) = .ok files) :
    ∃ copy, Folder.empty.writeAll (files.map fun y => (components y.1, y.2)) = some copy ∧
      Copied tables d source copy files := by
  obtain ⟨l, hscan, hne, hsort, hcheck⟩ := scanUnit_ok h
  obtain ⟨hadmitted, hl⟩ := scanDir_ok hscan
  have hlisted := sortFiles_components hpr hl hsort
  obtain ⟨copy, hcopy, hmade⟩ := copied hd hlisted
  have hsubset : ∀ x ∈ copy.places, x ∈ source.places :=
    hmade.subset fun g hg => hlisted.subset (List.mem_reverse.1 hg)
  have hgs : (files.map fun y => (components y.1, y.2)).reverse.Nodup :=
    ((List.reverse_perm _).trans hlisted).nodup_iff.2 (files_nodup hd).of_map
  have hfiles : copy.files.Perm source.files :=
    (hmade.files_perm hgs).trans ((List.reverse_perm _).trans hlisted)
  obtain ⟨l', hscan', hl'⟩ := scanDir_of (f := copy) fun x hx => hadmitted x (hsubset x hx)
  have hperm : l'.Perm l := hl'.trans ((hfiles.map _).trans hl.symm)
  have hnd : (l'.map (·.1)).Nodup := ((hperm.trans hl).map _).nodup_iff.2 (foundIn_nodup hd hpr)
  refine ⟨copy, hcopy, h, fun path => ?_, hfiles, hlisted.trans hfiles.symm, fun x hx => ?_⟩
  · refine scanUnit_of hscan' (fun hnil => hne ?_) (by rw [sortFiles_congr hnd hperm]; exact hsort) hcheck
    rw [hnil] at hperm
    exact List.nil_perm.1 hperm
  · obtain ⟨g, -, rfl⟩ | ⟨hnone, -⟩ := (hmade.places x).1 hx
    · exact .inr ⟨g.2, rfl⟩
    · exact .inl hnone

theorem sub_places {t u : Directory} (h : t.sub name = some u) {x : Place PyStr Bytes} (hx : x ∈ u.places) :
    (name :: x.1, x.2) ∈ t.places := by
  induction t with
  | empty => cases h
  | leaf m what rest ih => exact mem_leaf.2 (.inr (ih h))
  | dir m inner rest _ ih =>
      rw [Folder.sub] at h
      split at h
      · next hm =>
          cases h
          exact mem_dir.2 (.inr (.inl ⟨x, hx, by rw [hm]⟩))
      · exact mem_dir.2 (.inr (.inr (ih h)))

theorem sub_distinct {t u : Directory} (h : t.sub name = some u) (ht : t.Distinct) : u.Distinct := by
  induction t with
  | empty => cases h
  | leaf m what rest ih => exact ih h ht.2
  | dir m inner rest _ ih =>
      rw [Folder.sub] at h
      split at h
      · cases h
        exact ht.2.1
      · exact ih h ht.2.2

theorem descend_inherits {t u : Directory} (ht : t.Distinct) (hpr : Proper t) (h : t.descend path = some u) :
    u.Distinct ∧ Proper u := by
  induction path generalizing t with
  | nil =>
      cases h
      exact ⟨ht, hpr⟩
  | cons name path ih =>
      obtain ⟨s, hs, h⟩ := Option.bind_eq_some_iff.1 h
      refine ih (sub_distinct hs ht) (fun x hx n hn => ?_) h
      exact hpr _ (sub_places hs hx) n (List.mem_cons_of_mem _ hn)

theorem unitOf_inherits (h : unitOf tree d = some source) : source.Distinct ∧ Proper source :=
  descend_inherits tree.distinct tree.proper h

theorem fingerprintUnit_congr {path path' : Path} {content content' : Option Directory}
    (h : scanUnit tables d.id path content = scanUnit tables d.id path' content') :
    fingerprintUnit tables sha256 d path content = fingerprintUnit tables sha256 d path' content' := by
  unfold fingerprintUnit
  rw [h]

theorem fingerprintUnit_error {e : Refusal} {content : Option Directory}
    (h : scanUnit tables d.id path content = .error e) :
    fingerprintUnit tables sha256 d path content = .error e := by
  unfold fingerprintUnit
  rw [h]
  rfl

end Units

section Captures

/-- The staging directory holds the copies of these units. -/
def HoldsCopies (tables : PathTables) (tree : FileTree) (root : Directory) (ds : List MigrationDef) : Prop :=
  ∀ d ∈ ds, ∃ source copy files, unitOf tree d = some source ∧ root.sub (stagedDirName d) = some copy ∧
    Copied tables d source copy files

theorem copyUnit_error {e : Refusal} (h : scanUnit tables d.id d.unitDir (unitOf tree d) = .error e) :
    copyUnit tables tree d root = .error e := by
  unfold copyUnit
  rw [h]
  rfl

theorem copyUnit_ok (h : scanUnit tables d.id d.unitDir (unitOf tree d) = .ok files)
    (hname : stagedDirName d ∉ root.names) : ∃ source copy, unitOf tree d = some source ∧
      copyUnit tables tree d root = .ok (.dir (stagedDirName d) copy root) ∧ Copied tables d source copy files := by
  cases hs : unitOf tree d with
  | none =>
      rw [hs] at h
      cases h
  | some source =>
      rw [hs] at h
      obtain ⟨hd, hpr⟩ := unitOf_inherits hs
      obtain ⟨copy, hcopy, hcopied⟩ := copied_of hd hpr h
      refine ⟨source, copy, rfl, ?_, hcopied⟩
      unfold copyUnit
      simp [hs, h, hname, hcopy, bind, Except.bind]

/-- One unit: it is captured as in its place, and its copy stays. -/
theorem stageFrom_cons (sha256 : Bytes → String) (ds : List MigrationDef) (staging : Path)
    (hname : stagedDirName d ∉ root.names) :
    (∃ e, fingerprintUnit tables sha256 d d.unitDir (unitOf tree d) = .error e ∧
      stageFrom tables sha256 tree staging root (d :: ds) = .error e) ∨
    ∃ source copy files r, unitOf tree d = some source ∧ Copied tables d source copy files ∧
      fingerprintUnit tables sha256 d d.unitDir (unitOf tree d) = .ok r ∧
      stageFrom tables sha256 tree staging root (d :: ds) =
        (stageFrom tables sha256 tree staging (.dir (stagedDirName d) copy root) ds).map
          fun x => (capturedUnit d r :: x.1, x.2) := by
  cases hs : scanUnit tables d.id d.unitDir (unitOf tree d) with
  | error e =>
      refine .inl ⟨e, fingerprintUnit_error hs, ?_⟩
      unfold stageFrom
      rw [copyUnit_error hs]
      rfl
  | ok files =>
      obtain ⟨source, copy, hsource, hcopy, hcopied⟩ := copyUnit_ok hs hname
      have hsub : (Folder.dir (stagedDirName d) copy root).sub (stagedDirName d) = some copy := if_pos rfl
      have hsame : fingerprintUnit tables sha256 d (staging ++ [stagedDirName d]) (some copy) =
          fingerprintUnit tables sha256 d d.unitDir (unitOf tree d) :=
        fingerprintUnit_congr (by rw [hs, hcopied.again])
      simp only [stageFrom, hcopy, hsub, bind, Except.bind, hsame]
      cases hr : fingerprintUnit tables sha256 d d.unitDir (unitOf tree d) with
      | error e => exact .inl ⟨e, rfl, rfl⟩
      | ok r =>
          refine .inr ⟨source, copy, files, r, hsource, hcopied, rfl, ?_⟩
          cases stageFrom tables sha256 tree staging (.dir (stagedDirName d) copy root) ds <;> rfl

def Free (root : Directory) (ds : List MigrationDef) : Prop :=
  (ds.map (·.position)).Nodup ∧ ∀ d ∈ ds, stagedDirName d ∉ root.names

theorem Free.cons (h : Free root (d :: ds)) (copy : Directory) : Free (.dir (stagedDirName d) copy root) ds := by
  obtain ⟨hnd, hfree⟩ := h
  rw [List.map_cons, List.nodup_cons] at hnd
  refine ⟨hnd.2, fun d' hd' hm => ?_⟩
  obtain hm | hm := List.mem_cons.1 hm
  · exact hnd.1 (List.mem_map.2 ⟨d', hd', stagedDirName_injective hm⟩)
  · exact hfree d' (List.mem_cons_of_mem _ hd') hm

theorem stageFrom_agrees (staging : Path) (h : Free root ds) :
    (stageFrom tables sha256 tree staging root ds).map (·.1) =
      ds.mapM fun d => (fingerprintUnit tables sha256 d d.unitDir (unitOf tree d)).map (capturedUnit d) := by
  induction ds generalizing root with
  | nil => rfl
  | cons d ds ih =>
      rw [List.mapM_cons]
      obtain ⟨e, hplace, hstage⟩ | ⟨source, copy, files, r, -, -, hplace, hstage⟩ :=
        stageFrom_cons sha256 ds staging (h.2 d List.mem_cons_self)
      · rw [hplace, hstage]
        rfl
      · rw [hplace, hstage, ← ih (h.cons copy)]
        cases stageFrom tables sha256 tree staging (.dir (stagedDirName d) copy root) ds <;> rfl

/-- Later units leave the copies of the earlier ones as they are. -/
theorem stageFrom_holds (staging : Path) (h : Free root ds) {units : List CapturedUnit} {root' : Directory}
    (hstage : stageFrom tables sha256 tree staging root ds = .ok (units, root')) :
    HoldsCopies tables tree root' ds ∧ ∀ name ∈ root.names, root'.sub name = root.sub name := by
  induction ds generalizing root units with
  | nil =>
      cases hstage
      exact ⟨by simp [HoldsCopies], fun _ _ => rfl⟩
  | cons d ds ih =>
      obtain ⟨e, -, he⟩ | ⟨source, copy, files, r, hsource, hcopied, -, hok⟩ :=
        stageFrom_cons sha256 ds staging (h.2 d List.mem_cons_self)
      · rw [he] at hstage
        cases hstage
      · rw [hok] at hstage
        cases hrest : stageFrom tables sha256 tree staging (.dir (stagedDirName d) copy root) ds with
        | error e => simp [hrest, Except.map] at hstage
        | ok x =>
            obtain ⟨units', root''⟩ := x
            simp only [hrest, Except.map, Except.ok.injEq, Prod.mk.injEq] at hstage
            obtain ⟨-, rfl⟩ := hstage
            obtain ⟨hcopies, hkept⟩ := ih (h.cons copy) hrest
            refine ⟨fun d' hd' => ?_, fun name hname => ?_⟩
            · obtain rfl | hd' := List.mem_cons.1 hd'
              · exact ⟨source, copy, files, hsource, by rw [hkept _ List.mem_cons_self]; exact if_pos rfl, hcopied⟩
              · exact hcopies d' hd'
            · rw [hkept name (List.mem_cons_of_mem _ hname), Folder.sub, if_neg]
              rintro rfl
              exact h.2 d List.mem_cons_self hname

end Captures

/-- What a run stages is what the other commands judge in place. -/
theorem stage_agrees (tables : PathTables) (sha256 : Bytes → String) (tree : FileTree) (staging : Path) (m : Manifest) :
    (stage tables sha256 tree staging m).map (·.1) = captureInPlace tables sha256 tree m ∧
      ∀ units root, stage tables sha256 tree staging m = .ok (units, root) →
        HoldsCopies tables tree root m.migrations := by
  have hfree : Free .empty m.migrations := by
    refine ⟨?_, by simp [Folder.names]⟩
    rw [m.positions]
    exact List.nodup_range'
  exact ⟨stageFrom_agrees staging hfree, fun units root h => (stageFrom_holds staging hfree h).1⟩

section Example

def plainUnit : Directory :=
  .leaf (codes "b.sql") (.file [1]) (.dir (codes "a") (.leaf (codes "z") (.file [2]) .empty)
    (.dir (codes "e") .empty .empty))

def plainTree : FileTree where
  root := .dir (codes "u") plainUnit .empty
  distinct := by simp [plainUnit, Folder.Distinct, Folder.names, codes]
  proper := by
    simp only [ProperName]
    decide

def plainManifest : Manifest where
  migrations := [⟨1, "m", .sql, .atomic, "b.sql", [], [codes "u"]⟩]
  positions := rfl
  distinct := by decide

def plainTables : PathTables := ⟨id, codes⟩

def plainDigest (_ : Bytes) : String := "0"

def plainCapture : CapturedUnit :=
  ⟨"m", 1, .sql, .atomic, "b.sql", [], "fp1:0", ["a/z", "b.sql"]⟩

def plainStage : Directory :=
  .dir (codes "00001")
  (.dir (codes "a") (.leaf (codes "z") (.file [2]) .empty) (.leaf (codes "b.sql") (.file [1]) .empty))
    .empty

theorem stage_agrees_plain :
    captureInPlace plainTables plainDigest plainTree plainManifest = .ok [plainCapture] ∧
      HoldsCopies plainTables plainTree plainStage plainManifest.migrations := by
  obtain ⟨hsame, hcopies⟩ := stage_agrees plainTables plainDigest plainTree [codes "tmp"] plainManifest
  have hstage : stage plainTables plainDigest plainTree [codes "tmp"] plainManifest =
      .ok ([plainCapture], plainStage) := by
    decide +kernel
  rw [hstage] at hsame
  exact ⟨hsame.symm, hcopies _ _ hstage⟩

end Example

end Migr8.Capturing
