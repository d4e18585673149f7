import Migr8.Capturing
import Migr8.Lib.FoldedNames

namespace Migr8.Collisions

open Model Fingerprint Lib.Folders Lib.FoldedNames Staging Capturing

/-- `str.casefold` folds each code point for itself. -/
structure CaseFolding where
  fold : Nat → PyStr
  slash : fold 47 = [47]
  proper : ∀ c, c ≠ 47 → 47 ∉ fold c

def CaseFolding.casefold (folding : CaseFolding) (p : PyStr) : PyStr := p.flatMap folding.fold

section Unit

variable (nfc : PyStr → PyStr) (folding : CaseFolding) (sha256 : Bytes → String) (d : MigrationDef)
  (source : Directory) (files : List UnitFile)

def tablesOf : PathTables := ⟨nfc, fun s => folding.casefold (codes s)⟩

def PathPrefix (p : Path) : Prop := p ≠ [] ∧ ∃ f ∈ files, p <+: components f.1

def NoCollisions : Prop :=
  ∀ p q, PathPrefix files p → PathPrefix files q → folding.casefold (relText p) = folding.casefold (relText q) → p = q

/-- The unit as it is written on a file system that takes names that fold alike for one. -/
def copyFolded : Option Directory :=
  writeAll folding.casefold .empty (files.map fun f => (components f.1, f.2))

/-- Its copy there, scanned again, gives the same paths and the same fingerprint. -/
def CopiesBack : Prop :=
  ∃ copy, copyFolded folding files = some copy ∧ ∀ path,
    (scanUnit (tablesOf nfc folding) d.id path (some copy)).map (List.map (·.1)) = .ok (files.map (·.1)) ∧
    fingerprintUnit (tablesOf nfc folding) sha256 d path (some copy) =
      fingerprintUnit (tablesOf nfc folding) sha256 d d.unitDir (some source)

/-- In one directory of the tree, a directory with a file in it, and a file or another
such directory whose name folds alike. -/
def Twins : Prop :=
  ∃ parent a b, a ≠ b ∧ folding.casefold a = folding.casefold b ∧
    (∃ f ∈ source.files, Above (parent ++ [a]) f.1) ∧ ∃ f ∈ source.files, parent ++ [b] <+: f.1

end Unit

variable {nfc : PyStr → PyStr} {folding : CaseFolding} {sha256 : Bytes → String} {d : MigrationDef}
  {source : Directory} {files : List UnitFile} {p q : Path} {seen : List (PyStr × String)} {rels : List String}

section Folded

theorem casefold_relText (p : Path) : folding.casefold (relText p) = relText (p.map folding.casefold) := by
  induction p with
  | nil => rfl
  | cons name p ih =>
      cases p with
      | nil => simp [relText]
      | cons next p =>
          have hcons (x y : PyStr) (l : Path) : relText (x :: y :: l) = x ++ (47 :: relText (y :: l)) := by
            simp [relText, List.intercalate_cons_cons]
          rw [List.map_cons] at ih
          rw [List.map_cons, List.map_cons, hcons, hcons, ← ih]
          simp [CaseFolding.casefold, folding.slash]

theorem slash_casefold {name : PyStr} (h : 47 ∉ name) : 47 ∉ folding.casefold name := by
  intro hm
  obtain ⟨c, hc, hin⟩ := List.mem_flatMap.1 hm
  exact folding.proper c (fun he => h (he ▸ hc)) hin

/-- Paths fold alike just when their components do, one by one. -/
theorem casefold_path (hp : p ≠ [] ∧ ∀ name ∈ p, ProperName name) (hq : q ≠ [] ∧ ∀ name ∈ q, ProperName name) :
    folding.casefold (relText p) = folding.casefold (relText q) ↔ p.map folding.casefold = q.map folding.casefold := by
  have hparts {p : Path} (hp : p ≠ [] ∧ ∀ name ∈ p, ProperName name) :
      (relText (p.map folding.casefold)).splitOn 47 = p.map folding.casefold := by
    refine List.splitOn_intercalate 47 (fun name hn => ?_) (by simpa using hp.1)
    obtain ⟨n, hin, rfl⟩ := List.mem_map.1 hn
    exact slash_casefold (hp.2 n hin).2.1
  rw [casefold_relText, casefold_relText]
  constructor
  · intro h
    rw [← hparts hp, h, hparts hq]
  · exact congrArg relText

theorem differ {κ : Type} {key : PyStr → κ} (h : p.map key = q.map key) (hne : p ≠ q) :
    ∃ parent a b r s, p = parent ++ a :: r ∧ q = parent ++ b :: s ∧ a ≠ b ∧ key a = key b := by
  induction p generalizing q with
  | nil =>
      cases q with
      | nil => exact absurd rfl hne
      | cons b q => simp at h
  | cons a p ih =>
      cases q with
      | nil => simp at h
      | cons b q =>
          rw [List.map_cons, List.map_cons, List.cons.injEq] at h
          by_cases hab : a = b
          · obtain rfl := hab
            obtain ⟨parent, a', b', r, s, rfl, rfl, hne', hk⟩ := ih h.2 fun he => hne (by rw [he])
            exact ⟨a :: parent, a', b', r, s, rfl, rfl, hne', hk⟩
          · exact ⟨[], a, b, p, q, rfl, rfl, hab, h.1⟩

end Folded

section Check

theorem lookup_isSome {folded : PyStr} : (seen.lookup folded).isSome ↔ folded ∈ seen.map (·.1) := by
  induction seen with
  | nil => simp
  | cons x seen ih =>
      obtain ⟨k, other⟩ := x
      rw [List.lookup_cons, List.map_cons, List.mem_cons]
      by_cases hk : folded = k
      · simp [hk]
      · rw [beq_eq_false_iff_ne.2 hk]
        simp [ih, hk]

/-- The check passes just when no folded form comes twice. -/
theorem checkNoCaseCollisions_ok {tables : PathTables} : checkNoCaseCollisions tables seen rels = .ok () ↔
    (rels.map tables.casefold).Nodup ∧ ∀ rel ∈ rels, tables.casefold rel ∉ seen.map (·.1) := by
  induction rels generalizing seen with
  | nil => simp [checkNoCaseCollisions]
  | cons rel rels ih =>
      rw [checkNoCaseCollisions, List.map_cons, List.nodup_cons, List.forall_mem_cons, ← lookup_isSome]
      cases hl : seen.lookup (tables.casefold rel) with
      | some other => simp
      | none =>
          simp only [ih, List.map_cons, List.mem_cons, not_or, List.mem_map, not_exists, not_and]
          constructor
          · rintro ⟨hnd, hseen⟩
            exact ⟨⟨fun r hr he => (hseen r hr).1 he, hnd⟩, by simp, fun r hr => (hseen r hr).2⟩
          · rintro ⟨⟨hnot, hnd⟩, -, hseen⟩
            exact ⟨hnd, fun r hr => ⟨hnot r hr, hseen r hr⟩⟩

end Check

section Accepted

/-- The text of a file is that of its components. -/
theorem codes_of_listed {l : List Found} (hpr : Proper source) (hl : l.Perm (foundIn [] source))
    (h : sortFiles l = .ok files) : ∀ y ∈ files, codes y.1 = relText (components y.1) := by
  unfold sortFiles at h
  cases hm : l.mapM encodable with
  | none => simp [hm] at h
  | some ys =>
      simp only [hm, Except.ok.injEq] at h
      intro y hy
      have hin : y ∈ ys := (List.perm_insertionSort pathLe ys).subset (h ▸ hy)
      obtain ⟨x, hx, he⟩ : ∃ x ∈ l, encodable x = some y := by
        have hf := mapM_option.1 hm
        clear hm hl h hy
        induction hf with
        | nil => simp at hin
        | @cons x z l ys hxz _ ih =>
            obtain rfl | hin := List.mem_cons.1 hin
            · exact ⟨x, List.mem_cons_self, hxz⟩
            · obtain ⟨x', hx', he⟩ := ih hin
              exact ⟨x', List.mem_cons_of_mem _ hx', he⟩
      obtain ⟨g, hg, rfl⟩ := List.mem_map.1 (hl.subset hx)
      obtain ⟨hne, hnames⟩ := file_proper hpr hg
      have hc : components y.1 = g.1 := congrArg Prod.fst (encodable_components (g := g) hne hnames he)
      obtain ⟨s, hs, rfl⟩ := Option.map_eq_some_iff.1 he
      exact (scalar_codes hs).trans (congrArg relText hc.symm)

/-- What is known of a unit that was scanned: no two of its files fold alike. -/
structure Accepted (folding : CaseFolding) (source : Directory) (files : List UnitFile) : Prop where
  distinct : source.Distinct
  proper : Proper source
  listed : (files.map fun f => (components f.1, f.2)).Perm source.files
  checked : ∀ f ∈ source.files, ∀ g ∈ source.files, f.1.map folding.casefold = g.1.map folding.casefold → f.1 = g.1

theorem Accepted.of (hd : source.Distinct) (hpr : Proper source) {path : Path}
    (h : scanUnit (tablesOf nfc folding) d.id path (some source) = .ok files) : Accepted folding source files := by
  obtain ⟨l, hscan, -, hsort, hcheck⟩ := scanUnit_ok h
  obtain ⟨-, hl⟩ := scanDir_ok hscan
  have hlisted := sortFiles_components hpr hl hsort
  have htext := codes_of_listed hpr hl hsort
  refine ⟨hd, hpr, hlisted, fun f hf g hg hfold => ?_⟩
  obtain ⟨y, hy, rfl⟩ := List.mem_map.1 (hlisted.symm.subset hf)
  obtain ⟨z, hz, rfl⟩ := List.mem_map.1 (hlisted.symm.subset hg)
  have hsame : (tablesOf nfc folding).casefold y.1 = (tablesOf nfc folding).casefold z.1 := by
    simp only [tablesOf, htext y hy, htext z hz]
    exact (casefold_path (file_proper hpr hf) (file_proper hpr hg)).2 hfold
  have hnodup := (checkNoCaseCollisions_ok.1 hcheck).1
  rw [List.map_map] at hnodup
  rw [List.inj_on_of_nodup_map hnodup hy hz hsame]

variable (h : Accepted folding source files)

include h

theorem Accepted.pathPrefix : PathPrefix files p ↔ p ≠ [] ∧ ∃ f ∈ source.files, p <+: f.1 := by
  simp only [PathPrefix, ← h.listed.mem_iff, List.mem_map, exists_exists_and_eq_and]

theorem Accepted.proper_prefix (hp : PathPrefix files p) : p ≠ [] ∧ ∀ name ∈ p, ProperName name := by
  obtain ⟨hne, f, hf, hpre⟩ := h.pathPrefix.1 hp
  exact ⟨hne, fun name hn => (file_proper h.proper hf).2 name (hpre.subset hn)⟩

theorem Accepted.noCollisions_iff : NoCollisions folding files ↔ OneSpelling folding.casefold source := by
  constructor
  · intro hno p q hp hq hk
    cases p with
    | nil => exact (List.map_eq_nil_iff.1 hk.symm).symm
    | cons a p =>
        have hp' := h.pathPrefix.2 ⟨List.cons_ne_nil a p, hp⟩
        have hq' : PathPrefix files q := by
          refine h.pathPrefix.2 ⟨?_, hq⟩
          rintro rfl
          simp at hk
        exact hno _ _ hp' hq' ((casefold_path (h.proper_prefix hp') (h.proper_prefix hq')).2 hk)
  · intro hone p q hp hq hk
    have hk' := (casefold_path (h.proper_prefix hp) (h.proper_prefix hq)).1 hk
    exact hone p q (h.pathPrefix.1 hp).2 (h.pathPrefix.1 hq).2 hk'

theorem Accepted.oneSpelling_iff : OneSpelling folding.casefold source ↔ ¬ Twins folding source := by
  constructor
  · rintro hone ⟨parent, a, b, hab, hk, ⟨f, hf, -, r, -, hr⟩, g, hg, hpre⟩
    have hsame := hone (parent ++ [a]) (parent ++ [b]) ⟨f, hf, r, hr.symm⟩ ⟨g, hg, hpre⟩ (by simp [hk])
    exact hab (by simpa using hsame)
  · intro hno p q ⟨f, hf, hp⟩ ⟨g, hg, hq⟩ hk
    by_contra hne
    obtain ⟨parent, a, b, r, s, rfl, rfl, hab, hkey⟩ := differ hk hne
    have hpa : parent ++ [a] <+: f.1 := (List.prefix_append_right_inj parent).2 ⟨r, rfl⟩ |>.trans hp
    have hqb : parent ++ [b] <+: g.1 := (List.prefix_append_right_inj parent).2 ⟨s, rfl⟩ |>.trans hq
    -- two files are told apart by the check, so one of the two is a directory
    by_cases hfa : f.1 = parent ++ [a]
    · by_cases hgb : g.1 = parent ++ [b]
      · have hsame := h.checked f hf g hg (by simp [hfa, hgb, hkey])
        rw [hfa, hgb] at hsame
        exact hab (by simpa using hsame)
      · obtain ⟨t, ht⟩ := hqb
        refine hno ⟨parent, b, a, Ne.symm hab, hkey.symm, ⟨g, hg, by simp, t, ?_, ht.symm⟩, f, hf, hpa⟩
        rintro rfl
        exact hgb (by rw [← ht, List.append_nil])
    · obtain ⟨t, ht⟩ := hpa
      refine hno ⟨parent, a, b, hab, hkey, ⟨f, hf, by simp, t, ?_, ht.symm⟩, g, hg, hqb⟩
      rintro rfl
      exact hfa (by rw [← ht, List.append_nil])

end Accepted

section Copying

theorem copiesBack_of (hd : source.Distinct) (hpr : Proper source)
    (h : scanUnit (tablesOf nfc folding) d.id d.unitDir (some source) = .ok files)
    (hone : OneSpelling folding.casefold source) : CopiesBack nfc folding sha256 d source files := by
  have ha := Accepted.of hd hpr h
  obtain ⟨copy, hcopy, hcopied⟩ := copied_of hd hpr h
  have hnd : (((files.map fun f : UnitFile => (components f.1, f.2)).reverse ++ []).map fun g : Path × Bytes =>
      g.1).Nodup := by
    rw [List.append_nil]
    exact (((List.reverse_perm _).trans ha.listed).map _).nodup_iff.2 (files_nodup hd)
  have hsame := writeAll_eq hd hone madeOf_empty (by simp) (fun g hg => ha.listed.subset hg) hnd
  refine ⟨copy, hsame.trans hcopy, fun path => ⟨?_, fingerprintUnit_congr ?_⟩⟩
  · rw [hcopied.again]
    rfl
  · rw [hcopied.again, h]

theorem oneSpelling_of_copiesBack (ha : Accepted folding source files)
    (h : CopiesBack nfc folding sha256 d source files) : OneSpelling folding.casefold source := by
  obtain ⟨copy, hcopy, hback⟩ := h
  obtain ⟨files', hscan, hpaths⟩ : ∃ files', scanUnit (tablesOf nfc folding) d.id [] (some copy) = .ok files' ∧
      files'.map (·.1) = files.map (·.1) := by
    have hagain := (hback []).1
    cases hs : scanUnit (tablesOf nfc folding) d.id [] (some copy) with
    | error e => simp [hs, Except.map] at hagain
    | ok files' =>
        refine ⟨files', rfl, ?_⟩
        rw [hs] at hagain
        exact Except.ok.inj hagain
  obtain ⟨hapart, hnames⟩ := writeAll_apart hcopy trivial
  have hproper : Proper copy := by
    intro x hx n hn
    obtain ⟨f, hf, hn⟩ | ⟨y, hy, -⟩ := hnames x hx n hn
    · exact (file_proper ha.proper (ha.listed.subset hf)).2 n hn
    · simp [Folder.places] at hy
  have ha' := Accepted.of hapart.distinct hproper hscan
  -- every path prefix of the unit stands in the copy too
  have hplace (p) (hne : p ≠ []) (hp : ∃ f ∈ source.files, p <+: f.1) : ∃ x ∈ copy.places, x.1 = p := by
    obtain ⟨-, y, hy, hpre⟩ := ha.pathPrefix.2 ⟨hne, hp⟩
    obtain ⟨z, hz, hyz⟩ := List.mem_map.1 (hpaths ▸ List.mem_map_of_mem hy : y.1 ∈ files'.map (·.1))
    have hfile : (components y.1, z.2) ∈ copy.files := ha'.listed.subset (List.mem_map.2 ⟨z, hz, by rw [hyz]⟩)
    obtain ⟨r, hr⟩ := hpre
    cases r with
    | nil => exact ⟨_, mem_files.1 hfile, by rw [← hr, List.append_nil]⟩
    | cons n r => exact ⟨_, above_mem (mem_files.1 hfile) ⟨hne, n :: r, List.cons_ne_nil n r, hr.symm⟩, rfl⟩
  intro p q hp hq hk
  cases p with
  | nil => exact (List.map_eq_nil_iff.1 hk.symm).symm
  | cons a p =>
      have hqne : q ≠ [] := by
        rintro rfl
        simp at hk
      obtain ⟨x, hx, hxp⟩ := hplace _ (List.cons_ne_nil a p) hp
      obtain ⟨y, hy, hyq⟩ := hplace q hqne hq
      rw [← hxp, ← hyq] at hk ⊢
      exact hapart.unique hx hy hk

end Copying

/-- An accepted unit is the same on a file system that ignores case just when no directory
of it that holds a file has a twin. -/
theorem portable_iff (nfc : PyStr → PyStr) (folding : CaseFolding) (sha256 : Bytes → String) (tree : FileTree)
    (d : MigrationDef) (source : Directory) (files : List UnitFile) (hunit : unitOf tree d = some source)
    (h : scanUnit (tablesOf nfc folding) d.id d.unitDir (some source) = .ok files) :
    (NoCollisions folding files ↔ ¬ Twins folding source) ∧
      (CopiesBack nfc folding sha256 d source files ↔ ¬ Twins folding source) := by
  obtain ⟨hd, hpr⟩ := unitOf_inherits hunit
  have ha := Accepted.of hd hpr h
  refine ⟨ha.noCollisions_iff.trans ha.oneSpelling_iff, ?_⟩
  constructor
  · exact fun hback => ha.oneSpelling_iff.1 (oneSpelling_of_copiesBack ha hback)
  · exact fun hno => copiesBack_of hd hpr h (ha.oneSpelling_iff.2 hno)

section Example

def lowerAscii (c : Nat) : Nat := if 65 ≤ c ∧ c ≤ 90 then c + 32 else c

def asciiFolding : CaseFolding where
  fold c := [lowerAscii c]
  slash := rfl
  proper c hc := by
    simp only [lowerAscii, List.mem_singleton]
    split <;> omega

theorem plainUnit_untwinned : ¬ Twins asciiFolding plainUnit := by
  rintro ⟨parent, a, b, hne, hfold, ⟨f, hf, -, r, hr, habove⟩, g, hg, tail, hbelow⟩
  have hpaths : plainUnit.files.map (·.1) = [[codes "b.sql"], [codes "a", codes "z"]] := by decide +kernel
  have hf : f.1 ∈ [[codes "b.sql"], [codes "a", codes "z"]] := hpaths ▸ List.mem_map_of_mem hf
  have hg : g.1 ∈ [[codes "b.sql"], [codes "a", codes "z"]] := hpaths ▸ List.mem_map_of_mem hg
  -- only the second file stands in a directory, which is `a`
  obtain ⟨rfl, rfl⟩ : parent = [] ∧ a = codes "a" := by
    rw [habove] at hf
    obtain ⟨x, r, rfl⟩ := List.exists_cons_of_ne_nil hr
    simp only [List.mem_cons, List.not_mem_nil, or_false] at hf
    cases parent with
    | nil => simp_all
    | cons y parent => cases parent <;> simp at hf
  rw [← hbelow] at hg
  have hb : b = codes "b.sql" ∨ b = codes "a" := by
    rw [List.nil_append, List.singleton_append, List.mem_cons, List.mem_singleton, List.cons.injEq,
      List.cons.injEq] at hg
    exact hg.imp And.left And.left
  obtain rfl | rfl := hb
  · exact absurd hfold (by decide +kernel)
  · exact hne rfl

theorem portable_iff_plain : NoCollisions asciiFolding [("a/z", [2]), ("b.sql", [1])] ∧
    CopiesBack id asciiFolding plainDigest ⟨1, "m", .sql, .atomic, "b.sql", [], [codes "u"]⟩ plainUnit
      [("a/z", [2]), ("b.sql", [1])] := by
  have h := portable_iff id asciiFolding plainDigest plainTree ⟨1, "m", .sql, .atomic, "b.sql", [], [codes "u"]⟩
      plainUnit
    [("a/z", [2]), ("b.sql", [1])] (by decide +kernel) (by decide +kernel)
  exact ⟨h.1.2 plainUnit_untwinned, h.2.2 plainUnit_untwinned⟩

/-- Two directories whose names differ in case only, each with a file of its own. -/
def twinUnit : Directory :=
  .dir (codes "A") (.leaf (codes "x.sql") (.file [1]) .empty)
  (.dir (codes "a") (.leaf (codes "y.sql") (.file [2]) .empty) .empty)

def twinDef : MigrationDef := ⟨1, "m", .sql, .atomic, "A/x.sql", [], [codes "u"]⟩

def twinFiles : List UnitFile := [("A/x.sql", [1]), ("a/y.sql", [2])]

/-- The scan accepts them, their names fold alike, and the copy has other paths. -/
theorem twins_accepted :
    scanUnit (tablesOf id asciiFolding) "m" [codes "u"] (some twinUnit) = .ok twinFiles ∧
      ¬ NoCollisions asciiFolding twinFiles ∧ ¬ CopiesBack id asciiFolding plainDigest twinDef twinUnit twinFiles := by
  refine ⟨by decide +kernel, fun hno => ?_, ?_⟩
  · have hA : PathPrefix twinFiles [codes "A"] :=
      ⟨by decide, ("A/x.sql", [1]), by decide, [codes "x.sql"], by decide +kernel⟩
    have ha : PathPrefix twinFiles [codes "a"] :=
      ⟨by decide, ("a/y.sql", [2]), by decide, [codes "y.sql"], by decide +kernel⟩
    exact absurd (hno _ _ hA ha (by decide +kernel)) (by decide)
  · rintro ⟨copy, hcopy, hback⟩
    have hmerged : copyFolded asciiFolding twinFiles = some
        (.dir (codes "A") (.leaf (codes "x.sql") (.file [1]) (.leaf (codes "y.sql") (.file [2]) .empty)) .empty) := by
      decide +kernel
    obtain rfl := Option.some.inj (hcopy.symm.trans hmerged)
    have hpaths := (hback []).1
    revert hpaths
    decide +kernel

end Example

end Migr8.Collisions
