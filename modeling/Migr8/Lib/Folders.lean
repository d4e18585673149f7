import Mathlib.Data.List.Nodup
import Mathlib.Data.List.Infix
import Mathlib.Data.List.Perm.Basic

namespace Migr8.Lib.Folders

variable {ν δ : Type}

inductive Leaf (δ : Type) where
  | file (data : δ)
  | link
  | special
  deriving DecidableEq, Repr

inductive Folder (ν δ : Type) where
  | empty
  | leaf (name : ν) (what : Leaf δ) (rest : Folder ν δ)
  | dir (name : ν) (inner rest : Folder ν δ)
  deriving DecidableEq, Repr

abbrev Place (ν δ : Type) := List ν × Option (Leaf δ)

namespace Folder

def names : Folder ν δ → List ν
  | empty => []
  | leaf name _ rest => name :: rest.names
  | dir name _ rest => name :: rest.names

def Distinct : Folder ν δ → Prop
  | empty => True
  | leaf name _ rest => name ∉ rest.names ∧ rest.Distinct
  | dir name inner rest => name ∉ rest.names ∧ inner.Distinct ∧ rest.Distinct

def places : Folder ν δ → List (Place ν δ)
  | empty => []
  | leaf name what rest => ([name], some what) :: rest.places
  | dir name inner rest => ([name], none) :: (inner.places.map fun x => (name :: x.1, x.2)) ++ rest.places

def fileAt : Place ν δ → Option (List ν × δ)
  | (path, some (.file data)) => some (path, data)
  | _ => none

def files (t : Folder ν δ) : List (List ν × δ) := t.places.filterMap fileAt

def sub [DecidableEq ν] (name : ν) : Folder ν δ → Option (Folder ν δ)
  | empty => none
  | leaf _ _ rest => rest.sub name
  | dir m inner rest => if m = name then some inner else rest.sub name

def descend [DecidableEq ν] (t : Folder ν δ) (path : List ν) : Option (Folder ν δ) :=
  path.foldlM (fun f name => f.sub name) t

def only (data : δ) (name : ν) : List ν → Folder ν δ
  | [] => leaf name (.file data) empty
  | next :: path => dir name (only data next path) empty

/-- Write a file and make the directories on the way to it. It fails where
something else than a directory is in the way. -/
def put [DecidableEq ν] (data : δ) : Folder ν δ → ν → List ν → Option (Folder ν δ)
  | empty, name, path => some (only data name path)
  | leaf m what rest, name, path =>
      if m = name then
        match path, what with
        | [], .file _ => some (leaf m (.file data) rest)
        | _, _ => none
      else (rest.put data name path).map (leaf m what)
  | dir m inner rest, name, path =>
      if m = name then
        match path with
        | [] => none
        | next :: path => (inner.put data next path).map fun inner => dir m inner rest
      else (rest.put data name path).map (dir m inner)

def write [DecidableEq ν] (t : Folder ν δ) (f : List ν × δ) : Option (Folder ν δ) :=
  match f.1 with
  | [] => none
  | name :: path => t.put f.2 name path

def writeAll [DecidableEq ν] (t : Folder ν δ) (fs : List (List ν × δ)) : Option (Folder ν δ) := fs.foldlM write t

end Folder

open Folder

def Above (q p : List ν) : Prop := q ≠ [] ∧ ∃ r, r ≠ [] ∧ p = q ++ r

variable {t t' inner rest : Folder ν δ} {name m : ν} {path p q : List ν} {data : δ} {e e' : Option (Leaf δ)}
  {x : Place ν δ} {fs gs : List (List ν × δ)}

section Places

theorem above_cons : Above (m :: q) (name :: p) ↔ m = name ∧ ((q = [] ∧ p ≠ []) ∨ Above q p) := by
  constructor
  · rintro ⟨-, r, hr, h⟩
    obtain ⟨rfl, rfl⟩ : name = m ∧ p = q ++ r := by simpa using h
    refine ⟨rfl, ?_⟩
    by_cases hq : q = []
    · obtain rfl := hq
      exact .inl ⟨rfl, hr⟩
    · exact .inr ⟨hq, r, hr, rfl⟩
  · rintro ⟨rfl, ⟨rfl, hp⟩ | ⟨hq, r, hr, rfl⟩⟩
    · exact ⟨by simp, p, hp, rfl⟩
    · exact ⟨by simp, r, hr, rfl⟩

theorem not_above_singleton : ¬ Above q [name] := by
  rintro ⟨hq, r, hr, h⟩
  have hlen := congrArg List.length h
  have hql := List.length_pos_iff.2 hq
  have hrl := List.length_pos_iff.2 hr
  simp only [List.length_cons, List.length_nil, List.length_append] at hlen
  omega

theorem mem_dir : x ∈ (dir name inner rest).places ↔
    x = ([name], none) ∨ (∃ y ∈ inner.places, x = (name :: y.1, y.2)) ∨ x ∈ rest.places := by
  simp only [places, List.cons_append, List.mem_cons, List.mem_append, List.mem_map, eq_comm]

theorem mem_leaf {what : Leaf δ} : x ∈ (leaf name what rest).places ↔ x = ([name], some what) ∨ x ∈ rest.places := by
  simp only [places, List.mem_cons]

/-- Every place is in an entry of the directory. -/
theorem head_mem (h : x ∈ t.places) : ∃ name path, x.1 = name :: path ∧ name ∈ t.names := by
  induction t with
  | empty => simp [places] at h
  | leaf m what rest ih =>
      obtain rfl | h := mem_leaf.1 h
      · exact ⟨m, [], rfl, by simp [names]⟩
      · obtain ⟨name, path, hx, hn⟩ := ih h
        exact ⟨name, path, hx, by simp [names, hn]⟩
  | dir m inner rest _ ih =>
      obtain rfl | ⟨y, -, rfl⟩ | h := mem_dir.1 h
      · exact ⟨m, [], rfl, by simp [names]⟩
      · exact ⟨m, y.1, rfl, by simp [names]⟩
      · obtain ⟨name, path, hx, hn⟩ := ih h
        exact ⟨name, path, hx, by simp [names, hn]⟩

theorem head_ne (h : x ∈ t.places) (hn : name ∉ t.names) : x.1 ≠ name :: p := by
  intro hx
  obtain ⟨m, path, hm, hin⟩ := head_mem h
  obtain ⟨rfl, -⟩ : m = name ∧ path = p := by simpa [hx, eq_comm] using hm
  exact hn hin

/-- One thing stands at each path. -/
theorem places_nodup (h : t.Distinct) : (t.places.map (·.1)).Nodup := by
  induction t with
  | empty => simp [places]
  | leaf m what rest ih =>
      simp only [places, List.map_cons, List.nodup_cons, List.mem_map, not_exists, not_and]
      exact ⟨fun x hx => head_ne hx h.1, ih h.2⟩
  | dir m inner rest ihi ih =>
      simp only [places, List.cons_append, List.map_cons, List.map_append, List.map_map, List.nodup_cons,
        List.nodup_append, List.mem_append, List.mem_map, not_or, not_exists, not_and, Function.comp_apply]
      refine ⟨⟨fun x hx hm => ?_, fun x hx => head_ne hx h.1⟩, ?_, ih h.2.2, ?_⟩
      · obtain ⟨n, path, hn, -⟩ := head_mem hx
        simp [hn] at hm
      · have hi := (ihi h.2.1).map (f := fun p => m :: p) fun a b hab => List.cons_injective hab
        rwa [List.map_map] at hi
      · rintro a ⟨x, hx, rfl⟩ b ⟨y, hy, rfl⟩ hab
        exact head_ne hy h.1 hab.symm

theorem place_unique (h : t.Distinct) (he : (p, e) ∈ t.places) (he' : (p, e') ∈ t.places) : e = e' :=
  (Prod.ext_iff.1 (List.inj_on_of_nodup_map (places_nodup h) he he' rfl)).2

/-- The way to a place goes through directories. -/
theorem above_mem (h : (p, e) ∈ t.places) (hq : Above q p) : (q, none) ∈ t.places := by
  induction t generalizing p q e with
  | empty => simp [places] at h
  | leaf m what rest ih =>
      obtain h | h := mem_leaf.1 h
      · cases h
        exact absurd hq not_above_singleton
      · exact mem_leaf.2 (.inr (ih h hq))
  | dir m inner rest ihi ih =>
      obtain h | ⟨y, hy, h⟩ | h := mem_dir.1 h
      · cases h
        exact absurd hq not_above_singleton
      · cases h
        obtain ⟨n, q, rfl⟩ := List.exists_cons_of_ne_nil hq.1
        obtain ⟨rfl, ⟨rfl, -⟩ | hq⟩ := above_cons.1 hq
        · exact mem_dir.2 (.inl rfl)
        · exact mem_dir.2 (.inr (.inl ⟨_, ihi hy hq, rfl⟩))
      · exact mem_dir.2 (.inr (.inr (ih h hq)))

theorem mem_files {f : List ν × δ} : f ∈ t.files ↔ (f.1, some (.file f.2)) ∈ t.places := by
  simp only [files, List.mem_filterMap]
  constructor
  · rintro ⟨⟨p, e⟩, hx, h⟩
    unfold fileAt at h
    split at h
    · next heq =>
        cases heq
        cases h
        exact hx
    · cases h
  · intro h
    exact ⟨_, h, rfl⟩

theorem files_nodup (h : t.Distinct) : (t.files.map (·.1)).Nodup := by
  have hsub : (t.files.map (·.1)).Sublist (t.places.map (·.1)) := by
    unfold files
    generalize t.places = l
    induction l with
    | nil => exact List.Sublist.slnil
    | cons x l ih =>
        obtain ⟨p, _ | what⟩ := x
        · exact ih.cons _
        · cases what with
          | file data => exact ih.cons_cons _
          | link => exact ih.cons _
          | special => exact ih.cons _
  exact hsub.nodup (places_nodup h)

end Places

section Put

theorem mem_only : x ∈ (only data name path).places ↔
    x = (name :: path, some (.file data)) ∨ (x.2 = none ∧ Above x.1 (name :: path)) := by
  induction path generalizing name x with
  | nil => simp [only, places, not_above_singleton]
  | cons next path ih =>
      obtain ⟨p, e⟩ := x
      rw [only, mem_dir]
      constructor
      · rintro (h | ⟨y, hy, h⟩ | h)
        · cases h
          exact .inr ⟨rfl, above_cons.2 ⟨rfl, .inl ⟨rfl, by simp⟩⟩⟩
        · cases h
          obtain rfl | ⟨he, ha⟩ := ih.1 hy
          · exact .inl rfl
          · exact .inr ⟨he, above_cons.2 ⟨rfl, .inr ha⟩⟩
        · simp [places] at h
      · rintro (h | ⟨rfl, ha⟩)
        · cases h
          exact .inr (.inl ⟨_, ih.2 (.inl rfl), rfl⟩)
        · obtain ⟨m, q, rfl⟩ := List.exists_cons_of_ne_nil ha.1
          obtain ⟨rfl, ⟨rfl, -⟩ | ha⟩ := above_cons.1 ha
          · exact .inl rfl
          · exact .inr (.inl ⟨(q, none), ih.2 (.inr ⟨rfl, ha⟩), rfl⟩)

theorem only_distinct : (only data name path).Distinct := by
  induction path generalizing name with
  | nil => exact ⟨by simp [names], trivial⟩
  | cons next path ih => exact ⟨by simp [names], ih, trivial⟩

theorem names_only : (only data name path).names = [name] := by
  cases path <;> rfl

variable [DecidableEq ν]

/-- A file that is not there can be written when only directories are on its way. -/
theorem put_some (data : δ) (hfree : ∀ e, (name :: path, e) ∉ t.places)
    (hway : ∀ q e, Above q (name :: path) → (q, e) ∈ t.places → e = none) : ∃ t', t.put data name path = some t' := by
  induction t generalizing name path with
  | empty => exact ⟨_, rfl⟩
  | leaf m what rest ih =>
      have hrest := ih (fun e he => hfree e (mem_leaf.2 (.inr he)))
        (fun q e hq he => hway q e hq (mem_leaf.2 (.inr he)))
      unfold put
      by_cases hm : m = name
      · subst hm
        exfalso
        cases path with
        | nil => exact hfree _ (mem_leaf.2 (.inl rfl))
        | cons next path =>
            have he := hway [m] (some what) (above_cons.2 ⟨rfl, .inl ⟨rfl, by simp⟩⟩) (mem_leaf.2 (.inl rfl))
            cases he
      · obtain ⟨t', ht⟩ := hrest
        exact ⟨_, by rw [if_neg hm, ht]; rfl⟩
  | dir m inner rest ihi ih =>
      unfold put
      by_cases hm : m = name
      · subst hm
        cases path with
        | nil => exact absurd (mem_dir.2 (.inl rfl)) (hfree none)
        | cons next path =>
            obtain ⟨t', ht⟩ := ihi (fun e he => hfree e (mem_dir.2 (.inr (.inl ⟨_, he, rfl⟩))))
              (fun q e hq he => hway (m :: q) e (above_cons.2 ⟨rfl, .inr hq⟩) (mem_dir.2 (.inr (.inl ⟨_, he, rfl⟩))))
            exact ⟨_, by simp only [if_true, ht]; rfl⟩
      · obtain ⟨t', ht⟩ := ih (fun e he => hfree e (mem_dir.2 (.inr (.inr he))))
          (fun q e hq he => hway q e hq (mem_dir.2 (.inr (.inr he))))
        exact ⟨_, by rw [if_neg hm, ht]; rfl⟩

/-- What writing a new file leaves. -/
theorem mem_put (hfree : ∀ e, (name :: path, e) ∉ t.places) (h : t.put data name path = some t') :
    x ∈ t'.places ↔ x = (name :: path, some (.file data)) ∨ (x.2 = none ∧ Above x.1 (name :: path)) ∨ x ∈ t.places := by
  induction t generalizing name path t' x with
  | empty =>
      cases h
      simp [mem_only, places]
  | leaf m what rest ih =>
      unfold put at h
      by_cases hm : m = name
      · subst hm
        rw [if_pos rfl] at h
        cases path with
        | nil => exact absurd (mem_leaf.2 (.inl rfl)) (hfree (some what))
        | cons next path => cases h
      · rw [if_neg hm, Option.map_eq_some_iff] at h
        obtain ⟨rest', hrest, rfl⟩ := h
        rw [mem_leaf, mem_leaf, ih (fun e he => hfree e (mem_leaf.2 (.inr he))) hrest]
        tauto
  | dir m inner rest ihi ih =>
      unfold put at h
      by_cases hm : m = name
      · subst hm
        rw [if_pos rfl] at h
        cases path with
        | nil => cases h
        | cons next path =>
            obtain ⟨inner', hinner, rfl⟩ := Option.map_eq_some_iff.1 h
            have hmem (y : Place ν δ) := ihi (x := y)
              (fun e he => hfree e (mem_dir.2 (.inr (.inl ⟨_, he, rfl⟩)))) hinner
            rw [mem_dir, mem_dir]
            constructor
            · rintro (rfl | ⟨y, hy, rfl⟩ | hx)
              · exact .inr (.inr (.inl rfl))
              · obtain rfl | ⟨he, ha⟩ | hy := (hmem y).1 hy
                · exact .inl rfl
                · exact .inr (.inl ⟨he, above_cons.2 ⟨rfl, .inr ha⟩⟩)
                · exact .inr (.inr (.inr (.inl ⟨y, hy, rfl⟩)))
              · exact .inr (.inr (.inr (.inr hx)))
            · rintro (rfl | ⟨he, ha⟩ | rfl | ⟨y, hy, rfl⟩ | hx)
              · exact .inr (.inl ⟨_, (hmem _).2 (.inl rfl), rfl⟩)
              · obtain ⟨p, e⟩ := x
                obtain ⟨n, q, rfl⟩ := List.exists_cons_of_ne_nil ha.1
                obtain ⟨rfl, ⟨rfl, -⟩ | ha⟩ := above_cons.1 ha
                · exact .inl (by rw [← he])
                · exact .inr (.inl ⟨(q, e), (hmem _).2 (.inr (.inl ⟨he, ha⟩)), rfl⟩)
              · exact .inl rfl
              · exact .inr (.inl ⟨y, (hmem y).2 (.inr (.inr hy)), rfl⟩)
              · exact .inr (.inr hx)
      · rw [if_neg hm, Option.map_eq_some_iff] at h
        obtain ⟨rest', hrest, rfl⟩ := h
        rw [mem_dir, mem_dir, ih (fun e he => hfree e (mem_dir.2 (.inr (.inr he)))) hrest]
        simp only [or_left_comm]

theorem names_put (h : t.put data name path = some t') (hm : m ∈ t'.names) : m = name ∨ m ∈ t.names := by
  induction t generalizing t' with
  | empty =>
      cases h
      exact .inl (by simpa [names_only] using hm)
  | leaf n what rest ih =>
      unfold put at h
      by_cases hn : n = name
      · rw [if_pos hn] at h
        split at h
        · cases h
          exact .inr hm
        · cases h
      · rw [if_neg hn, Option.map_eq_some_iff] at h
        obtain ⟨rest', hrest, rfl⟩ := h
        obtain rfl | hm := List.mem_cons.1 hm
        · exact .inr List.mem_cons_self
        · exact (ih hrest hm).imp_right (List.mem_cons_of_mem _)
  | dir n inner rest _ ih =>
      unfold put at h
      by_cases hn : n = name
      · rw [if_pos hn] at h
        split at h
        · cases h
        · obtain ⟨inner', -, rfl⟩ := Option.map_eq_some_iff.1 h
          exact .inr hm
      · rw [if_neg hn, Option.map_eq_some_iff] at h
        obtain ⟨rest', hrest, rfl⟩ := h
        obtain rfl | hm := List.mem_cons.1 hm
        · exact .inr List.mem_cons_self
        · exact (ih hrest hm).imp_right (List.mem_cons_of_mem _)

theorem put_distinct (h : t.put data name path = some t') (ht : t.Distinct) : t'.Distinct := by
  induction t generalizing name path t' with
  | empty =>
      cases h
      exact only_distinct
  | leaf n what rest ih =>
      unfold put at h
      by_cases hn : n = name
      · rw [if_pos hn] at h
        split at h
        · cases h
          exact ht
        · cases h
      · rw [if_neg hn, Option.map_eq_some_iff] at h
        obtain ⟨rest', hrest, rfl⟩ := h
        exact ⟨fun hm => (names_put hrest hm).elim hn ht.1, ih hrest ht.2⟩
  | dir n inner rest ihi ih =>
      unfold put at h
      by_cases hn : n = name
      · rw [if_pos hn] at h
        split at h
        · cases h
        · obtain ⟨inner', hinner, rfl⟩ := Option.map_eq_some_iff.1 h
          exact ⟨ht.1, ihi hinner ht.2.1, ht.2.2⟩
      · rw [if_neg hn, Option.map_eq_some_iff] at h
        obtain ⟨rest', hrest, rfl⟩ := h
        exact ⟨fun hm => (names_put hrest hm).elim hn ht.1, ht.2.1, ih hrest ht.2.2⟩

end Put

structure MadeOf (t : Folder ν δ) (fs : List (List ν × δ)) : Prop where
  distinct : t.Distinct
  places : ∀ x, x ∈ t.places ↔
    (∃ f ∈ fs, x = (f.1, some (.file f.2))) ∨ (x.2 = none ∧ ∃ f ∈ fs, Above x.1 f.1)

section Copy

variable {s : Folder ν δ}

theorem MadeOf.subset (h : MadeOf t fs) (hfs : ∀ f ∈ fs, f ∈ s.files) : ∀ x ∈ t.places, x ∈ s.places := by
  rintro ⟨p, e⟩ hx
  obtain ⟨f, hf, hx⟩ | ⟨rfl, f, hf, ha⟩ := (h.places _).1 hx
  · rw [hx]
    exact mem_files.1 (hfs f hf)
  · exact above_mem (mem_files.1 (hfs f hf)) ha

theorem MadeOf.files_iff (h : MadeOf t fs) {f : List ν × δ} : f ∈ t.files ↔ f ∈ fs := by
  rw [mem_files, h.places]
  constructor
  · rintro (⟨g, hg, he⟩ | ⟨he, -⟩)
    · obtain ⟨p, d⟩ := g
      cases he
      exact hg
    · cases he
  · exact fun hf => .inl ⟨f, hf, rfl⟩

theorem MadeOf.files_perm (h : MadeOf t fs) (hfs : fs.Nodup) : t.files.Perm fs :=
  (List.perm_ext_iff_of_nodup (files_nodup h.distinct).of_map hfs).2 fun _ => h.files_iff

theorem madeOf_empty : MadeOf (.empty : Folder ν δ) [] := ⟨trivial, by simp [Folder.places]⟩

variable [DecidableEq ν]

/-- One more file of the directory that is copied. -/
theorem MadeOf.write (hs : s.Distinct) (h : MadeOf t fs) (hfs : ∀ g ∈ fs, g ∈ s.files) {f : List ν × δ}
    (hf : f ∈ s.files) (hnew : f.1 ∉ fs.map (·.1)) : ∃ t', t.write f = some t' ∧ MadeOf t' (f :: fs) := by
  obtain ⟨p, d⟩ := f
  have hp := mem_files.1 hf
  obtain ⟨name, path, rfl, -⟩ : ∃ name path, p = name :: path ∧ name ∈ s.names := head_mem hp
  have hfree (e : Option (Leaf δ)) : (name :: path, e) ∉ t.places := by
    intro he
    obtain rfl := place_unique hs (h.subset hfs _ he) hp
    obtain ⟨g, hg, hx⟩ | ⟨he, -⟩ := (h.places _).1 he
    · exact hnew (List.mem_map.2 ⟨g, hg, (congrArg Prod.fst hx).symm⟩)
    · cases he
  have hway (q : List ν) (e : Option (Leaf δ)) (hq : Above q (name :: path)) (he : (q, e) ∈ t.places) : e = none :=
    place_unique hs (h.subset hfs _ he) (above_mem hp hq)
  obtain ⟨t', ht⟩ := put_some d hfree hway
  refine ⟨t', ht, put_distinct ht h.distinct, fun x => ?_⟩
  rw [mem_put hfree ht, h.places]
  simp only [List.mem_cons, exists_eq_or_imp]
  rw [and_or_left, ← or_assoc, or_or_or_comm]

theorem MadeOf.writeAll (hs : s.Distinct) (h : MadeOf t fs) (hfs : ∀ g ∈ fs, g ∈ s.files)
    (hgs : ∀ g ∈ gs, g ∈ s.files) (hnd : ((gs.reverse ++ fs).map (·.1)).Nodup) :
    ∃ t', t.writeAll gs = some t' ∧ MadeOf t' (gs.reverse ++ fs) := by
  induction gs generalizing t fs with
  | nil => exact ⟨t, rfl, h⟩
  | cons g gs ih =>
      have hsplit : (g :: gs).reverse ++ fs = gs.reverse ++ g :: fs := by simp
      rw [hsplit] at hnd ⊢
      have hnew : g.1 ∉ fs.map (·.1) := by
        rw [List.map_append, List.map_cons] at hnd
        exact (List.nodup_cons.1 (List.nodup_append.1 hnd).2.1).1
      obtain ⟨t', ht, hm⟩ := h.write hs hfs (hgs g List.mem_cons_self) hnew
      obtain ⟨t'', ht', hm'⟩ :=
        ih hm (fun x hx => (List.mem_cons.1 hx).elim (fun hx => hx ▸ hgs g List.mem_cons_self) (hfs x))
        (fun x hx => hgs x (List.mem_cons_of_mem _ hx)) hnd
      refine ⟨t'', ?_, hm'⟩
      unfold Folder.writeAll at ht' ⊢
      rw [List.foldlM_cons, ht]
      exact ht'

/-- The files of a directory, written into an empty one in any order. -/
theorem copied (hs : s.Distinct) (hgs : gs.Perm s.files) :
    ∃ t, Folder.empty.writeAll gs = some t ∧ MadeOf t gs.reverse := by
  have hnd : ((gs.reverse ++ []).map fun g : List ν × δ => g.1).Nodup := by
    rw [List.append_nil]
    exact (((List.reverse_perm gs).trans hgs).map _).nodup_iff.2 (files_nodup hs)
  obtain ⟨t, ht, hm⟩ := madeOf_empty.writeAll hs (by simp) (fun g hg => hgs.subset hg) hnd
  rw [List.append_nil] at hm
  exact ⟨t, ht, hm⟩

end Copy

end Migr8.Lib.Folders
