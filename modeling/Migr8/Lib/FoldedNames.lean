import Migr8.Lib.Folders

namespace Migr8.Lib.FoldedNames

open Folders Folders.Folder

variable {ν κ δ : Type} [DecidableEq κ]

/-- Write a file where names with one key are one name, the first that was used. -/
def put (key : ν → κ) (data : δ) : Folder ν δ → ν → List ν → Option (Folder ν δ)
  | empty, name, path => some (only data name path)
  | leaf m what rest, name, path =>
      if key m = key name then
        match path, what with
        | [], .file _ => some (leaf m (.file data) rest)
        | _, _ => none
      else (put key data rest name path).map (leaf m what)
  | dir m inner rest, name, path =>
      if key m = key name then
        match path with
        | [] => none
        | next :: path => (put key data inner next path).map fun inner => dir m inner rest
      else (put key data rest name path).map (dir m inner)

def write (key : ν → κ) (t : Folder ν δ) (f : List ν × δ) : Option (Folder ν δ) :=
  match f.1 with
  | [] => none
  | name :: path => put key f.2 t name path

def writeAll (key : ν → κ) (t : Folder ν δ) (fs : List (List ν × δ)) : Option (Folder ν δ) := fs.foldlM (write key) t

def Apart (key : ν → κ) : Folder ν δ → Prop
  | empty => True
  | leaf name _ rest => key name ∉ rest.names.map key ∧ Apart key rest
  | dir name inner rest => key name ∉ rest.names.map key ∧ Apart key inner ∧ Apart key rest

variable {key : ν → κ} {t t' inner rest s : Folder ν δ} {name m : ν} {path p q : List ν} {data : δ}
  {x y : Place ν δ} {fs gs : List (List ν × δ)}

section Apart

omit [DecidableEq κ] in
/-- A path is found under one spelling only. -/
theorem Apart.unique (h : Apart key t) (hx : x ∈ t.places) (hy : y ∈ t.places) (hk : x.1.map key = y.1.map key) :
    x.1 = y.1 := by
  induction t generalizing x y with
  | empty => simp [places] at hx
  | leaf m what rest ih =>
      have hrest {z} (hz : z ∈ rest.places) : z.1.map key ≠ [key m] := by
        intro he
        obtain ⟨n, path, hn, hin⟩ := head_mem hz
        rw [hn, List.map_cons, List.cons.injEq] at he
        exact h.1 (List.mem_map.2 ⟨n, hin, he.1⟩)
      obtain rfl | hx := mem_leaf.1 hx
      · obtain rfl | hy := mem_leaf.1 hy
        · rfl
        · exact absurd hk.symm (hrest hy)
      · obtain rfl | hy := mem_leaf.1 hy
        · exact absurd hk (hrest hx)
        · exact ih h.2 hx hy hk
  | dir m inner rest ihi ih =>
      have hrest {z} (hz : z ∈ rest.places) (w : List ν) : z.1.map key ≠ key m :: w.map key := by
        intro he
        obtain ⟨n, path, hn, hin⟩ := head_mem hz
        rw [hn, List.map_cons, List.cons.injEq] at he
        exact h.1 (List.mem_map.2 ⟨n, hin, he.1⟩)
      have hempty {z} (hz : z ∈ inner.places) : z.1.map key ≠ [] := by
        obtain ⟨n, path, hn, -⟩ := head_mem hz
        simp [hn]
      obtain rfl | ⟨x', hx', rfl⟩ | hx := mem_dir.1 hx
      · obtain rfl | ⟨y', hy', rfl⟩ | hy := mem_dir.1 hy
        · rfl
        · exact absurd (List.cons.inj hk).2.symm (hempty hy')
        · exact absurd hk.symm (hrest hy [])
      · obtain rfl | ⟨y', hy', rfl⟩ | hy := mem_dir.1 hy
        · exact absurd (List.cons.inj hk).2 (hempty hx')
        · exact congrArg (m :: ·) (ihi h.2.1 hx' hy' (List.cons.inj hk).2)
        · exact absurd hk.symm (hrest hy x'.1)
      · obtain rfl | ⟨y', hy', rfl⟩ | hy := mem_dir.1 hy
        · exact absurd hk (hrest hx [])
        · exact absurd hk (hrest hx y'.1)
        · exact ih h.2.2 hx hy hk

omit [DecidableEq κ] in
theorem Apart.distinct (h : Apart key t) : t.Distinct := by
  induction t with
  | empty => trivial
  | leaf m what rest ih => exact ⟨fun hm => h.1 (List.mem_map_of_mem hm), ih h.2⟩
  | dir m inner rest ihi ih => exact ⟨fun hm => h.1 (List.mem_map_of_mem hm), ihi h.2.1, ih h.2.2⟩

omit [DecidableEq κ] in
theorem apart_only : Apart key (only data name path) := by
  induction path generalizing name with
  | nil => exact ⟨by simp [names], trivial⟩
  | cons next path ih => exact ⟨by simp [names], ih, trivial⟩

/-- What a write changes of the names of a directory and of its places. -/
theorem put_names (h : put key data t name path = some t') :
    (∀ n ∈ t'.names, n = name ∨ n ∈ t.names) ∧
      ∀ x ∈ t'.places, ∀ n ∈ x.1, n ∈ name :: path ∨ ∃ y ∈ t.places, n ∈ y.1 := by
  induction t generalizing name path t' with
  | empty =>
      cases h
      refine ⟨fun n hn => .inl (by simpa [names_only] using hn), fun x hx n hn => .inl ?_⟩
      obtain rfl | ⟨-, -, r, -, hr⟩ := mem_only.1 hx
      · exact hn
      · rw [hr]
        exact List.mem_append_left _ hn
  | leaf m what rest ih =>
      unfold put at h
      split at h
      · split at h
        · cases h
          refine ⟨fun n hn => .inr hn, fun x hx n hn => .inr ?_⟩
          obtain rfl | hx := mem_leaf.1 hx
          · exact ⟨_, mem_leaf.2 (.inl rfl), hn⟩
          · exact ⟨x, mem_leaf.2 (.inr hx), hn⟩
        · cases h
      · obtain ⟨u, hu, rfl⟩ := Option.map_eq_some_iff.1 h
        obtain ⟨hnames, hplaces⟩ := ih hu
        constructor
        · intro n hn
          obtain rfl | hn := List.mem_cons.1 hn
          · exact .inr List.mem_cons_self
          · exact (hnames n hn).imp_right (List.mem_cons_of_mem _)
        · intro x hx n hn
          obtain rfl | hx := mem_leaf.1 hx
          · exact .inr ⟨_, mem_leaf.2 (.inl rfl), hn⟩
          · exact (hplaces x hx n hn).imp_right fun ⟨y, hy, hn⟩ => ⟨y, mem_leaf.2 (.inr hy), hn⟩
  | dir m inner rest ihi ih =>
      have hold {n : ν} (hn : n ∈ [m]) : ∃ y ∈ (dir m inner rest).places, n ∈ y.1 :=
        ⟨_, mem_dir.2 (.inl rfl), hn⟩
      have hin {n : ν} (hn : ∃ y ∈ inner.places, n ∈ y.1) : ∃ y ∈ (dir m inner rest).places, n ∈ y.1 := by
        obtain ⟨y, hy, hn⟩ := hn
        exact ⟨_, mem_dir.2 (.inr (.inl ⟨y, hy, rfl⟩)), List.mem_cons_of_mem _ hn⟩
      have hout {n : ν} (hn : ∃ y ∈ rest.places, n ∈ y.1) : ∃ y ∈ (dir m inner rest).places, n ∈ y.1 := by
        obtain ⟨y, hy, hn⟩ := hn
        exact ⟨_, mem_dir.2 (.inr (.inr hy)), hn⟩
      unfold put at h
      split at h
      · cases path with
        | nil => cases h
        | cons next path =>
            obtain ⟨u, hu, rfl⟩ := Option.map_eq_some_iff.1 h
            obtain ⟨-, hplaces⟩ := ihi hu
            refine ⟨fun n hn => .inr hn, fun x hx n hn => ?_⟩
            obtain rfl | ⟨y, hy, rfl⟩ | hx := mem_dir.1 hx
            · exact .inr (hold hn)
            · obtain rfl | hn := List.mem_cons.1 hn
              · exact .inr (hold (List.mem_singleton_self _))
              · exact (hplaces y hy n hn).imp (List.mem_cons_of_mem _) hin
            · exact .inr (hout ⟨x, hx, hn⟩)
      · obtain ⟨u, hu, rfl⟩ := Option.map_eq_some_iff.1 h
        obtain ⟨hnames, hplaces⟩ := ih hu
        constructor
        · intro n hn
          obtain rfl | hn := List.mem_cons.1 hn
          · exact .inr List.mem_cons_self
          · exact (hnames n hn).imp_right (List.mem_cons_of_mem _)
        · intro x hx n hn
          obtain rfl | ⟨y, hy, rfl⟩ | hx := mem_dir.1 hx
          · exact .inr (hold hn)
          · obtain rfl | hn := List.mem_cons.1 hn
            · exact .inr (hold (List.mem_singleton_self _))
            · exact .inr (hin ⟨y, hy, hn⟩)
          · exact (hplaces x hx n hn).imp_right hout

theorem put_apart (h : put key data t name path = some t') (ht : Apart key t) : Apart key t' := by
  induction t generalizing name path t' with
  | empty =>
      cases h
      exact apart_only
  | leaf m what rest ih =>
      unfold put at h
      split at h
      · split at h
        · cases h
          exact ht
        · cases h
      · next hm =>
          obtain ⟨u, hu, rfl⟩ := Option.map_eq_some_iff.1 h
          refine ⟨fun hin => ?_, ih hu ht.2⟩
          obtain ⟨n, hn, he⟩ := List.mem_map.1 hin
          obtain rfl | hn := (put_names hu).1 n hn
          · exact hm he.symm
          · exact ht.1 (List.mem_map.2 ⟨n, hn, he⟩)
  | dir m inner rest ihi ih =>
      unfold put at h
      split at h
      · cases path with
        | nil => cases h
        | cons next path =>
            obtain ⟨u, hu, rfl⟩ := Option.map_eq_some_iff.1 h
            exact ⟨ht.1, ihi hu ht.2.1, ht.2.2⟩
      · next hm =>
          obtain ⟨u, hu, rfl⟩ := Option.map_eq_some_iff.1 h
          refine ⟨fun hin => ?_, ht.2.1, ih hu ht.2.2⟩
          obtain ⟨n, hn, he⟩ := List.mem_map.1 hin
          obtain rfl | hn := (put_names hu).1 n hn
          · exact hm he.symm
          · exact ht.1 (List.mem_map.2 ⟨n, hn, he⟩)

/-- Whatever is written, one spelling of a path stays, and its names are among those written. -/
theorem writeAll_apart (h : writeAll key t fs = some t') (ht : Apart key t) : Apart key t' ∧
    ∀ x ∈ t'.places, ∀ n ∈ x.1, (∃ f ∈ fs, n ∈ f.1) ∨ ∃ y ∈ t.places, n ∈ y.1 := by
  induction fs generalizing t with
  | nil =>
      cases h
      exact ⟨ht, fun x hx n hn => .inr ⟨x, hx, hn⟩⟩
  | cons f fs ih =>
      obtain ⟨u, hu, hrest⟩ := Option.bind_eq_some_iff.1 h
      obtain ⟨_ | ⟨name, path⟩, d⟩ := f
      · cases hu
      · obtain ⟨hapart, hnames⟩ := ih hrest (put_apart hu ht)
        refine ⟨hapart, fun x hx n hn => ?_⟩
        obtain ⟨f, hf, hn⟩ | ⟨y, hy, hn⟩ := hnames x hx n hn
        · exact .inl ⟨f, List.mem_cons_of_mem _ hf, hn⟩
        · exact ((put_names hu).2 y hy n hn).imp_left fun hn => ⟨_, List.mem_cons_self, hn⟩

end Apart

section Agree

variable [DecidableEq ν]

/-- Where a path meets its own spelling only, the keys make no difference. -/
theorem put_eq (h : ∀ x ∈ t.places, ∀ q, q <+: name :: path → q.map key = x.1.map key → q = x.1) :
    put key data t name path = t.put data name path := by
  have hname {m : ν} {e : Option (Leaf δ)} (hm : ([m], e) ∈ t.places) : key m = key name ↔ m = name := by
    constructor
    · intro hk
      have hq := h _ hm [name] ⟨path, rfl⟩ (by simp [hk])
      exact (List.cons.inj hq).1.symm
    · exact congrArg key
  induction t generalizing name path with
  | empty => rfl
  | leaf m what rest ih =>
      have hrest := ih (fun x hx => h x (mem_leaf.2 (.inr hx))) fun hm => hname (mem_leaf.2 (.inr hm))
      have hm := hname (mem_leaf.2 (.inl rfl))
      cases path <;> cases what <;> simp only [put, Folder.put, hm, hrest]
  | dir m inner rest ihi ih =>
      have hrest := ih (fun x hx => h x (mem_dir.2 (.inr (.inr hx)))) fun hm => hname (mem_dir.2 (.inr (.inr hm)))
      have hm := hname (mem_dir.2 (.inl rfl))
      simp only [put, Folder.put, hm, hrest]
      split
      · next he =>
          cases path with
          | nil => rfl
          | cons next path =>
              obtain rfl := he
              have hinner (x) (hx : x ∈ inner.places) (q : List ν) (hq : q <+: next :: path)
                  (hk : q.map key = x.1.map key) : q = x.1 := by
                have hin : (m :: x.1, x.2) ∈ (dir m inner rest).places := mem_dir.2 (.inr (.inl ⟨x, hx, rfl⟩))
                have hsame := h _ hin (m :: q) (List.cons_prefix_cons.2 ⟨rfl, hq⟩) (by simp [hk])
                exact (List.cons.inj hsame).2
              simp only
              rw [ihi hinner]
              intro n e hn
              constructor
              · intro hk
                have hq := hinner _ hn [next] ⟨path, rfl⟩ (by simp [hk])
                exact (List.cons.inj hq).1.symm
              · exact congrArg key
      · rfl

def OneSpelling (key : ν → κ) (s : Folder ν δ) : Prop :=
  ∀ p q, (∃ f ∈ s.files, p <+: f.1) → (∃ f ∈ s.files, q <+: f.1) → p.map key = q.map key → p = q

/-- A directory of such paths is copied the same whether or not names are told apart by their key. -/
theorem writeAll_eq (hs : s.Distinct) (hu : OneSpelling key s) (h : MadeOf t fs) (hfs : ∀ g ∈ fs, g ∈ s.files)
    (hgs : ∀ g ∈ gs, g ∈ s.files) (hnd : ((gs.reverse ++ fs).map (·.1)).Nodup) : writeAll key t gs = t.writeAll gs := by
  induction gs generalizing t fs with
  | nil => rfl
  | cons g gs ih =>
      have hg := hgs g List.mem_cons_self
      have hperm : ((g :: gs).reverse ++ fs).Perm (gs.reverse ++ (g :: fs)) := by simp
      have hnd' : ((gs.reverse ++ (g :: fs)).map (·.1)).Nodup := (hperm.map _).nodup_iff.1 hnd
      have hnew : g.1 ∉ fs.map (·.1) := by
        rw [List.map_append, List.map_cons] at hnd'
        exact (List.nodup_cons.1 (List.nodup_append.1 hnd').2.1).1
      have hplace (x) (hx : x ∈ t.places) : ∃ f ∈ s.files, x.1 <+: f.1 := by
        obtain ⟨f, hf, rfl⟩ | ⟨-, f, hf, -, r, -, hr⟩ := (h.places x).1 hx
        · exact ⟨f, hfs f hf, List.prefix_refl _⟩
        · exact ⟨f, hfs f hf, r, hr.symm⟩
      have hwrite : write key t g = t.write g := by
        obtain ⟨_ | ⟨name, path⟩, d⟩ := g
        · rfl
        · exact put_eq fun x hx q hq hk => hu q x.1 ⟨_, hg, hq⟩ (hplace x hx) hk
      obtain ⟨t', ht', hmade⟩ := h.write hs hfs hg hnew
      have hrest := ih hmade (List.forall_mem_cons.2 ⟨hg, hfs⟩) (fun f hf => hgs f (List.mem_cons_of_mem _ hf)) hnd'
      rw [writeAll, Folder.writeAll, List.foldlM_cons, List.foldlM_cons, hwrite, ht']
      exact hrest

end Agree

end Migr8.Lib.FoldedNames
