import Migr8.Lib.Framing

namespace Migr8.Fingerprint

open Lib.Framing

abbrev Bytes := List UInt8

def utf8 (s : String) : Bytes := s.toUTF8.data.toList

def canonicalHeader : Bytes := utf8 "migr8-fingerprint/1\n"

/-- `int.to_bytes`, which raises when the number does not fit. -/
def toBytes (width value : Nat) : Option Bytes :=
  if value < 256 ^ width then some (bigEndian width value) else none

def u32be (value : Nat) : Option Bytes := toBytes 4 value

def u64be (value : Nat) : Option Bytes := toBytes 8 value

/-- `u32be(len(name)) || name || u64be(len(value)) || value`. -/
def field (name : String) (value : Bytes) : Option Bytes := do
  let rawName := utf8 name
  return (← u32be rawName.length) ++ rawName ++ (← u64be value.length) ++ value

/-- Tuples of byte strings are compared at their first difference. -/
def tupleLe (x y : Bytes × Bytes) : Prop := if x.1 = y.1 then x.2 ≤ y.2 else x.1 < y.1

instance : DecidableRel tupleLe := fun x y => inferInstanceAs (Decidable (if x.1 = y.1 then x.2 ≤ y.2 else x.1 < y.1))

def requiredKey (p : String × String) : Bytes × Bytes := (utf8 p.1, utf8 p.2)

def requiredLe (p q : String × String) : Prop := tupleLe (requiredKey p) (requiredKey q)

instance : DecidableRel requiredLe := fun p q => inferInstanceAs (Decidable (tupleLe (requiredKey p) (requiredKey q)))

def pathLe (f g : String × Bytes) : Prop := utf8 f.1 ≤ utf8 g.1

instance : DecidableRel pathLe := fun f g => inferInstanceAs (Decidable (utf8 f.1 ≤ utf8 g.1))

def appendAll {α : Type} (encode : α → Option Bytes) : List α → Option Bytes
  | [] => some []
  | a :: as => do return (← encode a) ++ (← appendAll encode as)

def requiredFields (p : String × String) : Option Bytes := do
  return (← field "type" (utf8 p.1)) ++ (← field "name" (utf8 p.2))

def encodeRequired (required : List (String × String)) : Option Bytes := do
  let ordered := required.insertionSort requiredLe
  return (← u64be ordered.length) ++ (← appendAll requiredFields ordered)

/-- Everything the fingerprint covers. Strings hold Unicode scalar values only. -/
structure FingerprintInput where
  language : String
  mode : String
  entry : String
  required : List (String × String)
  files : List (String × Bytes)

def fileFields (f : String × Bytes) : Option Bytes := do
  return (← field "path" (utf8 f.1)) ++ (← field "data" f.2)

def canonicalBytes (data : FingerprintInput) : Option Bytes := do
  let orderedFiles := data.files.insertionSort pathLe
  let language ← field "language" (utf8 data.language)
  let mode ← field "mode" (utf8 data.mode)
  let entry ← field "entry" (utf8 data.entry)
  let required ← field "require_valid" (← encodeRequired data.required)
  let count ← field "count" (← u64be orderedFiles.length)
  let files ← appendAll fileFields orderedFiles
  return canonicalHeader ++ language ++ mode ++ entry ++ required ++ count ++ files

section Order

theorem utf8_injective {s t : String} (h : utf8 s = utf8 t) : s = t := by
  have hdata : s.toUTF8.data = t.toUTF8.data := Array.toList_inj.1 h
  exact String.toByteArray_inj.1 (ByteArray.ext hdata)

theorem tupleLe_antisymm {x y : Bytes × Bytes} (h : tupleLe x y) (h' : tupleLe y x) : x = y := by
  unfold tupleLe at h h'
  by_cases he : x.1 = y.1
  · rw [if_pos he] at h
    rw [if_pos he.symm] at h'
    exact Prod.ext he (List.le_antisymm h h')
  · rw [if_neg he] at h
    rw [if_neg fun hs => he hs.symm] at h'
    exact absurd h' (List.lt_asymm h)

theorem tupleLe_total (x y : Bytes × Bytes) : tupleLe x y ∨ tupleLe y x := by
  unfold tupleLe
  by_cases he : x.1 = y.1
  · rw [if_pos he, if_pos he.symm]
    exact List.le_total x.2 y.2
  · rw [if_neg he, if_neg fun hs => he hs.symm]
    by_contra hn
    obtain ⟨h, h'⟩ := not_or.1 hn
    exact he (List.le_antisymm (List.not_lt.1 h') (List.not_lt.1 h))

theorem tupleLe_trans {x y z : Bytes × Bytes} (h : tupleLe x y) (h' : tupleLe y z) : tupleLe x z := by
  unfold tupleLe at h h' ⊢
  by_cases hxy : x.1 = y.1
  · rw [if_pos hxy] at h
    by_cases hyz : y.1 = z.1
    · rw [if_pos hyz] at h'
      rw [if_pos (hxy.trans hyz)]
      exact List.le_trans h h'
    · rw [if_neg hyz] at h'
      rw [hxy, if_neg hyz]
      exact h'
  · rw [if_neg hxy] at h
    by_cases hyz : y.1 = z.1
    · rw [← hyz, if_neg hxy]
      exact h
    · rw [if_neg hyz] at h'
      have hlt := List.lt_trans h h'
      have hxz : x.1 ≠ z.1 := by
        intro he
        rw [he] at hlt
        exact List.lt_irrefl z.1 hlt
      rw [if_neg hxz]
      exact hlt

instance : Std.Total requiredLe := ⟨fun p q => tupleLe_total (requiredKey p) (requiredKey q)⟩

instance : IsTrans (String × String) requiredLe := ⟨fun _ _ _ => tupleLe_trans⟩

instance : Std.Total pathLe := ⟨fun f g => List.le_total (utf8 f.1) (utf8 g.1)⟩

instance : IsTrans (String × Bytes) pathLe := ⟨fun _ _ _ h h' => List.le_trans h h'⟩

theorem requiredLe_antisymm {p q : String × String} (h : requiredLe p q) (h' : requiredLe q p) : p = q := by
  have hkey := tupleLe_antisymm h h'
  exact Prod.ext (utf8_injective (congrArg Prod.fst hkey)) (utf8_injective (congrArg Prod.snd hkey))

theorem sorted_required {l l' : List (String × String)} (h : l.Perm l') :
    l.insertionSort requiredLe = l'.insertionSort requiredLe :=
  insertionSort_congr h fun _ _ _ _ => requiredLe_antisymm

theorem sorted_files {l l' : List (String × Bytes)} (hd : (l.map (·.1)).Nodup) (h : l.Perm l') :
    l.insertionSort pathLe = l'.insertionSort pathLe := by
  apply insertionSort_congr h
  intro f hf g hg hfg hgf
  have hpath : f.1 = g.1 := utf8_injective (List.le_antisymm hfg hgf)
  exact List.inj_on_of_nodup_map hd hf hg hpath

end Order

section Encoding

variable {α : Type}

/-- A fallible encoding returns what `g` says, exactly on `D`. -/
def Encodes (f : α → Option Bytes) (D : α → Prop) (g : α → Bytes) : Prop := ∀ a x, f a = some x ↔ D a ∧ g a = x

theorem Encodes.comp {β : Type} {f : α → Option Bytes} {D : α → Prop} {g : α → Bytes} (h : Encodes f D g)
    (k : β → α) : Encodes (fun b => f (k b)) (fun b => D (k b)) (fun b => g (k b)) := fun b => h (k b)

theorem Encodes.append {f f' : α → Option Bytes} {D D' : α → Prop} {g g' : α → Bytes} (h : Encodes f D g)
    (h' : Encodes f' D' g') :
    Encodes (fun a => do return (← f a) ++ (← f' a)) (fun a => D a ∧ D' a) (fun a => g a ++ g' a) := by
  intro a x
  simp only [Option.bind_eq_bind, Option.bind_eq_some_iff, Option.pure_def, Option.some.injEq, h a, h' a]
  constructor
  · rintro ⟨_, ⟨hd, rfl⟩, _, ⟨hd', rfl⟩, rfl⟩
    exact ⟨⟨hd, hd'⟩, rfl⟩
  · rintro ⟨⟨hd, hd'⟩, rfl⟩
    exact ⟨_, ⟨hd, rfl⟩, _, ⟨hd', rfl⟩, rfl⟩

theorem Encodes.all {f : α → Option Bytes} {D : α → Prop} {g : α → Bytes} (h : Encodes f D g) :
    Encodes (appendAll f) (fun l => ∀ a ∈ l, D a) (fun l => l.flatMap g) := by
  intro l
  induction l with
  | nil =>
      intro x
      rw [appendAll, Option.some.injEq]
      exact ⟨fun hx => ⟨fun a ha => absurd ha List.not_mem_nil, hx⟩, fun hx => hx.2⟩
  | cons a l ih =>
      intro x
      simp only [appendAll, Option.bind_eq_bind, Option.bind_eq_some_iff, Option.pure_def, Option.some.injEq, h a,
        ih, List.forall_mem_cons, List.flatMap_cons]
      constructor
      · rintro ⟨_, ⟨hd, rfl⟩, _, ⟨hd', rfl⟩, rfl⟩
        exact ⟨⟨hd, hd'⟩, rfl⟩
      · rintro ⟨⟨hd, hd'⟩, rfl⟩
        exact ⟨_, ⟨hd, rfl⟩, _, ⟨hd', rfl⟩, rfl⟩

theorem toBytes_encodes (width : Nat) : Encodes (toBytes width) (fun n => n < 256 ^ width) (bigEndian width) := by
  intro n x
  unfold toBytes
  by_cases hn : n < 256 ^ width
  · rw [if_pos hn, Option.some.injEq]
    exact ⟨fun h => ⟨hn, h⟩, fun h => h.2⟩
  · rw [if_neg hn]
    constructor
    · intro h
      cases h
    · intro h
      exact absurd h.1 hn

def fieldBytes (name : String) (value : Bytes) : Bytes :=
  (bigEndian 4 (utf8 name).length ++ utf8 name) ++ (bigEndian 8 value.length ++ value)

def ShortName (name : String) : Prop := (utf8 name).length < 256 ^ 4

theorem field_encodes {name : String} (hname : ShortName name) :
    Encodes (field name) (fun v => v.length < 256 ^ 8) (fieldBytes name) := by
  intro v x
  have hlead : u32be (utf8 name).length = some (bigEndian 4 (utf8 name).length) :=
    (toBytes_encodes 4 _ _).2 ⟨hname, rfl⟩
  simp only [field, fieldBytes, hlead, Option.bind_eq_bind, Option.bind_some, Option.bind_eq_some_iff,
    Option.pure_def, Option.some.injEq, u64be, toBytes_encodes 8 v.length]
  constructor
  · rintro ⟨_, ⟨hv, rfl⟩, rfl⟩
    exact ⟨hv, by simp only [List.append_assoc]⟩
  · rintro ⟨hv, rfl⟩
    exact ⟨_, ⟨hv, rfl⟩, by simp only [List.append_assoc]⟩

theorem field_delimits (name : String) : SelfDelimiting (fun v => v.length < 256 ^ 8) (fieldBytes name) :=
  ((SelfDelimiting.bigEndian 8).lengthPrefixed).after _

theorem text_delimits (name : String) :
    SelfDelimiting (fun s => (utf8 s).length < 256 ^ 8) (fun s => fieldBytes name (utf8 s)) :=
  (field_delimits name).comp fun _ _ => utf8_injective

theorem shortNames : ∀ name ∈ ["language", "mode", "entry", "require_valid", "count", "path", "data", "type", "name"],
    ShortName name := by
  unfold ShortName
  decide +kernel

end Encoding

section Canonical

def requiredFieldBytes (p : String × String) : Bytes := fieldBytes "type" (utf8 p.1) ++ fieldBytes "name" (utf8 p.2)

def requiredBytes (required : List (String × String)) : Bytes :=
  bigEndian 8 required.length ++ required.flatMap requiredFieldBytes

def fileBytes (f : String × Bytes) : Bytes := fieldBytes "path" (utf8 f.1) ++ fieldBytes "data" f.2

def Fits (value : Bytes) : Prop := value.length < 256 ^ 8

def PairFits (p : String × String) : Prop := Fits (utf8 p.1) ∧ Fits (utf8 p.2)

def FileFits (f : String × Bytes) : Prop := Fits (utf8 f.1) ∧ Fits f.2

theorem requiredFields_encodes : Encodes requiredFields PairFits requiredFieldBytes :=
  ((field_encodes (shortNames "type" (by simp))).comp fun p : String × String => utf8 p.1).append
    ((field_encodes (shortNames "name" (by simp))).comp fun p : String × String => utf8 p.2)

theorem fileFields_encodes : Encodes fileFields FileFits fileBytes :=
  ((field_encodes (shortNames "path" (by simp))).comp fun f : String × Bytes => utf8 f.1).append
    ((field_encodes (shortNames "data" (by simp))).comp fun f : String × Bytes => f.2)

theorem requiredFields_delimits : SelfDelimiting PairFits requiredFieldBytes :=
  (text_delimits "type").prod (text_delimits "name")

theorem fileFields_delimits : SelfDelimiting FileFits fileBytes := (text_delimits "path").prod (field_delimits "data")

theorem requiredBytes_delimits :
    SelfDelimiting (fun l => l.length < 256 ^ 8 ∧ ∀ p ∈ l, PairFits p) requiredBytes :=
  (SelfDelimiting.bigEndian 8).counted requiredFields_delimits

def sortedRequired (data : FingerprintInput) : List (String × String) := data.required.insertionSort requiredLe

def sortedFiles (data : FingerprintInput) : List (String × Bytes) := data.files.insertionSort pathLe

theorem encodeRequired_encodes (data : FingerprintInput) (x : Bytes) : encodeRequired data.required = some x ↔
    ((sortedRequired data).length < 256 ^ 8 ∧ ∀ p ∈ sortedRequired data, PairFits p) ∧
      requiredBytes (sortedRequired data) = x := by
  have h := ((toBytes_encodes 8).comp List.length).append requiredFields_encodes.all
  exact h (sortedRequired data) x

structure Parts (data : FingerprintInput) : Prop where
  language : Fits (utf8 data.language)
  mode : Fits (utf8 data.mode)
  entry : Fits (utf8 data.entry)
  requiredCount : (sortedRequired data).length < 256 ^ 8
  required : ∀ p ∈ sortedRequired data, PairFits p
  requiredSize : Fits (requiredBytes (sortedRequired data))
  fileCount : (sortedFiles data).length < 256 ^ 8
  files : ∀ f ∈ sortedFiles data, FileFits f

def canonicalText (data : FingerprintInput) : Bytes :=
  canonicalHeader ++ (fieldBytes "language" (utf8 data.language) ++ (fieldBytes "mode" (utf8 data.mode) ++
    (fieldBytes "entry" (utf8 data.entry) ++ (fieldBytes "require_valid" (requiredBytes (sortedRequired data)) ++
      (fieldBytes "count" (bigEndian 8 (sortedFiles data).length) ++ (sortedFiles data).flatMap fileBytes)))))

theorem canonicalBytes_encodes : Encodes canonicalBytes Parts canonicalText := by
  intro data x
  have hfield (name : String) (hn : name ∈ ["language", "mode", "entry", "require_valid", "count", "path", "data",
      "type", "name"]) (v : Bytes) := field_encodes (shortNames name hn) v
  have hl := hfield "language" (by simp)
  have hm := hfield "mode" (by simp)
  have he := hfield "entry" (by simp)
  have hr := hfield "require_valid" (by simp)
  have hc := hfield "count" (by simp)
  have hnum (n : Nat) : (bigEndian 8 n).length < 256 ^ 8 := by
    rw [bigEndian_length]
    decide
  simp only [canonicalBytes, Option.bind_eq_bind, Option.bind_eq_some_iff, Option.pure_def, Option.some.injEq, hl _ _,
    hm _ _, he _ _, hr _ _, hc _ _, encodeRequired_encodes, u64be, toBytes_encodes 8 _ _,
    fileFields_encodes.all _ _]
  constructor
  · rintro ⟨_, ⟨h1, rfl⟩, _, ⟨h2, rfl⟩, _, ⟨h3, rfl⟩, _, ⟨⟨h4, h5⟩, rfl⟩, _, ⟨h6, rfl⟩, _, ⟨h7, rfl⟩, _, ⟨-, rfl⟩, _,
      ⟨h8, rfl⟩, rfl⟩
    refine ⟨⟨h1, h2, h3, h4, h5, h6, h7, h8⟩, ?_⟩
    simp only [canonicalText, sortedFiles, List.append_assoc]
  · rintro ⟨h, rfl⟩
    refine ⟨_, ⟨h.language, rfl⟩, _, ⟨h.mode, rfl⟩, _, ⟨h.entry, rfl⟩, _, ⟨⟨h.requiredCount, h.required⟩, rfl⟩, _,
      ⟨h.requiredSize, rfl⟩, _, ⟨h.fileCount, rfl⟩, _, ⟨hnum _, rfl⟩, _, ⟨h.files, rfl⟩, ?_⟩
    simp only [canonicalText, sortedFiles, List.append_assoc]

/-- The same content, in whatever order it is listed. -/
structure Same (a b : FingerprintInput) : Prop where
  language : a.language = b.language
  mode : a.mode = b.mode
  entry : a.entry = b.entry
  required : ∀ type name, (type, name) ∈ a.required ↔ (type, name) ∈ b.required
  files : ∀ path bytes, (path, bytes) ∈ a.files ↔ (path, bytes) ∈ b.files

structure Distinct (data : FingerprintInput) : Prop where
  paths : (data.files.map (·.1)).Nodup
  required : data.required.Nodup

structure Sized (data : FingerprintInput) : Prop where
  language : (utf8 data.language).length < 2 ^ 64
  mode : (utf8 data.mode).length < 2 ^ 64
  entry : (utf8 data.entry).length < 2 ^ 64
  requiredCount : data.required.length < 2 ^ 64
  required : ∀ p ∈ data.required, (utf8 p.1).length < 2 ^ 64 ∧ (utf8 p.2).length < 2 ^ 64
  requiredSize : (requiredBytes data.required).length < 2 ^ 64
  fileCount : data.files.length < 2 ^ 64
  files : ∀ f ∈ data.files, (utf8 f.1).length < 2 ^ 64 ∧ f.2.length < 2 ^ 64

variable {a b : FingerprintInput}

theorem canonicalText_congr (ha : Distinct a) (hb : Distinct b) (h : Same a b) :
    canonicalText a = canonicalText b := by
  have hfa : a.files.Nodup := List.Nodup.of_map _ ha.paths
  have hfb : b.files.Nodup := List.Nodup.of_map _ hb.paths
  have hreq : a.required.Perm b.required := (List.perm_ext_iff_of_nodup ha.required hb.required).2
    fun p => h.required p.1 p.2
  have hfiles : a.files.Perm b.files := (List.perm_ext_iff_of_nodup hfa hfb).2 fun f => h.files f.1 f.2
  have hsr : sortedRequired a = sortedRequired b := sorted_required hreq
  have hsf : sortedFiles a = sortedFiles b := sorted_files ha.paths hfiles
  rw [canonicalText, canonicalText, h.language, h.mode, h.entry, hsr, hsf]

/-- The text is read back field by field; nothing in a value is taken for a field. -/
theorem canonicalText_injective (ha : Parts a) (hb : Parts b) (h : canonicalText a = canonicalText b) : Same a b := by
  have hnum (n : Nat) : (bigEndian 8 n).length < 256 ^ 8 := by
    rw [bigEndian_length]
    decide
  rw [canonicalText, canonicalText] at h
  have h := List.append_cancel_left h
  obtain ⟨hlanguage, h⟩ := text_delimits "language" _ _ ha.language hb.language _ _ h
  obtain ⟨hmode, h⟩ := text_delimits "mode" _ _ ha.mode hb.mode _ _ h
  obtain ⟨hentry, h⟩ := text_delimits "entry" _ _ ha.entry hb.entry _ _ h
  obtain ⟨hpairs, h⟩ := field_delimits "require_valid" _ _ ha.requiredSize hb.requiredSize _ _ h
  obtain ⟨hcount, h⟩ := field_delimits "count" _ _ (hnum _) (hnum _) _ _ h
  have hsr : sortedRequired a = sortedRequired b :=
    requiredBytes_delimits.injective ⟨ha.requiredCount, ha.required⟩ ⟨hb.requiredCount, hb.required⟩ hpairs
  have hlen : (sortedFiles a).length = (sortedFiles b).length := bigEndian_injective ha.fileCount hb.fileCount hcount
  have happ : (sortedFiles a).flatMap fileBytes ++ [] = (sortedFiles b).flatMap fileBytes ++ [] := by rw [h]
  obtain ⟨hsf, -⟩ := fileFields_delimits.flatMap hlen ha.files hb.files happ
  have hreq : a.required.Perm b.required := by
    apply (List.perm_insertionSort requiredLe a.required).symm.trans
    rw [show a.required.insertionSort requiredLe = sortedRequired b from hsr]
    exact List.perm_insertionSort requiredLe b.required
  have hfiles : a.files.Perm b.files := by
    apply (List.perm_insertionSort pathLe a.files).symm.trans
    rw [show a.files.insertionSort pathLe = sortedFiles b from hsf]
    exact List.perm_insertionSort pathLe b.files
  exact ⟨hlanguage, hmode, hentry, fun type name => hreq.mem_iff, fun path bytes => hfiles.mem_iff⟩

theorem requiredBytes_length {l l' : List (String × String)} (h : l.Perm l') :
    (requiredBytes l).length = (requiredBytes l').length := by
  have hfields := (h.flatMap_right requiredFieldBytes).length_eq
  rw [requiredBytes, requiredBytes, List.length_append, List.length_append, h.length_eq, hfields]

theorem Sized.parts {data : FingerprintInput} (h : Sized data) : Parts data := by
  have hfits {n : Nat} (hn : n < 2 ^ 64) : n < 256 ^ 8 := by omega
  have hr := List.perm_insertionSort requiredLe data.required
  have hf := List.perm_insertionSort pathLe data.files
  refine ⟨hfits h.language, hfits h.mode, hfits h.entry, ?_, fun p hp => ?_, ?_, ?_, fun f hf' => ?_⟩
  · rw [sortedRequired, hr.length_eq]
    exact hfits h.requiredCount
  · have hp := h.required p (hr.mem_iff.1 hp)
    exact ⟨hfits hp.1, hfits hp.2⟩
  · rw [Fits, sortedRequired, requiredBytes_length hr]
    exact hfits h.requiredSize
  · rw [sortedFiles, hf.length_eq]
    exact hfits h.fileCount
  · have hf' := h.files f (hf.mem_iff.1 hf')
    exact ⟨hfits hf'.1, hfits hf'.2⟩

/-- Two inputs are encoded alike if and only if their content is the same. -/
theorem canonicalBytes_injective (ha : Distinct a) (hb : Distinct b) (ha' : Sized a) (hb' : Sized b) :
    (∃ x, canonicalBytes a = some x) ∧ (∃ y, canonicalBytes b = some y) ∧
      (canonicalBytes a = canonicalBytes b ↔ Same a b) := by
  have hpa := ha'.parts
  have hpb := hb'.parts
  have hx : canonicalBytes a = some (canonicalText a) := (canonicalBytes_encodes a _).2 ⟨hpa, rfl⟩
  have hy : canonicalBytes b = some (canonicalText b) := (canonicalBytes_encodes b _).2 ⟨hpb, rfl⟩
  refine ⟨⟨_, hx⟩, ⟨_, hy⟩, ?_⟩
  rw [hx, hy, Option.some.injEq]
  constructor
  · intro h
    exact canonicalText_injective hpa hpb h
  · intro h
    exact canonicalText_congr ha hb h

end Canonical

section Example

def listed : FingerprintInput where
  language := "python"
  mode := "restartable"
  entry := "migrate.py"
  required := [("VIEW", "ledger"), ("TABLE", "account")]
  files := [("migrate.py", [112, 97, 115, 115]), ("data/rows.csv", [49, 44, 50])]

def relisted : FingerprintInput := { listed with required := listed.required.reverse, files := listed.files.reverse }

theorem canonicalBytes_injective_listed : canonicalBytes listed = canonicalBytes relisted ∧
    listed.files ≠ relisted.files := by
  have hd : Distinct listed ∧ Distinct relisted := ⟨⟨by decide, by decide⟩, ⟨by decide, by decide⟩⟩
  have hs : Sized listed ∧ Sized relisted := by
    refine ⟨⟨?_, ?_, ?_, ?_, ?_, ?_, ?_, ?_⟩, ⟨?_, ?_, ?_, ?_, ?_, ?_, ?_, ?_⟩⟩
    all_goals decide +kernel
  refine ⟨(canonicalBytes_injective hd.1 hd.2 hs.1 hs.2).2.2.2 ⟨rfl, rfl, rfl, ?_, ?_⟩, by decide⟩
  · intro type name
    exact List.mem_reverse.symm
  · intro path bytes
    exact List.mem_reverse.symm

end Example

end Migr8.Fingerprint
