import Migr8.Dialects
import Migr8.Normal

namespace Migr8.Readings

open Characters SqlText Lib.Scanning Scanner Pieces Migr8.Normal

variable {u : Unicode} {c : Char} {s t z w inside : Text} {kind : Option TokenKind} {xs ys ps qs : List SqlPiece}
  {R : List SqlPiece → List SqlPiece → Prop}

section Readings

/-- The servers fold the case of ASCII letters only. -/
def folded (t : Text) : Text := t.map Char.toUpper

def Spelled (tokens : Text → Option (List Token)) (s : Text) (ts : List Token) : Prop :=
  ∃ toks, tokens s = some toks ∧ (toks.filter (·.significant)).map shape = ts.map shape

def unplaced (x : Shape) : Token := ⟨x.1, x.2, 0, 0⟩

def mark (c : Char) : Token := unplaced (.punct, [c])

def parts (u : Unicode) (t : Text) : List Token :=
  ((significantTokens u t).toOption.getD []).map fun t => unplaced (shape t)

/-- The pieces of a server fall into groups. Of each, where it stands, the scanner's rules
make pieces that `R` relates to it. -/
inductive Divides (u : Unicode) (R : List SqlPiece → List SqlPiece → Prop) : List SqlPiece → List SqlPiece → Prop
  | nil : Divides u R [] []
  | group {xs ys ps qs : List SqlPiece} (hj : join ys = join xs) (hr : Reads (next u) (join ps) ys) (h : R xs ys)
      (hs : Divides u R ps qs) : Divides u R (xs ++ ps) (ys ++ qs)

end Readings

@[simp]
theorem shape_unplaced (x : Shape) : shape (unplaced x) = x := rfl

@[simp]
theorem mark_kind : (mark c).kind = .punct := rfl

@[simp]
theorem mark_text : (mark c).text = [c] := rfl

@[simp]
theorem mark_isPunct {d : Char} : (mark c).isPunct d = decide (c = d) := by simp [Token.isPunct]

/-- The groups make up what the scanner makes of the whole text. -/
theorem Divides.reads (h : Divides u R ps qs) : join qs = join ps ∧ Reads (next u) [] qs := by
  induction h with
  | nil => exact ⟨rfl, .nil⟩
  | group hj hr h hs ih =>
      obtain ⟨hjoin, hreads⟩ := ih
      refine ⟨by rw [join_append, join_append, hj, hjoin], reads_append.2 ⟨?_, hreads⟩⟩
      rwa [hjoin, List.append_nil]

theorem spelled_of {tokens : Text → Option (List Token)} {ts : List Token}
    (h : (tokens s).map (fun toks => (toks.filter (·.significant)).map shape) = some (ts.map shape)) :
    Spelled tokens s ts := by
  obtain ⟨toks, htoks, hshape⟩ := Option.map_eq_some_iff.1 h
  exact ⟨toks, htoks, hshape⟩

/-- Where both make the same pieces, each is a group of its own. -/
theorem divides_self (h : Reads (next u) [] ps) (hR : ∀ p ∈ ps, R [p] [p]) : Divides u R ps ps := by
  induction ps with
  | nil => exact .nil
  | cons p ps ih =>
      have hsplit : p :: ps = [p] ++ ps := rfl
      rw [hsplit] at h ⊢
      obtain ⟨hp, hps⟩ := reads_append.1 h
      rw [List.append_nil] at hp
      exact .group rfl hp (hR p List.mem_cons_self) (ih hps fun q hq => hR q (List.mem_cons_of_mem _ hq))

/-- The pieces of a server that are those of the scanner. -/
theorem reads_of_same {lexed : Option (List SqlPiece)} (h : lexed = (scan (next u) s).toOption)
    (hok : lexed.isSome = true) : ∃ ps, lexed = some ps ∧ Reads (next u) [] ps := by
  obtain ⟨ps, hps⟩ := Option.isSome_iff_exists.1 hok
  rw [hps] at h
  cases hscan : scan (next u) s with
  | error e =>
      rw [hscan] at h
      cases h
  | ok qs =>
      rw [hscan] at h
      cases h
      exact ⟨ps, hps, (scan_ok.1 hscan).2⟩

section Parts

def Plainly (w : Text) : Prop := (∀ d ∈ w, d.isAlphanum = true ∨ d = '_') ∧ ∃ c t, w = c :: t ∧ c.isDigit = false

theorem plainly_iff : Plainly w ↔ w.all (fun d => d.isAlphanum || d = '_') = true ∧
    w.head?.any (fun d => !d.isDigit) = true := by
  cases w with
  | nil => simp [Plainly]
  | cons c t => simp [Plainly]

instance : DecidablePred Plainly := fun _ => decidable_of_iff _ plainly_iff.symm

theorem ascii_of_part (h : c.isAlphanum = true ∨ c = '_') : c.toNat < 128 := by
  obtain h | rfl := h
  · exact (isAlphanum_bounds h).2
  · decide

theorem toUpper_plain (h : c.toUpper.isAlphanum = true ∨ c.toUpper = '_') :
    (c.isAlphanum = true ∨ c = '_') ∧ (c.isDigit = true → c.toUpper.isDigit = true) := by
  by_cases hlt : c.toNat < 128
  · have hall : ∀ n < 128, ((Char.ofNat n).toUpper.isAlphanum = true ∨ (Char.ofNat n).toUpper = '_') →
        ((Char.ofNat n).isAlphanum = true ∨ Char.ofNat n = '_') ∧
          ((Char.ofNat n).isDigit = true → (Char.ofNat n).toUpper.isDigit = true) := by decide
    have hc := hall c.toNat hlt
    rw [Char.ofNat_toNat] at hc
    exact hc h
  · rw [toUpper_other hlt] at h ⊢
    exact ⟨h, id⟩

theorem plainly_of_folded (h : Plainly (folded w)) : Plainly w := by
  obtain ⟨hplain, d, t, hfolded, hdigit⟩ := h
  have hchar (d : Char) (hd : d ∈ w) := toUpper_plain (hplain d.toUpper (List.mem_map_of_mem hd))
  refine ⟨fun d hd => (hchar d hd).1, ?_⟩
  cases w with
  | nil => cases hfolded
  | cons c t' =>
      obtain ⟨rfl, -⟩ := List.cons.inj hfolded
      refine ⟨c, t', rfl, ?_⟩
      by_contra hc
      rw [Bool.not_eq_false] at hc
      simp [(hchar c List.mem_cons_self).2 hc] at hdigit

/-- Plain text is folded by the scanner as the servers fold it. -/
theorem upper_of_plainly (h : Plainly w) : u.upper w = folded w := by
  obtain ⟨hall, -⟩ := h
  induction w with
  | nil => rfl
  | cons c t ih =>
      rw [Unicode.upper, List.flatMap_cons, u.ascii_upper c (ascii_of_part (hall c List.mem_cons_self))]
      exact congrArg (c.toUpper :: ·) (ih fun d hd => hall d (List.mem_cons_of_mem _ hd))

end Parts

end Migr8.Readings
