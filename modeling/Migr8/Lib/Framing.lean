import Mathlib.Algebra.Group.Nat.Defs
import Mathlib.Data.List.Sort

namespace Migr8.Lib.Framing

variable {α β γ : Type}

/-- What follows a codeword never changes how it is read: a text that starts with
codewords of two members of `D` starts with the same one twice. -/
def SelfDelimiting (D : α → Prop) (enc : α → List γ) : Prop :=
  ∀ a b, D a → D b → ∀ r s, enc a ++ r = enc b ++ s → a = b ∧ r = s

namespace SelfDelimiting

variable {D : α → Prop} {E : β → Prop} {enc : α → List γ} {enc' : β → List γ}

theorem injective (h : SelfDelimiting D enc) {a b : α} (ha : D a) (hb : D b) (he : enc a = enc b) : a = b := by
  have happ : enc a ++ [] = enc b ++ [] := by rw [he]
  exact (h a b ha hb [] [] happ).1

/-- Codewords of one length. -/
theorem of_length (n : Nat) (hn : ∀ a, (enc a).length = n)
    (hi : ∀ a b, D a → D b → enc a = enc b → a = b) : SelfDelimiting D enc := by
  intro a b ha hb r s he
  obtain ⟨hab, hrs⟩ := List.append_inj he ((hn a).trans (hn b).symm)
  exact ⟨hi a b ha hb hab, hrs⟩

theorem comp {f : β → α} (h : SelfDelimiting D enc) (hf : ∀ x y, f x = f y → x = y) :
    SelfDelimiting (fun x => D (f x)) (fun x => enc (f x)) := by
  intro x y hx hy r s he
  obtain ⟨hxy, hrs⟩ := h (f x) (f y) hx hy r s he
  exact ⟨hf x y hxy, hrs⟩

/-- The same text before every codeword. -/
theorem after (lead : List γ) (h : SelfDelimiting D enc) : SelfDelimiting D (fun a => lead ++ enc a) := by
  intro a b ha hb r s he
  rw [List.append_assoc, List.append_assoc] at he
  exact h a b ha hb r s (List.append_cancel_left he)

theorem prod (h : SelfDelimiting D enc) (h' : SelfDelimiting E enc') :
    SelfDelimiting (fun p : α × β => D p.1 ∧ E p.2) (fun p => enc p.1 ++ enc' p.2) := by
  intro p q hp hq r s he
  rw [List.append_assoc, List.append_assoc] at he
  obtain ⟨h1, he⟩ := h p.1 q.1 hp.1 hq.1 _ _ he
  obtain ⟨h2, hrs⟩ := h' p.2 q.2 hp.2 hq.2 r s he
  exact ⟨Prod.ext h1 h2, hrs⟩

/-- A text after its own length. -/
theorem lengthPrefixed {N : Nat → Prop} {num : Nat → List γ} (h : SelfDelimiting N num) :
    SelfDelimiting (fun v : List γ => N v.length) (fun v => num v.length ++ v) := by
  intro v w hv hw r s he
  rw [List.append_assoc, List.append_assoc] at he
  obtain ⟨hlen, he⟩ := h v.length w.length hv hw _ _ he
  exact List.append_inj he hlen

/-- Codewords one after another, when their number is known. -/
theorem flatMap (h : SelfDelimiting D enc) {xs ys : List α} (hlen : xs.length = ys.length)
    (hx : ∀ x ∈ xs, D x) (hy : ∀ y ∈ ys, D y) {r s : List γ}
    (he : xs.flatMap enc ++ r = ys.flatMap enc ++ s) : xs = ys ∧ r = s := by
  induction xs generalizing ys with
  | nil =>
      cases ys with
      | nil => exact ⟨rfl, by simpa using he⟩
      | cons y ys => cases hlen
  | cons x xs ih =>
      cases ys with
      | nil => cases hlen
      | cons y ys =>
          rw [List.flatMap_cons, List.flatMap_cons, List.append_assoc, List.append_assoc] at he
          obtain ⟨hxy, he⟩ := h x y (hx x List.mem_cons_self) (hy y List.mem_cons_self) _ _ he
          obtain ⟨hrest, hrs⟩ := ih (Nat.succ.inj hlen) (fun z hz => hx z (List.mem_cons_of_mem _ hz))
            (fun z hz => hy z (List.mem_cons_of_mem _ hz)) he
          exact ⟨by rw [hxy, hrest], hrs⟩

/-- Codewords after their number, with a text between. -/
theorem counted {N : Nat → Prop} {num : Nat → List γ} (hn : SelfDelimiting N num) (h : SelfDelimiting D enc) :
    SelfDelimiting (fun xs : List α => N xs.length ∧ ∀ x ∈ xs, D x) (fun xs => num xs.length ++ xs.flatMap enc) := by
  intro xs ys hx hy r s he
  rw [List.append_assoc, List.append_assoc] at he
  obtain ⟨hlen, he⟩ := hn xs.length ys.length hx.1 hy.1 _ _ he
  exact h.flatMap hlen hx.2 hy.2 he

end SelfDelimiting

/-- The last `width` digits of a number to the base 256, the most significant one
first. -/
def bigEndian : Nat → Nat → List UInt8
  | 0, _ => []
  | width + 1, n => bigEndian width (n / 256) ++ [UInt8.ofNat n]

theorem bigEndian_length (width n : Nat) : (bigEndian width n).length = width := by
  induction width generalizing n with
  | zero => rfl
  | succ width ih => rw [bigEndian, List.length_append, ih, List.length_singleton]

theorem bigEndian_injective {width m n : Nat} (hm : m < 256 ^ width) (hn : n < 256 ^ width)
    (h : bigEndian width m = bigEndian width n) : m = n := by
  induction width generalizing m n with
  | zero =>
      rw [Nat.pow_zero] at hm hn
      omega
  | succ width ih =>
      rw [bigEndian, bigEndian] at h
      obtain ⟨hhigh, hlow⟩ := List.append_inj h (by rw [bigEndian_length, bigEndian_length])
      rw [Nat.pow_succ] at hm hn
      have hdiv : m / 256 = n / 256 := ih (by omega) (by omega) hhigh
      have hmod : m % 256 = n % 256 := by
        have hbyte := congrArg UInt8.toNat (List.singleton_inj.1 hlow)
        rwa [UInt8.toNat_ofNat', UInt8.toNat_ofNat'] at hbyte
      omega

theorem SelfDelimiting.bigEndian (width : Nat) :
    SelfDelimiting (fun n => n < 256 ^ width) (Framing.bigEndian width) :=
  SelfDelimiting.of_length width (bigEndian_length width) fun _ _ ha hb => bigEndian_injective ha hb

/-- Sorting forgets the order when the relation tells the members apart. -/
theorem insertionSort_congr {r : α → α → Prop} [DecidableRel r] [Std.Total r] [IsTrans α r] {l l' : List α}
    (h : l.Perm l') (hr : ∀ a ∈ l, ∀ b ∈ l, r a b → r b a → a = b) : l.insertionSort r = l'.insertionSort r := by
  have hl := List.perm_insertionSort r l
  have hl' := List.perm_insertionSort r l'
  refine List.Perm.eq_of_pairwise ?_ (List.pairwise_insertionSort r l) (List.pairwise_insertionSort r l')
    (hl.trans (h.trans hl'.symm))
  intro a b ha hb
  exact hr a (hl.mem_iff.1 ha) b (h.mem_iff.2 (hl'.mem_iff.1 hb))

end Migr8.Lib.Framing
