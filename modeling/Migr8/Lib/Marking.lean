import Mathlib.Data.List.Basic

namespace Migr8.Lib.Marking

variable {α κ : Type}

/-- What a reader left unmarked, and what it marked after that. -/
structure Stretch (α κ : Type) where
  lead : List α
  kind : κ
  body : List α

def Stretch.text (p : Stretch α κ) : List α := p.lead ++ p.body

def textOf (ps : List (Stretch α κ)) : List α := ps.flatMap (·.text)

/-- Two lists agree but for blocks, of items that `left` holds of in the one and `right` in
the other. -/
inductive Regrouped (kept left right : α → Prop) : List α → List α → Prop
  | nil : Regrouped kept left right [] []
  | same {x : α} {xs ys : List α} (hx : kept x) (h : Regrouped kept left right xs ys) :
      Regrouped kept left right (x :: xs) (x :: ys)
  | block {as bs xs ys : List α} (ha : as ≠ []) (hb : bs ≠ []) (hl : ∀ a ∈ as, left a) (hr : ∀ b ∈ bs, right b)
      (h : Regrouped kept left right xs ys) : Regrouped kept left right (as ++ xs) (bs ++ ys)

variable {n : Nat} {p : Stretch α κ} {ps qs : List (Stretch α κ)} {tail tail' : List α}
  {kept kept' left right : α → Prop} {x : α} {xs ys xs' ys' pre post run : List α}

@[simp]
theorem textOf_nil : textOf ([] : List (Stretch α κ)) = [] := rfl

section Regrouping

theorem Regrouped.swap (hk : ∀ x, kept x → kept' x) (h : Regrouped kept left right xs ys) :
    Regrouped kept' right left ys xs := by
  induction h with
  | nil => exact .nil
  | same hx _ ih => exact .same (hk _ hx) ih
  | block ha hb hl hr _ ih => exact .block hb ha hr hl ih

theorem Regrouped.append (h : Regrouped kept left right xs ys) (h' : Regrouped kept left right xs' ys') :
    Regrouped kept left right (xs ++ xs') (ys ++ ys') := by
  induction h with
  | nil => exact h'
  | same hx _ ih => exact .same hx ih
  | block ha hb hl hr _ ih =>
      rw [List.append_assoc, List.append_assoc]
      exact .block ha hb hl hr ih

theorem regrouped_self (h : ∀ x ∈ xs, kept x) : Regrouped kept left right xs xs := by
  induction xs with
  | nil => exact .nil
  | cons x xs ih => exact .same (h x List.mem_cons_self) (ih fun y hy => h y (List.mem_cons_of_mem _ hy))

theorem Regrouped.nil_left (h : Regrouped kept left right [] ys) : ys = [] := by
  generalize hxs : ([] : List α) = xs at h
  cases h with
  | nil => rfl
  | same => cases hxs
  | block ha => exact absurd (List.append_eq_nil_iff.1 hxs.symm).1 ha

/-- An item that no block of the first list holds stands in the second, too. -/
theorem Regrouped.split (h : Regrouped kept left right (pre ++ x :: post) ys) (hx : ¬ left x) :
    kept x ∧ ∃ pre' post', ys = pre' ++ x :: post' ∧ Regrouped kept left right pre pre' ∧
      Regrouped kept left right post post' := by
  generalize hxs : pre ++ x :: post = xs at h
  induction h generalizing pre with
  | nil => simp at hxs
  | @same y xs ys hy h ih =>
      cases pre with
      | nil =>
          obtain ⟨rfl, rfl⟩ := List.cons.inj hxs
          exact ⟨hy, [], ys, rfl, .nil, h⟩
      | cons z pre =>
          obtain ⟨rfl, hrest⟩ := List.cons.inj hxs
          obtain ⟨hk, pre', post', rfl, hpre, hpost⟩ := ih hrest
          exact ⟨hk, z :: pre', post', rfl, .same hy hpre, hpost⟩
  | @block as bs xs ys ha hb hl hr h ih =>
      obtain ⟨mid, hpre, hmid⟩ | ⟨mid, hpre, hmid⟩ := List.append_eq_append_iff.1 hxs
      · cases mid with
        | nil =>
            rw [List.append_nil] at hpre
            obtain ⟨hk, pre', post', rfl, hnil, hpost⟩ := ih (show [] ++ x :: post = xs from hmid)
            obtain rfl := hnil.nil_left
            have hblock := Regrouped.block ha hb hl hr (.nil : Regrouped kept left right [] [])
            rw [List.append_nil, List.append_nil, hpre] at hblock
            exact ⟨hk, bs, post', rfl, hblock, hpost⟩
        | cons y mid =>
            obtain ⟨rfl, -⟩ := List.cons.inj hmid
            exact absurd (hl x (by simp [hpre])) hx
      · obtain ⟨hk, pre', post', rfl, hpre', hpost⟩ := ih hmid.symm
        refine ⟨hk, bs ++ pre', post', (List.append_assoc ..).symm, ?_, hpost⟩
        rw [hpre]
        exact .block ha hb hl hr hpre'

theorem Regrouped.cons_left (h : Regrouped kept left right (x :: xs) ys) (hx : ¬ left x) :
    kept x ∧ ∃ ys', ys = x :: ys' ∧ Regrouped kept left right xs ys' := by
  have hsplit : Regrouped kept left right ([] ++ x :: xs) ys := h
  obtain ⟨hk, pre', post', rfl, hpre, hpost⟩ := hsplit.split hx
  obtain rfl := hpre.nil_left
  exact ⟨hk, post', rfl, hpost⟩

/-- A list without blocks stays as it is. -/
theorem Regrouped.rigid (h : Regrouped kept left right xs ys) (hx : ∀ x ∈ xs, ¬ left x) :
    ys = xs ∧ ∀ x ∈ xs, kept x := by
  induction xs generalizing ys with
  | nil => exact ⟨h.nil_left, by simp⟩
  | cons x xs ih =>
      obtain ⟨hk, ys', rfl, hxs⟩ := h.cons_left (hx x List.mem_cons_self)
      obtain ⟨rfl, hrest⟩ := ih hxs fun y hy => hx y (List.mem_cons_of_mem _ hy)
      exact ⟨rfl, List.forall_mem_cons.2 ⟨hk, hrest⟩⟩

theorem Regrouped.suffix (h : Regrouped kept left right (pre ++ run) ys) (hrun : ∀ x ∈ run, ¬ left x) :
    ∃ pre', ys = pre' ++ run ∧ (∀ x ∈ run, kept x) ∧ Regrouped kept left right pre pre' := by
  cases run with
  | nil => exact ⟨ys, by simp, by simp, by simpa using h⟩
  | cons x run =>
      obtain ⟨hk, pre', post', rfl, hpre, hpost⟩ := h.split (hrun x List.mem_cons_self)
      obtain ⟨rfl, hrest⟩ := hpost.rigid fun y hy => hrun y (List.mem_cons_of_mem _ hy)
      exact ⟨pre', rfl, List.forall_mem_cons.2 ⟨hk, hrest⟩, hpre⟩

end Regrouping

end Migr8.Lib.Marking
