import Migr8.Normal
import Mathlib.Data.List.Forall2

namespace Migr8.Congruence

open Characters SqlText Scanner Pieces Migr8.Normal

variable {u : Unicode} {a b : Token} {toks toks' before before' : List Token} {kind : StatementKind} {text : Text}
  {names : List String} {c : Char}

/-- Tokens that differ at most in their place and, for literals, in what they hold. -/
def Alike (a b : Token) : Prop := a.kind = b.kind ∧ (a.kind ≠ .string → a.text = b.text)

theorem alike_of_shape (h : shape a = shape b) : Alike a b := by
  simp only [shape, Prod.mk.injEq] at h
  exact ⟨h.1, fun _ => h.2⟩

theorem forall₂_of_shapes (h : toks.map shape = toks'.map shape) :
    List.Forall₂ (fun a b => shape a = shape b) toks toks' := by
  rwa [← List.forall₂_eq_eq_eq, List.forall₂_map_left_iff, List.forall₂_map_right_iff] at h

theorem forall₂_alike (h : toks.map shape = toks'.map shape) : List.Forall₂ Alike toks toks' :=
  (forall₂_of_shapes h).imp fun _ _ => alike_of_shape

section Alike

theorem Alike.word (h : Alike a b) (hk : a.kind = .word) : b.kind = .word ∧ a.upper u = b.upper u := by
  obtain ⟨hkind, htext⟩ := h
  rw [Token.upper, Token.upper, htext (by simp [hk]), ← hkind]
  exact ⟨hk, rfl⟩

theorem Alike.isPunct (h : Alike a b) : a.isPunct c = b.isPunct c := by
  obtain ⟨hkind, htext⟩ := h
  by_cases hk : a.kind = .punct
  · rw [Token.isPunct, Token.isPunct, ← hkind, htext (by simp [hk])]
  · rw [Token.isPunct, Token.isPunct, ← hkind]
    simp [hk]

theorem words_congr (h : List.Forall₂ Alike toks toks') : words u toks = words u toks' := by
  induction h with
  | nil => rfl
  | @cons a b as bs hab _ ih =>
      unfold words at ih ⊢
      by_cases hk : a.kind = .word
      · obtain ⟨hk', hu⟩ := hab.word (u := u) hk
        simp [hk, hk', hu, ih]
      · have hk' : b.kind ≠ .word := hab.1 ▸ hk
        simp [hk, hk', ih]

theorem leadOf_congr (h : List.Forall₂ Alike toks toks') : leadOf u toks = leadOf u toks' := by
  rw [leadOf, leadOf, words_congr h]

theorem identifierWords_congr (h : List.Forall₂ Alike toks toks') :
    identifierWords u toks = identifierWords u toks' := by
  have hquoted : (toks.filter fun t => t.kind = .quotedIdent).map (fun t => String.ofList (u.upper (inner t.text))) =
      (toks'.filter fun t => t.kind = .quotedIdent).map fun t => String.ofList (u.upper (inner t.text)) := by
    induction h with
    | nil => rfl
    | @cons a b as bs hab _ ih =>
        by_cases hk : a.kind = .quotedIdent
        · have hk' : b.kind = .quotedIdent := hab.1 ▸ hk
          simp [hk, hk', hab.2 (by simp [hk]), ih]
        · have hk' : b.kind ≠ .quotedIdent := hab.1 ▸ hk
          simp [hk, hk', ih]
  rw [identifierWords, identifierWords, words_congr h, hquoted]

theorem mainVerbFrom_congr (h : List.Forall₂ Alike toks toks') (depth : Int) :
    mainVerbFrom u depth toks = mainVerbFrom u depth toks' := by
  induction h generalizing depth with
  | nil => rfl
  | @cons a b as bs hab _ ih =>
      unfold mainVerbFrom
      by_cases hk : a.kind = .punct
      · have hk' : b.kind = .punct := hab.1 ▸ hk
        simp only [hk, hk', if_true, hab.2 (by simp [hk]), ih]
      · have hk' : b.kind ≠ .punct := hab.1 ▸ hk
        rw [if_neg hk, if_neg hk', ih]
        by_cases hw : a.kind = .word
        · obtain ⟨hw', hu⟩ := hab.word (u := u) hw
          simp only [hw, hw', hu]
        · have hw' : b.kind ≠ .word := hab.1 ▸ hw
          simp only [hw, hw', false_and, and_false, if_false]

theorem cteMainVerb_congr (h : List.Forall₂ Alike toks toks') : cteMainVerb u toks = cteMainVerb u toks' := by
  unfold cteMainVerb
  cases h with
  | nil => rfl
  | cons _ h => exact mainVerbFrom_congr h 0

theorem followsAs_congr (h : List.Forall₂ Alike before before') : followsAs u before = followsAs u before' := by
  have hread : (before.take 3).map (fun t => if t.kind = .word then t.upper u else "") =
      (before'.take 3).map fun t => if t.kind = .word then t.upper u else "" := by
    have htake := List.forall₂_take 3 h
    generalize before.take 3 = x at htake ⊢
    generalize before'.take 3 = y at htake ⊢
    induction htake with
    | nil => rfl
    | @cons a b as bs hab _ ih =>
        by_cases hk : a.kind = .word
        · obtain ⟨hk', hu⟩ := hab.word (u := u) hk
          simp [hk, hk', hu, ih]
        · have hk' : b.kind ≠ .word := hab.1 ▸ hk
          simp [hk, hk', ih]
  unfold followsAs
  rw [hread]

theorem bodyVerbsFrom_congr (h : List.Forall₂ Alike toks toks') (hb : List.Forall₂ Alike before before') (depth : Int) :
    bodyVerbsFrom u before depth toks = bodyVerbsFrom u before' depth toks' := by
  induction h generalizing before before' depth with
  | nil => rfl
  | @cons a b as bs hab hrest ih =>
      have hcons := List.Forall₂.cons hab hb
      unfold bodyVerbsFrom
      rw [← hab.isPunct, ← hab.isPunct, ih hcons, ih hcons, ih hcons, followsAs_congr hb]
      cases hrest with
      | nil => rfl
      | @cons a' b' as bs hab' _ =>
          by_cases hk : a'.kind = .word
          · obtain ⟨hk', hu⟩ := hab'.word (u := u) hk
            simp only [hk, hk', hu]
          · have hk' : b'.kind ≠ .word := hab'.1 ▸ hk
            simp only [hk, hk', false_and, and_false, if_false]

theorem cteBodyVerbs_congr (h : List.Forall₂ Alike toks toks') : cteBodyVerbs u toks = cteBodyVerbs u toks' :=
  bodyVerbsFrom_congr h .nil 0

end Alike

section Shapes

theorem strings_congr (h : List.Forall₂ (fun a b => shape a = shape b) toks toks') :
    stringsInIdentifierPosition u toks = stringsInIdentifierPosition u toks' := by
  induction h with
  | nil => rfl
  | @cons a b as bs hab hrest ih =>
      cases hrest with
      | nil => rfl
      | @cons a' b' as bs hab' hrest =>
          have hposition : inIdentifierPosition u a = inIdentifierPosition u b := by
            have halike := alike_of_shape hab
            unfold inIdentifierPosition
            rw [halike.isPunct, halike.1]
            by_cases hk : a.kind = .word
            · rw [(halike.word (u := u) hk).2]
            · simp [← halike.1, hk]
          have hvalue : stringValue a' = stringValue b' := by
            simp only [shape, Prod.mk.injEq] at hab'
            rw [stringValue, stringValue, hab'.1, hab'.2]
          unfold stringsInIdentifierPosition
          rw [hposition, hvalue, ih]

theorem doBodyNames_congr (h : List.Forall₂ (fun a b => shape a = shape b) toks toks') :
    doBodyNames u toks = doBodyNames u toks' := by
  induction h with
  | nil => rfl
  | @cons a b as bs hab _ ih =>
      simp only [shape, Prod.mk.injEq] at hab
      unfold doBodyNames doBody
      rw [hab.1, hab.2, ih]

theorem namesIn_congr (h : List.Forall₂ (fun a b => shape a = shape b) toks toks') :
    namesIn u toks = namesIn u toks' := by
  have halike := h.imp fun _ _ => alike_of_shape
  unfold namesIn
  rw [leadOf_congr halike, identifierWords_congr halike, doBodyNames_congr h]

/-- A statement is made of its text and of what its tokens are, not of where they stand. -/
theorem build_congr (h : List.Forall₂ (fun a b => shape a = shape b) toks toks') :
    build u kind text toks names = build u kind text toks' names := by
  have halike := h.imp fun _ _ => alike_of_shape
  unfold build
  rw [leadOf_congr halike, strings_congr h, cteMainVerb_congr halike, cteBodyVerbs_congr halike]

end Shapes

end Migr8.Congruence
