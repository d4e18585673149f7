import Mathlib.Data.List.DropRight
import Mathlib.Data.Char

namespace Migr8.Characters

abbrev Text := List Char

theorem forall_of_all {p : Char → Prop} [DecidablePred p] {s : Text} (h : s.all (fun c => decide (p c)) = true) :
    ∀ c ∈ s, p c := by
  intro c hc
  exact of_decide_eq_true (List.all_eq_true.1 h c hc)

/-- The six characters that the scanner steps over. -/
def isGap (c : Char) : Bool := c ∈ [' ', '\t', '\r', '\n', '\x0c', '\x0b']

def isAsciiSpace (c : Char) : Bool := isGap c || ('\x1c' ≤ c && c ≤ '\x1f')

/-- The character tables of the interpreter. The laws are all that is known of the
characters from 128 on: no white space is alphanumeric, and the upper case of none
of them starts like a prefixed literal does. -/
structure Unicode where
  isAlpha : Char → Bool
  isDigit : Char → Bool
  isAlnum : Char → Bool
  isSpace : Char → Bool
  upperChar : Char → Text
  alpha_alnum : ∀ c, isAlpha c = true → isAlnum c = true
  digit_alnum : ∀ c, isDigit c = true → isAlnum c = true
  space_alnum : ∀ c, isSpace c = true → isAlnum c = false
  ascii_alpha : ∀ c : Char, c.toNat < 128 → isAlpha c = c.isAlpha
  ascii_digit : ∀ c : Char, c.toNat < 128 → isDigit c = c.isDigit
  ascii_alnum : ∀ c : Char, c.toNat < 128 → isAlnum c = c.isAlphanum
  ascii_space : ∀ c : Char, c.toNat < 128 → isSpace c = isAsciiSpace c
  ascii_upper : ∀ c : Char, c.toNat < 128 → upperChar c = [c.toUpper]
  upper_head : ∀ c : Char, ¬ c.toNat < 128 → ∃ d t, upperChar c = d :: t ∧ d ∉ ['N', 'Q', '\'']

theorem isAsciiSpace_lt {c : Char} (h : isAsciiSpace c = true) : c.toNat < 33 := by
  simp only [isAsciiSpace, isGap, List.mem_cons, List.not_mem_nil, or_false, Bool.or_eq_true, decide_eq_true_eq,
    Bool.and_eq_true] at h
  obtain (rfl | rfl | rfl | rfl | rfl | rfl) | ⟨_, h⟩ := h
  any_goals decide
  have hle : c.toNat ≤ 31 := UInt32.le_iff_toNat_le.1 h
  omega

theorem isAlphanum_bounds {c : Char} (h : c.isAlphanum = true) : 33 ≤ c.toNat ∧ c.toNat < 128 := by
  have hA : 'A'.val.toNat = 65 := rfl
  have hZ : 'Z'.val.toNat = 90 := rfl
  have ha : 'a'.val.toNat = 97 := rfl
  have hz : 'z'.val.toNat = 122 := rfl
  have h0 : '0'.val.toNat = 48 := rfl
  have h9 : '9'.val.toNat = 57 := rfl
  have hc : c.toNat = c.val.toNat := rfl
  have hdef : c.isAlphanum = ((decide ('A'.val ≤ c.val ∧ c.val ≤ 'Z'.val) ||
      (decide ('a'.val ≤ c.val) && decide (c.val ≤ 'z'.val))) ||
      (decide ('0'.val ≤ c.val) && decide (c.val ≤ '9'.val))) := rfl
  rw [hdef] at h
  simp only [Bool.or_eq_true, Bool.and_eq_true, decide_eq_true_eq, UInt32.le_iff_toNat_le] at h
  omega

theorem toUpper_other {c : Char} (h : ¬ c.toNat < 128) : c.toUpper = c := by
  apply dif_neg
  intro hz
  have hle : c.toNat ≤ 122 := UInt32.le_iff_toNat_le.1 hz.2
  omega

def Unicode.ascii : Unicode where
  isAlpha := Char.isAlpha
  isDigit := Char.isDigit
  isAlnum := Char.isAlphanum
  isSpace := isAsciiSpace
  upperChar c := [c.toUpper]
  alpha_alnum c h := by simp [Char.isAlphanum, h]
  digit_alnum c h := by simp [Char.isAlphanum, h]
  space_alnum c h := by
    rw [Bool.eq_false_iff]
    intro ha
    have hlt := isAsciiSpace_lt h
    have hge := (isAlphanum_bounds ha).1
    omega
  ascii_alpha _ _ := rfl
  ascii_digit _ _ := rfl
  ascii_alnum _ _ := rfl
  ascii_space _ _ := rfl
  ascii_upper _ _ := rfl
  upper_head c h := by
    refine ⟨c, [], by rw [toUpper_other h], ?_⟩
    simp only [List.mem_cons, List.not_mem_nil, or_false]
    rintro (rfl | rfl | rfl) <;> exact h (by decide)

variable (u : Unicode)

def Unicode.upper (t : Text) : Text := t.flatMap u.upperChar

def Unicode.strip (t : Text) : Text := (t.dropWhile u.isSpace).rdropWhile u.isSpace

def Unicode.split (t : Text) : List Text := (t.splitOnP u.isSpace).filter (· ≠ [])

end Migr8.Characters
