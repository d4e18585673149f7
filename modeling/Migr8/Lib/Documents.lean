import Mathlib.Data.Nat.Digits.Lemmas
import Mathlib.Data.List.Basic

namespace Migr8.Lib.Documents

/-- The code points of a string. A lone surrogate counts as one. -/
abbrev Str := List Nat

inductive Shape where
  | value | items | members

/-- The values of a document. Of a number that is no integer the literal is kept, and
an object keeps its members in the order they are written in. -/
inductive Json : Shape → Type where
  | null : Json .value
  | bool (b : Bool) : Json .value
  | int (n : Int) : Json .value
  | float (literal : List Char) : Json .value
  | str (s : Str) : Json .value
  | arr (items : Json .items) : Json .value
  | obj (members : Json .members) : Json .value
  | nil : Json .items
  | cons (j : Json .value) (rest : Json .items) : Json .items
  | none : Json .members
  | member (key : Str) (j : Json .value) (rest : Json .members) : Json .members
  deriving Repr

abbrev Value := Json .value

def nesting {s : Shape} : Json s → Nat
  | .arr items => nesting items + 1
  | .obj members => nesting members + 1
  | .cons j rest => max (nesting j) (nesting rest)
  | .member _ j rest => max (nesting j) (nesting rest)
  | _ => 0

def count {s : Shape} : Json s → Nat
  | .cons _ rest => count rest + 1
  | .member _ _ rest => count rest + 1
  | _ => 0

def elements {s : Shape} : Json s → List Value
  | .cons j rest => j :: elements rest
  | _ => []

def pairs {s : Shape} : Json s → List (Str × Value)
  | .member key j rest => (key, j) :: pairs rest
  | _ => []

def ofElements : List Value → Json .items
  | [] => .nil
  | j :: js => .cons j (ofElements js)

def ofPairs : List (Str × Value) → Json .members
  | [] => .none
  | (key, j) :: ms => .member key j (ofPairs ms)

@[simp] theorem elements_ofElements (js : List Value) : elements (ofElements js) = js := by
  induction js with
  | nil => rfl
  | cons j js ih => exact congrArg (j :: ·) ih

@[simp] theorem pairs_ofPairs (ms : List (Str × Value)) : pairs (ofPairs ms) = ms := by
  induction ms with
  | nil => rfl
  | cons m ms ih => exact congrArg (m :: ·) ih

section Strings

def isHigh (c : Nat) : Bool := 0xd800 ≤ c && c ≤ 0xdbff

def isLow (c : Nat) : Bool := 0xdc00 ≤ c && c ≤ 0xdfff

def hexDigit (n : Nat) : Char := if n < 10 then Char.ofNat (48 + n) else Char.ofNat (87 + n)

def hexValue (c : Char) : Option Nat :=
  if '0' ≤ c ∧ c ≤ '9' then some (c.toNat - 48)
  else if 'a' ≤ c ∧ c ≤ 'f' then some (c.toNat - 87)
  else if 'A' ≤ c ∧ c ≤ 'F' then some (c.toNat - 55)
  else none

def hex4 (n : Nat) : List Char :=
  [hexDigit (n / 4096 % 16), hexDigit (n / 256 % 16), hexDigit (n / 16 % 16), hexDigit (n % 16)]

def readHex (a b c d : Char) : Option Nat := do
  let a ← hexValue a
  let b ← hexValue b
  let c ← hexValue c
  let d ← hexValue d
  return ((a * 16 + b) * 16 + c) * 16 + d

def units (c : Nat) : List Nat :=
  if c < 0x10000 then [c] else [0xd800 + (c - 0x10000) / 1024, 0xdc00 + (c - 0x10000) % 1024]

/-- A high and a low surrogate in a row are one code point. -/
def joinPairs : List Nat → Str
  | [] => []
  | [c] => [c]
  | hi :: lo :: rest =>
      if isHigh hi ∧ isLow lo then (0x10000 + (hi - 0xd800) * 1024 + (lo - 0xdc00)) :: joinPairs rest
      else hi :: joinPairs (lo :: rest)

def escapeUnit (c : Nat) : List Char :=
  if c = 34 then ['\\', '"']
  else if c = 92 then ['\\', '\\']
  else if c = 10 then ['\\', 'n']
  else if c = 13 then ['\\', 'r']
  else if c = 9 then ['\\', 't']
  else if c = 12 then ['\\', 'f']
  else if c = 8 then ['\\', 'b']
  else if 32 ≤ c ∧ c ≤ 126 then [Char.ofNat c]
  else '\\' :: 'u' :: hex4 c

def escape (t : Str) : List Char := (t.flatMap units).flatMap escapeUnit

def encodeString (t : Str) : List Char := '"' :: escape t ++ ['"']

inductive Failure where
  | value | recursion
  deriving DecidableEq, Repr

def simpleEscape (c : Char) : Option Nat :=
  if c = '"' then some 34
  else if c = '\\' then some 92
  else if c = '/' then some 47
  else if c = 'b' then some 8
  else if c = 'f' then some 12
  else if c = 'n' then some 10
  else if c = 'r' then some 13
  else if c = 't' then some 9
  else none

def push (c : Nat) (r : Except Failure (List Nat × List Char)) : Except Failure (List Nat × List Char) :=
  r.map fun (cs, rest) => (c :: cs, rest)

/-- The units of a string literal, from behind its first quote to behind its last one. -/
def scanUnits : List Char → Except Failure (List Nat × List Char)
  | [] => .error .value
  | '"' :: rest => .ok ([], rest)
  | '\\' :: 'u' :: a :: b :: c :: d :: rest =>
      match readHex a b c d with
      | some n => push n (scanUnits rest)
      | none => .error .value
  | '\\' :: e :: rest =>
      match simpleEscape e with
      | some n => push n (scanUnits rest)
      | none => .error .value
  | c :: rest => if c.toNat < 32 ∨ c = '\\' then .error .value else push c.toNat (scanUnits rest)

def scanString (t : List Char) : Except Failure (Str × List Char) := (scanUnits t).map fun (cs, rest) =>
    (joinPairs cs, rest)

end Strings

section Numbers

def decimal (n : Nat) : List Char := if n = 0 then ['0'] else (Nat.digits 10 n).reverse.map fun d => Char.ofNat (48 + d)

def decimalValue (ds : List Char) : Nat := ds.foldl (fun n c => n * 10 + (c.toNat - 48)) 0

def intText (n : Int) : List Char := if n < 0 then '-' :: decimal n.natAbs else decimal n.natAbs

def isDigit (c : Char) : Bool := '0' ≤ c && c ≤ '9'

/-- `(\.[0-9]+)?` -/
def fraction (t : List Char) : List Char × List Char :=
  match t with
  | '.' :: rest =>
      if rest.takeWhile isDigit = [] then ([], t) else ('.' :: rest.takeWhile isDigit, rest.dropWhile isDigit)
  | _ => ([], t)

def exponentSign (t : List Char) : List Char × List Char :=
  match t with
  | '+' :: rest => (['+'], rest)
  | '-' :: rest => (['-'], rest)
  | _ => ([], t)

/-- `([eE][-+]?[0-9]+)?` -/
def exponent (t : List Char) : List Char × List Char :=
  match t with
  | c :: rest =>
      if (c = 'e' ∨ c = 'E') ∧ (exponentSign rest).2.takeWhile isDigit ≠ [] then
        (c :: (exponentSign rest).1 ++ (exponentSign rest).2.takeWhile isDigit, (exponentSign rest).2.dropWhile isDigit)
      else ([], t)
  | [] => ([], t)

/-- An integer of more digits than the limit is refused. -/
def finishNumber (digitLimit : Nat) (negative : Bool) (ds rest : List Char) : Except Failure (Value × List Char) :=
  let f := fraction rest
  let e := exponent f.2
  let sign : List Char := if negative then ['-'] else []
  if f.1 = [] ∧ e.1 = [] then
    if digitLimit < ds.length then .error .value
    else .ok (.int (if negative then -(decimalValue ds : Int) else decimalValue ds), rest)
  else .ok (.float (sign ++ ds ++ f.1 ++ e.1), e.2)

def scanDigits (digitLimit : Nat) (negative : Bool) (t : List Char) : Except Failure (Value × List Char) :=
  match t with
  | [] => .error .value
  | c :: rest =>
      if c = '0' then finishNumber digitLimit negative ['0'] rest
      else if isDigit c then finishNumber digitLimit negative (c :: rest.takeWhile isDigit) (rest.dropWhile isDigit)
      else .error .value

def scanNumber (digitLimit : Nat) (t : List Char) : Except Failure (Value × List Char) :=
  match t with
  | '-' :: rest => scanDigits digitLimit true rest
  | _ => scanDigits digitLimit false t

end Numbers

section Printer

def newline (level : Nat) : List Char := '\n' :: List.replicate (2 * level) ' '

/-- `json.dumps` with `indent=2`. In a list and in an object every entry but the first
follows a comma. -/
def dumps {s : Shape} : Json s → Nat → List Char
  | .null, _ => ['n', 'u', 'l', 'l']
  | .bool true, _ => ['t', 'r', 'u', 'e']
  | .bool false, _ => ['f', 'a', 'l', 's', 'e']
  | .int n, _ => intText n
  | .float literal, _ => literal
  | .str t, _ => encodeString t
  | .arr .nil, _ => ['[', ']']
  | .arr (.cons j rest), level =>
      '[' :: newline (level + 1) ++ dumps j (level + 1) ++ dumps rest (level + 1) ++ newline level ++ [']']
  | .obj .none, _ => ['{', '}']
  | .obj (.member key j rest), level =>
      '{' :: newline (level + 1) ++ encodeString key ++ [':', ' '] ++ dumps j (level + 1) ++ dumps rest (level + 1) ++
        newline level ++ ['}']
  | .nil, _ => []
  | .cons j rest, level => ',' :: newline level ++ dumps j level ++ dumps rest level
  | .none, _ => []
  | .member key j rest, level =>
      ',' :: newline level ++ encodeString key ++ [':', ' '] ++ dumps j level ++ dumps rest level

end Printer

section Parser

abbrev Scanner (α : Type) := List Char → Except Failure (α × List Char)

def isWs (c : Char) : Bool := c = ' ' || c = '\t' || c = '\n' || c = '\r'

def skipWs (t : List Char) : List Char := t.dropWhile isWs

def someElements (p : Scanner Value) (more : Scanner (Json .items)) : Scanner (Json .items) := fun t => do
  let (j, rest) ← p t
  let (js, rest) ← more rest
  return (.cons j js, rest)

def moreElements (p : Scanner Value) : Nat → Scanner (Json .items)
  | 0, _ => .error .value
  | fuel + 1, t =>
      match skipWs t with
      | ',' :: rest => someElements p (moreElements p fuel) (skipWs rest)
      | ']' :: rest => .ok (.nil, rest)
      | _ => .error .value

def scanArray (p : Scanner Value) (t : List Char) : Except Failure (Value × List Char) :=
  match skipWs t with
  | ']' :: rest => .ok (.arr .nil, rest)
  | t => (someElements p (moreElements p (t.length + 1)) t).map fun (js, rest) => (.arr js, rest)

def afterKey (p : Scanner Value) (key : Str) : Scanner (Str × Value) := fun t =>
  match skipWs t with
  | ':' :: rest => (p (skipWs rest)).map fun (j, rest) => ((key, j), rest)
  | _ => .error .value

def scanMember (p : Scanner Value) : Scanner (Str × Value) := fun t =>
  match t with
  | '"' :: rest => do
      let (key, rest) ← scanString rest
      afterKey p key rest
  | _ => .error .value

def someMembers (p : Scanner Value) (more : Scanner (Json .members)) : Scanner (Json .members) := fun t => do
  let (m, rest) ← scanMember p t
  let (ms, rest) ← more rest
  return (.member m.1 m.2 ms, rest)

def moreMembers (p : Scanner Value) : Nat → Scanner (Json .members)
  | 0, _ => .error .value
  | fuel + 1, t =>
      match skipWs t with
      | ',' :: rest => someMembers p (moreMembers p fuel) (skipWs rest)
      | '}' :: rest => .ok (.none, rest)
      | _ => .error .value

def scanObject (p : Scanner Value) (t : List Char) : Except Failure (Value × List Char) :=
  match skipWs t with
  | '}' :: rest => .ok (.obj .none, rest)
  | t => (someMembers p (moreMembers p (t.length + 1)) t).map fun (ms, rest) => (.obj ms, rest)

def literals : List (List Char × Value) :=
  [("null".toList, .null), ("true".toList, .bool true), ("false".toList, .bool false),
    ("NaN".toList, .float "NaN".toList), ("Infinity".toList, .float "Infinity".toList),
    ("-Infinity".toList, .float "-Infinity".toList)]

/-- What is open is read by `inner`, if there is room for another level. -/
def enter (inner : Option (Scanner Value)) (read : Scanner Value → Scanner Value) : Scanner Value :=
  match inner with
  | some p => read p
  | none => fun _ => .error .recursion

def scanValue (digitLimit : Nat) (inner : Option (Scanner Value)) : Scanner Value := fun t =>
  match t with
  | '"' :: rest => (scanString rest).map fun (s, rest) => (.str s, rest)
  | '{' :: rest => enter inner scanObject rest
  | '[' :: rest => enter inner scanArray rest
  | _ =>
      match literals.find? fun l => l.1.isPrefixOf t with
      | some (word, j) => .ok (j, t.drop word.length)
      | none => scanNumber digitLimit t

structure Limits where
  nesting : Nat
  digits : Nat

def scanOnce (digitLimit : Nat) : Nat → Scanner Value
  | 0 => scanValue digitLimit none
  | level + 1 => scanValue digitLimit (some (scanOnce digitLimit level))

/-- `json.loads` -/
def loads (limits : Limits) (t : List Char) : Except Failure Value :=
  if t.head? = some '\ufeff' then .error .value
  else do
    let (j, rest) ← scanOnce limits.digits limits.nesting (skipWs t)
    if skipWs rest = [] then return j else .error .value

end Parser

section StringRoundTrip

variable {c n : Nat} {t : Str} {rest : List Char}

theorem hexValue_hexDigit : ∀ n < 16, hexValue (hexDigit n) = some n := by decide

theorem readHex_hex4 (n : Nat) :
    readHex (hexDigit (n / 4096 % 16)) (hexDigit (n / 256 % 16)) (hexDigit (n / 16 % 16)) (hexDigit (n % 16)) =
      some (n % 0x10000) := by
  have hdigit (m : Nat) : hexValue (hexDigit (m % 16)) = some (m % 16) := hexValue_hexDigit _ (Nat.mod_lt _ (by omega))
  rw [readHex, hdigit, hdigit, hdigit, hdigit]
  apply congrArg some
  omega

theorem scanUnits_simple {e : Char} (he : simpleEscape e = some n) :
    scanUnits ('\\' :: e :: rest) = push n (scanUnits rest) := by
  have hu : e ≠ 'u' := by
    rintro rfl
    cases he
  rw [scanUnits]
  · rw [he]
  · intro a b c d rest' h
    exact absurd h hu

theorem scanUnits_plain {e : Char} (hq : e ≠ '"') (hb : e ≠ '\\') (h : 32 ≤ e.toNat) :
    scanUnits (e :: rest) = push e.toNat (scanUnits rest) := by
  rw [scanUnits]
  · rw [if_neg]
    rintro (hlt | heq)
    · omega
    · exact hb heq
  · exact fun he => hq he
  · intro a b c d rest' he
    exact absurd he hb
  · intro e' rest' he
    exact absurd he hb

theorem scanUnits_hex (n : Nat) : scanUnits ('\\' :: 'u' :: hex4 n ++ rest) = push (n % 0x10000) (scanUnits rest) := by
  rw [hex4, List.cons_append, List.cons_append, List.cons_append, List.cons_append, List.cons_append, List.cons_append,
    List.nil_append, scanUnits, readHex_hex4]

theorem scanUnits_escapeUnit (c : Nat) : scanUnits (escapeUnit c ++ rest) = push (c % 0x10000) (scanUnits rest) := by
  by_cases hx : c < 127
  · rw [Nat.mod_eq_of_lt (by omega)]
    unfold escapeUnit
    split_ifs with h1 h2 h3 h4 h5 h6 h7 h8
    · subst h1
      exact scanUnits_simple rfl
    · subst h2
      exact scanUnits_simple rfl
    · subst h3
      exact scanUnits_simple rfl
    · subst h4
      exact scanUnits_simple rfl
    · subst h5
      exact scanUnits_simple rfl
    · subst h6
      exact scanUnits_simple rfl
    · subst h7
      exact scanUnits_simple rfl
    · have hn : (Char.ofNat c).toNat = c := by
        have hv : c.isValidChar := .inl (by omega)
        rw [Char.ofNat, dif_pos hv]
        rfl
      have hne {d : Char} (hd : d.toNat ≠ c) : Char.ofNat c ≠ d := by
        rintro rfl
        exact hd hn
      have hp : scanUnits (Char.ofNat c :: rest) = push (Char.ofNat c).toNat (scanUnits rest) :=
        scanUnits_plain (hne (d := '"') (Ne.symm h1)) (hne (d := '\\') (Ne.symm h2)) (by rw [hn]; omega)
      rw [hn] at hp
      exact hp
    · have hh : scanUnits ('\\' :: 'u' :: hex4 c ++ rest) = push (c % 0x10000) (scanUnits rest) := scanUnits_hex c
      rw [Nat.mod_eq_of_lt (by omega)] at hh
      exact hh
  · have he : escapeUnit c = '\\' :: 'u' :: hex4 c := by
      unfold escapeUnit
      rw [if_neg (by omega), if_neg (by omega), if_neg (by omega), if_neg (by omega), if_neg (by omega),
        if_neg (by omega), if_neg (by omega), if_neg (by omega)]
    rw [he]
    exact scanUnits_hex c

def IsScalar (c : Nat) : Prop := c < 0xd800 ∨ 0xdfff < c ∧ c < 0x110000

theorem units_lt (hc : IsScalar c) : ∀ x ∈ units c, x % 0x10000 = x := by
  intro x hx
  unfold units at hx
  unfold IsScalar at hc
  split at hx
  · rw [List.mem_singleton] at hx
    omega
  · rcases List.mem_pair.1 hx with he | he
    · rw [he]
      omega
    · rw [he]
      omega

theorem scanUnits_escape (us : List Nat) :
    scanUnits (us.flatMap escapeUnit ++ '"' :: rest) = .ok (us.map (· % 0x10000), rest) := by
  induction us with
  | nil => rw [List.flatMap_nil, List.nil_append, scanUnits, List.map_nil]
  | cons x us ih =>
      rw [List.flatMap_cons, List.append_assoc, scanUnits_escapeUnit, ih]
      rfl

theorem joinPairs_cons {us : List Nat} (h : isHigh c = false) : joinPairs (c :: us) = c :: joinPairs us := by
  cases us with
  | nil => rfl
  | cons d us =>
      rw [joinPairs, if_neg]
      rintro ⟨hc, -⟩
      rw [h] at hc
      cases hc

theorem joinPairs_units (hc : IsScalar c) (us : List Nat) : joinPairs (units c ++ us) = c :: joinPairs us := by
  unfold units IsScalar at *
  split
  · apply joinPairs_cons
    simp only [isHigh, Bool.and_eq_false_iff, decide_eq_false_iff_not]
    omega
  · have hc' :
      0x10000 + (0xd800 + (c - 0x10000) / 1024 - 0xd800) * 1024 + (0xdc00 + (c - 0x10000) % 1024 - 0xdc00) = c := by
      omega
    rw [List.cons_append, List.singleton_append, joinPairs, if_pos, hc']
    · simp only [isHigh, isLow, Bool.and_eq_true, decide_eq_true_eq]
      omega

/-- What a string is after it was written and read: two surrogates that stood side by side are one code point. -/
def rereadText (t : Str) : Str := joinPairs ((t.flatMap units).map (· % 0x10000))

theorem scanString_escape (t : Str) : scanString (escape t ++ '"' :: rest) = .ok (rereadText t, rest) := by
  rw [scanString, escape, scanUnits_escape]
  rfl

/-- A string without surrogates is read back as it was. -/
theorem rereadText_scalar (h : ∀ c ∈ t, IsScalar c) : rereadText t = t := by
  induction t with
  | nil => rfl
  | cons c t ih =>
      have hc : (units c).map (· % 0x10000) = units c := 
        (List.map_congr_left (units_lt (h c List.mem_cons_self))).trans (List.map_id' (units c))
      rw [rereadText, List.flatMap_cons, List.map_append, hc, joinPairs_units (h c List.mem_cons_self)]
      exact congrArg (c :: ·) (ih fun d hd => h d (List.mem_cons_of_mem _ hd))

end StringRoundTrip

section NumberRoundTrip

variable {digitLimit : Nat} {rest : List Char}

theorem digit_ofNat : ∀ d < 10, isDigit (Char.ofNat (48 + d)) = true ∧ (Char.ofNat (48 + d)).toNat - 48 = d := by
  decide

theorem decimal_pos {n : Nat} (h : n ≠ 0) :
    decimal n = (Nat.digits 10 n).reverse.map fun d => Char.ofNat (48 + d) := if_neg h

theorem digit_toNat {c : Char} (hc : isDigit c = true) : c.toNat - 48 < 10 ∧ (c.toNat - 48 = 0 → c = '0') := by
  rw [isDigit, Bool.and_eq_true, decide_eq_true_eq, decide_eq_true_eq] at hc
  have hlo : 48 ≤ c.toNat := hc.1
  have hhi : c.toNat ≤ 57 := hc.2
  refine ⟨by omega, fun hz => ?_⟩
  have heq : c.toNat = '0'.toNat := by
    change c.toNat = 48
    omega
  exact Char.toNat_inj.1 heq

theorem digits_length {ds : List Char} (hne : ds ≠ []) (hd : ∀ d ∈ ds, isDigit d = true) (h0 : ds.head? ≠ some '0') :
    (decimal (decimalValue ds)).length = ds.length := by
  have hval : ∀ l : List Char, l.reverse.foldl (fun n c => n * 10 + (c.toNat - 48)) 0 =
      Nat.ofDigits 10 (l.map fun c => c.toNat - 48) := by
    intro l
    induction l with
    | nil => rfl
    | cons c l ih =>
        rw [List.reverse_cons, List.foldl_append, ih, List.map_cons, Nat.ofDigits_cons]
        exact (Nat.mul_comm _ _).symm ▸ Nat.add_comm _ _
  have hof : decimalValue ds = Nat.ofDigits 10 (ds.reverse.map fun c => c.toNat - 48) := by
    rw [← hval, List.reverse_reverse, decimalValue]
  have hdigits : Nat.digits 10 (decimalValue ds) = ds.reverse.map fun c => c.toNat - 48 := by
    rw [hof]
    apply Nat.digits_ofDigits 10 (by omega)
    · intro x hx
      obtain ⟨c, hc, rfl⟩ := List.mem_map.1 hx
      exact (digit_toNat (hd c (List.mem_reverse.1 hc))).1
    · intro hne'
      rw [List.getLast_map, List.getLast_reverse]
      intro hz
      exact h0 ((List.head?_eq_some_head hne).trans (congrArg some
        ((digit_toNat (hd _ (List.head_mem hne))).2 hz)))
  have hnz : decimalValue ds ≠ 0 := by
    intro hz
    rw [hz, Nat.digits_zero] at hdigits
    exact hne (List.reverse_eq_nil_iff.1 (List.map_eq_nil_iff.1 hdigits.symm))
  rw [decimal_pos hnz, List.length_map, List.length_reverse, hdigits, List.length_map, List.length_reverse]

theorem decimalValue_decimal (n : Nat) : decimalValue (decimal n) = n := by
  by_cases h : n = 0
  · subst h
    rfl
  · have hfold : ∀ ds : List Nat, (∀ d ∈ ds, d < 10) →
        ds.foldr (fun d n => n * 10 + ((Char.ofNat (48 + d)).toNat - 48)) 0 = Nat.ofDigits 10 ds := by
      intro ds hds
      induction ds with
      | nil => rfl
      | cons d ds ih =>
          rw [List.foldr_cons, ih fun x hx => hds x (List.mem_cons_of_mem _ hx), Nat.ofDigits_cons,
            (digit_ofNat d (hds d List.mem_cons_self)).2]
          omega
    rw [decimal_pos h, decimalValue, List.foldl_map, List.foldl_reverse,
      hfold _ fun d hd => Nat.digits_lt_base (by omega) hd, Nat.ofDigits_digits]

/-- A number is no other one's beginning: its first digit is not zero, unless it is all there is. -/
theorem decimal_head (n : Nat) : decimal n = ['0'] ∨ ∃ c ds, decimal n = c :: ds ∧ c ≠ '0' ∧ isDigit c = true ∧
    ∀ d ∈ ds, isDigit d = true := by
  by_cases h : n = 0
  · exact .inl (by rw [h]; rfl)
  · refine .inr ?_
    have hne : Nat.digits 10 n ≠ [] := Nat.digits_ne_nil_iff_ne_zero.2 h
    have hlast := Nat.getLast_digit_ne_zero 10 h
    have hall : ∀ c ∈ decimal n, isDigit c = true := by
      intro c hc
      rw [decimal_pos h] at hc
      obtain ⟨d, hd, rfl⟩ := List.mem_map.1 hc
      exact (digit_ofNat d (Nat.digits_lt_base (by omega) (List.mem_reverse.1 hd))).1
    have hrev : (Nat.digits 10 n).reverse = (Nat.digits 10 n).getLast hne :: (Nat.digits 10 n).dropLast.reverse := by
      conv_lhs => rw [← List.dropLast_append_getLast hne]
      rw [List.reverse_append, List.reverse_singleton, List.singleton_append]
    have heq : decimal n = Char.ofNat (48 + (Nat.digits 10 n).getLast hne) ::
        (Nat.digits 10 n).dropLast.reverse.map fun d => Char.ofNat (48 + d) := by
      rw [decimal_pos h, hrev, List.map_cons]
    refine ⟨_, _, heq, ?_, ?_, ?_⟩
    · have hlt : (Nat.digits 10 n).getLast hne < 10 := Nat.digits_lt_base (by omega) (List.getLast_mem hne)
      intro hc
      have hz := (digit_ofNat _ hlt).2
      rw [hc] at hz
      exact hlast hz.symm
    · exact hall _ (by rw [heq]; exact List.mem_cons_self)
    · intro d hd
      exact hall _ (by rw [heq]; exact List.mem_cons_of_mem _ hd)

def Ends (rest : List Char) : Prop :=
  ∀ c ∈ rest.head?, isDigit c = false ∧ c ≠ '.' ∧ c ≠ 'e' ∧ c ≠ 'E'

theorem Ends.fraction (h : Ends rest) : fraction rest = ([], rest) := by
  unfold Documents.fraction
  split
  · exact absurd rfl (h '.' rfl).2.1
  · rfl

theorem Ends.exponent (h : Ends rest) : exponent rest = ([], rest) := by
  unfold Documents.exponent
  split
  · next c rest =>
      obtain ⟨-, -, he, hE⟩ := h c rfl
      rw [if_neg]
      rintro ⟨hc | hc, -⟩
      · exact he hc
      · exact hE hc
  · rfl

theorem Ends.takeWhile (h : Ends rest) {ds : List Char} (hd : ∀ d ∈ ds, isDigit d = true) :
    (ds ++ rest).takeWhile isDigit = ds ∧ (ds ++ rest).dropWhile isDigit = rest := by
  rw [List.takeWhile_append_of_pos hd, List.dropWhile_append_of_pos hd]
  cases rest with
  | nil => exact ⟨List.append_nil _, rfl⟩
  | cons c rest =>
      have hc := (h c rfl).1
      rw [List.takeWhile_cons_of_neg (by rw [hc]; exact Bool.false_ne_true),
        List.dropWhile_cons_of_neg (by rw [hc]; exact Bool.false_ne_true)]
      exact ⟨List.append_nil _, rfl⟩

theorem finishNumber_ends (h : Ends rest) (negative : Bool) {ds : List Char} (hl : ds.length ≤ digitLimit) :
    finishNumber digitLimit negative ds rest =
      .ok (.int (if negative then -(decimalValue ds : Int) else decimalValue ds), rest) := by
  unfold finishNumber
  rw [h.fraction]
  dsimp only
  rw [h.exponent, if_pos ⟨rfl, rfl⟩, if_neg (by omega)]

theorem scanDigits_decimal (h : Ends rest) (negative : Bool) (n : Nat) (hl : (decimal n).length ≤ digitLimit) :
    scanDigits digitLimit negative (decimal n ++ rest) = .ok (.int (if negative then -(n : Int) else n), rest) := by
  have hval := decimalValue_decimal n
  rcases decimal_head n with hz | ⟨c, ds, hds, hc, hdig, hall⟩
  · rw [hz] at hl hval ⊢
    rw [← hval, List.singleton_append, scanDigits, if_pos rfl, finishNumber_ends h negative hl]
  · rw [hds] at hl hval ⊢
    rw [← hval, List.cons_append, scanDigits, if_neg hc, if_pos hdig, (h.takeWhile hall).1, (h.takeWhile hall).2,
      finishNumber_ends h negative hl]

theorem decimal_starts (n : Nat) : ∃ c ds, decimal n = c :: ds ∧ isDigit c = true := by
  rcases decimal_head n with hz | ⟨c, ds, hds, -, hc, -⟩
  · exact ⟨'0', [], hz, rfl⟩
  · exact ⟨c, ds, hds, hc⟩

theorem digit_ne {c d : Char} (hc : isDigit c = true) (hd : isDigit d = false) : c ≠ d := by
  rintro rfl
  rw [hc] at hd
  cases hd

theorem scanNumber_intText (h : Ends rest) {n : Int} (hl : (decimal n.natAbs).length ≤ digitLimit) :
    scanNumber digitLimit (intText n ++ rest) = .ok (.int n, rest) := by
  unfold intText
  split
  · next hn =>
      rw [List.cons_append, scanNumber, scanDigits_decimal h true _ hl]
      simp only [if_true]
      have he : -((n.natAbs : Nat) : Int) = n := by omega
      rw [he]
  · next hn =>
      have hs : scanNumber digitLimit (decimal n.natAbs ++ rest) = scanDigits digitLimit false
          (decimal n.natAbs ++ rest) := by
        obtain ⟨c, ds, hds, hc⟩ := decimal_starts n.natAbs
        rw [hds, List.cons_append, scanNumber]
        exact fun r hr => digit_ne hc (by decide) (List.cons.inj hr).1
      rw [hs, scanDigits_decimal h false _ hl]
      have he : ((n.natAbs : Nat) : Int) = n := by omega
      rw [if_neg Bool.false_ne_true, he]

def startsLiteral (w : List Char) : Bool :=
  match w with
  | '-' :: 'I' :: _ => true
  | c :: _ => !isDigit c && c != '-'
  | [] => false

theorem startsLiteral_literals : ∀ w ∈ literals.map Prod.fst, startsLiteral w = true := by decide

theorem not_startsLiteral {c : Char} {w t : List Char} (hw : startsLiteral w = true) (hp : w <+: c :: t)
    (hc : isDigit c = true ∨ c = '-' ∧ ∃ d t', t = d :: t' ∧ isDigit d = true) : False := by
  obtain ⟨rest, hrest⟩ := hp
  unfold startsLiteral at hw
  split at hw
  · rw [List.cons_append, List.cons_append, List.cons.injEq] at hrest
    obtain ⟨rfl, rfl⟩ := hrest
    rcases hc with hc | ⟨-, d, t', ht, hd⟩
    · cases hc
    · obtain ⟨rfl, -⟩ := List.cons.inj ht
      cases hd
  · rw [List.cons_append, List.cons.injEq] at hrest
    obtain ⟨rfl, -⟩ := hrest
    rw [Bool.and_eq_true, Bool.not_eq_true', bne_iff_ne] at hw
    rcases hc with hc | ⟨hc, -⟩
    · rw [hw.1] at hc
      cases hc
    · exact hw.2 hc
  · cases hw

theorem scanValue_intText {inner : Option (Scanner Value)} (h : Ends rest) {n : Int}
    (hl : (decimal n.natAbs).length ≤ digitLimit) :
    scanValue digitLimit inner (intText n ++ rest) = .ok (.int n, rest) := by
  have hstart : ∃ c t, intText n ++ rest = c :: t ∧
      (isDigit c = true ∨ c = '-' ∧ ∃ d t', t = d :: t' ∧ isDigit d = true) := by
    obtain ⟨c, ds, hds, hc⟩ := decimal_starts n.natAbs
    unfold intText
    rw [hds]
    split
    · exact ⟨_, _, rfl, .inr ⟨rfl, _, _, rfl, hc⟩⟩
    · exact ⟨_, _, rfl, .inl hc⟩
  have hnum := scanNumber_intText h hl
  obtain ⟨c, t, ht, hc⟩ := hstart
  rw [ht] at hnum ⊢
  have hne {d : Char} (hd : isDigit d = false) (hm : d ≠ '-') : c ≠ d := by
    rcases hc with hc | ⟨rfl, -⟩
    · exact digit_ne hc hd
    · exact hm.symm
  have hword : (literals.find? fun l => l.1.isPrefixOf (c :: t)) = none := by
    rw [List.find?_eq_none]
    intro l hl hp
    exact not_startsLiteral (startsLiteral_literals _ (List.mem_map_of_mem hl)) (List.isPrefixOf_iff_prefix.1 hp) hc
  rw [scanValue, hword]
  · exact hnum
  · exact fun r he => hne rfl (by decide) (List.cons.inj he).1
  · exact fun r he => hne rfl (by decide) (List.cons.inj he).1
  · exact fun r he => hne rfl (by decide) (List.cons.inj he).1

end NumberRoundTrip

section Limits

variable {s : Shape} {digitLimit digitLimit' n : Nat} {p q : Scanner Value}

/-- What the reader stops at in a document that it has room for `level` levels of:
the first integer of too many digits or the first array or object too many. -/
def offence (digitLimit : Nat) {s : Shape} : Json s → Nat → Option Failure
  | .int n, _ => if digitLimit < (decimal n.natAbs).length then some .value else none
  | .arr _, 0 => some .recursion
  | .arr items, level + 1 => offence digitLimit items level
  | .obj _, 0 => some .recursion
  | .obj members, level + 1 => offence digitLimit members level
  | .cons j rest, level => (offence digitLimit j level).or (offence digitLimit rest level)
  | .member _ j rest, level => (offence digitLimit j level).or (offence digitLimit rest level)
  | _, _ => none

def limited {α : Type} (digitLimit : Nat) (j : Json s) (level : Nat) (a : α) : Except Failure α :=
  match offence digitLimit j level with
  | none => .ok a
  | some f => .error f

def Within (digitLimit n : Nat) (p q : Scanner (Json s)) : Prop :=
  ∀ t j rest, p t = .ok (j, rest) → q t = limited digitLimit j n (j, rest)

theorem offence_cons (j : Value) (rest : Json .items) :
    offence digitLimit (.cons j rest) n = (offence digitLimit j n).or (offence digitLimit rest n) := rfl

theorem offence_member (key : Str) (j : Value) (rest : Json .members) :
    offence digitLimit (.member key j rest) n = (offence digitLimit j n).or (offence digitLimit rest n) := rfl

theorem bind_ok {α β : Type} {x : Except Failure α} {f : α → Except Failure β} {b : β} (h : x >>= f = .ok b) :
    ∃ a, x = .ok a ∧ f a = .ok b := by
  cases x with
  | error e => cases h
  | ok a => exact ⟨a, rfl, h⟩

theorem map_ok {α β : Type} {x : Except Failure α} {f : α → β} {b : β} (h : x.map f = .ok b) :
    ∃ a, x = .ok a ∧ f a = b := by
  cases x with
  | error e => cases h
  | ok a => exact ⟨a, rfl, Except.ok.inj h⟩

theorem Within.someElements {more more' : Scanner (Json .items)} (hp : Within digitLimit n p q)
    (hm : Within digitLimit n more more') : Within digitLimit n (someElements p more) (someElements q more') := by
  intro t js rest h
  obtain ⟨⟨j, rest₁⟩, hj, h⟩ := bind_ok h
  obtain ⟨⟨js', rest₂⟩, hjs, h⟩ := bind_ok h
  cases h
  have hq := hp t j rest₁ hj
  have hm' := hm rest₁ js' rest hjs
  unfold Documents.someElements limited
  rw [hq, offence_cons]
  unfold limited at hm' ⊢
  cases offence digitLimit j n with
  | some f => rfl
  | none =>
      change more' rest₁ >>= _ = _
      rw [hm']
      cases offence digitLimit js' n <;> rfl

theorem Within.moreElements (hp : Within digitLimit n p q) (fuel : Nat) :
    Within digitLimit n (moreElements p fuel) (moreElements q fuel) := by
  induction fuel with
  | zero => exact fun t js rest h => nomatch h
  | succ fuel ih =>
      intro t js rest h
      unfold Documents.moreElements at h ⊢
      split at h
      · exact hp.someElements ih _ js rest h
      · cases h
        rfl
      · cases h

theorem Within.scanArray {t rest : List Char} {j : Value} (hp : Within digitLimit n p q)
    (h : scanArray p t = .ok (j, rest)) : scanArray q t = limited digitLimit j (n + 1) (j, rest) := by
  unfold Documents.scanArray at h ⊢
  split at h
  · next rest' ht =>
      cases h
      rfl
  · next ht =>
      obtain ⟨⟨js, rest'⟩, hjs, h⟩ := map_ok h
      cases h
      rw [hp.someElements (hp.moreElements _) _ _ _ hjs]
      unfold limited
      rw [offence]
      cases offence digitLimit js n <;> rfl

theorem Within.afterKey {t rest : List Char} {key : Str} {m : Str × Value} (hp : Within digitLimit n p q)
    (h : afterKey p key t = .ok (m, rest)) : afterKey q key t = limited digitLimit m.2 n (m, rest) := by
  unfold Documents.afterKey at h ⊢
  split at h
  · obtain ⟨⟨j, rest'⟩, hj, h⟩ := map_ok h
    cases h
    rw [hp _ _ _ hj]
    unfold limited
    cases offence digitLimit j n <;> rfl
  · cases h

theorem Within.scanMember {t rest : List Char} {m : Str × Value} (hp : Within digitLimit n p q)
    (h : scanMember p t = .ok (m, rest)) : scanMember q t = limited digitLimit m.2 n (m, rest) := by
  unfold Documents.scanMember at h ⊢
  split at h
  · obtain ⟨⟨key, rest'⟩, hkey, h⟩ := bind_ok h
    dsimp only
    rw [hkey]
    exact hp.afterKey h
  · cases h

theorem Within.someMembers {more more' : Scanner (Json .members)} (hp : Within digitLimit n p q)
    (hm : Within digitLimit n more more') : Within digitLimit n (someMembers p more) (someMembers q more') := by
  intro t ms rest h
  obtain ⟨⟨m, rest₁⟩, hm₁, h⟩ := bind_ok h
  obtain ⟨⟨ms', rest₂⟩, hms, h⟩ := bind_ok h
  cases h
  have hq := hp.scanMember hm₁
  have hm' := hm rest₁ ms' rest hms
  unfold Documents.someMembers limited
  rw [hq, offence_member]
  unfold limited at hm' ⊢
  cases offence digitLimit m.2 n with
  | some f => rfl
  | none =>
      change more' rest₁ >>= _ = _
      rw [hm']
      cases offence digitLimit ms' n <;> rfl

theorem Within.moreMembers (hp : Within digitLimit n p q) (fuel : Nat) :
    Within digitLimit n (moreMembers p fuel) (moreMembers q fuel) := by
  induction fuel with
  | zero => exact fun t ms rest h => nomatch h
  | succ fuel ih =>
      intro t ms rest h
      unfold Documents.moreMembers at h ⊢
      split at h
      · exact hp.someMembers ih _ ms rest h
      · cases h
        rfl
      · cases h

theorem Within.scanObject {t rest : List Char} {j : Value} (hp : Within digitLimit n p q)
    (h : scanObject p t = .ok (j, rest)) : scanObject q t = limited digitLimit j (n + 1) (j, rest) := by
  unfold Documents.scanObject at h ⊢
  split at h
  · next rest' ht =>
      cases h
      rfl
  · next ht =>
      obtain ⟨⟨ms, rest'⟩, hms, h⟩ := map_ok h
      cases h
      rw [hp.someMembers (hp.moreMembers _) _ _ _ hms]
      unfold limited
      rw [offence]
      cases offence digitLimit ms n <;> rfl

theorem Within.finishNumber {negative : Bool} {ds t rest : List Char} {j : Value}
    (hds : (decimal (decimalValue ds)).length = ds.length)
    (h : finishNumber digitLimit' negative ds t = .ok (j, rest)) :
    finishNumber digitLimit negative ds t = limited digitLimit j n (j, rest) := by
  unfold Documents.finishNumber at h ⊢
  dsimp only at h ⊢
  split at h
  · next hint =>
      rw [if_pos hint]
      split at h
      · cases h
      · cases h
        have habs : (if negative = true then -(decimalValue ds : Int) else decimalValue ds).natAbs =
            decimalValue ds := by
          split
          · exact Int.natAbs_neg _
          · rfl
        unfold limited offence
        rw [habs, hds]
        split <;> rfl
  · next hint =>
      rw [if_neg hint]
      cases h
      rfl

theorem Within.scanDigits {negative : Bool} {t rest : List Char} {j : Value}
    (h : scanDigits digitLimit' negative t = .ok (j, rest)) :
    scanDigits digitLimit negative t = limited digitLimit j n (j, rest) := by
  unfold Documents.scanDigits at h ⊢
  split at h
  · cases h
  · next c t' =>
      split at h
      · next h0 =>
          rw [if_pos h0]
          exact Within.finishNumber rfl h
      · next h0 =>
          rw [if_neg h0]
          split at h
          · next hc =>
              rw [if_pos hc]
              apply Within.finishNumber _ h
              apply digits_length (List.cons_ne_nil _ _)
              · intro d hd
                rcases List.mem_cons.1 hd with rfl | hd
                · exact hc
                · exact List.all_eq_true.1 List.all_takeWhile d hd
              · exact fun he => h0 (Option.some.inj he)
          · cases h

theorem within_scanNumber : Within digitLimit n (scanNumber digitLimit') (scanNumber digitLimit) := by
  intro t j rest h
  unfold scanNumber at h ⊢
  split at h
  · exact Within.scanDigits h
  · exact Within.scanDigits h

theorem offence_literals : ∀ l ∈ literals, offence digitLimit l.2 n = none := by
  simp only [literals, List.forall_mem_cons]
  exact ⟨rfl, rfl, rfl, rfl, rfl, rfl, List.forall_mem_nil _⟩

theorem within_enter {inner inner' : Option (Scanner Value)} {read : Scanner Value → Scanner Value}
    (h : ∀ p ∈ inner, Within digitLimit n (read p) (enter inner' read)) :
    Within digitLimit n (enter inner read) (enter inner' read) := by
  cases inner with
  | none => exact fun t j rest h => nomatch h
  | some p => exact h p rfl

theorem within_scanValue {inner inner' : Option (Scanner Value)}
    (harr : Within digitLimit n (enter inner scanArray) (enter inner' scanArray))
    (hobj : Within digitLimit n (enter inner scanObject) (enter inner' scanObject)) :
    Within digitLimit n (scanValue digitLimit' inner) (scanValue digitLimit inner') := by
  intro t j rest h
  unfold scanValue at h ⊢
  split at h
  · obtain ⟨⟨s, rest'⟩, hs, h⟩ := map_ok h
    cases h
    dsimp only
    rw [hs]
    rfl
  · exact hobj _ j rest h
  · exact harr _ j rest h
  · split at h
    · next word j' hl =>
        cases h
        unfold limited
        rw [offence_literals _ (List.mem_of_find?_eq_some hl)]
    · exact within_scanNumber t j rest h

theorem scanArray_opens {t rest : List Char} {j : Value} (h : scanArray p t = .ok (j, rest)) :
    offence digitLimit j 0 = some .recursion := by
  unfold scanArray at h
  split at h
  · cases h
    rfl
  · obtain ⟨a, ha, h⟩ := map_ok h
    cases h
    rfl

theorem scanObject_opens {t rest : List Char} {j : Value} (h : scanObject p t = .ok (j, rest)) :
    offence digitLimit j 0 = some .recursion := by
  unfold scanObject at h
  split at h
  · cases h
    rfl
  · obtain ⟨a, ha, h⟩ := map_ok h
    cases h
    rfl

/-- Whatever a document asks of the reader, one with less room reads as much of it as its limits allow. -/
theorem within_scanOnce (level : Nat) :
    ∀ n, Within digitLimit n (scanOnce digitLimit' level) (scanOnce digitLimit n) := by
  induction level with
  | zero =>
      intro n
      cases n <;> exact within_scanValue (within_enter fun p hp => nomatch hp) (within_enter fun p hp => nomatch hp)
  | succ level ih =>
      intro n
      cases n with
      | zero =>
          apply within_scanValue
          · intro t j rest h
            unfold limited
            rw [scanArray_opens h]
            rfl
          · intro t j rest h
            unfold limited
            rw [scanObject_opens h]
            rfl
      | succ n =>
          apply within_scanValue
          · exact fun t j rest h => (ih n).scanArray h
          · exact fun t j rest h => (ih n).scanObject h

def longest {s : Shape} : Json s → Nat
  | .int n => (decimal n.natAbs).length
  | .arr items => longest items
  | .obj members => longest members
  | .cons j rest => max (longest j) (longest rest)
  | .member _ j rest => max (longest j) (longest rest)
  | _ => 0

theorem offence_eq_none (j : Json s) : ∀ level, offence digitLimit j level = none ↔ nesting j ≤ level ∧
    longest j ≤ digitLimit := by
  induction j with
  | int n =>
      intro level
      simp only [offence, nesting, longest, ite_eq_right_iff, reduceCtorEq, imp_false]
      omega
  | arr items ih =>
      intro level
      cases level with
      | zero => simp [offence, nesting]
      | succ level => simp only [offence, nesting, longest, ih, Nat.add_le_add_iff_right]
  | obj members ih =>
      intro level
      cases level with
      | zero => simp [offence, nesting]
      | succ level => simp only [offence, nesting, longest, ih, Nat.add_le_add_iff_right]
  | cons j rest ihj ih =>
      intro level
      simp only [offence, nesting, longest, Option.or_eq_none_iff, ihj, ih]
      omega
  | member key j rest ihj ih =>
      intro level
      simp only [offence, nesting, longest, Option.or_eq_none_iff, ihj, ih]
      omega
  | _ => simp [offence, nesting, longest]

theorem loads_limited {limits limits' : Limits} {t : List Char} {j : Value} (h : loads limits' t = .ok j) :
    loads limits t = limited limits.digits j limits.nesting j := by
  unfold loads at h ⊢
  split at h
  · cases h
  · next hbom =>
      rw [if_neg hbom]
      obtain ⟨⟨j', rest⟩, hj, h⟩ := bind_ok h
      dsimp only at h
      split at h
      · next hrest =>
          cases h
          rw [within_scanOnce _ _ _ _ _ hj]
          unfold limited
          cases offence limits.digits j limits.nesting with
          | some f => rfl
          | none => exact if_pos hrest
      · cases h

end Limits

section RoundTrip

variable {digitLimit n : Nat} {rest tail : List Char}

def Writable {s : Shape} : Json s → Prop
  | .float _ => False
  | .arr items => Writable items
  | .obj members => Writable members
  | .cons j rest => Writable j ∧ Writable rest
  | .member _ j rest => Writable j ∧ Writable rest
  | _ => True

def reread {s : Shape} : Json s → Json s
  | .str t => .str (rereadText t)
  | .arr items => .arr (reread items)
  | .obj members => .obj (reread members)
  | .cons j rest => .cons (reread j) (reread rest)
  | .member key j rest => .member (rereadText key) (reread j) (reread rest)
  | .null => .null
  | .bool b => .bool b
  | .int n => .int n
  | .float literal => .float literal
  | .nil => .nil
  | .none => .none

theorem offence_reread {s : Shape} (j : Json s) :
    ∀ level, offence digitLimit (reread j) level = offence digitLimit j level := by
  induction j with
  | arr items ih =>
      intro level
      cases level with
      | zero => rfl
      | succ level => exact ih level
  | obj members ih =>
      intro level
      cases level with
      | zero => rfl
      | succ level => exact ih level
  | cons j rest ihj ih =>
      intro level
      rw [reread, offence_cons, ihj, ih, offence_cons]
  | member key j rest ihj ih =>
      intro level
      rw [reread, offence_member, ihj, ih, offence_member]
  | _ => exact fun level => rfl

theorem skipWs_newline (level : Nat) (t : List Char) : skipWs (newline level ++ t) = skipWs t := by
  unfold skipWs
  apply List.dropWhile_append_of_pos
  intro c hc
  rcases List.mem_cons.1 hc with rfl | hc
  · rfl
  · rw [(List.mem_replicate.1 hc).2]
    rfl

theorem skipWs_cons {c : Char} (t : List Char) (hc : isWs c = false) : skipWs (c :: t) = c :: t :=
  List.dropWhile_cons_of_neg (by rw [hc]; exact Bool.false_ne_true)

/-- What a value starts with. -/
theorem dumps_starts {j : Value} (hw : Writable j) (level : Nat) :
    ∃ c t, dumps j level = c :: t ∧ isWs c = false ∧ c ≠ ']' ∧ c ≠ '\ufeff' := by
  cases j with
  | null => exact ⟨_, _, rfl, by decide, by decide, by decide⟩
  | bool b => cases b <;> exact ⟨_, _, rfl, by decide, by decide, by decide⟩
  | int n =>
      obtain ⟨c, ds, hds, hc⟩ := decimal_starts n.natAbs
      unfold dumps intText
      split
      · exact ⟨_, _, rfl, by decide, by decide, by decide⟩
      · refine ⟨c, ds, hds, ?_, digit_ne hc (by decide), digit_ne hc (by decide)⟩
        simp only [isWs, Bool.or_eq_false_iff, decide_eq_false_iff_not]
        exact ⟨⟨⟨digit_ne hc (by decide), digit_ne hc (by decide)⟩, digit_ne hc (by decide)⟩, digit_ne hc (by decide)⟩
  | float literal => exact hw.elim
  | str t => exact ⟨_, _, rfl, by decide, by decide, by decide⟩
  | arr items => cases items <;> exact ⟨_, _, rfl, by decide, by decide, by decide⟩
  | obj members => cases members <;> exact ⟨_, _, rfl, by decide, by decide, by decide⟩

theorem skipWs_dumps {j : Value} (hw : Writable j) (level : Nat) (t : List Char) :
    skipWs (dumps j level ++ t) = dumps j level ++ t := by
  obtain ⟨c, t', hj, hc, -, -⟩ := dumps_starts hw level
  rw [hj]
  exact skipWs_cons _ hc

theorem count_le_length {s : Shape} (js : Json s) (level : Nat) : count js ≤ (dumps js level).length := by
  induction js with
  | cons j rest ihj ih =>
      simp only [count, dumps, List.cons_append, List.length_cons, List.length_append]
      omega
  | member key j rest ihj ih =>
      simp only [count, dumps, List.cons_append, List.length_cons, List.length_append]
      omega
  | _ => exact Nat.zero_le _

theorem Ends.newline (level : Nat) (t : List Char) : Ends (newline level ++ t) := by
  rintro c ⟨⟩
  exact ⟨rfl, by decide, by decide, by decide⟩

/-- The text of a part is read back as the part: a value by itself, the entries of a
list or an object up to the bracket that closes it. -/
def ReadsBack (digitLimit : Nat) : (s : Shape) → Json s → Prop
  | .value, j => ∀ level n rest, offence digitLimit j n = none → Ends rest →
      scanOnce digitLimit n (dumps j level ++ rest) = .ok (reread j, rest)
  | .items, js => ∀ level n rest tail fuel, offence digitLimit js n = none → Ends tail → skipWs tail = ']' :: rest →
      count js < fuel → moreElements (scanOnce digitLimit n) fuel (dumps js level ++ tail) = .ok (reread js, rest)
  | .members, ms => ∀ level n rest tail fuel, offence digitLimit ms n = none → Ends tail → skipWs tail = '}' :: rest →
      count ms < fuel → moreMembers (scanOnce digitLimit n) fuel (dumps ms level ++ tail) = .ok (reread ms, rest)

theorem scanOnce_string (t : Str) (n : Nat) (rest : List Char) :
    scanOnce digitLimit n (encodeString t ++ rest) = .ok (.str (rereadText t), rest) := by
  have hs : scanString (escape t ++ '"' :: rest) = .ok (rereadText t, rest) := scanString_escape t
  have ht : encodeString t ++ rest = '"' :: (escape t ++ '"' :: rest) := by
    rw [encodeString, List.cons_append, List.cons_append, List.append_assoc, List.singleton_append]
  rw [ht]
  cases n <;> exact congrArg (Except.map _) hs

theorem scanOnce_array (n : Nat) (t : List Char) :
    scanOnce digitLimit (n + 1) ('[' :: t) = scanArray (scanOnce digitLimit n) t := rfl

theorem scanOnce_object (n : Nat) (t : List Char) :
    scanOnce digitLimit (n + 1) ('{' :: t) = scanObject (scanOnce digitLimit n) t := rfl

theorem moreElements_comma (p : Scanner Value) (fuel : Nat) (t : List Char) :
    moreElements p (fuel + 1) (',' :: t) = someElements p (moreElements p fuel) (skipWs t) := rfl

theorem moreMembers_comma (p : Scanner Value) (fuel : Nat) (t : List Char) :
    moreMembers p (fuel + 1) (',' :: t) = someMembers p (moreMembers p fuel) (skipWs t) := rfl

theorem scanArray_some {p : Scanner Value} {t rest : List Char} {c : Char} (ht : skipWs t = c :: rest)
    (hc : c ≠ ']') : scanArray p t = (someElements p (moreElements p (rest.length + 2)) (c :: rest)).map
      fun (js, rest) => (.arr js, rest) := by
  unfold scanArray
  rw [ht]
  split
  · next h => exact absurd (List.cons.inj h).1 hc
  · rfl

theorem scanObject_some {p : Scanner Value} {t rest : List Char} (ht : skipWs t = '"' :: rest) :
    scanObject p t = (someMembers p (moreMembers p (rest.length + 2)) ('"' :: rest)).map
      fun (ms, rest) => (.obj ms, rest) := by
  unfold scanObject
  rw [ht]
  rfl

theorem Ends.elements {js : Json .items} (h : Ends tail) (level : Nat) : Ends (dumps js level ++ tail) := by
  cases js with
  | nil => exact h
  | cons j js =>
      rintro c ⟨⟩
      exact ⟨rfl, by decide, by decide, by decide⟩

theorem Ends.members {ms : Json .members} (h : Ends tail) (level : Nat) : Ends (dumps ms level ++ tail) := by
  cases ms with
  | none => exact h
  | member key j ms =>
      rintro c ⟨⟩
      exact ⟨rfl, by decide, by decide, by decide⟩

theorem someElements_ok {p : Scanner Value} {more : Scanner (Json .items)} {t t' : List Char} {j : Value}
    {js : Json .items} (hj : p t = .ok (j, t')) (hjs : more t' = .ok (js, rest)) :
    someElements p more t = .ok (.cons j js, rest) := by
  unfold someElements
  rw [hj]
  change more t' >>= _ = _
  rw [hjs]
  rfl

theorem someMembers_ok {p : Scanner Value} {more : Scanner (Json .members)} {key : Str} {t t' : List Char} {j : Value}
    {ms : Json .members} (ht : skipWs t = t) (hj : p t = .ok (j, t'))
    (hms : more t' = .ok (ms, rest)) :
    someMembers p more (encodeString key ++ ':' :: ' ' :: t) = .ok (.member (rereadText key) j ms, rest) := by
  have hm : scanMember p (encodeString key ++ ':' :: ' ' :: t) = .ok ((rereadText key, j), t') := by
    have hs : scanString (escape key ++ '"' :: ':' :: ' ' :: t) = .ok (rereadText key, ':' :: ' ' :: t) :=
      scanString_escape key
    have hafter : afterKey p (rereadText key) (':' :: ' ' :: t) = .ok ((rereadText key, j), t') := by
      change (p (skipWs t)).map _ = _
      rw [ht, hj]
      rfl
    rw [encodeString, List.cons_append, List.cons_append, List.append_assoc, List.singleton_append]
    change scanString _ >>= _ = _
    rw [hs]
    exact hafter
  unfold someMembers
  rw [hm]
  change more t' >>= _ = _
  rw [hms]
  rfl

theorem reads_back {s : Shape} (j : Json s) : Writable j → ReadsBack digitLimit s j := by
  induction j with
  | null => exact fun _ level n rest _ _ => by cases n <;> rfl
  | bool b => exact fun _ level n rest _ _ => by cases b <;> cases n <;> rfl
  | int k =>
      intro _ level n rest ho he
      have hl := ((offence_eq_none _ _).1 ho).2
      cases n <;> exact scanValue_intText he hl
  | float literal => exact fun hw => hw.elim
  | str t => exact fun _ level n rest _ _ => scanOnce_string t n rest
  | arr items ih =>
      intro hw level n rest ho he
      cases n with
      | zero => cases ho
      | succ n =>
          cases items with
          | nil => rfl
          | cons j js =>
              obtain ⟨c, t, ht, -, hc, -⟩ := dumps_starts hw.1 (level + 1)
              have htail : skipWs (newline level ++ ']' :: rest) = ']' :: rest := skipWs_newline _ _
              have hread := ih hw (level + 1) n rest (newline level ++ ']' :: rest)
                ((t ++ (dumps js (level + 1) ++ (newline level ++ ']' :: rest))).length + 3) ho (Ends.newline _ _) htail
                (by
                  have hcount := count_le_length js (level + 1)
                  simp only [count, List.length_append] at hcount ⊢
                  omega)
              have htext : skipWs (newline (level + 1) ++ (dumps j (level + 1) ++ (dumps js (level + 1) ++
                  (newline level ++ ']' :: rest)))) =
                    c :: (t ++ (dumps js (level + 1) ++ (newline level ++ ']' :: rest))) := by
                rw [skipWs_newline, skipWs_dumps hw.1, ht, List.cons_append]
              simp only [dumps, List.cons_append, List.append_assoc] at hread
              rw [moreElements_comma, htext] at hread
              simp only [dumps, List.cons_append, List.append_assoc, List.nil_append]
              rw [scanOnce_array, scanArray_some htext hc, hread]
              rfl
  | obj members ih =>
      intro hw level n rest ho he
      cases n with
      | zero => cases ho
      | succ n =>
          cases members with
          | none => rfl
          | member key j ms =>
              have htail : skipWs (newline level ++ '}' :: rest) = '}' :: rest := skipWs_newline _ _
              have htext : skipWs (newline (level + 1) ++ (encodeString key ++ (':' :: ' ' :: (dumps j (level + 1) ++
                  (dumps ms (level + 1) ++ (newline level ++ '}' :: rest)))))) =
                    '"' :: (escape key ++ '"' :: ':' :: ' ' :: (dumps j (level + 1) ++
                      (dumps ms (level + 1) ++ (newline level ++ '}' :: rest)))) := by
                rw [skipWs_newline, encodeString, List.cons_append, List.cons_append, List.append_assoc,
                  List.singleton_append]
                exact skipWs_cons _ rfl
              have hread := ih hw (level + 1) n rest (newline level ++ '}' :: rest)
                ((escape key ++ '"' :: ':' :: ' ' :: (dumps j (level + 1) ++
                  (dumps ms (level + 1) ++ (newline level ++ '}' :: rest)))).length + 3) ho (Ends.newline _ _) htail
                (by
                  have hcount := count_le_length ms (level + 1)
                  simp only [count, List.length_append, List.length_cons] at hcount ⊢
                  omega)
              simp only [dumps, List.cons_append, List.append_assoc, List.nil_append] at hread
              rw [moreMembers_comma, htext] at hread
              simp only [dumps, List.cons_append, List.append_assoc, List.nil_append]
              rw [scanOnce_object, scanObject_some htext, hread]
              rfl
  | nil =>
      intro _ level n rest tail fuel _ _ htail hf
      obtain ⟨fuel, rfl⟩ := Nat.exists_eq_add_of_lt hf
      simp only [dumps, List.nil_append, moreElements, htail, reread]
  | cons j js ihj ih =>
      intro hw level n rest tail fuel ho he htail hf
      rw [offence_cons, Option.or_eq_none_iff] at ho
      cases fuel with
      | zero => exact absurd hf (Nat.not_lt_zero _)
      | succ fuel =>
          simp only [dumps, List.cons_append, List.append_assoc]
          rw [moreElements_comma, skipWs_newline, skipWs_dumps hw.1]
          exact someElements_ok (ihj hw.1 level n _ ho.1 (he.elements level))
            (ih hw.2 level n rest tail fuel ho.2 he htail (Nat.lt_of_succ_lt_succ hf))
  | none =>
      intro _ level n rest tail fuel _ _ htail hf
      obtain ⟨fuel, rfl⟩ := Nat.exists_eq_add_of_lt hf
      simp only [dumps, List.nil_append, moreMembers, htail, reread]
  | member key j ms ihj ih =>
      intro hw level n rest tail fuel ho he htail hf
      rw [offence_member, Option.or_eq_none_iff] at ho
      cases fuel with
      | zero => exact absurd hf (Nat.not_lt_zero _)
      | succ fuel =>
          simp only [dumps, List.cons_append, List.append_assoc, List.nil_append]
          rw [moreMembers_comma, skipWs_newline]
          have hskip : skipWs (encodeString key ++ ':' :: ' ' :: (dumps j level ++ (dumps ms level ++ tail))) =
              encodeString key ++ ':' :: ' ' :: (dumps j level ++ (dumps ms level ++ tail)) := skipWs_cons _ rfl
          rw [hskip]
          exact someMembers_ok (skipWs_dumps hw.1 _ _) (ihj hw.1 level n _ ho.1 (he.members level))
            (ih hw.2 level n rest tail fuel ho.2 he htail (Nat.lt_of_succ_lt_succ hf))

theorem reread_ofElements (js : List Value) : reread (ofElements js) = ofElements (js.map reread) := by
  induction js with
  | nil => rfl
  | cons j js ih => exact congrArg (Json.cons (reread j)) ih

theorem writable_ofElements {js : List Value} (h : ∀ j ∈ js, Writable j) : Writable (ofElements js) := by
  induction js with
  | nil => trivial
  | cons j js ih => exact ⟨h j List.mem_cons_self, ih fun i hi => h i (List.mem_cons_of_mem _ hi)⟩

theorem writable_ofPairs {ms : List (Str × Value)} (h : ∀ m ∈ ms, Writable m.2) : Writable (ofPairs ms) := by
  induction ms with
  | nil => trivial
  | cons m ms ih => exact ⟨h m List.mem_cons_self, ih fun i hi => h i (List.mem_cons_of_mem _ hi)⟩

theorem nesting_ofElements {js : List Value} (h : ∀ j ∈ js, nesting j ≤ n) : nesting (ofElements js) ≤ n := by
  induction js with
  | nil => exact Nat.zero_le _
  | cons j js ih => exact Nat.max_le.2 ⟨h j List.mem_cons_self, ih fun i hi => h i (List.mem_cons_of_mem _ hi)⟩

theorem nesting_ofPairs {ms : List (Str × Value)} (h : ∀ m ∈ ms, nesting m.2 ≤ n) : nesting (ofPairs ms) ≤ n := by
  induction ms with
  | nil => exact Nat.zero_le _
  | cons m ms ih => exact Nat.max_le.2 ⟨h m List.mem_cons_self, ih fun i hi => h i (List.mem_cons_of_mem _ hi)⟩

theorem ends_of_blank {ws : List Char} (h : ∀ c ∈ ws, isWs c = true) : Ends ws := by
  intro c hc
  have hws := h c (List.mem_of_mem_head? hc)
  simp only [isWs, Bool.or_eq_true, decide_eq_true_eq] at hws
  rcases hws with ((rfl | rfl) | rfl) | rfl
  all_goals decide

/-- A document is read back as far as the limits allow, with blanks behind it or not. -/
theorem loads_dumps {limits : Limits} {j : Value} (hw : Writable j) {ws : List Char} (h : ∀ c ∈ ws, isWs c = true) :
    loads limits (dumps j 0 ++ ws) = limited limits.digits j limits.nesting (reread j) := by
  have ho : offence (longest j) j (nesting j) = none := (offence_eq_none j _).2 ⟨Nat.le_refl _, Nat.le_refl _⟩
  have hback : ReadsBack (longest j) .value j := reads_back j hw
  have hread := hback 0 (nesting j) ws ho (ends_of_blank h)
  have hskip := skipWs_dumps hw 0 ws
  have hrest : skipWs ws = [] := by
    rw [skipWs, ← List.append_nil ws]
    exact List.dropWhile_append_of_pos h
  have hloads : loads ⟨nesting j, longest j⟩ (dumps j 0 ++ ws) = .ok (reread j) := by
    unfold loads
    rw [if_neg, hskip]
    · dsimp only
      rw [hread]
      exact if_pos hrest
    · obtain ⟨c, t, ht, -, -, hc⟩ := dumps_starts hw 0
      rw [ht]
      exact fun h => hc (Option.some.inj h)
  rw [loads_limited hloads]
  unfold limited
  rw [offence_reread]

end RoundTrip

end Migr8.Lib.Documents
