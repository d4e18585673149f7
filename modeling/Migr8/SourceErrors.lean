import Migr8.Admission
import Migr8.DurableHistory
import Migr8.Opening

namespace Migr8.SourceErrors

open Errors Model Context Engine Opening Characters Lib.Scanning SqlText Scanner Pieces Migr8.Normal

variable {α β : Type} {u : Unicode} {c : Char} {s text rest : Text} {kind : StatementKind} {e : Failure}
  {ps qs rs : List SqlPiece} {sig : List Token} {tok : Token}

def Source (m : Except Failure α) : Prop := ∀ e, m = .error e → ∃ message, e = .syntaxError message

theorem Source.ok (a : α) : Source (.ok a) := fun e he => by cases he

theorem Source.syntaxError (message : String) : Source (.error (.syntaxError message) : Except Failure α) := by
  intro e he
  cases he
  exact ⟨message, rfl⟩

theorem Source.map {m : Except Failure α} {f : α → β} (h : Source m) : Source (m.map f) := by
  cases m with
  | ok a => exact .ok _
  | error e =>
      intro e' he
      cases he
      exact h e rfl

theorem Source.bind {m : Except Failure α} {f : α → Except Failure β} (h : Source m)
    (hf : ∀ a, m = .ok a → Source (f a)) :
    Source (m >>= f) := by
  cases m with
  | ok a => exact hf a rfl
  | error e =>
      intro e' he
      cases he
      exact h e rfl

theorem Source.ite {p : Prop} [Decidable p] {m m' : Except Failure α} (h : p → Source m) (h' : ¬ p → Source m') :
    Source (if p then m else m') := by
  split
  · next hp => exact h hp
  · next hp => exact h' hp

section Scan

theorem scanQuotedIdent_source (rest : Text) : Source (scanQuotedIdent rest) := by
  unfold scanQuotedIdent
  cases find ['"'] rest with
  | none => exact .syntaxError _
  | some n => exact .ok _

theorem scanPlainString_source (rest : Text) : Source (scanPlainString rest) := by
  fun_induction scanPlainString rest with
  | case1 => exact .syntaxError _
  | case2 cs ih => exact ih.map
  | case3 => exact .ok _
  | case4 c cs _ _ ih => exact ih.map

theorem tryScanDollarQuoted_source (rest : Text) : Source (tryScanDollarQuoted rest) := by
  unfold tryScanDollarQuoted
  cases dollarTag rest with
  | none => exact .ok _
  | some name =>
      simp only
      cases find ('$' :: (name ++ ['$'])) (rest.drop (name.length + 1)) with
      | none => exact .syntaxError _
      | some n => exact .ok _

theorem scanAltQuoted_source (rest : Text) : Source (scanAltQuoted rest) := by
  cases rest with
  | nil => exact .syntaxError _
  | cons opener body =>
      unfold scanAltQuoted
      refine .ite (fun _ => .syntaxError _) fun _ => ?_
      cases find [altCloser opener, '\''] body with
      | none => exact .syntaxError _
      | some n => exact .ok _

theorem tryScanLiteral_source : Source (tryScanLiteral u c rest) := by
  have hprefixed : Source (tryScanPrefixedString u c rest) := by
    unfold tryScanPrefixedString
    exact .ite (fun _ => (scanAltQuoted_source _).map) fun _ => .ite (fun _ => (scanAltQuoted_source _).map) fun _ =>
      .ite (fun _ => (scanPlainString_source _).map) fun _ => .ok _
  unfold tryScanLiteral
  split
  · refine (tryScanDollarQuoted_source rest).bind fun r _ => ?_
    cases r with
    | none => exact hprefixed
    | some n => exact .ok _
  · exact hprefixed

theorem next_source : Source (next u c rest) := by
  unfold next
  refine .ite (fun _ => .ok _) fun _ => .ite (fun _ => .ok _) fun _ => .ite (fun _ => ?_) fun _ =>
    .ite (fun _ => (scanQuotedIdent_source _).map) fun _ => .ite (fun _ => (scanPlainString_source _).map) fun _ =>
      tryScanLiteral_source.map
  cases find ['*', '/'] (rest.drop 1) with
  | none => exact .syntaxError _
  | some n => exact .ok _

theorem tokenize_source (s : Text) : Source (tokenize u s) := by
  apply Source.map
  intro e he
  obtain ⟨c, cs, hstep⟩ := scan_error he
  exact next_source e hstep

theorem significantTokens_source (s : Text) : Source (significantTokens u s) := (tokenize_source s).map

theorem classify_source (s : Text) : Source (classify u s) := by
  refine (significantTokens_source s).bind fun tokens _ => ?_
  cases tokens with
  | nil => exact .syntaxError _
  | cons token rest => exact .ite (fun _ => .syntaxError _) fun _ => .ok _

theorem someStatement_source : Source (someStatement sig) :=
  .ite (fun _ => .syntaxError _) fun _ => .ite (fun _ => .syntaxError _) fun _ => .ok _

theorem withoutSlash_source (h : sig ≠ []) : Source (withoutSlash u text sig) := by
  unfold withoutSlash
  cases hlast : sig.getLast? with
  | none => exact absurd (List.getLast?_eq_none_iff.1 hlast) h
  | some tok =>
      exact .ite (fun _ => (significantTokens_source _).bind fun _ _ => someStatement_source.bind fun _ _ => .ok _)
        fun _ => .ok _

theorem withoutSemicolon_source (h : sig ≠ []) : Source (withoutSemicolon u kind text sig) := by
  unfold withoutSemicolon
  cases hlast : sig.getLast? with
  | none => exact absurd (List.getLast?_eq_none_iff.1 hlast) h
  | some tok =>
      refine .ite (fun _ => ?_) fun _ => .ite (fun _ => .ok _) fun _ => .syntaxError _
      refine Source.bind ?_ fun r _ => .ite (fun _ => .syntaxError _) fun _ => .ok _
      exact .ite (fun _ => (significantTokens_source _).map) fun _ => .ok _

theorem refuseClient_source {first : Token} {lead : List String} : Source (refuseClient kind first lead) :=
  .ite (fun _ => .syntaxError _) fun _ => .ite (fun _ => .syntaxError _) fun _ => .ok _

end Scan

section Bodies

/-- A literal whose prefix hides its quote from the scan of `DO` bodies, and that
holds no dollar to be taken for one. -/
def Opaque (t : Token) : Prop := t.kind = .string ∧ t.text.head? ≠ some '\'' ∧ '$' ∉ t.text.tail

theorem doBody_error (h : tok.kind = .string) : doBody tok = .error e ↔ Opaque tok ∧ e = .valueError := by
  unfold doBody Opaque
  by_cases hq : tok.text.head? = some '\''
  · simp [hq]
  · rw [if_neg hq]
    by_cases hd : '$' ∈ tok.text.tail
    · cases hf : find ['$'] tok.text.tail with
      | none => exact absurd hd (find_singleton.1 hf)
      | some n => simp [hd]
    · rw [find_singleton.2 hd]
      simp [h, hq, hd, eq_comm]

theorem bodyNames_ok (body : Text) : ∃ names, bodyNames u body = .ok names := by
  unfold bodyNames
  cases hs : significantTokens u body with
  | ok tokens => exact ⟨_, rfl⟩
  | error e =>
      obtain ⟨message, rfl⟩ := significantTokens_source body e hs
      exact ⟨_, rfl⟩

theorem doBodyNames_error : doBodyNames u sig = .error e ↔ (∃ t ∈ sig, Opaque t) ∧ e = .valueError := by
  induction sig with
  | nil => simp [doBodyNames]
  | cons t ts ih =>
      unfold doBodyNames
      by_cases hk : t.kind = .string
      · rw [if_pos hk]
        cases hb : doBody t with
        | error e' =>
            obtain ⟨ho, rfl⟩ := (doBody_error hk).1 hb
            simp [bind, Except.bind, ho, eq_comm]
        | ok body =>
            have hno : ¬ Opaque t := by
              intro ho
              have he := (doBody_error (e := .valueError) hk).2 ⟨ho, rfl⟩
              rw [hb] at he
              cases he
            obtain ⟨names, hnames⟩ := bodyNames_ok (u := u) body
            simp only [List.mem_cons, exists_eq_or_imp, hno, false_or]
            rw [← ih]
            cases hrest : doBodyNames u ts <;> simp [bind, Except.bind, hnames, pure, Except.pure]
      · have hno : ¬ Opaque t := fun ho => hk ho.1
        rw [if_neg hk, ih]
        simp [hno]

theorem namesIn_error : namesIn u sig = .error e ↔
    (leadOf u sig).head? = some "DO" ∧ (∃ t ∈ sig, Opaque t) ∧ e = .valueError := by
  unfold namesIn
  by_cases hdo : (leadOf u sig).head? = some "DO"
  · rw [if_pos hdo, ← doBodyNames_error]
    cases doBodyNames u sig <;> simp [Except.map, hdo]
  · rw [if_neg hdo]
    simp [hdo]

/-- Such a literal in a text that is otherwise a single `DO` statement. -/
structure Trips (u : Unicode) (ps qs rs : List SqlPiece) : Prop where
  reads : Reads (next u) [] ps
  nul : '\x00' ∉ join ps
  statement : someStatement (marks ps) = .ok ()
  unslashed : Unslashed u ps qs
  ended : Ended u qs rs
  one : ∀ t ∈ marks rs, t.isPunct ';' = false
  slash : ∀ t ∈ marks rs, ¬ (t.isPunct '/' = true ∧ standaloneSlash u (join rs) t = true)
  lead : (leadOf u (marks rs)).head? = some "DO"
  literal : ∃ t ∈ marks rs, Opaque t

theorem error_of_source {m : Except Failure α} (h : Source m) (he : m = .error e)
    (hn : ∀ message, e ≠ .syntaxError message) :
    False := by
  obtain ⟨message, hm⟩ := h e he
  exact hn message hm

theorem bind_error {m : Except Failure α} {f : α → Except Failure β} :
    (m >>= f) = .error e ↔ m = .error e ∨ ∃ a, m = .ok a ∧ f a = .error e := by
  cases m <;> simp [bind, Except.bind]

theorem kindOf_do {first : String} {rest : List String} (h : first = "DO") : kindOf (first :: rest) = .sql := by
  subst h
  rfl

theorem words_of_lead {x : String} (h : (leadOf u sig).head? = some x) : ∃ rest, words u sig = x :: rest := by
  unfold leadOf at h
  cases hw : words u sig with
  | nil => simp [hw] at h
  | cons y rest =>
      rw [hw] at h
      cases h
      exact ⟨rest, rfl⟩

/-- The last step fails unexpectedly only over such a literal. -/
theorem assemble_error (hs : sig ≠ []) (h : assemble u kind text sig = .error e)
    (hn : ∀ message, e ≠ .syntaxError message) :
    e = .valueError ∧ (∀ t ∈ sig, ¬ (t.isPunct '/' = true ∧ standaloneSlash u text t = true)) ∧
      (leadOf u sig).head? = some "DO" ∧ ∃ t ∈ sig, Opaque t := by
  unfold assemble at h
  by_cases hslash : (sig.any fun t => t.isPunct '/' && standaloneSlash u text t) = true
  · rw [if_pos hslash] at h
    cases h
    exact absurd rfl (hn _)
  by_cases hstrip : u.strip text = []
  · rw [if_neg hslash, if_pos hstrip] at h
    cases h
    exact absurd rfl (hn _)
  rw [if_neg hslash, if_neg hstrip] at h
  obtain h | ⟨names, -, h⟩ := bind_error.1 h
  · obtain ⟨hdo, hliteral, rfl⟩ := namesIn_error.1 h
    refine ⟨rfl, fun t ht hslash' => hslash ?_, hdo, hliteral⟩
    exact List.any_eq_true.2 ⟨t, ht, by simpa using hslash'⟩
  · cases sig with
    | nil => exact absurd rfl hs
    | cons first rest =>
        obtain h | ⟨v, -, h⟩ := bind_error.1 h
        · exact (error_of_source refuseClient_source h hn).elim
        · cases h

theorem normalize_error (h : normalize u s = .error e) (hn : ∀ message, e ≠ .syntaxError message) :
    e = .valueError ∧ ∃ ps qs rs, join ps = s ∧ Trips u ps qs rs := by
  unfold SqlText.normalize at h
  by_cases hnul : s.contains '\x00' = true
  · rw [if_pos hnul] at h
    cases h
    exact absurd rfl (hn _)
  rw [if_neg hnul] at h
  obtain h | ⟨sig, hsig, h⟩ := bind_error.1 h
  · exact (error_of_source (significantTokens_source _) h hn).elim
  obtain ⟨ps, rfl, hr, rfl⟩ := significantTokens_ok.1 hsig
  obtain h | ⟨v, hsome, h⟩ := bind_error.1 h
  · exact (error_of_source someStatement_source h hn).elim
  have hne : marks ps ≠ [] := (someStatement_ok.1 hsome).1
  obtain h | ⟨r, hslash, h⟩ := bind_error.1 h
  · exact (error_of_source (withoutSlash_source hne) h hn).elim
  obtain ⟨qs, hun, hr', rfl⟩ := withoutSlash_ok hr hslash
  obtain h | ⟨kind, hkind, h⟩ := bind_error.1 h
  · exact (error_of_source (classify_source _) h hn).elim
  have hwords : words u (marks qs) ≠ [] := by
    intro hw
    obtain ⟨message, he⟩ := classify_error hr' hw
    rw [hkind] at he
    cases he
  have hne' : marks qs ≠ [] := fun hm => hwords (by rw [hm]; rfl)
  obtain h | ⟨r', hend, h⟩ := bind_error.1 h
  · exact (error_of_source (withoutSemicolon_source hne') h hn).elim
  by_cases hsql : kind = .sql
  · subst hsql
    obtain ⟨rs, hended, hreads, rfl, hone⟩ := withoutSemicolon_sql hr' hend
    have hne'' : marks rs ≠ [] := by
      intro hm
      apply hwords
      rw [← hended.words, hm]
      rfl
    obtain ⟨rfl, hno, hdo, hliteral⟩ := assemble_error hne'' h hn
    exact ⟨rfl, ps, qs, rs, rfl, hr, by simpa using hnul, hsome, hun, hended, hone, hno, hdo, hliteral⟩
  · obtain ⟨rfl, -⟩ := withoutSemicolon_plsql hsql hend
    obtain ⟨-, -, hdo, -⟩ := assemble_error hne' h hn
    obtain ⟨rest, hw⟩ := words_of_lead hdo
    rw [classify_of hr' hwords, hw, kindOf_do rfl] at hkind
    cases hkind
    exact absurd rfl hsql

end Bodies

section Scans

theorem Trips.normalize (h : Trips u ps qs rs) : normalize u (join ps) = .error .valueError := by
  have hne : marks ps ≠ [] := (someStatement_ok.1 h.statement).1
  have hqs := h.unslashed.reads h.reads
  have hrs := h.ended.reads hqs
  obtain ⟨rest, hw⟩ := words_of_lead h.lead
  have hwq : words u (marks qs) = "DO" :: rest := by rw [← h.ended.words, hw]
  have hwords : words u (marks qs) ≠ [] := by simp [hwq]
  have hne' : marks qs ≠ [] := fun hm => hwords (by rw [hm]; rfl)
  have hkind : classify u (join qs) = .ok .sql := by
    rw [classify_of hqs hwords, hwq, kindOf_do rfl]
  have hnames : namesIn u (marks rs) = .error .valueError := namesIn_error.2 ⟨h.lead, h.literal, rfl⟩
  have hslash : ¬ ((marks rs).any fun t => t.isPunct '/' && standaloneSlash u (join rs) t) = true := by
    intro hs
    obtain ⟨t, ht, hs⟩ := List.any_eq_true.1 hs
    exact h.slash t ht (by simpa using hs)
  have hstrip : u.strip (join rs) ≠ [] := strip_ne_nil hrs (by simp [hw])
  unfold SqlText.normalize
  rw [if_neg (by simpa using h.nul), significantTokens_of h.reads]
  simp only [bind, Except.bind, h.statement, h.unslashed.run h.reads hne, hkind, h.ended.run hqs hne' h.one, assemble,
    if_neg hslash, if_neg hstrip, hnames]

/-- The scanner and the checks before a run fail over this text only as the source
error, or with a refusal of what it asks for. -/
structure ScansSafely (u : Unicode) (s : Text) : Prop where
  tokenizes : Source (tokenize u s)
  classifies : Source (classify u s)
  normalizes : Source (normalize u s)
  preflights : ∀ (input : Input) (files : Texts) (unit : CapturedUnit) (phase : String),
    input.texts = Admission.scanned u input.adapter files →
    files.readSqlEntry unit phase = .ok (String.ofList s) →
    ∃ x, Settles (admitSqlEntry input unit phase) x ∧ ∀ e, x = .error e → SourceError e

/-- The text is a single `DO` statement with an opaque literal. -/
def Unsafe (u : Unicode) (s : Text) : Prop := ∃ ps qs rs, join ps = s ∧ Trips u ps qs rs

theorem normalize_source : Source (normalize u s) ↔ ¬ Unsafe u s := by
  constructor
  · rintro h ⟨ps, qs, rs, rfl, ht⟩
    obtain ⟨message, he⟩ := h _ ht.normalize
    cases he
  · intro h e he
    by_contra hn
    obtain ⟨-, ht⟩ := normalize_error he fun message hm => hn ⟨message, hm⟩
    exact h ht

theorem checkText_source {check : Statement → Option TextRefusal} (h : Source (normalize u s)) (name : String) :
    Admission.checkText u check (String.ofList s) ≠ some (.failed name) := by
  unfold Admission.checkText
  rw [String.toList_ofList]
  cases hn : normalize u s with
  | ok statement => cases check statement <;> simp
  | error e =>
      obtain ⟨message, rfl⟩ := h e hn
      simp [Admission.textError]

theorem scansSafely_iff : ScansSafely u s ↔ ¬ Unsafe u s := by
  rw [← normalize_source]
  constructor
  · exact fun h => h.normalizes
  · intro h
    refine ⟨tokenize_source s, classify_source s, h, ?_⟩
    intro input files unit phase htexts hread
    have hlegible : Legible DurableHistory.openTexts := ⟨nofun, nofun, nofun, nofun⟩
    have hchecked : Checked DurableHistory.openTexts (admitSqlEntry input unit phase) := by
      unfold admitSqlEntry
      rw [htexts]
      change Checked _ (liftText (files.readSqlEntry unit phase) >>= _)
      rw [hread]
      simp only [liftText, Lib.Process.Proc.pure_bind]
      split
      · exact (Checked.refuse fun _ => checkText_source h).bind fun _ => .pure _
      · split
        · exact (Checked.refuse fun _ => checkText_source h).bind fun _ => .pure _
        · exact (Checked.refuse fun _ => checkText_source h).bind fun _ => .pure _
    obtain ⟨x, hx, hsource⟩ := hchecked
    exact ⟨x, hx, hsource hlegible⟩

def nationalDo : Text := "DO N'x'".toList

theorem nationalDo_fails : ¬ ScansSafely .ascii nationalDo := by
  intro h
  have hvalue : normalize .ascii nationalDo = .error .valueError := by decide +kernel
  obtain ⟨message, hm⟩ := h.normalizes _ hvalue
  cases hm

end Scans

end Migr8.SourceErrors
