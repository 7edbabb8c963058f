import Declutter.Proofs.Analysis.Pass
import Declutter.Proofs.Text.Utf8

/-!
# The passes over a file

The passes over a file form a chain: each one works on the source that the one before adopted, and
the chain ends with the first pass that adopts nothing.  The report of a file is read off this
chain.

## Main definitions

* `Adoptions` — a number of adopted steps that lead from one source to another.
* `IsPass` — the passes over a file, with their numbers and the sources they are given.

## Main results

* `analyzeSource_passes_atomic` — what is reported is the result of whole passes.
* `analyzeSource_idempotent` — a second run finds nothing to carry out.
-/

namespace Declutter

variable {G : Grammar Id} {l : Language} {c : Config} {stopped : Nat → Bool} {apply : Bool}
  {source : Bytes}

/-- Whether a number of adopted steps lead from one source to another. -/
def Adoptions (G : Grammar Id) (l : Language) (c : Config) (source : Bytes) : Nat → Bytes → Prop
  | 0, s => s = source
  | n + 1, s => ∃ before, Adoptions G l c source n before ∧ Adopts G l c before s

/-- The passes over a file, from number zero on: the first is over the source itself, and each
further one over what the one before turned its source into.  The last one that may come only
reports. -/
inductive IsPass (G : Grammar Id) (l : Language) (c : Config) (apply : Bool) (source : Bytes) :
    Nat → Bytes → Pass → Prop
  | first {p} (h : p.Of G l c apply source) : IsPass G l c apply source 0 source p
  | next {k s p s' q} (h : IsPass G l c apply source k s p) (hs : p.review.rewritten = some s')
      (hq : q.Of G l c (decide (k + 1 < maxFixPasses)) s') :
      IsPass G l c apply source (k + 1) s' q

namespace IsPass

variable {k j : Nat} {s s' : Bytes} {p q : Pass}

/-- A pass is one over its source. -/
theorem of (h : IsPass G l c apply source k s p) : ∃ a, p.Of G l c a s := by
  cases h with
  | first h => exact ⟨_, h⟩
  | next _ _ hq => exact ⟨_, hq⟩

/-- The file is a program. -/
theorem parse_eq_ok (h : IsPass G l c apply source k s p) :
    ∃ t, Tree.parse G l source = .ok t := by
  induction h with
  | first h => exact ⟨_, h.parsed⟩
  | next _ _ _ ih => exact ih

/-- A number belongs to one pass only. -/
theorem unique (hp : IsPass G l c apply source k s p) (hq : IsPass G l c apply source k s' q) :
    s = s' ∧ p = q := by
  induction hp generalizing s' q with
  | first hp =>
    cases hq with
    | first hq => exact ⟨rfl, hp.unique hq⟩
  | next _ hs hp ih =>
    cases hq with
    | next hq' hs' hq =>
      obtain ⟨-, rfl⟩ := ih hq'
      obtain rfl := Option.some.inj (hs.symm.trans hs')
      exact ⟨rfl, hp.unique hq⟩

/-- Before a pass come passes that rewrote. -/
theorem exists_lt (h : IsPass G l c apply source k s p) (hj : j < k) :
    ∃ s' q, IsPass G l c apply source j s' q ∧ q.review.rewritten ≠ none := by
  induction h with
  | first => omega
  | @next k s p s' q h hs hq ih =>
    rcases Nat.lt_succ_iff_lt_or_eq.mp hj with hj | rfl
    · exact ih hj
    · exact ⟨s, p, h, by simp [hs]⟩

/-- Only one pass does not rewrite. -/
theorem unique_last (hp : IsPass G l c apply source k s p) (hpn : p.review.rewritten = none)
    (hq : IsPass G l c apply source j s' q) (hqn : q.review.rewritten = none) :
    k = j ∧ s = s' ∧ p = q := by
  have hkj : k = j := by
    rcases Nat.lt_trichotomy k j with hlt | heq | hgt
    · obtain ⟨_, r, hr, hne⟩ := hq.exists_lt hlt
      exact absurd ((hp.unique hr).2 ▸ hpn) hne
    · exact heq
    · obtain ⟨_, r, hr, hne⟩ := hp.exists_lt hgt
      exact absurd ((hq.unique hr).2 ▸ hqn) hne
  subst hkj
  exact ⟨rfl, hp.unique hq⟩

/-- The source of a pass comes from as many adopted steps as its number says. -/
theorem adoptions (h : IsPass G l c apply source k s p) : Adoptions G l c source k s := by
  induction h with
  | first => rfl
  | next h hs _ ih =>
    obtain ⟨a, ha⟩ := h.of
    exact ⟨_, ih, (ha.adopts hs).2⟩

end IsPass

/-! ### From pass to pass -/

section Steps

variable {left : Nat} {f : Fixing} {s : Bytes}

theorem continueFixing_of_none (h : f.last.rewritten = none) :
    continueFixing G c l stopped left f = .ok f := by
  unfold continueFixing
  rw [h]
  rfl

theorem continueFixing_of_stopped (hs : f.last.rewritten = some s)
    (hstop : stopped (f.passes + 1) = true) :
    continueFixing G c l stopped left f = .error .cancelled := by
  unfold continueFixing
  rw [hs]
  dsimp only
  rw [if_pos hstop]
  rfl

theorem continueFixing_zero (hs : f.last.rewritten = some s)
    (hstop : ¬ stopped (f.passes + 1) = true) :
    continueFixing G c l stopped 0 f = match analyzeAgain G c l false s with
      | .error e => .error e
      | .ok last => .ok
        { last, passes := f.passes + 1, current := some s,
          diagnostics := f.diagnostics ++ [s!"stopped after {f.passes + 1} fix passes"] } := by
  unfold continueFixing
  rw [hs]
  dsimp only
  rw [if_neg hstop]
  rfl

theorem continueFixing_succ (hs : f.last.rewritten = some s)
    (hstop : ¬ stopped (f.passes + 1) = true) :
    continueFixing G c l stopped (left + 1) f = match analyzeAgain G c l true s with
      | .error e => .error e
      | .ok last => continueFixing G c l stopped left
        { last, passes := f.passes + 1, current := some s,
          diagnostics := f.diagnostics ++ last.diagnostics } := by
  rw [continueFixing, hs]
  dsimp only
  rw [if_neg hstop]
  rfl

end Steps

/-- What holds of the passes over a file wherever they have come to. -/
structure Fixing.Reached (G : Grammar Id) (l : Language) (c : Config) (apply : Bool)
    (source : Bytes) (f : Fixing) : Prop where
  pass : ∃ p, IsPass G l c apply source f.passes (f.current.getD source) p ∧ p.review = f.last
  current_eq_none : f.current = none ↔ f.passes = 0
  le : f.passes ≤ maxFixPasses
  noted : f.passes = maxFixPasses → s!"stopped after {f.passes} fix passes" ∈ f.diagnostics

theorem analyze_eq_ok {t : Tree} {r : Review} (h : t.analyze G c apply = .ok r) :
    ∃ findings, t.collectFindings c = .ok findings ∧
      t.review G c.marker c.maxFindings apply findings = .ok r := by
  unfold Tree.analyze at h
  split at h
  · cases h
  · rename_i findings hfindings
    refine ⟨findings, hfindings, ?_⟩
    change (match t.review G c.marker c.maxFindings apply findings with
      | .error e => .error (AnalysisError.conflict e)
      | .ok review => .ok review) = Except.ok r at h
    split at h
    · cases h
    · rename_i hr
      rw [hr, Except.ok.inj h]

theorem exists_of_analyzeAgain {s : Bytes} {r : Review}
    (h : analyzeAgain G c l apply s = .ok r) :
    ∃ p : Pass, p.Of G l c apply s ∧ p.review = r := by
  change (match Tree.parse G l s with
    | .error e => .error (AnalysisError.unparsable e)
    | .ok tree => tree.analyze G c apply) = Except.ok r at h
  split at h
  · cases h
  · rename_i t ht
    obtain ⟨findings, hfindings, hr⟩ := analyze_eq_ok h
    exact ⟨⟨t, findings, r⟩, ⟨ht, hfindings, hr⟩, rfl⟩

/-- What one more pass leads to. -/
theorem Fixing.Reached.next {f : Fixing} (h : f.Reached G l c apply source) {s : Bytes}
    (hs : f.last.rewritten = some s) {p : Pass} {diagnostics : List String}
    (hp : p.Of G l c (decide (f.passes + 1 < maxFixPasses)) s) (hle : f.passes < maxFixPasses)
    (hnoted : f.passes + 1 = maxFixPasses →
      s!"stopped after {f.passes + 1} fix passes" ∈ diagnostics) :
    Fixing.Reached G l c apply source
      { last := p.review, passes := f.passes + 1, current := some s, diagnostics } where
  pass := by
    obtain ⟨q, hq, hlast⟩ := h.pass
    exact ⟨p, hq.next (hlast ▸ hs) hp, rfl⟩
  current_eq_none := by simp
  le := hle
  noted := hnoted

/-- **The passes go on until one does not rewrite.** -/
theorem continueFixing_reached (left : Nat) {f f' : Fixing}
    (h : continueFixing G c l stopped left f = .ok f') (hleft : f.passes + left + 1 = maxFixPasses)
    (hf : f.Reached G l c apply source) :
    f'.Reached G l c apply source ∧ f'.last.rewritten = none := by
  induction left generalizing f with
  | zero =>
    cases hs : f.last.rewritten with
    | none =>
      rw [continueFixing_of_none hs] at h
      exact Except.ok.inj h ▸ ⟨hf, hs⟩
    | some s =>
      by_cases hstop : stopped (f.passes + 1) = true
      · rw [continueFixing_of_stopped hs hstop] at h
        cases h
      rw [continueFixing_zero hs hstop] at h
      split at h
      · cases h
      rename_i last hlast
      obtain ⟨p, hp, rfl⟩ := exists_of_analyzeAgain hlast
      -- The last pass that may come is not to carry out rewrites.
      have hlimit : decide (f.passes + 1 < maxFixPasses) = false := by
        simp only [decide_eq_false_iff_not]
        omega
      rw [← hlimit] at hp
      rw [← Except.ok.inj h]
      refine ⟨hf.next hs hp (by omega) fun _ => by simp, ?_⟩
      rw [hlimit] at hp
      cases hr : p.review.rewritten with
      | none => rfl
      | some s' => exact absurd (hp.adopts hr).1 (by decide)
  | succ left ih =>
    cases hs : f.last.rewritten with
    | none =>
      rw [continueFixing_of_none hs] at h
      exact Except.ok.inj h ▸ ⟨hf, hs⟩
    | some s =>
      by_cases hstop : stopped (f.passes + 1) = true
      · rw [continueFixing_of_stopped hs hstop] at h
        cases h
      rw [continueFixing_succ hs hstop] at h
      split at h
      · cases h
      rename_i last hlast
      obtain ⟨p, hp, rfl⟩ := exists_of_analyzeAgain hlast
      rw [← show decide (f.passes + 1 < maxFixPasses) = true by
        simp only [decide_eq_true_eq]; omega] at hp
      exact ih h (by simp only; omega) (hf.next hs hp (by omega) fun _ => by omega)

/-! ### The report of a file -/

/-- What the passes over a file say of its report, when so many of them rewrote it. -/
structure FileReport.FromPasses (G : Grammar Id) (path : String) (source : Bytes) (c : Config)
    (report : FileReport) (passes : Nat) : Prop where
  fixPasses_eq : report.fixPasses = passes
  /-- The last pass does not rewrite, and its source is the one reported. -/
  last : ∃ p, IsPass G (.ofPath path) c (canRewrite c source) source passes
    ((report.rewritten.map Utf8.encode).getD source) p ∧
    p.review.rewritten = none ∧ report.remaining = p.review.kept.length
  rewritten_eq_none : report.rewritten = none ↔ passes = 0
  le : passes ≤ maxFixPasses
  noted : passes = maxFixPasses → s!"stopped after {passes} fix passes" ∈ report.diagnostics

theorem rewritten?_eq_ok {f : Fixing} {o : Option String} (h : f.rewritten? = .ok o) :
    f.current = o.map Utf8.encode := by
  unfold Fixing.rewritten? at h
  split at h
  · rename_i hnone
    rw [hnone, ← Except.ok.inj h]
    rfl
  · rename_i s hs
    split at h
    · -- The text is given, and encoding it again gives back the bytes.
      rename_i text htext
      rw [hs, ← Except.ok.inj h, Option.map_some, Utf8.encode_of_decode? htext]
    · cases h

theorem ofPasses_eq_ok {base report : FileReport} {first : Review} {f : Fixing}
    (h : base.ofPasses first f = .ok report) :
    ∃ rewritten, f.rewritten? = .ok rewritten ∧
      report = { base with
        diagnostics := base.diagnostics ++ f.diagnostics
        findings := first.findings.map (·.report)
        suppressed := first.suppressed.length
        truncated := first.truncated
        rewritten
        fixPasses := f.passes
        remaining := f.last.kept.length } := by
  unfold FileReport.ofPasses at h
  cases hr : f.rewritten? with
  | error e =>
    rw [hr] at h
    cases h
  | ok rewritten =>
    rw [hr] at h
    exact ⟨rewritten, rfl, (Except.ok.inj h).symm⟩

theorem Tree.fix_eq (t : Tree) :
    t.fix G c stopped apply = match t.analyze G c apply with
      | .error e => .error e
      | .ok first =>
        match continueFixing G c t.language stopped (maxFixPasses - 1)
          { last := first, diagnostics := first.diagnostics } with
        | .error e => .error e
        | .ok f => .ok (first, f) := rfl

theorem fix_eq_ok {t : Tree} {first : Review} {f : Fixing}
    (h : t.fix G c stopped apply = .ok (first, f)) :
    t.analyze G c apply = .ok first ∧
      continueFixing G c t.language stopped (maxFixPasses - 1)
        { last := first, diagnostics := first.diagnostics } = .ok f := by
  rw [Tree.fix_eq] at h
  split at h
  · cases h
  · rename_i r hr
    split at h
    · cases h
    · rename_i f' hf
      obtain ⟨rfl, rfl⟩ := Prod.mk.inj (Except.ok.inj h)
      exact ⟨hr, hf⟩

variable {path : String} {report : FileReport}

theorem analyzeSource_of_error {e : ParseError}
    (h : Tree.parse G (.ofPath path) source = .error e) :
    analyzeSource G path source c stopped = .ok { FileReport.start path source c with
      outcome := .parseError
      diagnostics := (FileReport.start path source c).diagnostics ++
        ["parse error: " ++ e.message] } := by
  change (match Tree.parse G (.ofPath path) source with | .error e => _ | .ok tree => _) = _
  rw [h]
  rfl

theorem analyzeSource_of_ok {t : Tree} (h : Tree.parse G (.ofPath path) source = .ok t) :
    analyzeSource G path source c stopped =
      if stopped 0 then .error .cancelled
      else match t.fix G c stopped (canRewrite c source) with
        | .error e => .error e
        | .ok (first, f) => (FileReport.start path source c).ofPasses first f := by
  change (match Tree.parse G (.ofPath path) source with | .error e => _ | .ok tree => _) = _
  rw [h]
  cases h0 : stopped 0 <;> simp <;> rfl

/-- A report of a program comes from the passes over it. -/
theorem fromPasses_of_parse {t : Tree} (ht : Tree.parse G (.ofPath path) source = .ok t)
    (h : analyzeSource G path source c stopped = .ok report) :
    ∃ passes, report.FromPasses G path source c passes := by
  rw [analyzeSource_of_ok ht] at h
  split at h
  · cases h
  split at h
  · cases h
  · rename_i first f hfix
    obtain ⟨hfirst, hf⟩ := fix_eq_ok hfix
    obtain ⟨findings, hfindings, hreview⟩ := analyze_eq_ok hfirst
    rw [Tree.language_of_parse ht] at hf
    have hstart : Fixing.Reached G (.ofPath path) c (canRewrite c source) source
        { last := first, diagnostics := first.diagnostics } :=
      { pass := ⟨⟨t, findings, first⟩, .first ⟨ht, hfindings, hreview⟩, rfl⟩
        current_eq_none := by simp
        le := Nat.zero_le _
        noted := fun h => by simp [maxFixPasses] at h }
    obtain ⟨hreached, hlast⟩ := continueFixing_reached _ hf rfl hstart
    obtain ⟨rewritten, hrewritten, rfl⟩ := ofPasses_eq_ok h
    have hcurrent := rewritten?_eq_ok hrewritten
    obtain ⟨p, hp, hpl⟩ := hreached.pass
    refine ⟨f.passes, rfl, ⟨p, ?_, hpl ▸ hlast, by rw [hpl]⟩, ?_, hreached.le, ?_⟩
    · rw [← hcurrent]
      exact hp
    · rw [← hreached.current_eq_none, hcurrent, Option.map_eq_none_iff]
    · intro hmax
      exact List.mem_append_right _ (hreached.noted hmax)

/-- A source that does not parse is reported without rewrites. -/
theorem report_of_error {e : ParseError} (he : Tree.parse G (.ofPath path) source = .error e)
    (h : analyzeSource G path source c stopped = .ok report) :
    report.rewritten = none ∧ report.fixPasses = 0 ∧ report.remaining = 0 ∧
      report.findings = [] := by
  rw [analyzeSource_of_error he] at h
  obtain rfl := Except.ok.inj h
  exact ⟨rfl, rfl, rfl, rfl⟩

/-- The text that a report gives is that of the adopted steps. -/
theorem FileReport.FromPasses.adoptions {passes : Nat}
    (h : report.FromPasses G path source c passes) :
    Adoptions G (.ofPath path) c source passes
      ((report.rewritten.map Utf8.encode).getD source) := by
  obtain ⟨p, hp, -⟩ := h.last
  exact hp.adoptions

/-- Nothing is rewritten that cannot be. -/
theorem FileReport.FromPasses.eq_zero {passes : Nat}
    (h : report.FromPasses G path source c passes) (hc : canRewrite c source = false) :
    passes = 0 := by
  by_contra hne
  obtain ⟨p, hp, -⟩ := h.last
  -- Otherwise the first pass rewrote, and only a pass that may rewrite does.
  obtain ⟨s, q, hq, hr⟩ := hp.exists_lt (Nat.pos_of_ne_zero hne)
  cases hq with
  | first hq =>
    obtain ⟨s', hs'⟩ := Option.ne_none_iff_exists'.mp hr
    exact absurd ((hq.adopts hs').1.symm.trans hc) (by decide)

/-- **Passes are atomic, and what they leave is a program.**  A rewritten file is a program, got
from the source by as many adopted steps as there were passes; a pass that is rolled back is the
last one, changes nothing and says so; and without leave to rewrite there is no pass at all. -/
theorem analyzeSource_passes_atomic
    (h : analyzeSource G path source c stopped = .ok report) :
    (∀ s, report.rewritten = some s →
      (∃ t, Tree.parse G (.ofPath path) (Utf8.encode s) = .ok t) ∧
      ∃ passes : Nat, report.fixPasses = passes ∧ 1 ≤ passes ∧ passes ≤ maxFixPasses ∧
        Adoptions G (.ofPath path) c source passes (Utf8.encode s)) ∧
    (∀ number current p, IsPass G (.ofPath path) c (canRewrite c source) source number current p →
      p.RollsBack G (.ofPath path) c current →
      p.review.applied = 0 ∧
      (∀ n ∈ (p.triage c).accepted, p.review.statusOf n.number = .invalidResult) ∧
      report.fixPasses = number ∧ (report.rewritten.map Utf8.encode).getD source = current) ∧
    (c.applyFixes = false ∨ Utf8.decode? source = none ∨
        (∃ e, Tree.parse G (.ofPath path) source = .error e) →
      report.rewritten = none ∧ report.fixPasses = 0) := by
  refine ⟨fun s hs => ?_, fun number current p hp hroll => ?_, fun hno => ?_⟩
  · cases ht : Tree.parse G (.ofPath path) source with
    | error e => rw [(report_of_error ht h).1] at hs; cases hs
    | ok t =>
      obtain ⟨passes, hreport⟩ := fromPasses_of_parse ht h
      have hsteps := hreport.adoptions
      have hne : passes ≠ 0 := fun h0 => by
        rw [hreport.rewritten_eq_none.mpr h0] at hs
        cases hs
      rw [hs, Option.map_some, Option.getD_some] at hsteps
      refine ⟨?_, passes, hreport.fixPasses_eq, Nat.pos_of_ne_zero hne, hreport.le, hsteps⟩
      obtain ⟨k, rfl⟩ := Nat.exists_eq_succ_of_ne_zero hne
      obtain ⟨_, -, q, -, -, -, -, -, hparse⟩ := hsteps
      exact hparse
  · obtain ⟨t, ht⟩ := hp.parse_eq_ok
    obtain ⟨passes, hreport⟩ := fromPasses_of_parse ht h
    obtain ⟨hnone, happlied, hstatus⟩ := hroll.review_eq
    -- A pass that is rolled back does not rewrite, and only the last pass does not.
    obtain ⟨q, hq, hqn, -⟩ := hreport.last
    obtain ⟨rfl, rfl, -⟩ := hp.unique_last hnone hq hqn
    exact ⟨happlied, hstatus, hreport.fixPasses_eq, rfl⟩
  · cases ht : Tree.parse G (.ofPath path) source with
    | error e =>
      obtain ⟨h₁, h₂, -⟩ := report_of_error ht h
      exact ⟨h₁, h₂⟩
    | ok t =>
      obtain ⟨passes, hreport⟩ := fromPasses_of_parse ht h
      have hcannot : canRewrite c source = false := by
        rcases hno with hno | hno | ⟨e, he⟩
        · simp [canRewrite, hno]
        · simp [canRewrite, hno]
        · rw [ht] at he
          cases he
      have h0 := hreport.eq_zero hcannot
      exact ⟨hreport.rewritten_eq_none.mpr h0, by rw [hreport.fixPasses_eq, h0]; rfl⟩

/-! ### A file that is rewritten -/

namespace Sample

/-- A construct. -/
def construct (type : String) (start stop : Nat) (children : List Concrete)
    (field : Option String := none) : Concrete :=
  .node ⟨type, true, false, start, stop, field⟩ children

/-- A token. -/
def token (text : String) (start : Nat) (field : Option String := none) : Concrete :=
  .node ⟨text, false, false, start, start + text.length, field⟩ []

/-- A name of one letter. -/
def nameTree (k : Nat) (field : Option String := none) : Concrete :=
  construct "identifier" k (k + 1) [] field

/-- The declaration of a constant with a name of one letter. -/
def constantTree (k : Nat) (value : Concrete) : Concrete :=
  construct "lexical_declaration" k (value.head.stop + 1) [
    token "const" k (some "kind"),
    construct "variable_declarator" (k + 6) value.head.stop
      [nameTree (k + 6) (some "name"), token "=" (k + 8), value],
    token ";" value.head.stop]

/-- An access to a property with a name of one letter. -/
def accessTree (object : Concrete) (optional : Bool) (field : Option String := none) : Concrete :=
  let k := object.head.stop
  let p := if optional then k + 2 else k + 1
  construct "member_expression" object.head.start (p + 1) [
    object,
    if optional then construct "optional_chain" k p [token "?." k] (some "optional_chain")
    else token "." k,
    construct "property_identifier" p (p + 1) [] (some "property")]
    field

/-- A call with its arguments and the commas between them. -/
def callTree (callee : Concrete) (arguments : List Concrete) (field : Option String := none) :
    Concrete :=
  let start := callee.head.stop
  let stop := (arguments.getLast?.map (·.head.stop)).getD (start + 1)
  construct "call_expression" callee.head.start (stop + 1) [
    callee,
    construct "arguments" start (stop + 1)
      (token "(" start :: (arguments ++ [token ")" stop])) (some "arguments")]
    field

/-- An expression that is a statement. -/
def statementTree (e : Concrete) : Concrete :=
  construct "expression_statement" e.head.start (e.head.stop + 1) [e, token ";" e.head.stop]

/-- A constant that is used once. -/
def before : Bytes := Utf8.encode "const x = 1;\nf(x);\n"

/-- The tree of `before`. -/
def tree : Concrete :=
  construct "program" 0 19 [
    construct "lexical_declaration" 0 12 [
      token "const" 0 (some "kind"),
      construct "variable_declarator" 6 11 [
        construct "identifier" 6 7 [] (some "name"),
        token "=" 8,
        construct "number" 10 11 [] (some "value")],
      token ";" 11],
    construct "expression_statement" 13 18 [
      construct "call_expression" 13 17 [
        construct "identifier" 13 14 [] (some "function"),
        construct "arguments" 14 17
          [token "(" 14, construct "identifier" 15 16 [], token ")" 16] (some "arguments")],
      token ";" 17]]

/-- The tree of the call that is left of `before`. -/
def rewrittenTree : Concrete :=
  construct "program" 0 6 [
    construct "expression_statement" 0 5 [
      construct "call_expression" 0 4 [
        construct "identifier" 0 1 [] (some "function"),
        construct "arguments" 1 4
          [token "(" 1, construct "number" 2 3 [], token ")" 3] (some "arguments")],
      token ";" 4]]

/-- What is left of `before`. -/
def after : Bytes := Utf8.encode "f(1);\n"

/-- A grammar that takes these two sources for programs, and no other one. -/
def grammar : Grammar Id := fun _ s =>
  if s == before then ⟨tree, false⟩
  else if s == after then ⟨rewrittenTree, false⟩
  else ⟨rewrittenTree, true⟩

/-- Rewrites are carried out. -/
def config : Config := { applyFixes := true }

theorem analyzeSource_eq : ∃ report,
    analyzeSource grammar "a.js" before config (fun _ => false) = .ok report ∧
    report.rewritten = some "f(1);\n" ∧ report.fixPasses = 1 ∧ report.diagnostics = [] := by
  have h : ((analyzeSource grammar "a.js" before config fun _ => false).toOption.map fun r =>
      (r.rewritten, r.fixPasses, r.diagnostics)) = some (some "f(1);\n", 1, []) := by
    decide +kernel
  cases hr : analyzeSource grammar "a.js" before config fun _ => false with
  | error e => rw [hr] at h; cases h
  | ok report =>
    rw [hr] at h
    have h' := Option.some.inj h
    simp only [Prod.mk.injEq] at h'
    exact ⟨report, rfl, h'⟩

end Sample

/-- The constant is inlined in one pass. -/
theorem sample_adoptions :
    ∃ report,
      analyzeSource Sample.grammar "a.js" Sample.before Sample.config (fun _ => false) =
        .ok report ∧
      report.rewritten = some "f(1);\n" ∧ report.fixPasses = 1 ∧
      Adoptions Sample.grammar .javascript Sample.config Sample.before 1
        (Utf8.encode "f(1);\n") := by
  obtain ⟨report, h, hrewritten, hpasses, -⟩ := Sample.analyzeSource_eq
  obtain ⟨-, passes, heq, -, -, hsteps⟩ := (analyzeSource_passes_atomic h).1 _ hrewritten
  obtain rfl : passes = 1 := by omega
  exact ⟨report, h, hrewritten, hpasses, hsteps⟩

/-- A pass that does not rewrite is the only one when it comes first. -/
theorem fix_of_not_rewritten {t : Tree} {r : Review} (h : t.analyze G c apply = .ok r)
    (hr : r.rewritten = none) :
    t.fix G c stopped apply = .ok (r, { last := r, diagnostics := r.diagnostics }) := by
  have hcontinue : continueFixing G c t.language stopped (maxFixPasses - 1)
      { last := r, diagnostics := r.diagnostics } =
      .ok { last := r, diagnostics := r.diagnostics } := continueFixing_of_none hr
  rw [Tree.fix_eq, h]
  dsimp only
  rw [hcontinue]

/-- What a pass over a source reports when it comes first and does not rewrite. -/
theorem analyzeSource_of_not_rewritten {p : Pass}
    (hp : p.Of G (.ofPath path) c (canRewrite c source) source) (hr : p.review.rewritten = none)
    (hstopped : stopped 0 = false) :
    ∃ report, analyzeSource G path source c stopped = .ok report ∧ report.rewritten = none ∧
      report.fixPasses = 0 ∧ report.remaining = p.review.kept.length ∧
      report.findings.length = p.review.kept.length := by
  have hanalyze : p.tree.analyze G c (canRewrite c source) = .ok p.review := by
    unfold Tree.analyze
    rw [hp.collected]
    change (match p.tree.review G c.marker c.maxFindings (canRewrite c source) p.findings with
      | .error e => .error (AnalysisError.conflict e)
      | .ok review => .ok review) = Except.ok p.review
    rw [hp.reviewed]
  rw [analyzeSource_of_ok hp.parsed, if_neg (by simp [hstopped]), fix_of_not_rewritten hanalyze hr]
  refine ⟨_, rfl, rfl, rfl, rfl, ?_⟩
  simp [Review.findings]

/-- **Fixing is idempotent.**  A second run over what the first one leaves finds the findings that
the first one left, and carries out nothing, unless the first one ran out of passes. -/
theorem analyzeSource_idempotent (h : analyzeSource G path source c stopped = .ok report)
    (hfinished : ∀ n : Nat, s!"stopped after {n} fix passes" ∉ report.diagnostics) :
    ∃ again,
      analyzeSource G path ((report.rewritten.map Utf8.encode).getD source) c stopped =
        .ok again ∧
      again.rewritten = none ∧ again.fixPasses = 0 ∧ again.remaining = report.remaining ∧
      again.findings.length = report.remaining := by
  cases ht : Tree.parse G (.ofPath path) source with
  | error e =>
    obtain ⟨hnone, hzero, hremaining, hfindings⟩ := report_of_error ht h
    rw [hnone]
    exact ⟨report, h, hnone, hzero, rfl, by rw [hremaining, hfindings]; rfl⟩
  | ok t =>
    obtain ⟨passes, hreport⟩ := fromPasses_of_parse ht h
    have hstopped : stopped 0 = false := by
      rw [analyzeSource_of_ok ht] at h
      split at h
      · cases h
      · simpa using ‹¬ stopped 0 = true›
    obtain ⟨p, hp, hnone, hremaining⟩ := hreport.last
    generalize hcurrent : (report.rewritten.map Utf8.encode).getD source = current at hp ⊢
    -- The last pass was to carry out rewrites whenever the second run is.
    have hof : p.Of G (.ofPath path) c (canRewrite c current) current := by
      cases hp with
      | first hp => exact hp
      | @next k _ _ _ _ _ _ hq =>
        have hlt : k + 1 < maxFixPasses :=
          Nat.lt_of_le_of_ne hreport.le fun hmax => hfinished _ (hreport.noted hmax)
        obtain ⟨text, htext⟩ := Option.ne_none_iff_exists'.mp
          (mt hreport.rewritten_eq_none.mp (Nat.succ_ne_zero k))
        have hfixes : canRewrite c source = true := by
          by_contra hcannot
          exact Nat.succ_ne_zero k (hreport.eq_zero (Bool.not_eq_true _ ▸ hcannot))
        have hcan : canRewrite c current = true := by
          rw [canRewrite, Bool.and_eq_true] at hfixes ⊢
          rw [← hcurrent, htext, Option.map_some, Option.getD_some, Utf8.decode?_encode]
          exact ⟨hfixes.1, rfl⟩
        rw [hcan]
        rwa [decide_eq_true hlt] at hq
    obtain ⟨again, hagain, h₁, h₂, h₃, h₄⟩ := analyzeSource_of_not_rewritten hof hnone hstopped
    exact ⟨again, hagain, h₁, h₂, by rw [h₃, hremaining], by rw [h₄, hremaining]⟩

/-- After the constant is inlined nothing is left to do. -/
theorem sample_idempotent :
    ∃ again, analyzeSource Sample.grammar "a.js" (Utf8.encode "f(1);\n") Sample.config
      (fun _ => false) = .ok again ∧ again.rewritten = none ∧ again.fixPasses = 0 := by
  obtain ⟨report, h, hrewritten, -, hdiagnostics⟩ := Sample.analyzeSource_eq
  obtain ⟨again, hagain, h₁, h₂, -⟩ := analyzeSource_idempotent h fun n => by simp [hdiagnostics]
  rw [hrewritten] at hagain
  exact ⟨again, hagain, h₁, h₂⟩

end Declutter
