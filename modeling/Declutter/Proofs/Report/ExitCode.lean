import Mathlib.Data.List.Forall2
import Declutter.Config.Setting
import Declutter.Files.Replace
import Declutter.Proofs.Analysis.Session

/-!
# What the exit code says

A run ends with code 0 when no file failed, none was given up, and the numbers of findings that the
files are left with add up to zero.  These numbers count what the last pass over a file keeps, so
nothing that no comment exempts is left at all, provided that something may be kept.

## Main definitions

* `Reported` — the reports that a run, and writing its results, can make of a file.
* `LeavesNothing` — whether the last pass over a file raised nothing that no comment exempts.

## Main results

* `Tree.exempts_of_kept_eq_nil` — a triage that keeps nothing had nothing to keep.
* `Reported.leavesNothing` — what it means that no finding is left of a file.
* `exitCode_zero_leaves_nothing` — what exit code 0 means.
* `exitCode_zero_of_capped` — where no finding may be kept it means less.
-/

namespace Declutter

/-! ### Keeping nothing -/

theorem Finding.repeats_self (f : Finding) : f.repeats f = true := by
  simp [Finding.repeats]

namespace Tree

variable {G : Grammar Id} {t : Tree} {marker : String} {maxFindings : Nat} {apply : Bool}
  {findings : List Finding}

/-- Every finding gets its place in the list as its number. -/
theorem mem_numbered {f : Finding} {number : Nat} (h : findings[number]? = some f) :
    (⟨number, f⟩ : Numbered) ∈
      findings.zipIdx.map fun (finding, number) => (⟨number, finding⟩ : Numbered) := by
  refine List.mem_map.mpr ⟨(f, number), ?_, rfl⟩
  rwa [List.mk_mem_zipIdx_iff_getElem?]

/-- **A triage that keeps nothing had nothing to keep**, unless nothing may be kept: all findings
are exempt, and none was cut off. -/
theorem exempts_of_kept_eq_nil (h : (t.triage marker maxFindings findings).kept = [])
    (hmax : maxFindings ≠ 0) :
    (∀ f ∈ findings, t.exempts marker f = true) ∧
      (t.triage marker maxFindings findings).truncated = 0 := by
  unfold Tree.triage at h ⊢
  dsimp only at h ⊢
  rw [List.take_eq_nil_iff, or_iff_right hmax] at h
  refine ⟨fun f hf => ?_, by rw [h, List.length_nil, Nat.zero_sub]⟩
  by_contra hexempt
  obtain ⟨number, hnumber⟩ := List.mem_iff_getElem?.mp hf
  -- A finding that no comment exempts is one of the others, and of these one is kept.
  have hother : (⟨number, f⟩ : Numbered) ∈
      ((findings.zipIdx.map fun (finding, number) => (⟨number, finding⟩ : Numbered)).partition
        fun n => t.exempts marker n.finding).2 := by
    rw [List.partition_eq_filter_filter, List.mem_filter]
    exact ⟨mem_numbered hnumber, by simp [hexempt]⟩
  obtain ⟨n, hn, -⟩ := @exists_mem_distinctBy _ (fun m n => m.finding.repeats n.finding)
    (fun n => n.finding.repeats_self) [] _ _ hother
  have hkept := (mem_sortBy fun m n : Numbered => m.finding.reportedBefore n.finding).mpr hn
  rw [h] at hkept
  cases hkept

/-- A review keeps and cuts off as many findings as its triage. -/
theorem review_counts {r : Review} (h : t.review G marker maxFindings apply findings = .ok r) :
    r.kept.length = (t.triage marker maxFindings findings).kept.length ∧
      r.truncated = (t.triage marker maxFindings findings).truncated := by
  have hreport (status : Status) (g : Triage) :
      (g.report status).kept.length = g.kept.length := by
    simp [Triage.report, Triage.settled]
  obtain ⟨-, rfl⟩ | ⟨-, -, -, rfl⟩ := Tree.review_cases h
  · exact ⟨hreport _ _, rfl⟩
  · unfold Triage.conclude
    split <;> exact ⟨hreport _ _, rfl⟩

end Tree

/-! ### Reports of files -/

/-- Whether a report is one that a run, which may have been cancelled or have run out of time at
any point, can make of a file, or that with what writing its result adds to it. -/
inductive Reported (c : Config) (f : SourceFile Id) : FileReport → Prop
  | analyzed {report} (stopped : Nat → Bool)
      (h : analyzeSource f.grammar f.path f.source c stopped = .ok report) : Reported c f report
  | failed {outcome} (h : outcome ∈ [Outcome.cancelled, .timedOut, .error]) (message : String) :
      Reported c f (.failure f.path outcome message)
  | written {report} (h : Reported c f report) (dryRun : Bool) (results : List WriteResult) :
      Reported c f (report.afterWriting dryRun results)

/-- Whether the last pass over a file, which is over the text that the report gives, raised nothing
that no comment exempts. -/
def LeavesNothing (c : Config) (f : SourceFile Id) (report : FileReport) : Prop :=
  ∃ passes p, IsPass f.grammar (.ofPath f.path) c (canRewrite c f.source) f.source passes
      ((report.rewritten.map Utf8.encode).getD f.source) p ∧
    p.review.rewritten = none ∧ p.review.kept = [] ∧ p.review.truncated = 0 ∧
    ∀ finding ∈ p.findings, p.tree.exempts c.marker finding = true

theorem WriteError.message_ne_empty (e : WriteError) : e.message ≠ "" := by
  cases e <;> simp [WriteError.message, toString]

namespace FileReport

variable (r : FileReport) (dryRun : Bool) (results : List WriteResult)

/-- What writing the result of a file adds to its report. -/
theorem afterWriting_cases :
    (r.afterWriting dryRun results = r ∨
      r.afterWriting dryRun results = { r with written := true }) ∨
    ∃ e : WriteError, r.afterWriting dryRun results = { r with
      writeError := some e.message
      diagnostics := r.diagnostics ++ ["could not write rewritten source: " ++ e.message] } := by
  unfold afterWriting
  split
  · exact .inl (.inl rfl)
  · split
    · exact .inr ⟨_, rfl⟩
    · split
      · exact .inl (.inr rfl)
      · exact .inl (.inl rfl)

end FileReport

namespace Reported

variable {c : Config} {f : SourceFile Id} {r : FileReport}

theorem remaining_nonneg (h : Reported c f r) : 0 ≤ r.remaining := by
  induction h with
  | analyzed stopped h =>
    cases ht : Tree.parse f.grammar (.ofPath f.path) f.source with
    | error e => exact (report_of_error ht h).2.2.1 ▸ Int.le_refl 0
    | ok t =>
      obtain ⟨passes, hpasses⟩ := fromPasses_of_parse ht h
      obtain ⟨p, -, -, hremaining⟩ := hpasses.last
      rw [hremaining]
      exact Int.natCast_nonneg _
  | failed => exact Int.le_refl 0
  | @written report _ dryRun results ih =>
    obtain (heq | heq) | ⟨e, heq⟩ := report.afterWriting_cases dryRun results <;>
      rw [heq] <;> exact ih

/-- A report says why a file could not be written. -/
theorem failedToWrite_eq (h : Reported c f r) : r.failedToWrite = r.writeError.isSome := by
  induction h with
  | analyzed stopped h =>
    rw [FileReport.failedToWrite, (report_of_analyzeSource h).2.1]
    rfl
  | failed => rfl
  | @written report _ dryRun results ih =>
    obtain (heq | heq) | ⟨e, heq⟩ := report.afterWriting_cases dryRun results
    · rw [heq]
      exact ih
    · rw [heq]
      exact ih
    · rw [heq]
      simp [FileReport.failedToWrite, e.message_ne_empty]

/-- **A file of which no finding is left** was analysed to the end: the last pass over it raised
nothing that no comment exempts. -/
theorem leavesNothing (h : Reported c f r) (hmax : c.maxFindings ≠ 0) (hok : r.outcome = .ok)
    (hremaining : r.remaining = 0) : LeavesNothing c f r := by
  induction h with
  | @analyzed report stopped h =>
    obtain ⟨-, -, ⟨-, t, ht⟩ | hparse⟩ := report_of_analyzeSource h
    · obtain ⟨passes, hpasses⟩ := fromPasses_of_parse ht h
      obtain ⟨p, hp, hrewritten, hlength⟩ := hpasses.last
      obtain ⟨apply, hof⟩ := hp.of
      obtain ⟨hkept, htruncated⟩ := Tree.review_counts hof.reviewed
      have hnil : p.review.kept = [] := by
        rw [hlength, Int.natCast_eq_zero] at hremaining
        exact List.length_eq_zero_iff.mp hremaining
      rw [hnil, List.length_nil] at hkept
      obtain ⟨hexempt, hnone⟩ :=
        Tree.exempts_of_kept_eq_nil (List.length_eq_zero_iff.mp hkept.symm) hmax
      exact ⟨passes, p, hp, hrewritten, hnil, htruncated.trans hnone, hexempt⟩
    · rw [hparse] at hok
      cases hok
  | failed houtcome =>
    change _ = Outcome.ok at hok
    subst hok
    simp at houtcome
  | @written report _ dryRun results ih =>
    -- Writing changes neither the outcome nor the text nor the number of findings.
    obtain (heq | heq) | ⟨e, heq⟩ := report.afterWriting_cases dryRun results <;>
      rw [heq] at hok hremaining ⊢ <;> exact ih hok hremaining

end Reported

/-! ### Reports of runs -/

namespace RunReport

variable {r : RunReport}

theorem exitCode_eq_zero_iff :
    r.exitCode = 0 ↔ r.hasFailed = false ∧ r.remaining = 0 ∧ r.isIncomplete = false := by
  unfold exitCode
  cases r.hasFailed <;> cases r.isIncomplete <;> by_cases h : r.remaining = 0 <;> simp [h]

/-- Numbers of findings that add up to zero are zero. -/
theorem eq_zero_of_remaining (hnonneg : ∀ f ∈ r.files, 0 ≤ f.remaining) (h : r.remaining = 0) :
    ∀ f ∈ r.files, f.remaining = 0 := by
  obtain ⟨files⟩ := r
  unfold remaining at h
  have hsum (rest : List FileReport) (hrest : ∀ f ∈ rest, 0 ≤ f.remaining) :
      0 ≤ rest.foldr (fun f n => f.remaining + n) 0 := by
    induction rest with
    | nil => exact Int.le_refl 0
    | cons f rest ih =>
      exact Int.add_nonneg (hrest f (.head _)) (ih fun g hg => hrest g (.tail _ hg))
  induction files with
  | nil => simp
  | cons f rest ih =>
    have hf := hnonneg f (.head _)
    have hrest := hsum rest fun g hg => hnonneg g (.tail _ hg)
    rw [List.foldr_cons] at h
    rintro g (_ | ⟨_, hg⟩)
    · omega
    · exact ih (fun g hg => hnonneg g (.tail _ hg)) (by dsimp only; omega) g hg

end RunReport

/-- The files of a run are reported one by one. -/
theorem Session.reported_run (s : Session) (files : List (SourceFile Id)) :
    List.Forall₂ (Reported s.config) files (s.run files).1.files := by
  rw [Session.files_run, List.forall₂_map_right_iff, List.forall₂_same]
  intro f _
  rw [runFile_eq]
  split
  · exact .failed (by simp) _
  · split
    · rename_i report h
      exact .analyzed _ h
    · rename_i e he
      rw [FileReport.ofError_eq (ne_cancelled_of_analyzeSource (fun _ => rfl) he)]
      exact .failed (by simp) _

/-- So they are after their results are written. -/
theorem RunReport.reported_write {c : Config} {files : List (SourceFile Id)} {r : RunReport}
    (h : List.Forall₂ (Reported c) files r.files) (dryRun : Bool) (disk : Disk) :
    List.Forall₂ (Reported c) files (r.write dryRun disk).2.1.files := by
  unfold RunReport.write
  dsimp only
  rw [List.forall₂_map_right_iff]
  exact h.imp fun f report hreport => hreport.written dryRun _

theorem Reported.exists_of_mem {c : Config} {files : List (SourceFile Id)}
    {reports : List FileReport} (h : List.Forall₂ (Reported c) files reports) {r : FileReport}
    (hr : r ∈ reports) : ∃ f ∈ files, Reported c f r := by
  induction h with
  | nil => cases hr
  | cons hf _ ih =>
    rcases List.mem_cons.mp hr with rfl | hr
    · exact ⟨_, .head _, hf⟩
    · obtain ⟨f, hmem, hf⟩ := ih hr
      exact ⟨f, .tail _ hmem, hf⟩

/-- **Exit code 0 means that nothing is left.**  It is given only when every file was analysed to
the end or does not parse, none could not be written, and, provided that something may be kept, the
last pass over each program raised nothing that no comment exempts.  This goes for what a run
reports and for the report after its results are written. -/
theorem exitCode_zero_leaves_nothing (c : Config) (files : List (SourceFile Id)) :
    (∀ s : Session, s.config = c →
      List.Forall₂ (Reported c) files (s.run files).1.files) ∧
    ∀ report : RunReport, List.Forall₂ (Reported c) files report.files →
      (∀ dryRun disk, List.Forall₂ (Reported c) files (report.write dryRun disk).2.1.files) ∧
      (report.exitCode = 0 →
        (∀ r ∈ report.files, (r.outcome = .ok ∨ r.outcome = .parseError) ∧ r.writeError = none) ∧
        (files ≠ [] → ∃ r ∈ report.files, r.outcome = .ok) ∧
        (c.maxFindings ≠ 0 →
          List.Forall₂ (fun f r => r.outcome = .ok → LeavesNothing c f r) files report.files)) := by
  refine ⟨fun s hs => hs ▸ s.reported_run files, fun report hreport => ?_⟩
  refine ⟨RunReport.reported_write hreport, fun hzero => ?_⟩
  obtain ⟨hfailed, hremaining, hincomplete⟩ := RunReport.exitCode_eq_zero_iff.mp hzero
  simp only [RunReport.hasFailed, RunReport.isIncomplete, Bool.or_eq_false_iff, List.any_eq_false,
    Bool.and_eq_false_iff, Bool.not_eq_true, beq_eq_false_iff_ne] at hfailed hincomplete
  obtain ⟨hfailed, hparsed⟩ := hfailed
  have houtcome : ∀ r ∈ report.files,
      (r.outcome = .ok ∨ r.outcome = .parseError) ∧ r.writeError = none := by
    intro r hr
    obtain ⟨f, -, hf⟩ := Reported.exists_of_mem hreport hr
    have hwrite := (hfailed r hr).2
    rw [hf.failedToWrite_eq, Option.isSome_eq_false_iff, Option.isNone_iff_eq_none] at hwrite
    refine ⟨?_, hwrite⟩
    cases h : r.outcome with
    | ok => exact .inl rfl
    | parseError => exact .inr rfl
    | timedOut => exact absurd h (hincomplete r hr).1
    | cancelled => exact absurd h (hincomplete r hr).2
    | error => exact absurd h (hfailed r hr).1
  refine ⟨houtcome, fun hne => ?_, fun hmax => ?_⟩
  · -- Some file parses, and a file that does was analysed to the end.
    have hfiles : report.files ≠ [] := by
      rw [ne_eq, ← List.length_eq_zero_iff, ← hreport.length_eq, List.length_eq_zero_iff]
      exact hne
    obtain ⟨r, hr, hparse⟩ := List.all_eq_false.mp (hparsed.resolve_left (by simpa using hfiles))
    exact ⟨r, hr, (houtcome r hr).1.resolve_right (by simpa using hparse)⟩
  · have hzeros := RunReport.eq_zero_of_remaining (fun r hr => by
      obtain ⟨f, -, hf⟩ := Reported.exists_of_mem hreport hr
      exact hf.remaining_nonneg) hremaining
    refine List.forall₂_iff_zip.mpr ⟨hreport.length_eq, fun {f r} hmem hok => ?_⟩
    exact (List.forall₂_zip hreport hmem).leavesNothing hmax hok (hzeros r (List.of_mem_zip hmem).2)

/-- Nothing is left of the constant that is inlined. -/
theorem sample_exits_zero :
    let report := (Session.run { config := Sample.config } [Sample.file]).1
    report.exitCode = 0 ∧ ∃ r, report.files = [r] ∧ r.outcome = .ok ∧
      LeavesNothing Sample.config Sample.file r := by
  intro report
  obtain ⟨hrun, hreports⟩ := exitCode_zero_leaves_nothing Sample.config [Sample.file]
  have hzero : report.exitCode = 0 := by decide +kernel
  obtain ⟨-, hsome, hleaves⟩ := (hreports report (hrun _ rfl)).2 hzero
  obtain ⟨r, hr, hok⟩ := hsome (by simp)
  have hfiles := hleaves (by decide)
  generalize report.files = reports at hr hfiles ⊢
  cases hfiles with
  | cons hleaves hrest =>
    cases hrest
    obtain rfl := List.mem_singleton.mp hr
    exact ⟨hzero, _, rfl, hok, hleaves hok⟩

/-- A configuration may allow no finding to be kept.  Then a run ends with code 0 although it cut
off a finding. -/
theorem exitCode_zero_of_capped :
    ∃ c, Config.ofSettings { maxFindings := some (.integer 0) } = .ok c ∧
      let report := (Session.run { config := c } [Sample.file]).1
      report.exitCode = 0 ∧
        report.files.map (fun r => (r.outcome, r.fixPasses, r.remaining, r.truncated)) =
          [(.ok, 0, 0, 1)] :=
  ⟨{ maxFindings := 0 }, by decide +kernel, by decide +kernel, by decide +kernel⟩

end Declutter
