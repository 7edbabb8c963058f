import Mathlib.Data.List.Induction
import Declutter.Analysis.Session
import Declutter.Proofs.Analysis.Passes

/-!
# Cancellation is spent by one run

A request to cancel is kept until the next run over files and given up by it, so the files of a run
are reported as cancelled exactly when a request came after the last such run.  A run over no files
takes no part in this: it reports nothing and leaves the request to the run after it.

## Main definitions

* `Request`, `Session.after` — what a session is asked for, and the session afterwards.
* `CancelPending` — whether a request to cancel came after the last run of some sort.

## Main results

* `ne_cancelled_of_analyzeSource` — an analysis that is not asked to stop is not cancelled.
* `Session.cancelRequested_after` — what a session remembers of the requests.
* `cancel_spent_by_one_run` — which runs are cancelled.
* `cancel_outlives_empty_run` — a run over no files does not spend the request.
-/

namespace Declutter

variable {G : Grammar Id} {l : Language} {c : Config} {path : String} {source : Bytes}
  {stopped : Nat → Bool} {e : AnalysisError}

/-! ### Files that are not asked to stop -/

theorem ne_cancelled_of_analyze {t : Tree} {apply : Bool} (h : t.analyze G c apply = .error e) :
    e ≠ .cancelled := by
  rintro rfl
  unfold Tree.analyze at h
  split at h
  · cases h
  · rename_i findings _
    change (match t.review G c.marker c.maxFindings apply findings with
      | .error e => .error (AnalysisError.conflict e)
      | .ok review => .ok review) = Except.error AnalysisError.cancelled at h
    split at h <;> cases h

theorem ne_cancelled_of_analyzeAgain {apply : Bool} (h : analyzeAgain G c l apply source = .error e) :
    e ≠ .cancelled := by
  change (match Tree.parse G l source with
    | .error e => .error (AnalysisError.unparsable e)
    | .ok tree => tree.analyze G c apply : Except AnalysisError Review) = .error e at h
  split at h
  · rw [← Except.error.inj h]
    exact AnalysisError.noConfusion
  · exact ne_cancelled_of_analyze h

/-- Further passes end as cancelled only when they are asked to stop. -/
theorem ne_cancelled_of_continueFixing (hstopped : ∀ n, stopped n = false) (left : Nat)
    {f : Fixing} (h : continueFixing G c l stopped left f = .error e) : e ≠ .cancelled := by
  have hgo (n : Nat) : ¬ stopped n = true := by simp [hstopped n]
  induction left generalizing f with
  | zero =>
    cases hs : f.last.rewritten with
    | none =>
      rw [continueFixing_of_none hs] at h
      cases h
    | some s =>
      rw [continueFixing_zero hs (hgo _)] at h
      split at h
      · rename_i e' he
        rw [← Except.error.inj h]
        exact ne_cancelled_of_analyzeAgain he
      · cases h
  | succ left ih =>
    cases hs : f.last.rewritten with
    | none =>
      rw [continueFixing_of_none hs] at h
      cases h
    | some s =>
      rw [continueFixing_succ hs (hgo _)] at h
      split at h
      · rename_i e' he
        rw [← Except.error.inj h]
        exact ne_cancelled_of_analyzeAgain he
      · exact ih h

theorem ne_cancelled_of_fix (hstopped : ∀ n, stopped n = false) {t : Tree} {apply : Bool}
    (h : t.fix G c stopped apply = .error e) : e ≠ .cancelled := by
  rw [Tree.fix_eq] at h
  split at h
  · rename_i e' he
    rw [← Except.error.inj h]
    exact ne_cancelled_of_analyze he
  · split at h
    · rename_i e' he
      rw [← Except.error.inj h]
      exact ne_cancelled_of_continueFixing hstopped _ he
    · cases h

theorem ne_cancelled_of_ofPasses {base : FileReport} {first : Review} {f : Fixing}
    (h : base.ofPasses first f = .error e) : e ≠ .cancelled := by
  unfold FileReport.ofPasses Fixing.rewritten? at h
  split at h
  · cases h
  · split at h
    · cases h
    · rw [← Except.error.inj h]
      exact AnalysisError.noConfusion

/-- **An analysis that is not asked to stop** is not cancelled. -/
theorem ne_cancelled_of_analyzeSource (hstopped : ∀ n, stopped n = false)
    (h : analyzeSource G path source c stopped = .error e) : e ≠ .cancelled := by
  cases ht : Tree.parse G (.ofPath path) source with
  | error e =>
    rw [analyzeSource_of_error ht] at h
    cases h
  | ok t =>
    rw [analyzeSource_of_ok ht, if_neg (by simp [hstopped 0])] at h
    split at h
    · rename_i e' hfix
      rw [← Except.error.inj h]
      exact ne_cancelled_of_fix hstopped hfix
    · exact ne_cancelled_of_ofPasses h

/-- What an analysis reports: it is given under the path of the file, nothing was written yet, and
the file is a program or does not parse. -/
theorem report_of_analyzeSource {report : FileReport}
    (h : analyzeSource G path source c stopped = .ok report) :
    report.path = path ∧ report.writeError = none ∧
      (report.outcome = .ok ∧ (∃ t, Tree.parse G (.ofPath path) source = .ok t) ∨
        report.outcome = .parseError) := by
  cases ht : Tree.parse G (.ofPath path) source with
  | error e =>
    rw [analyzeSource_of_error ht] at h
    rw [← Except.ok.inj h]
    exact ⟨rfl, rfl, .inr rfl⟩
  | ok t =>
    rw [analyzeSource_of_ok ht] at h
    split at h
    · cases h
    split at h
    · cases h
    · obtain ⟨rewritten, -, rfl⟩ := ofPasses_eq_ok h
      exact ⟨rfl, rfl, .inl ⟨rfl, t, rfl⟩⟩

/-- The report of a file whose analysis ended otherwise than asked to. -/
theorem FileReport.ofError_eq (he : e ≠ .cancelled) :
    FileReport.ofError path e = .failure path .error (e.name ++ ": " ++ e.message) := by
  cases e <;> first | rfl | exact absurd rfl he

theorem runFile_eq (cancelled : Bool) (f : SourceFile Id) :
    runFile c cancelled f =
      if cancelled then FileReport.ofError f.path .cancelled
      else match analyzeSource f.grammar f.path f.source c fun _ => false with
        | .ok report => report
        | .error e => .ofError f.path e := rfl

/-- The report of a file is given under its path. -/
theorem path_runFile {cancelled : Bool} (f : SourceFile Id) :
    (runFile c cancelled f).path = f.path := by
  rw [runFile_eq]
  split
  · rfl
  · split
    · rename_i report h
      exact (report_of_analyzeSource h).1
    · rename_i e _
      cases e <;> rfl

/-- A file is reported as cancelled exactly when its run is. -/
theorem outcome_runFile_eq_cancelled {cancelled : Bool} {f : SourceFile Id} :
    (runFile c cancelled f).outcome = .cancelled ↔ cancelled = true := by
  rw [runFile_eq]
  cases cancelled with
  | true => exact iff_of_true rfl rfl
  | false =>
    rw [if_neg Bool.false_ne_true]
    refine iff_of_false ?_ Bool.false_ne_true
    intro h
    split at h
    · rename_i report hreport
      obtain ⟨-, -, ⟨hok, -⟩ | hparse⟩ := report_of_analyzeSource hreport
      · rw [hok] at h
        cases h
      · rw [hparse] at h
        cases h
    · rename_i e he
      rw [FileReport.ofError_eq (ne_cancelled_of_analyzeSource (fun _ => rfl) he)] at h
      cases h

/-! ### Requests -/

/-- What a session is asked for. -/
inductive Request where
  | cancel
  | run (files : List (SourceFile Id))

namespace Session

variable {s : Session} {files : List (SourceFile Id)} {requests : List Request}

/-- The session after a request. -/
def step (s : Session) : Request → Session
  | .cancel => s.cancel
  | .run files => (s.run files).2

/-- The session after some requests. -/
def after (s : Session) (requests : List Request) : Session := requests.foldl step s

theorem run_nil : s.run ([] : List (SourceFile Id)) = ({}, s) := rfl

theorem run_of_ne_nil (h : files ≠ []) :
    s.run files =
      (⟨files.map (runFile s.config s.cancelRequested)⟩, { s with cancelRequested := false }) := by
  unfold run
  rw [if_neg (by simpa using h)]
  have hmap : files.mapM (runFile s.config s.cancelRequested) =
      files.map (runFile s.config s.cancelRequested) := List.idRun_mapM
  change (RunReport.mk (files.mapM (runFile s.config s.cancelRequested)), _) = _
  rw [hmap]

/-- A run reports its files in order. -/
theorem files_run :
    (s.run files).1.files = files.map (runFile s.config s.cancelRequested) := by
  by_cases h : files = []
  · subst h
    rfl
  · rw [run_of_ne_nil h]

/-- **A request is remembered until a run over files.**  A request to cancel sets the mark, such a
run clears it, and a run over no files leaves it alone. -/
theorem cancelRequested_step (r : Request) :
    (s.step r).cancelRequested = true ↔
      r = .cancel ∨ s.cancelRequested = true ∧ ∀ files, r = .run files → files = [] := by
  cases r with
  | cancel => simp [step, cancel]
  | run files =>
    by_cases h : files = []
    · subst h
      simp [step, run_nil]
    · simp [step, run_of_ne_nil h, h]

end Session

/-- Whether a request to cancel came after the last run of a sort. -/
def CancelPending (spends : List (SourceFile Id) → Prop) (requests : List Request) : Prop :=
  ∃ before after, requests = before ++ .cancel :: after ∧
    ∀ files, .run files ∈ after → ¬ spends files

namespace CancelPending

variable {spends : List (SourceFile Id) → Prop} {requests : List Request}

theorem not_nil : ¬ CancelPending spends [] := by
  rintro ⟨before, after, h, -⟩
  simp at h

/-- What one more request changes. -/
theorem concat_iff (r : Request) :
    CancelPending spends (requests ++ [r]) ↔
      r = .cancel ∨ CancelPending spends requests ∧ ∀ files, r = .run files → ¬ spends files := by
  constructor
  · rintro ⟨before, after, h, hafter⟩
    rcases List.eq_nil_or_concat after with rfl | ⟨rest, last, rfl⟩
    · exact .inl (List.append_singleton_inj.mp h).2
    · rw [List.concat_eq_append, ← List.cons_append, ← List.append_assoc] at h
      obtain ⟨rfl, rfl⟩ := List.append_singleton_inj.mp h
      refine .inr ⟨⟨before, rest, rfl, fun files hfiles => hafter files ?_⟩,
        fun files hr => hafter files ?_⟩
      · simp [hfiles]
      · simp [hr]
  · rintro (rfl | ⟨⟨before, after, rfl, hafter⟩, hr⟩)
    · exact ⟨requests, [], rfl, by simp⟩
    · refine ⟨before, after ++ [r], by simp, fun files hfiles => ?_⟩
      rcases List.mem_append.mp hfiles with hfiles | hfiles
      · exact hafter files hfiles
      · exact hr files (List.mem_singleton.mp hfiles).symm

/-- It does not matter which runs do not spend a request when none of them came. -/
theorem congr {spends' : List (SourceFile Id) → Prop}
    (h : ∀ files, .run files ∈ requests → (spends files ↔ spends' files)) :
    CancelPending spends requests ↔ CancelPending spends' requests := by
  refine exists_congr fun before => exists_congr fun after => and_congr_right fun heq => ?_
  refine forall_congr' fun files => imp_congr_right fun hfiles => not_congr (h files ?_)
  rw [heq]
  exact List.mem_append_right _ (List.mem_cons_of_mem _ hfiles)

end CancelPending

/-- **What a session remembers.**  A session that starts without a request is to cancel its next
run exactly when one came after its last run over files. -/
theorem Session.cancelRequested_after {s : Session} (hs : s.cancelRequested = false)
    (requests : List Request) :
    (s.after requests).cancelRequested = true ↔ CancelPending (· ≠ []) requests := by
  induction requests using List.reverseRecOn with
  | nil => simp [Session.after, hs, CancelPending.not_nil]
  | append_singleton requests r ih =>
    rw [Session.after, List.foldl_append]
    change (Session.step (s.after requests) r).cancelRequested = true ↔ _
    rw [Session.cancelRequested_step, CancelPending.concat_iff, ih]
    simp only [ne_eq, not_not]

/-- **Cancellation is spent by one run.**  Whatever a session was asked for before, a run reports
all its files, as cancelled exactly when a request to cancel came after the last run over files,
and the runs after it start without that request.  If there was no run over no files, that is when a
request came after the last run. -/
theorem cancel_spent_by_one_run (c : Config) (requests : List Request)
    (files : List (SourceFile Id)) :
    let s := Session.after { config := c } requests
    (s.run files).1.files.map (·.path) = files.map (·.path) ∧
    (∀ r ∈ (s.run files).1.files, r.outcome = .cancelled ↔ CancelPending (· ≠ []) requests) ∧
    (.run [] ∉ requests → ∀ r ∈ (s.run files).1.files,
      r.outcome = .cancelled ↔ CancelPending (fun _ => True) requests) ∧
    (files ≠ [] → (s.run files).2.cancelRequested = false) := by
  intro s
  have hcancelled : ∀ r ∈ (s.run files).1.files,
      r.outcome = .cancelled ↔ CancelPending (· ≠ []) requests := by
    intro r hr
    rw [Session.files_run, List.mem_map] at hr
    obtain ⟨f, -, rfl⟩ := hr
    rw [outcome_runFile_eq_cancelled, Session.cancelRequested_after rfl]
  refine ⟨?_, hcancelled, fun hnonempty r hr => ?_, fun h => ?_⟩
  · rw [Session.files_run, List.map_map]
    exact List.map_congr_left fun f _ => path_runFile f
  · rw [hcancelled r hr]
    refine CancelPending.congr fun gs hgs => iff_of_true ?_ trivial
    rintro rfl
    exact hnonempty hgs
  · rw [Session.run_of_ne_nil h]

/-- A file with a constant that is used once. -/
def Sample.file : SourceFile Id where
  path := "a.js"
  source := before
  grammar := grammar

/-- The second run after a request is not cancelled, nor is any run to come. -/
theorem sample_cancel_spent :
    let s := Session.after { config := Sample.config } [.cancel, .run [Sample.file]]
    (∀ r ∈ (s.run [Sample.file]).1.files, r.outcome ≠ .cancelled) ∧
    (s.run [Sample.file]).2.cancelRequested = false := by
  intro s
  obtain ⟨-, -, hcancelled, hnext⟩ := cancel_spent_by_one_run Sample.config
    [.cancel, .run [Sample.file]] [Sample.file]
  refine ⟨fun r hr h => ?_, hnext (by simp)⟩
  have hpending := (hcancelled (by simp) r hr).mp h
  rw [show [Request.cancel, .run [Sample.file]] = [.cancel] ++ [.run [Sample.file]] from rfl,
    CancelPending.concat_iff] at hpending
  simp at hpending

/-- A run over no files does not spend a request: the run after it is cancelled, although no
request came in between. -/
theorem cancel_outlives_empty_run :
    let requests := [.cancel, .run []]
    (((Session.after { config := Sample.config } requests).run [Sample.file]).1.files.map
      (·.outcome)) = [.cancelled] ∧
    ¬ CancelPending (fun _ => True) requests := by
  refine ⟨by decide +kernel, fun h => ?_⟩
  rw [show [Request.cancel, .run []] = [.cancel] ++ [.run []] from rfl,
    CancelPending.concat_iff] at h
  simp at h

end Declutter
