import Declutter.Proofs.Analysis.Acceptance
import Declutter.Proofs.Analysis.Passes
import Declutter.Proofs.Binding.SingleUse
import Declutter.Proofs.Merge.Outcome

/-!
# The analysis ends with a report

For a grammar that keeps its promises, the analysis of a file ends with a report unless it is asked
to stop.  No pass meets a defect; the accepted edits do not overlap, so they are all carried out;
they replace whole characters, so the result is text; and a result that was found to be a program
is one when it is parsed again.

## Main definitions

* `Finding.Resolved` — whether a finding has a rewrite or says why it has none.

## Main results

* `Tree.collectFindings_resolved` — the findings of a program are resolved.
* `Tree.fits_accepted` — the accepted edits fit.
* `analyzeSource_total` — the analysis ends with a report.
-/

namespace Declutter

open Utf8 Attempt

/-! ### Findings -/

/-- Whether a finding has a rewrite, made of edits that replace whole characters, or else says
why it has none. -/
def Finding.Resolved (t : Tree) (f : Finding) : Prop :=
  (f.unavailable = none ∧ ∃ r edits, f.rewrite = some r ∧ Rewrite.ofEdits edits = .ok r ∧
    ∀ e ∈ edits, t.Places e) ∨
  (f.rewrite = none ∧ ∃ why, f.unavailable = some (.withheld why))

theorem Finding.exists_resolve {t : Tree} {f : Finding} {attempt : Attempt Rewrite}
    (hf : f.rewrite = none ∧ f.unavailable = none)
    (h : attempt.Yields fun r => ∃ edits, Rewrite.ofEdits edits = .ok r ∧
      ∀ e ∈ edits, t.Places e) :
    ∃ g, f.resolve attempt = .ok g ∧ g.Resolved t := by
  cases hattempt : attempt with
  | ok r =>
    obtain ⟨edits, hedits, hplaced⟩ := h.of_ok hattempt
    exact ⟨{ f with rewrite := some r }, rfl, .inl ⟨hf.2, r, edits, rfl, hedits, hplaced⟩⟩
  | error e =>
    obtain ⟨why, rfl⟩ := h.of_error hattempt
    exact ⟨{ f with unavailable := some (.withheld why) }, rfl, .inr ⟨hf.1, why, rfl⟩⟩

/-- A list on which a function succeeds everywhere has all the results. -/
theorem exists_mapM_ok {α β ε : Type} {f : α → Except ε β} {P : β → Prop} {l : List α}
    (h : ∀ a ∈ l, ∃ b, f a = .ok b ∧ P b) : ∃ bs, l.mapM f = .ok bs ∧ ∀ b ∈ bs, P b := by
  induction l with
  | nil => exact ⟨[], rfl, fun b hb => nomatch hb⟩
  | cons a l ih =>
    obtain ⟨b, hb, hPb⟩ := h a (.head _)
    obtain ⟨bs, hbs, hPbs⟩ := ih fun c hc => h c (.tail _ hc)
    refine ⟨b :: bs, ?_, fun d hd => ?_⟩
    · rw [List.mapM_cons, hb, hbs]
      rfl
    · rcases List.mem_cons.mp hd with rfl | hd
      · exact hPb
      · exact hPbs d hd

variable {t : Tree} {b : BindingTable} {c : Config}

/-- Inlining a single-use binding is withheld, or its edits replace whole characters. -/
theorem BindingTable.inline_yields (hg : t.GrammarShaped) {i : BindingId}
    (hi : b.isSingleUse t c.inlinePolicy i = true) :
    (b.inline t c.marker i).Yields fun r => ∃ edits, Rewrite.ofEdits edits = .ok r ∧
      ∀ e ∈ edits, t.Places e := by
  obtain ⟨usage, husage⟩ := b.exists_soleRead hi
  unfold inline
  split
  · refine (yields_fetch (P := fun _ => True) _ ⟨usage, husage, trivial⟩).bind fun u _ => ?_
    dsimp only
    split
    · rename_i r hr
      refine yields_pure ⟨_, hr, fun e he => ?_⟩
      rcases List.mem_cons.mp he with rfl | he
      · exact hg.places_node _ _
      · rw [List.mem_singleton.mp he]
        exact hg.places_removal _ _
    · exact yields_withhold _
  · exact yields_withhold _

theorem Tree.singleUseFindings_resolved (hg : t.GrammarShaped) :
    ∃ findings, t.singleUseFindings c b = .ok findings ∧ ∀ f ∈ findings, f.Resolved t := by
  refine exists_mapM_ok fun i hi => ?_
  have hi := (List.mem_filter.mp hi).2
  obtain ⟨usage, husage⟩ := b.exists_soleRead hi
  obtain ⟨g, hresolve, hresolved⟩ := Finding.exists_resolve (f := b.singleUseFindingAt t i usage)
    ⟨rfl, rfl⟩ (b.inline_yields hg hi)
  refine ⟨g, ?_, hresolved⟩
  rw [BindingTable.singleUseFinding, husage]
  exact hresolve

/-- No collection has a usage that cannot be judged: an access that is not the whole program
stands within something. -/
theorem touch_ne_defect (hn : t.InPreorder) (hg : t.GrammarShaped) (contexts : List ZipContext)
    (collection : Collection) (usage : NodeId) (d : Defect) :
    Collection.touch b t contexts collection usage ≠ .defect d := by
  intro h
  unfold Collection.touch at h
  split at h
  · cases h
  split at h
  · cases h
  rename_i access haccess
  split at h
  · cases h
  split at h
  · split at h <;> cases h
  split at h
  · rename_i hsubscript
    split at h
    · split at h
      · -- An access is not the root, which is a program, so it has a parent.
        rename_i hnone
        have hlt : access < t.nodes.size := by
          by_contra hge
          have hkind : t.kind access = .subscript := by simpa using hsubscript
          rw [Tree.kind, Tree.node_of_size_le (Nat.le_of_not_lt hge)] at hkind
          cases hkind
        have h0 : access ≠ 0 := by
          rintro rfl
          rw [hg.root] at hsubscript
          cases hsubscript
        obtain ⟨p, hp, -⟩ := hn.exists_parent hlt h0
        rw [hp] at hnone
        cases hnone
      · split at h
        · cases h
        · split at h <;> cases h
    · split at h <;> cases h
  · cases h

theorem inspect_defect (hn : t.InPreorder) (hg : t.GrammarShaped) (contexts : List ZipContext)
    (collection : Collection) (usages : List Usage) :
    (Collection.inspect b t contexts collection usages).defect = none := by
  induction usages with
  | nil => rfl
  | cons u rest ih =>
    rw [Collection.inspect]
    split
    · rfl
    · rename_i d hd
      exact absurd hd (touch_ne_defect hn hg contexts collection u.node d)
    · exact ih
    · exact ih

theorem Arena.defect?_eq_none (hn : t.InPreorder) (hg : t.GrammarShaped) :
    (Arena.ofTree b t).defect? = none := by
  refine List.findSome?_eq_none_iff.mpr fun entry hentry => ?_
  obtain ⟨⟨candidate, position⟩, -, rfl⟩ := List.mem_map.mp hentry
  dsimp only
  unfold Collection.inspected
  dsimp only
  have hfresh : (Collection.ofCandidate (b.candidates t) candidate position).defect = none := by
    unfold Collection.ofCandidate
    split <;> rfl
  split
  · exact hfresh
  · exact inspect_defect hn hg _ _ _

/-- A group has a member that a merge removes. -/
theorem Group.exists_finding {a : Arena} {g : Group} (hg : g ∈ a.groups b t) :
    ∃ first, g.finding a b t = .ok (g.findingAt a b t first) := by
  have hne := Arena.ne_nil_of_candidate (Arena.candidate_of_mem_groups hg)
  have hremoved : g.removed ≠ [] := by
    unfold removed
    split
    · exact hne
    · rename_i hderived
      simpa using hderived
  obtain ⟨first, rest, hfirst⟩ := List.exists_cons_of_ne_nil hremoved
  exact ⟨first, by rw [finding, hfirst]; rfl⟩

theorem Tree.parallelFindings_resolved (hn : t.InPreorder) (hg : t.GrammarShaped) :
    ∃ findings, t.parallelFindings c b = .ok findings ∧ ∀ f ∈ findings, f.Resolved t := by
  unfold parallelFindings
  dsimp only
  rw [Arena.defect?_eq_none hn hg]
  refine exists_mapM_ok fun g hgroup => ?_
  obtain ⟨first, hfirst⟩ := Group.exists_finding hgroup
  have hplan : (MergePlan.ofGroup t b (Arena.ofTree b t) c.pureFunctions c.marker
      t.spelledNames g).Formed := ⟨hn, hg, rfl, hgroup⟩
  obtain ⟨f, hresolve, hresolved⟩ := Finding.exists_resolve
    (f := g.findingAt (Arena.ofTree b t) b t first) ⟨rfl, rfl⟩ hplan.rewrite_yields
  refine ⟨f, ?_, hresolved⟩
  rw [hfirst]
  exact hresolve

/-- **The findings of a program are resolved**: none meets a defect. -/
theorem Tree.collectFindings_resolved (hn : t.InPreorder) (hg : t.GrammarShaped) (c : Config) :
    ∃ findings, t.collectFindings c = .ok findings ∧ ∀ f ∈ findings, f.Resolved t := by
  have henabled : ∀ (rule : Rule) {collected : Except Defect (List Finding)},
      (∃ findings, collected = .ok findings ∧ ∀ f ∈ findings, f.Resolved t) →
      ∃ findings, enabledFindings c rule collected = .ok findings ∧
        ∀ f ∈ findings, f.Resolved t := by
    intro rule collected h
    unfold enabledFindings
    split
    · exact h
    · exact ⟨[], rfl, fun f hf => nomatch hf⟩
  obtain ⟨single, hsingle, hsingleAll⟩ := henabled .singleUse
    (t.singleUseFindings_resolved (b := .ofTree t) (c := c) hg)
  obtain ⟨parallel, hparallel, hparallelAll⟩ := henabled .parallelCollections
    (t.parallelFindings_resolved (b := .ofTree t) (c := c) hn hg)
  refine ⟨single ++ parallel, ?_, fun f hf => ?_⟩
  · unfold collectFindings
    dsimp only
    rw [hsingle, hparallel]
    rfl
  · rcases List.mem_append.mp hf with hf | hf
    · exact hsingleAll f hf
    · exact hparallelAll f hf

/-! ### Accepted edits -/

/-- The edits of the accepted findings replace whole characters and do not overlap. -/
theorem Tree.accepted_edits (marker : String) (maxFindings : Nat) {findings : List Finding}
    (h : ∀ f ∈ findings, f.Resolved t) (htext : (decode? t.source).isSome) :
    let edits := (t.triage marker maxFindings findings).edits
    (∀ e ∈ edits, e.span.IsPlaced t.source) ∧
      edits.Pairwise fun a b => a.span.overlaps b.span = false := by
  intro edits
  have hresolved : ∀ n ∈ (t.triage marker maxFindings findings).accepted,
      n.finding.Resolved t := fun n hn =>
    h _ (finding_mem_of_kept (t.mem_kept_of_mem_accepted marker maxFindings findings hn))
  have hedits : ∀ n ∈ (t.triage marker maxFindings findings).accepted,
      (∀ e ∈ n.finding.edits, e.span.IsPlaced t.source) ∧
        n.finding.edits.Pairwise fun a b => a.span.overlaps b.span = false := by
    intro n hn
    rcases hresolved n hn with ⟨-, r, made, hr, hmade, hplaced⟩ | ⟨hnone, -⟩
    · rw [Finding.edits, hr]
      refine ⟨fun e he => hplaced e ((Rewrite.mem_of_ofEdits hmade e).mp he) htext, ?_⟩
      exact Rewrite.pairwise_of_ofEdits hmade fun e he => (hplaced e he htext).1
    · rw [Finding.edits, hnone]
      exact ⟨fun e he => (nomatch he), .nil⟩
  refine ⟨fun e he => ?_, ?_⟩
  · obtain ⟨n, hn, he⟩ := List.mem_flatMap.mp he
    exact (hedits n hn).1 e he
  · -- The edits of one finding do not overlap, nor do those of two accepted ones.
    refine List.pairwise_flatMap.mpr ⟨fun n hn => (hedits n hn).2, ?_⟩
    have hpairwise : (t.triage marker maxFindings findings).accepted.Pairwise fun m n =>
        m.finding.conflicts n.finding = false := accept_pairwise .nil
    exact hpairwise.imp fun hmn => Finding.not_overlaps_of_conflicts hmn

/-- **The accepted edits fit**, and lead from text to text. -/
theorem Tree.fits_accepted (marker : String) (maxFindings : Nat) {findings : List Finding}
    (h : ∀ f ∈ findings, f.Resolved t) (htext : (decode? t.source).isSome) :
    let edits := (t.triage marker maxFindings findings).edits
    Edit.Fits 0 t.source.length (Edit.inOrder edits) ∧
      ∃ cs, Edit.splice t.source 0 t.source.length (Edit.inOrder edits) = encodeAll cs := by
  intro edits
  obtain ⟨hplaced, hpairwise⟩ := t.accepted_edits marker maxFindings h htext
  have hfits : Edit.Fits 0 t.source.length (Edit.inOrder edits) :=
    Edit.fits_of_pairwise hpairwise (fun e he => (hplaced e he).1)
      fun e he => (hplaced e he).2.2.le
  refine ⟨hfits, ?_⟩
  obtain ⟨cs, hcs⟩ := exists_encodeAll_of_isSome htext
  refine Edit.exists_encodeAll_splice (fun e he => ?_) ?_ ?_ hfits
  · exact hplaced e ((Edit.inOrder_perm _).mem_iff.mp he)
  · rw [hcs]
    exact isBoundary_zero cs
  · rw [hcs]
    exact isBoundary_length cs

/-! ### Passes -/

/-- Whether a grammar keeps its promises, whatever it is given. -/
def Grammar.Shaped (G : Grammar Id) : Prop :=
  ∀ l s t, Tree.parse G l s = .ok t → t.GrammarShaped

/-- Whether a source is text and a program. -/
def IsProgram (G : Grammar Id) (l : Language) (s : Bytes) : Prop :=
  (decode? s).isSome ∧ ∃ t, Tree.parse G l s = .ok t

variable {G : Grammar Id} {l : Language} {source : Bytes} {stopped : Nat → Bool} {apply : Bool}

theorem Tree.inPreorder_of_parse (h : Tree.parse G l source = .ok t) : t.InPreorder := by
  rw [Tree.eq_of_parse h]
  exact inPreorder_ofConcrete l source _

/-- **A review of resolved findings succeeds**, and what it turns a text into is text and a program
again. -/
theorem Tree.exists_review (marker : String) (maxFindings : Nat) {findings : List Finding}
    (h : ∀ f ∈ findings, f.Resolved t) (htext : apply = true → (decode? t.source).isSome) :
    ∃ r, t.review G marker maxFindings apply findings = .ok r ∧
      ∀ s, r.rewritten = some s → IsProgram G t.language s := by
  unfold Tree.review
  dsimp only
  split
  · exact ⟨_, rfl, fun s hs => nomatch hs⟩
  rename_i hbusy
  have happly : apply = true := by
    simp only [Bool.or_eq_true, Bool.not_eq_true', not_or, Bool.not_eq_false] at hbusy
    exact hbusy.2
  obtain ⟨hfits, cs, hcs⟩ := t.fits_accepted marker maxFindings h (htext happly)
  have hspliced := Edit.applyAll_fst hfits
  rw [hcs] at hspliced
  split
  · -- No edit was skipped.
    rename_i hcount
    rw [bne_iff_ne] at hcount
    exact absurd ((Edit.applyAll_snd_eq_length_iff _ _).mpr hfits) hcount
  · refine ⟨_, rfl, fun s hs => ?_⟩
    rw [hspliced] at hs
    cases hparse : Tree.parse G t.language (encodeAll cs) with
    | error e =>
      change (Triage.conclude _ _ (Tree.parse G t.language (encodeAll cs))).rewritten = _ at hs
      rw [hparse] at hs
      cases hs
    | ok t' =>
      change (Triage.conclude _ _ (Tree.parse G t.language (encodeAll cs))).rewritten = _ at hs
      rw [hparse] at hs
      obtain rfl := Option.some.inj hs
      refine ⟨?_, t', hparse⟩
      rw [← String.toList_ofList (l := cs), ← encode_eq, decode?_encode]
      rfl

/-- **A pass over a program succeeds.** -/
theorem exists_analyze (hG : G.Shaped) (ht : Tree.parse G l source = .ok t) (c : Config)
    (apply : Bool) (htext : apply = true → (decode? source).isSome) :
    ∃ r, t.analyze G c apply = .ok r ∧ ∀ s, r.rewritten = some s → IsProgram G l s := by
  obtain ⟨findings, hfindings, hresolved⟩ :=
    t.collectFindings_resolved (Tree.inPreorder_of_parse ht) (hG l source t ht) c
  rw [← Tree.source_of_parse ht] at htext
  obtain ⟨r, hr, hadopted⟩ := t.exists_review (G := G) c.marker c.maxFindings
    hresolved htext
  rw [Tree.language_of_parse ht] at hadopted
  refine ⟨r, ?_, hadopted⟩
  unfold Tree.analyze
  rw [hfindings]
  change (match t.review G c.marker c.maxFindings apply findings with
    | .error e => .error (AnalysisError.conflict e)
    | .ok review => .ok review) = Except.ok r
  rw [hr]

theorem exists_analyzeAgain (hG : G.Shaped) (hs : IsProgram G l source) (c : Config)
    (apply : Bool) :
    ∃ r, analyzeAgain G c l apply source = .ok r ∧
      ∀ s, r.rewritten = some s → IsProgram G l s := by
  obtain ⟨htext, t, ht⟩ := hs
  obtain ⟨r, hr, hadopted⟩ := exists_analyze hG ht c apply fun _ => htext
  refine ⟨r, ?_, hadopted⟩
  change (match Tree.parse G l source with
    | .error e => .error (AnalysisError.unparsable e)
    | .ok tree => tree.analyze G c apply) = Except.ok r
  rw [ht]
  exact hr

/-- **Further passes end**, unless they are asked to stop, with a source that is text. -/
theorem continueFixing_total (hG : G.Shaped) (stopped : Nat → Bool) (left : Nat) {f : Fixing}
    (hlast : ∀ s, f.last.rewritten = some s → IsProgram G l s)
    (hcurrent : ∀ s, f.current = some s → (decode? s).isSome) :
    (∃ f', continueFixing G c l stopped left f = .ok f' ∧
      ∀ s, f'.current = some s → (decode? s).isSome) ∨
    (∃ n, stopped n = true) ∧ continueFixing G c l stopped left f = .error .cancelled := by
  induction left generalizing f with
  | zero =>
    cases hs : f.last.rewritten with
    | none => exact .inl ⟨f, continueFixing_of_none hs, hcurrent⟩
    | some s =>
      by_cases hstop : stopped (f.passes + 1) = true
      · exact .inr ⟨⟨_, hstop⟩, continueFixing_of_stopped hs hstop⟩
      -- The last pass may come without leave to rewrite, but it does come.
      obtain ⟨last, hagain, -⟩ := exists_analyzeAgain hG (hlast s hs) c false
      rw [continueFixing_zero hs hstop, hagain]
      refine .inl ⟨_, rfl, fun s' hs' => ?_⟩
      exact Option.some.inj hs' ▸ (hlast s hs).1
  | succ left ih =>
    cases hs : f.last.rewritten with
    | none => exact .inl ⟨f, continueFixing_of_none hs, hcurrent⟩
    | some s =>
      by_cases hstop : stopped (f.passes + 1) = true
      · exact .inr ⟨⟨_, hstop⟩, continueFixing_of_stopped hs hstop⟩
      obtain ⟨last, hagain, hadopted⟩ := exists_analyzeAgain hG (hlast s hs) c true
      rw [continueFixing_succ hs hstop, hagain]
      refine ih hadopted fun s' hs' => ?_
      exact Option.some.inj hs' ▸ (hlast s hs).1

/-! ### The report of a file -/

theorem Fixing.exists_rewritten {f : Fixing} (h : ∀ s, f.current = some s → (decode? s).isSome) :
    ∃ rewritten, f.rewritten? = .ok rewritten := by
  unfold rewritten?
  cases hcurrent : f.current with
  | none => exact ⟨none, rfl⟩
  | some s =>
    obtain ⟨text, htext⟩ := Option.isSome_iff_exists.mp (h s hcurrent)
    exact ⟨some text, by dsimp only; rw [htext]⟩

/-- All passes over a program end, unless they are asked to stop. -/
theorem Tree.fix_total (hG : G.Shaped) (ht : Tree.parse G l source = .ok t) (c : Config)
    (stopped : Nat → Bool) (htext : apply = true → (decode? source).isSome) :
    (∃ first f, t.fix G c stopped apply = .ok (first, f) ∧
      ∀ s, f.current = some s → (decode? s).isSome) ∨
    (∃ n, stopped n = true) ∧ t.fix G c stopped apply = .error .cancelled := by
  obtain ⟨first, hfirst, hadopted⟩ := exists_analyze hG ht c apply htext
  rw [Tree.fix_eq, hfirst, Tree.language_of_parse ht]
  dsimp only
  rcases continueFixing_total (c := c) (f := { last := first, diagnostics := first.diagnostics })
    hG stopped (maxFixPasses - 1) hadopted
    (fun s hs => nomatch hs) with ⟨f, hf, hcurrent⟩ | ⟨hstop, hcancelled⟩
  · rw [hf]
    exact .inl ⟨first, f, rfl, hcurrent⟩
  · rw [hcancelled]
    exact .inr ⟨hstop, rfl⟩

/-- **The analysis ends with a report.**  When the grammar keeps its promises, every file is either
reported as a program or as none, unless the analysis is asked to stop; and every finding of a
program has a rewrite or says why it has none. -/
theorem analyzeSource_total (hG : G.Shaped) (path : String) (source : Bytes) (c : Config)
    (stopped : Nat → Bool) :
    ((∃ report, analyzeSource G path source c stopped = .ok report ∧
        (report.outcome = .ok ∨ report.outcome = .parseError)) ∨
      (∃ n, stopped n = true) ∧ analyzeSource G path source c stopped = .error .cancelled) ∧
    ∀ l s t, Tree.parse G l s = .ok t →
      ∃ findings, t.collectFindings c = .ok findings ∧ ∀ f ∈ findings, f.Resolved t := by
  refine ⟨?_, fun l s t ht =>
    t.collectFindings_resolved (Tree.inPreorder_of_parse ht) (hG l s t ht) c⟩
  cases ht : Tree.parse G (.ofPath path) source with
  | error e => exact .inl ⟨_, analyzeSource_of_error ht, .inr rfl⟩
  | ok t =>
    rw [analyzeSource_of_ok ht]
    by_cases hstop : stopped 0 = true
    · rw [if_pos hstop]
      exact .inr ⟨⟨0, hstop⟩, rfl⟩
    rw [if_neg hstop]
    have htext : canRewrite c source = true → (decode? source).isSome := fun hcan => by
      rw [canRewrite, Bool.and_eq_true] at hcan
      exact hcan.2
    rcases t.fix_total hG ht c stopped htext with
      ⟨first, f, hfix, hcurrent⟩ | ⟨hstopped, hcancelled⟩
    · obtain ⟨rewritten, hrewritten⟩ := Fixing.exists_rewritten hcurrent
      rw [hfix]
      dsimp only
      rw [FileReport.ofPasses, hrewritten]
      exact .inl ⟨_, rfl, .inl rfl⟩
    · rw [hcancelled]
      exact .inr ⟨hstopped, rfl⟩

namespace Sample

/-- Every place in a source of single bytes is a boundary. -/
theorem isBoundary_of_le {text : String} (h : ∀ b ∈ encode text, b.toNat < 0x80) {i : Nat}
    (hi : i ≤ (encode text).length) : IsBoundary (encode text) i := by
  rcases Nat.lt_or_eq_of_le hi with hlt | rfl
  · exact (isBoundary_of_ascii (List.getElem?_eq_getElem hlt) (h _ (List.getElem_mem hlt))).1
  · exact isBoundary_length _

/-- A tree of single bytes without comments is shaped as the grammars promise if its nodes are. -/
theorem grammarShaped (text : String) (hascii : ∀ b ∈ encode text, b.toNat < 0x80)
    (hsource : t.source = encode text)
    (h : t.kind 0 = .program ∧ t.comments = [] ∧ ∀ i < t.nodes.size,
      (t.span i).start ≤ (t.span i).stop ∧ (t.span i).stop ≤ t.source.length ∧
      (t.kind i = .expressionStatement → (t.children i).length = 1) ∧
      ∀ c ∈ t.children i, ∀ d ∈ t.children i,
        (t.hasField c "body" = true → t.hasField d "body" = true → c = d) ∧
        (t.kind c = .arguments → t.kind d = .arguments → c = d)) :
    t.GrammarShaped := by
  obtain ⟨hroot, hcomments, hnodes⟩ := h
  have hlt : ∀ {i c}, c ∈ t.children i → i < t.nodes.size := fun {i c} hc => by
    by_contra hge
    rw [Tree.children, Tree.node_of_size_le (Nat.le_of_not_lt hge)] at hc
    cases hc
  refine ⟨hroot, fun _ i hi => ?_, fun _ c hc => ?_, fun i hi => ?_, fun i _ c hc d hd => ?_,
    fun i _ c hc d hd => ?_⟩
  · obtain ⟨hle, hlen, -⟩ := hnodes i hi
    rw [hsource] at hlen ⊢
    exact ⟨hle, isBoundary_of_le hascii (Nat.le_trans hle hlen), isBoundary_of_le hascii hlen⟩
  · rw [hcomments] at hc
    cases hc
  · have hsize : i < t.nodes.size := by
      by_contra hge
      rw [Tree.kind, Tree.node_of_size_le (Nat.le_of_not_lt hge)] at hi
      cases hi
    exact List.length_eq_one_iff.mp ((hnodes i hsize).2.2.1 hi)
  · exact ((hnodes i (hlt hc)).2.2.2 c hc d hd).1
  · exact ((hnodes i (hlt hc)).2.2.2 c hc d hd).2

theorem grammar_shaped : grammar.Shaped := by
  intro l s t ht
  have htree := Tree.eq_of_parse ht
  by_cases hbefore : s = before
  · subst hbefore
    rw [htree, show (grammar l before).root = tree from rfl]
    refine grammarShaped "const x = 1;\nf(x);\n" (by decide +kernel) rfl ?_
    cases l <;> decide +kernel
  · by_cases hafter : s = after
    · subst hafter
      rw [htree, show (grammar l after).root = rewrittenTree from rfl]
      refine grammarShaped "f(1);\n" (by decide +kernel) rfl ?_
      cases l <;> decide +kernel
    · -- Any other source has faults, and makes no tree.
      have hfaulty : grammar l s = ⟨rewrittenTree, true⟩ := by
        rw [grammar, if_neg (by simpa using hbefore), if_neg (by simpa using hafter)]
      change (if s.isBinary then .error .binary else (grammar l s).toTree l s) = Except.ok t at ht
      rw [hfaulty, Parsed.toTree, if_pos rfl] at ht
      split at ht
      · cases ht
      · split at ht <;> cases ht

end Sample

/-- A file with a constant is reported, and so are its findings. -/
theorem sample_total :
    (∃ report, analyzeSource Sample.grammar "a.js" Sample.before Sample.config (fun _ => false) =
      .ok report) ∧
    ∃ findings, (Tree.ofConcrete .javascript Sample.before Sample.tree).collectFindings
      Sample.config = .ok findings := by
  obtain ⟨hreport, hfindings⟩ := analyzeSource_total Sample.grammar_shaped "a.js" Sample.before
    Sample.config fun _ => false
  obtain ⟨findings, h, -⟩ := hfindings .javascript Sample.before _ rfl
  refine ⟨?_, findings, h⟩
  rcases hreport with ⟨report, h, -⟩ | ⟨⟨_, hstop⟩, -⟩
  · exact ⟨report, h⟩
  · cases hstop

end Declutter
