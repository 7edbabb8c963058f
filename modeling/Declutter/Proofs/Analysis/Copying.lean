import Declutter.Analysis.Collect
import Declutter.Proofs.Analysis.Acceptance
import Declutter.Proofs.Merge.Coverage
import Declutter.Proofs.Rewrite.Mentions

/-!
# Accepted rewrites leave alone what the others copy

A rewrite moves text: it copies an initial value, a comment, the body of a callback or a value that
is pushed to another place, and removes it from where it was.  Rewrites that are carried out
together are chosen by comparing their edits, not what they copy.  That suffices because a rewrite
copies nothing but what its own edits cover; an edit of another accepted rewrite would overlap with
the covering edit if it touched the copied text, so no rewrite puts a text in place that another one
changes under its hands.

## Main definitions

* `Tree.removalSources` — what the removal of a statement leaves behind on a line of its own.
* `Tree.Synthesizes` — whether a rewrite is made for a program.
* `Tree.Copies` — whether a rewrite copies the text of a range.
* `Finding.Spares` — whether the edits of one finding keep clear of what another one copies.

## Main results

* `Tree.removal_replacement` — what the removal of a statement leaves behind is copied.
* `MergePlan.OfProgram.exists_edit_of_source` — what a merge builds its records of is covered by its
  edits.
* `Tree.Copies.exists_edit` — a rewrite copies only what its edits cover.
* `accepted_copies_intact` — accepted rewrites keep clear of what the others copy.
-/

namespace Declutter

/-! ### What a removal leaves behind -/

namespace Tree

variable {t : Tree} {marker : String} {i : NodeId} {range : Span}

/-- The text of a range of the source. -/
def textIn (t : Tree) (range : Span) : String :=
  Utf8.decode (Bytes.slice t.source range.start range.stop)

/-- The range of the indentation of the line of an offset. -/
def indentationSpan (t : Tree) (offset : Nat) : Span :=
  let start := Bytes.lineStart t.source offset
  .ofOffsets t.source start (start + (Bytes.indentation t.source offset).length)

/-- The ranges whose text the removal of a statement leaves behind: the comment that outlives the
statement and the indentation before it, where the statement has its lines to itself. -/
def removalSources (t : Tree) (marker : String) (i : NodeId) : List Span :=
  match t.trailingComment? i with
  | some c =>
    if t.standsAlone i && t.keptComment marker i != "" then
      [t.indentationSpan (t.span i).start, c.span]
    else []
  | none => []

/-- **What the removal of a statement leaves behind is copied.** -/
theorem removal_replacement (hcomments : ∀ c ∈ t.comments, c.text = t.textIn c.span)
    (marker : String) (i : NodeId) :
    (t.removal marker i).replacement =
      String.join ((t.removalSources marker i).map t.textIn) ++
        if t.removalSources marker i = [] then "" else "\n" := by
  have hindentation : t.textIn (t.indentationSpan (t.span i).start) =
      t.indentationAt (t.span i).start :=
    congrArg Utf8.decode (Bytes.indentation_eq_slice t.source (t.span i).start).symm
  unfold removal removalSources
  by_cases halone : t.standsAlone i = true
  · rw [if_pos halone]
    unfold lineRemoval keptComment
    cases hc : t.trailingComment? i with
    | none => rfl
    | some c =>
      have htext := hcomments c (List.mem_of_find?_eq_some hc)
      by_cases hkept : (if Comment.explains marker c.text then c.text else "") = ""
      · -- The comment explains nothing and goes with the statement.
        simp [halone, hkept]
      · have hexplains : Comment.explains marker c.text = true := by
          by_contra hnot
          exact hkept (if_neg hnot)
        rw [if_pos hexplains] at hkept
        simp [halone, hexplains, hkept, hindentation, ← htext]
  · rw [if_neg halone]
    cases t.trailingComment? i with
    | none => rfl
    | some c => simp [halone, inlineRemoval]

/-- What the removal of a statement leaves behind is covered by the removal. -/
theorem removal_covers_of_source (hs : t.Spaced)
    (hcomments : ∀ c ∈ t.comments, c.span.stop ≤ t.source.length)
    (h : range ∈ t.removalSources marker i) : (t.removal marker i).span.covers range = true := by
  unfold removalSources at h
  cases hc : t.trailingComment? i with
  | none =>
    rw [hc] at h
    cases h
  | some c =>
    rw [hc] at h
    dsimp only at h
    split at h
    · rename_i hkept
      rw [Bool.and_eq_true] at hkept
      have hle := hs.span_le i
      have hline := Bytes.lineStart_le t.source (t.span i).start
      have hindentation := Bytes.length_indentation_le t.source (t.span i).start
      have hbehind := List.find?_some hc
      have hstop := hcomments c (List.mem_of_find?_eq_some hc)
      simp only [Bool.and_eq_true, decide_eq_true_eq] at hbehind
      have hcomment := hs.comment c (List.mem_of_find?_eq_some hc)
      have htail : t.tailStop i = c.span.stop := by rw [tailStop, hc]
      have hend := Bytes.le_lineEnd t.source c.span.stop
      rw [removal, if_pos hkept.1, Span.covers_iff, lineRemoval]
      dsimp only [Span.ofOffsets]
      rw [htail]
      rcases List.mem_cons.mp h with rfl | h
      · dsimp only [indentationSpan, Span.ofOffsets]
        omega
      · rw [List.mem_singleton.mp h]
        omega
    · cases h

end Tree

/-! ### What a merge copies -/

namespace MergePlan

variable {p : MergePlan} {e : Edit} {r : Rewrite} {n d : NodeId}

/-- What replaces or removes a statement covers it. -/
theorem covers_of_statement (hs : p.tree.Spaced) {text : String}
    (he : e = ⟨p.tree.span d, text⟩ ∨ e = p.tree.removal p.marker d) :
    e.span.covers (p.tree.span d) = true := by
  rcases he with rfl | rfl
  · exact Span.covers_self _
  · exact Tree.removal_covers p.marker hs.comment (hs.span_le d).2

/-- A value that is pushed stands within the statement that pushes it. -/
theorem covers_of_pushedValue (hs : p.tree.Spaced) (hn : p.tree.InPreorder)
    {m k : CollectionId} {s v : NodeId} (h : p.pushedValue (m, s) = .ok (k, v)) :
    (p.tree.span s).covers (p.tree.span v) = true := by
  unfold pushedValue at h
  obtain ⟨call, hcall, h⟩ := Attempt.bind_eq_ok.mp h
  obtain ⟨arguments, harguments, h⟩ := Attempt.bind_eq_ok.mp h
  obtain ⟨value, hvalue, h⟩ := Attempt.bind_eq_ok.mp h
  obtain ⟨-, rfl⟩ := Prod.mk.inj (Attempt.pure_eq_ok.mp h)
  have hcall := hn.isWithin_of_mem_children (List.mem_of_mem_head? (Attempt.fetch_eq_ok.mp hcall))
  have harguments := hn.isWithin_of_child? (Attempt.fetch_eq_ok.mp harguments)
  have hvalue := hn.isWithin_of_mem_children (List.mem_of_mem_head? (Attempt.fetch_eq_ok.mp hvalue))
  exact Span.covers_trans (hs.covers_of_isWithin hn hcall)
    (Span.covers_trans (hs.covers_of_isWithin hn harguments) (hs.covers_of_isWithin hn hvalue))

/-- **What a merge builds its records of is covered by its edits**: the values that are pushed stand
in statements that fill members, the callbacks in declarations of members, and each of these
statements is replaced or removed. -/
theorem OfProgram.exists_edit_of_source (hp : p.OfProgram) (hs : p.tree.Spaced)
    (h : p.rewrite = .ok r) (hsource : n ∈ p.buildSources) :
    ∃ e ∈ r.edits, e.span.covers (p.tree.span n) = true := by
  obtain ⟨declared, used, hdeclared, -, hr⟩ := rewrite_eq_ok h
  -- It is enough that an edit of the declarations covers the source.
  suffices hdraft : ∃ e ∈ declared.edits, e.span.covers (p.tree.span n) = true by
    obtain ⟨e, he, hcovers⟩ := hdraft
    obtain ⟨e', he', -, hkeeps⟩ := exists_same_of_ofEdits hr (List.mem_append_left used.edits he)
    exact ⟨e', he', hkeeps _ hcovers⟩
  unfold declarationDraft at hdeclared
  unfold buildSources at hsource
  cases hpattern : p.group.pattern with
  | coBuilt =>
    rw [hpattern] at hdeclared hsource
    -- The source is a value that is pushed, and the statement that pushes it is edited.
    obtain ⟨declarations, pushes, values, -, -, hpushes, -, -, rfl⟩ := coBuiltDraft_eq_ok hdeclared
    obtain ⟨m, hm, s, hpopulate, hvalue⟩ := mem_pushSources.mp hsource
    have hmem : s ∈ pushes := (hpushes s).mpr ⟨m, hm, hpopulate⟩
    obtain ⟨e, he, heq⟩ := exists_pushEdit (p := p) (p.pushedEntries values) hmem
    exact ⟨e, List.mem_append_right _ he, Span.covers_trans (covers_of_statement hs heq)
      (covers_of_pushedValue hs hp.numbered hvalue)⟩
  | derivedViews =>
    rw [hpattern] at hdeclared hsource
    -- The source is part of a callback in an initial value, and the declaration is edited.
    obtain ⟨declarations, value, hviews, hdeclarations, -, -, rfl⟩ := viewDraft_eq_ok hdeclared
    obtain ⟨m, hm, d, initializer, callback, hd, hwithin, hcallback, hinitializer⟩ :=
      hp.exists_declaration_of_source hviews hsource
    have hmem : d ∈ declarations := (mem_adjacentDeclarations hdeclarations).mpr ⟨m, hm, hd⟩
    obtain ⟨e, he, heq⟩ := exists_declarationEdit (p := p) value hmem
    have hinner := Span.covers_trans (hs.covers_of_isWithin hp.numbered hcallback)
      (hs.covers_of_isWithin hp.numbered hwithin)
    exact ⟨e, he, Span.covers_trans (covers_of_statement hs heq)
      (Span.covers_trans (hs.covers_of_isWithin hp.numbered hinitializer) hinner)⟩

end MergePlan

/-! ### Rewrites of a program -/

/-- The plan of the merge of a group of a program. -/
def Tree.mergePlan (t : Tree) (c : Config) (g : Group) : MergePlan :=
  let b := BindingTable.ofTree t
  .ofGroup t b (Arena.ofTree b t) c.pureFunctions c.marker t.spelledNames g

namespace Tree

/-- Whether a rewrite is made for a program: it inlines a binding, or merges a group of
collections. -/
inductive Synthesizes (t : Tree) (c : Config) : Rewrite → Prop
  | inline {i : BindingId} {r : Rewrite} (h : (BindingTable.ofTree t).inline t c.marker i = .ok r) :
      Synthesizes t c r
  | merge {g : Group} {r : Rewrite}
      (hg : g ∈ (Arena.ofTree (.ofTree t) t).groups (.ofTree t) t)
      (h : (t.mergePlan c g).rewrite = .ok r) : Synthesizes t c r

/-- Whether a rewrite copies the text of a range. -/
inductive Copies (t : Tree) (c : Config) : Rewrite → Span → Prop
  /-- Inlining copies the initial value. -/
  | value {i : BindingId} {r : Rewrite} {v : NodeId}
      (h : (BindingTable.ofTree t).inline t c.marker i = .ok r)
      (hv : ((BindingTable.ofTree t).binding i).initializer = some v) : Copies t c r (t.span v)
  /-- Inlining copies the comment that outlives the declaration. -/
  | outliving {i : BindingId} {r : Rewrite} {d : NodeId} {range : Span}
      (h : (BindingTable.ofTree t).inline t c.marker i = .ok r)
      (hd : ((BindingTable.ofTree t).binding i).declaration = some d)
      (hrange : range ∈ t.removalSources c.marker d) : Copies t c r range
  /-- A merge copies what it builds its records of: the bodies and parameters of callbacks, or the
  values that are pushed. -/
  | built {g : Group} {r : Rewrite} {n : NodeId}
      (hg : g ∈ (Arena.ofTree (.ofTree t) t).groups (.ofTree t) t)
      (h : (t.mergePlan c g).rewrite = .ok r) (hn : n ∈ (t.mergePlan c g).buildSources) :
      Copies t c r (t.span n)
  /-- A merge copies the parameter or loop variable that takes an element into the pattern that
  takes a record apart. -/
  | pattern {g : Group} {r : Rewrite} {e : Edit} {copied : List NodeId} {n : NodeId}
      (hg : g ∈ (Arena.ofTree (.ofTree t) t).groups (.ofTree t) t)
      (h : (t.mergePlan c g).rewrite = .ok r) (he : e ∈ r.edits)
      (hpart : (t.mergePlan c g).Part e copied) (hn : n ∈ copied) (hspan : e.span = t.span n) :
      Copies t c r (t.span n)
  /-- A merge copies the comments that outlive the statements it removes. -/
  | outlivingMerge {g : Group} {r : Rewrite} {s : NodeId} {range : Span}
      (hg : g ∈ (Arena.ofTree (.ofTree t) t).groups (.ofTree t) t)
      (h : (t.mergePlan c g).rewrite = .ok r) (he : t.removal c.marker s ∈ r.edits)
      (hrange : range ∈ t.removalSources c.marker s) : Copies t c r range

variable {t : Tree} {c : Config} {r : Rewrite} {range : Span}

/-- **A rewrite copies only what its edits cover.** -/
theorem Copies.exists_edit (hn : t.InPreorder) (hs : t.Spaced)
    (hcomments : ∀ k ∈ t.comments, k.span.stop ≤ t.source.length) (h : t.Copies c r range) :
    ∃ e ∈ r.edits, e.span.covers range = true := by
  have hprogram : ∀ g ∈ (Arena.ofTree (.ofTree t) t).groups (.ofTree t) t,
      (t.mergePlan c g).OfProgram := fun g hg => ⟨hn, rfl, rfl, hg⟩
  cases h with
  | value h hv =>
    obtain ⟨usage, d, value, -, hd, hvalue, hr⟩ := BindingTable.ofEdits_of_inline h
    obtain rfl := Option.some.inj (hv.symm.trans hvalue)
    refine ⟨_, (Rewrite.mem_of_ofEdits hr _).mpr (.tail _ (.head _)), ?_⟩
    exact Span.covers_trans (removal_covers c.marker hs.comment (hs.span_le d).2)
      (hs.covers_of_isWithin hn (BindingTable.isWithin_initializer hn hd hv))
  | outliving h hd hrange =>
    obtain ⟨usage, d, value, -, hd', -, hr⟩ := BindingTable.ofEdits_of_inline h
    obtain rfl := Option.some.inj (hd.symm.trans hd')
    exact ⟨_, (Rewrite.mem_of_ofEdits hr _).mpr (.tail _ (.head _)),
      removal_covers_of_source hs hcomments hrange⟩
  | built hg h hn => exact (hprogram _ hg).exists_edit_of_source hs h hn
  | pattern hg h he hpart hn hspan => exact ⟨_, he, hspan ▸ Span.covers_self _⟩
  | outlivingMerge hg h he hrange => exact ⟨_, he, removal_covers_of_source hs hcomments hrange⟩

/-- The span of no edit is reversed. -/
theorem Synthesizes.span_le (hs : t.Spaced) (h : t.Synthesizes c r) :
    ∀ e ∈ r.edits, e.span.start ≤ e.span.stop := by
  intro e he
  cases h with
  | inline h =>
    obtain ⟨usage, d, value, -, -, -, hr⟩ := BindingTable.ofEdits_of_inline h
    rcases List.mem_cons.mp ((Rewrite.mem_of_ofEdits hr e).mp he) with rfl | he
    · exact (hs.span_le usage).1
    · rw [List.mem_singleton.mp he]
      exact Span.le_of_covers (removal_covers c.marker hs.comment (hs.span_le d).2) (hs.span_le d).1
  | merge hg h => exact MergePlan.span_le_of_mem hs h he

/-- The nodes that an edit of a merge draws on are copied. -/
theorem Copies.of_draws {g : Group} {e : Edit} {copied : List NodeId} {n : NodeId}
    (hg : g ∈ (Arena.ofTree (.ofTree t) t).groups (.ofTree t) t)
    (h : (t.mergePlan c g).rewrite = .ok r) (he : e ∈ r.edits)
    (hpart : (t.mergePlan c g).Part e copied) (hn : n ∈ copied)
    (hdraws : (t.mergePlan c g).Draws e n) : t.Copies c r (t.span n) := by
  rcases hdraws with hsource | hspan
  · exact .built hg h hsource
  · exact .pattern hg h he hpart hn hspan

/-- Whether all that an edit is made of is copied: the initial value that it puts in the place of a
usage, what the removal of a statement leaves behind, or what an edit of a merge is made of. -/
inductive Composed (t : Tree) (c : Config) (r : Rewrite) : Edit → Prop
  | substitution {i : BindingId} {d v usage : NodeId} (hv : t.Copies c r (t.span v)) :
      Composed t c r ⟨t.span usage, (BindingTable.ofTree t).inlineText t i d v usage⟩
  | removal {s : NodeId} (hs : ∀ range ∈ t.removalSources c.marker s, t.Copies c r range) :
      Composed t c r (t.removal c.marker s)
  | part {g : Group} {e : Edit} {copied : List NodeId} (hpart : (t.mergePlan c g).Part e copied)
      (hcopied : ∀ n ∈ copied, t.Copies c r (t.span n))
      (hremoval : ∀ s, e = t.removal c.marker s →
        ∀ range ∈ t.removalSources c.marker s, t.Copies c r range) : Composed t c r e

/-- **A rewrite is made of what it copies.** -/
theorem Synthesizes.composed (h : t.Synthesizes c r) : ∀ e ∈ r.edits, t.Composed c r e := by
  intro e he
  cases h with
  | inline h =>
    obtain ⟨usage, d, value, -, hd, hv, hr⟩ := BindingTable.ofEdits_of_inline h
    rcases List.mem_cons.mp ((Rewrite.mem_of_ofEdits hr e).mp he) with rfl | he
    · exact .substitution (.value h hv)
    · rw [List.mem_singleton.mp he]
      exact .removal fun range hrange => .outliving h hd hrange
  | merge hg h =>
    obtain ⟨copied, hpart, hdraws⟩ := MergePlan.exists_part_drawing h he
    refine .part hpart (fun n hn => .of_draws hg h he hpart hn (hdraws n hn)) ?_
    rintro s rfl range hrange
    exact .outlivingMerge hg h he hrange

end Tree

/-! ### Findings -/

/-- The rewrite of a finding is the one that was attempted. -/
theorem Finding.eq_ok_of_resolve {f g : Finding} {attempt : Attempt Rewrite} {r : Rewrite}
    (hf : f.rewrite = none) (h : f.resolve attempt = .ok g) (hr : g.rewrite = some r) :
    attempt = .ok r := by
  cases attempt with
  | ok s =>
    obtain rfl : { f with rewrite := some s } = g := Except.ok.inj h
    rw [Option.some.inj hr]
  | error e =>
    cases e with
    | withheld why =>
      obtain rfl : { f with unavailable := some (.withheld why) } = g := Except.ok.inj h
      exact nomatch hf.symm.trans hr
    | defect d => cases h

section

variable {t : Tree} {c : Config} {findings : List Finding} {f g : Finding} {r : Rewrite}

/-- The rewrite of a single-use binding is made for the program. -/
theorem Tree.synthesizes_of_singleUse
    (h : t.singleUseFindings c (.ofTree t) = .ok findings) (hf : f ∈ findings)
    (hr : f.rewrite = some r) : t.Synthesizes c r := by
  obtain ⟨i, -, hi⟩ := (Attempt.mem_of_mapM h).mp hf
  obtain ⟨found, hfound, hi⟩ := Attempt.bind_eq_ok.mp hi
  obtain ⟨u, -, rfl⟩ := Attempt.map_eq_ok.mp hfound
  exact .inline (Finding.eq_ok_of_resolve rfl hi hr)

/-- The rewrite of a group is made for the program. -/
theorem Tree.synthesizes_of_parallel
    (h : t.parallelFindings c (.ofTree t) = .ok findings) (hf : f ∈ findings)
    (hr : f.rewrite = some r) : t.Synthesizes c r := by
  unfold parallelFindings at h
  dsimp only at h
  split at h
  · cases h
  · obtain ⟨g, hg, hgroup⟩ := (Attempt.mem_of_mapM h).mp hf
    obtain ⟨found, hfound, hgroup⟩ := Attempt.bind_eq_ok.mp hgroup
    obtain ⟨first, -, rfl⟩ := Attempt.map_eq_ok.mp hfound
    exact .merge hg (Finding.eq_ok_of_resolve rfl hgroup hr)

/-- A finding of a rule comes from the search for it. -/
theorem eq_ok_of_enabledFindings {rule : Rule} {searched : Except Defect (List Finding)}
    (h : Tree.enabledFindings c rule searched = .ok findings) (hf : f ∈ findings) :
    searched = .ok findings := by
  unfold Tree.enabledFindings at h
  split at h
  · exact h
  · obtain rfl : [] = findings := Except.ok.inj h
    cases hf

/-- **The rewrites of the findings are made for the program.** -/
theorem Tree.synthesizes_of_mem_findings (h : t.collectFindings c = .ok findings)
    (hf : f ∈ findings) (hr : f.rewrite = some r) : t.Synthesizes c r := by
  obtain ⟨single, hsingle, h⟩ := Attempt.bind_eq_ok.mp h
  obtain ⟨parallel, hparallel, h⟩ := Attempt.bind_eq_ok.mp h
  rw [← Attempt.pure_eq_ok.mp h] at hf
  rcases List.mem_append.mp hf with hf | hf
  · exact synthesizes_of_singleUse (eq_ok_of_enabledFindings hsingle hf) hf hr
  · exact synthesizes_of_parallel (eq_ok_of_enabledFindings hparallel hf) hf hr

/-- Whether the edits of a finding keep clear of what the rewrite of another one copies. -/
def Finding.Spares (t : Tree) (c : Config) (f g : Finding) : Prop :=
  ∀ e ∈ f.edits, ∀ r, g.rewrite = some r → ∀ range, t.Copies c r range →
    e.span.stop ≤ range.start ∨ range.stop ≤ e.span.start

/-- Edits that do not overlap with those of a rewrite keep clear of what it copies. -/
theorem Finding.Spares.of_not_overlaps (hn : t.InPreorder) (hs : t.Spaced)
    (hcomments : ∀ k ∈ t.comments, k.span.stop ≤ t.source.length)
    (hf : ∀ r, f.rewrite = some r → t.Synthesizes c r)
    (hg : ∀ r, g.rewrite = some r → t.Synthesizes c r)
    (h : ∀ a ∈ f.edits, ∀ b ∈ g.edits, a.span.overlaps b.span = false) : f.Spares t c g := by
  intro e he r hr range hcopies
  -- An edit of the other rewrite covers the range, and the two edits do not overlap.
  obtain ⟨b, hb, hcovers⟩ := hcopies.exists_edit hn hs hcomments
  have hb' : b ∈ g.edits := by
    unfold edits
    rw [hr]
    exact hb
  obtain ⟨s, hs', hes⟩ := exists_rewrite_of_mem he
  have hle := (hf s hs').span_le hs e hes
  have hapart := (Span.overlaps_eq_false_iff hle ((hg r hr).span_le hs b hb)).mp (h e he b hb')
  rw [Span.covers_iff] at hcovers
  omega

end

/-- **Accepted rewrites leave alone what the others copy.**  Every edit of a rewrite that is made
for a program is composed of ranges that the rewrite copies, and each of these is covered by one of
its edits; the rewrites of all findings are such; and of findings with such rewrites, those that are
accepted together have no edit that touches what another one copies. -/
theorem accepted_copies_intact (l : Language) (source : Bytes) (root : Concrete) (c : Config) :
    let t := Tree.ofConcrete l source root
    t.Spaced → (∀ k ∈ t.comments, k.span.stop ≤ t.source.length) →
      (∀ r, t.Synthesizes c r → (∀ e ∈ r.edits, t.Composed c r e) ∧
        ∀ range, t.Copies c r range → ∃ e ∈ r.edits, e.span.covers range = true) ∧
      (∀ findings, t.collectFindings c = .ok findings →
        ∀ f ∈ findings, ∀ r, f.rewrite = some r → t.Synthesizes c r) ∧
      ∀ (findings : List Finding) (marker : String) (maxFindings : Nat),
        (∀ f ∈ findings, ∀ r, f.rewrite = some r → t.Synthesizes c r) →
        (t.triage marker maxFindings findings).accepted.Pairwise fun m n =>
          m.finding.Spares t c n.finding ∧ n.finding.Spares t c m.finding := by
  intro t hs hcomments
  have hn : t.InPreorder := Tree.inPreorder_ofConcrete l source root
  refine ⟨fun r hr => ⟨hr.composed, fun range hrange => hrange.exists_edit hn hs hcomments⟩,
    fun findings h f hf r hr => Tree.synthesizes_of_mem_findings h hf hr, ?_⟩
  intro findings marker maxFindings hfindings
  obtain ⟨candidates, haccepted, hkept⟩ := t.exists_candidates marker maxFindings findings
  have hsynthesizes : ∀ m ∈ (accept [] candidates).1,
      ∀ r, m.finding.rewrite = some r → t.Synthesizes c r := by
    intro m hm
    obtain ⟨chosen, heq, hsub⟩ := accept_sublist [] candidates
    rw [heq, List.nil_append] at hm
    exact hfindings _ (finding_mem_of_kept (hkept m (hsub.subset hm)))
  rw [haccepted]
  refine (accept_pairwise .nil).imp_of_mem fun {m k} hm hk hconflict => ?_
  have hapart := Finding.not_overlaps_of_conflicts hconflict
  refine ⟨.of_not_overlaps hn hs hcomments (hsynthesizes m hm) (hsynthesizes k hk) hapart,
    .of_not_overlaps hn hs hcomments (hsynthesizes k hk) (hsynthesizes m hm) ?_⟩
  intro a ha b hb
  rw [Span.overlaps_comm]
  exact hapart b hb a ha

namespace Sample

/-- Two views are merged, and behind them a constant with a comment is inlined. -/
def limited : Bytes := zipping ++ Utf8.encode "const k = 1; // the limit\nuse(k);\n"

/-- The tree of `limited`. -/
def limitedTree : Concrete :=
  construct "program" 0 146 [
    sourceDeclaration, viewDeclaration 19, viewDeclaration 48,
    iteration (construct "identifier" 88 89 [])
      (construct "subscript_expression" 104 108 [
        construct "identifier" 104 105 [] (some "object"), token "[" 105,
        construct "identifier" 106 107 [] (some "index"), token "]" 107]) 1 4,
    construct "lexical_declaration" 112 124 [
      token "const" 112 (some "kind"),
      construct "variable_declarator" 118 123 [
        construct "identifier" 118 119 [] (some "name"), token "=" 120,
        construct "number" 122 123 [] (some "value")],
      token ";" 123],
    construct "comment" 125 137 [],
    construct "expression_statement" 138 145 [
      construct "call_expression" 138 144 [
        construct "identifier" 138 141 [] (some "function"),
        construct "arguments" 141 144 [
          token "(" 141, construct "identifier" 142 143 [], token ")" 143] (some "arguments")],
      token ";" 144]]

end Sample

/-- A merge and an inlining that keeps a comment are accepted together. -/
theorem sample_copies_intact :
    let t := Tree.ofConcrete .javascript Sample.limited Sample.limitedTree
    let c : Config := {}
    t.Spaced ∧ (∀ k ∈ t.comments, k.span.stop ≤ t.source.length) ∧
      ∃ findings, t.collectFindings c = .ok findings ∧
        (∀ f ∈ findings, ∀ r, f.rewrite = some r → t.Synthesizes c r) ∧
        (t.triage c.marker c.maxFindings findings).accepted.map (·.finding.symbol) =
          ["a, b", "k"] ∧
        (Edit.applyAll t.source (t.triage c.marker c.maxFindings findings).edits).1 =
          Utf8.encode ("const src = get();\n" ++
            "const srcRecords = src.map(s => (\x7b aItem: s.x, bItem: s.y \x7d));\n" ++
            "srcRecords.forEach((\x7b aItem: v, bItem \x7d, i) => use(v, bItem));\n" ++
            "// the limit\nuse(1);\n") ∧
        (t.triage c.marker c.maxFindings findings).accepted.Pairwise fun m n =>
          m.finding.Spares t c n.finding ∧ n.finding.Spares t c m.finding := by
  intro t c
  have hs : t.Spaced := by decide +kernel
  have hcomments : ∀ k ∈ t.comments, k.span.stop ≤ t.source.length := by decide +kernel
  have hfound : ∃ findings ∈ (t.collectFindings c).toOption,
      (t.triage c.marker c.maxFindings findings).accepted.map (·.finding.symbol) = ["a, b", "k"] ∧
        (Edit.applyAll t.source (t.triage c.marker c.maxFindings findings).edits).1 =
          Utf8.encode ("const src = get();\n" ++
            "const srcRecords = src.map(s => (\x7b aItem: s.x, bItem: s.y \x7d));\n" ++
            "srcRecords.forEach((\x7b aItem: v, bItem \x7d, i) => use(v, bItem));\n" ++
            "// the limit\nuse(1);\n") := by
    decide +kernel
  obtain ⟨-, hmade, hintact⟩ :=
    accepted_copies_intact .javascript Sample.limited Sample.limitedTree c hs hcomments
  obtain ⟨findings, hsome, haccepted, happlied⟩ := hfound
  have hfindings := Attempt.toOption_eq_some.mp hsome
  have hsynthesizes := hmade findings hfindings
  exact ⟨hs, hcomments, findings, hfindings, hsynthesizes, haccepted, happlied,
    hintact findings c.marker c.maxFindings hsynthesizes⟩

end Declutter
