import Declutter.Proofs.Analysis.Pass

/-!
# Accepted edits are carried out in full

Rewrites are accepted by comparing their spans two by two, a rewrite is checked by comparing
neighbours, and edits are carried out by comparing each with the start of the one before.  The
three agree: among the edits of accepted rewrites no two overlap, so none is skipped, and the
result does not depend on the order in which they are handed over.

## Main definitions

* `Finding.Fits` — whether the rewrite of a finding is one of a source.

## Main results

* `accept_pairwise` — no two accepted rewrites overlap.
* `applyAll_of_perm_accept` — their edits are carried out in full, in whatever order.
* `Tree.exists_review_of_fits` — a review never comes to a conflict.
* `accepted_edits_apply` — both together.
-/

namespace Declutter

/-- Whether the rewrite of a finding, if there is one, was made of edits, and these lie within a
source. -/
def Finding.Fits (source : Bytes) (f : Finding) : Prop :=
  ∀ r, f.rewrite = some r → (∃ made, Rewrite.ofEdits made = .ok r) ∧
    ∀ e ∈ r.edits, e.span.start ≤ e.span.stop ∧ e.span.stop ≤ source.length

/-! ### Which edits are accepted -/

/-- No two accepted rewrites overlap. -/
theorem accept_pairwise {accepted candidates : List Numbered}
    (h : accepted.Pairwise fun m n => m.finding.conflicts n.finding = false) :
    (accept accepted candidates).1.Pairwise fun m n =>
      m.finding.conflicts n.finding = false := by
  induction candidates generalizing accepted with
  | nil => exact h
  | cons n rest ih =>
    rw [accept]
    split
    · exact ih h
    · rename_i hnone
      refine ih (List.pairwise_append.mpr ⟨h, List.pairwise_singleton _ _, fun m hm d hd => ?_⟩)
      rw [List.mem_singleton.mp hd]
      simpa using List.find?_eq_none.mp hnone m hm

namespace Finding

variable {f g : Finding} {source : Bytes}

theorem exists_rewrite_of_mem {e : Edit} (he : e ∈ f.edits) :
    ∃ r, f.rewrite = some r ∧ e ∈ r.edits := by
  unfold edits at he
  cases hr : f.rewrite with
  | none => rw [hr] at he; cases he
  | some r =>
    rw [hr] at he
    exact ⟨r, rfl, he⟩

/-- The edits of findings that do not conflict do not overlap. -/
theorem not_overlaps_of_conflicts (h : f.conflicts g = false) :
    ∀ a ∈ f.edits, ∀ b ∈ g.edits, a.span.overlaps b.span = false := by
  intro a ha b hb
  obtain ⟨r, hr, ha⟩ := exists_rewrite_of_mem ha
  obtain ⟨s, hs, hb⟩ := exists_rewrite_of_mem hb
  unfold conflicts at h
  rw [hr, hs] at h
  by_contra hover
  rw [Bool.not_eq_false] at hover
  have : r.overlaps s = true :=
    List.any_eq_true.mpr ⟨a, ha, List.any_eq_true.mpr ⟨b, hb, hover⟩⟩
  exact absurd (h.symm.trans this) (by decide)

/-- The edits of one finding lie within the source. -/
theorem Fits.bounds (h : f.Fits source) :
    ∀ e ∈ f.edits, e.span.start ≤ e.span.stop ∧ e.span.stop ≤ source.length := by
  intro e he
  obtain ⟨r, hr, he⟩ := exists_rewrite_of_mem he
  exact (h r hr).2 e he

/-- The edits of one finding do not overlap. -/
theorem Fits.pairwise (h : f.Fits source) :
    f.edits.Pairwise fun a b => a.span.overlaps b.span = false := by
  unfold edits
  cases hr : f.rewrite with
  | none => exact .nil
  | some r =>
    obtain ⟨⟨made, hmade⟩, hle⟩ := h r hr
    refine Rewrite.pairwise_of_ofEdits hmade fun e he => ?_
    exact (hle e ((Rewrite.mem_of_ofEdits hmade e).mpr he)).1

end Finding

section

variable {source : Bytes} {candidates order : List Numbered}

theorem fits_of_mem_accept (h : ∀ n ∈ candidates, n.finding.Fits source) {n : Numbered}
    (hn : n ∈ (accept [] candidates).1) : n.finding.Fits source := by
  obtain ⟨chosen, heq, hsub⟩ := accept_sublist [] candidates
  rw [heq, List.nil_append] at hn
  exact h n (hsub.subset hn)

/-- **The edits of the accepted rewrites do not overlap**: neither those of one rewrite nor those
of two. -/
theorem accept_edits_pairwise (h : ∀ n ∈ candidates, n.finding.Fits source) :
    ((accept [] candidates).1.flatMap (·.finding.edits)).Pairwise fun a b =>
      a.span.overlaps b.span = false := by
  refine List.pairwise_flatMap.mpr ⟨fun n hn => (fits_of_mem_accept h hn).pairwise, ?_⟩
  exact (accept_pairwise .nil).imp fun hmn => Finding.not_overlaps_of_conflicts hmn

/-- **The accepted edits are carried out in full**, in whatever order the findings are handed
over, and the order does not matter. -/
theorem applyAll_of_perm_accept (h : ∀ n ∈ candidates, n.finding.Fits source)
    (horder : order.Perm (accept [] candidates).1) :
    let accepted := (accept [] candidates).1.flatMap (·.finding.edits)
    let edits := order.flatMap (·.finding.edits)
    Edit.applyAll source edits =
      (Edit.splice source 0 source.length (Edit.inOrder accepted), edits.length) := by
  intro accepted edits
  have hperm : accepted.Perm edits := horder.symm.flatMap_right _
  have hbounds : ∀ e ∈ accepted, e.span.start ≤ e.span.stop ∧ e.span.stop ≤ source.length := by
    intro e he
    obtain ⟨n, hn, he⟩ := List.mem_flatMap.mp he
    exact (fits_of_mem_accept h hn).bounds e he
  have hapart : accepted.Pairwise fun a b => a.span.overlaps b.span = false :=
    accept_edits_pairwise h
  have hsame : Edit.inOrder accepted = Edit.inOrder edits :=
    Edit.inOrder_eq_of_perm hperm hapart fun e he => (hbounds e he).1
  have hfits : Edit.Fits 0 source.length (Edit.inOrder edits) := hsame ▸
    Edit.fits_of_pairwise hapart (fun e he => (hbounds e he).1) fun e he => (hbounds e he).2
  refine Prod.ext ?_ ((Edit.applyAll_snd_eq_length_iff source edits).mpr hfits)
  rw [Edit.applyAll_fst hfits, hsame]

end

/-! ### Reviews -/

/-- What is kept is among the findings. -/
theorem finding_mem_of_kept {t : Tree} {marker : String} {maxFindings : Nat}
    {findings : List Finding} {n : Numbered}
    (hn : n ∈ (t.triage marker maxFindings findings).kept) : n.finding ∈ findings := by
  unfold Tree.triage at hn
  dsimp only at hn
  have hn := (mem_sortBy _).mp (List.mem_of_mem_take hn)
  rcases mem_of_mem_distinctBy hn with hn | hn
  · cases hn
  · rw [List.partition_eq_filter_filter] at hn
    obtain ⟨⟨f, k⟩, hf, rfl⟩ := List.mem_map.mp (List.mem_filter.mp hn).1
    exact List.fst_mem_of_mem_zipIdx hf

/-- What is accepted was chosen among candidates that are all kept. -/
theorem Tree.exists_candidates (t : Tree) (marker : String) (maxFindings : Nat)
    (findings : List Finding) :
    ∃ candidates, (t.triage marker maxFindings findings).accepted = (accept [] candidates).1 ∧
      ∀ n ∈ candidates, n ∈ (t.triage marker maxFindings findings).kept :=
  ⟨_, rfl, fun _ hn => (List.mem_filter.mp ((mem_sortBy _).mp hn)).1⟩

/-- **A review never comes to a conflict**, when the rewrites of the findings are ones of the
source. -/
theorem Tree.exists_review_of_fits (t : Tree) (G : Grammar Id) (marker : String)
    (maxFindings : Nat) (apply : Bool) {findings : List Finding}
    (h : ∀ f ∈ findings, f.Fits t.source) :
    ∃ r, t.review G marker maxFindings apply findings = .ok r := by
  obtain ⟨candidates, haccepted, hkept⟩ := t.exists_candidates marker maxFindings findings
  have hfits : ∀ n ∈ candidates, n.finding.Fits t.source := fun n hn =>
    h n.finding (finding_mem_of_kept (hkept n hn))
  have hfull := applyAll_of_perm_accept hfits (List.Perm.refl _)
  rw [← haccepted] at hfull
  have hcount := congrArg Prod.snd hfull
  unfold Tree.review
  dsimp only
  split
  · exact ⟨_, rfl⟩
  split
  · -- An edit would have been skipped.
    rename_i hskipped
    rw [bne_iff_ne] at hskipped
    exact absurd hcount hskipped
  · exact ⟨_, rfl⟩

/-- **Accepted edits always apply in full.**  For findings whose rewrites are made of edits within
a source: whatever the candidates and in whatever order the accepted ones are handed over, all
their edits are carried out; so a review of such findings never comes to a conflict. -/
theorem accepted_edits_apply (source : Bytes) :
    (∀ candidates order : List Numbered, (∀ n ∈ candidates, n.finding.Fits source) →
      order.Perm (accept [] candidates).1 →
      let accepted := (accept [] candidates).1.flatMap (·.finding.edits)
      let edits := order.flatMap (·.finding.edits)
      Edit.applyAll source edits =
        (Edit.splice source 0 source.length (Edit.inOrder accepted), edits.length)) ∧
    ∀ (t : Tree) (findings : List Finding), t.source = source →
      (∀ f ∈ findings, f.Fits source) →
      ∀ (G : Grammar Id) (marker : String) (maxFindings : Nat) (apply : Bool),
        ∃ r, t.review G marker maxFindings apply findings = .ok r := by
  refine ⟨fun candidates order h horder => applyAll_of_perm_accept h horder, ?_⟩
  rintro t findings rfl h G marker maxFindings apply
  exact t.exists_review_of_fits G marker maxFindings apply h

namespace Sample

/-- A source of six bytes. -/
def letters : Bytes := Utf8.encode "abcdef"

/-- A grammar that makes the same tree of any source. -/
def blank : Grammar Id := fun _ _ => default

/-- A finding whose rewrite consists of some replacements. -/
def rewriting (symbol : String) (edits : List (Nat × Nat × String)) : Finding where
  rule := .singleUse
  primary := .ofOffsets letters 0 1
  rationale := ""
  symbol
  rewrite := some ⟨edits.map fun (start, stop, text) => ⟨.ofOffsets letters start stop, text⟩⟩

/-- Three findings: a replacement with an insertion where it ends, an insertion with a replacement
where it stands, and a replacement that overlaps the first one. -/
def touching : List Finding :=
  [rewriting "a" [(0, 2, "x"), (2, 2, "y")], rewriting "b" [(4, 4, "z"), (4, 6, "w")],
    rewriting "c" [(1, 2, "v")]]

end Sample

/-- Edits that touch, insertions among them, are all carried out, in either order. -/
theorem sample_edits_apply :
    let numbered := Sample.touching.zipIdx.map fun (f, k) => (⟨k, f⟩ : Numbered)
    (accept [] numbered).1 = numbered.take 2 ∧
      Edit.applyAll Sample.letters ((numbered.take 2).reverse.flatMap (·.finding.edits)) =
        (Utf8.encode "xycdzw", 4) ∧
      ∃ r, (Tree.ofConcrete .javascript Sample.letters default).review Sample.blank "" 9 true
        Sample.touching = .ok r := by
  intro numbered
  have haccepted : (accept [] numbered).1 = numbered.take 2 := by decide +kernel
  have hfits : ∀ f ∈ Sample.touching, f.Fits Sample.letters := by
    have hmade : ∀ f ∈ Sample.touching, ∃ r, f.rewrite = some r ∧
        Rewrite.ofEdits r.edits = .ok r ∧
        ∀ e ∈ r.edits, e.span.start ≤ e.span.stop ∧ e.span.stop ≤ Sample.letters.length := by
      intro f hf
      simp only [Sample.touching, List.mem_cons, List.not_mem_nil, or_false] at hf
      rcases hf with rfl | rfl | rfl
      all_goals exact ⟨_, rfl, rfl, by decide +kernel⟩
    intro f hf r hr
    obtain ⟨s, hs, hofEdits, hbounds⟩ := hmade f hf
    obtain rfl := Option.some.inj (hr.symm.trans hs)
    exact ⟨⟨_, hofEdits⟩, hbounds⟩
  have hnumbered : ∀ n ∈ numbered, n.finding.Fits Sample.letters := by
    intro n hn
    obtain ⟨⟨f, k⟩, hf, rfl⟩ := List.mem_map.mp hn
    exact hfits f (List.fst_mem_of_mem_zipIdx hf)
  obtain ⟨happly, hreview⟩ := accepted_edits_apply Sample.letters
  refine ⟨haccepted, ?_, hreview _ _ rfl hfits _ _ _ _⟩
  have hperm : (numbered.take 2).reverse.Perm (accept [] numbered).1 := by
    rw [haccepted]
    exact List.reverse_perm _
  refine (happly numbered _ hnumbered hperm).trans ?_
  decide +kernel

end Declutter
