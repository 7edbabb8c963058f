import Declutter.Proofs.Analysis.Exemption
import Mathlib.Data.List.Nodup

/-!
# What becomes of every finding

A review drops the findings that a comment exempts, those that say what an earlier one says, and
those beyond the number that may be reported.  Of the rest, a rewrite is accepted unless it overlaps
one that was accepted before, which is then no smaller.  All accepted ones are carried out together,
or none is.  So each finding has one fate, and the numbers, the statuses and the result agree on it.

## Main definitions

* `splitRepeats` — the first ones of a list, and those that repeat one before.
* `Tree.ExemptAt`, `Tree.RepeatedAt` — why a finding is dropped.
* `Finding.InReportOrder` — the order in which findings are reported.
* `Review.Settles` — what a review makes of a finding that it keeps.
* `Review.editsWith` — the edits of the findings with a status.
* `Review.Divides`, `Review.Agrees`, `Review.Carries` — what a review says of all findings, of those
  that it keeps, and of the text.

## Main results

* `Tree.triage_partition` — every finding is exempt, repeated, beyond the number, or kept.
* `Tree.settles_triage` — what becomes of those that are kept.
* `Tree.review_accounts` — all together, with the numbers and the text that are reported.
-/

namespace Declutter

/-! ### Repetitions -/

section

variable {α : Type _} (same : α → α → Bool)

/-- The elements of a list that are the same as none before them, and those that are the same as
some; `before` holds what comes before the list. -/
def splitRepeats (before : List α) : List α → List α × List α
  | [] => ([], [])
  | a :: rest =>
    let (firsts, repeats) := splitRepeats (before ++ [a]) rest
    if before.any (same a) then (firsts, a :: repeats) else (a :: firsts, repeats)

variable {same} {before l : List α} {a : α}

theorem splitRepeats_of_repeats (h : before.any (same a) = true) :
    splitRepeats same before (a :: l) = ((splitRepeats same (before ++ [a]) l).1,
      a :: (splitRepeats same (before ++ [a]) l).2) := by
  rw [splitRepeats]
  exact if_pos h

theorem splitRepeats_of_not_repeats (h : before.any (same a) = false) :
    splitRepeats same before (a :: l) = (a :: (splitRepeats same (before ++ [a]) l).1,
      (splitRepeats same (before ++ [a]) l).2) := by
  rw [splitRepeats]
  exact if_neg (by simp [h])

theorem splitRepeats_perm (same : α → α → Bool) (before l : List α) :
    ((splitRepeats same before l).1 ++ (splitRepeats same before l).2).Perm l := by
  induction l generalizing before with
  | nil => exact .refl _
  | cons a l ih =>
    cases h : before.any (same a) with
    | true =>
      rw [splitRepeats_of_repeats h]
      exact List.perm_middle.trans ((ih _).cons a)
    | false =>
      rw [splitRepeats_of_not_repeats h]
      exact (ih _).cons a

/-- What is compared with the elements that were kept might as well be compared with all that came
before: each of those is the same as one that was kept. -/
theorem distinctBy_eq_splitRepeats (htrans : ∀ a b c, same a b = true → same b c = true →
    same a c = true) {kept : List α} (hkept : ∀ a, kept.any (same a) = before.any (same a)) :
    distinctBy same kept l = kept ++ (splitRepeats same before l).1 := by
  induction l generalizing kept before with
  | nil => rw [distinctBy, splitRepeats, List.append_nil]
  | cons a l ih =>
    have hnext : ∀ kept : List α, (∀ b, kept.any (same b) = (before ++ [a]).any (same b)) →
        distinctBy same kept l = kept ++ (splitRepeats same (before ++ [a]) l).1 := fun _ h => ih h
    rw [distinctBy, hkept a]
    cases h : before.any (same a) with
    | true =>
      rw [if_pos rfl, splitRepeats_of_repeats h, hnext kept fun b => ?_]
      rw [hkept b, List.any_append, List.any_cons, List.any_nil, Bool.or_false]
      cases hab : same b a with
      | false => rw [Bool.or_false]
      | true =>
        obtain ⟨c, hc, hac⟩ := List.any_eq_true.mp h
        rw [Bool.or_true, List.any_eq_true]
        exact ⟨c, hc, htrans b a c hab hac⟩
    | false =>
      rw [if_neg Bool.false_ne_true, splitRepeats_of_not_repeats h, hnext (kept ++ [a]) fun b => ?_,
        List.append_assoc]
      · rfl
      · rw [List.any_append, hkept b, List.any_append]

variable {number : α → Nat} (hnumber : (before ++ l).Pairwise fun a b => number a < number b)
include hnumber

/-- An element that repeats one is the same as one before it. -/
theorem exists_of_mem_repeats (h : a ∈ (splitRepeats same before l).2) :
    ∃ b ∈ before ++ l, number b < number a ∧ same a b = true := by
  induction l generalizing before with
  | nil => cases h
  | cons c l ih =>
    have hnext : ∀ h : a ∈ (splitRepeats same (before ++ [c]) l).2,
        ∃ b ∈ before ++ c :: l, number b < number a ∧ same a b = true := fun h => by
      have hlist : before ++ [c] ++ l = before ++ c :: l := by simp
      exact hlist ▸ ih (hlist ▸ hnumber) h
    cases hc : before.any (same c) with
    | true =>
      rw [splitRepeats_of_repeats hc] at h
      rcases List.mem_cons.mp h with rfl | h
      · obtain ⟨b, hb, hsame⟩ := List.any_eq_true.mp hc
        have hlt := (List.pairwise_append.mp hnumber).2.2 b hb a (.head _)
        exact ⟨b, List.mem_append_left _ hb, hlt, hsame⟩
      · exact hnext h
    | false =>
      rw [splitRepeats_of_not_repeats hc] at h
      exact hnext h

/-- A first one is the same as none before it. -/
theorem same_eq_false_of_mem_firsts (h : a ∈ (splitRepeats same before l).1) :
    ∀ b ∈ before ++ l, number b < number a → same a b = false := by
  induction l generalizing before with
  | nil => cases h
  | cons c l ih =>
    have hnext : ∀ h : a ∈ (splitRepeats same (before ++ [c]) l).1,
        ∀ b ∈ before ++ c :: l, number b < number a → same a b = false := fun h => by
      have hlist : before ++ [c] ++ l = before ++ c :: l := by simp
      exact hlist ▸ ih (hlist ▸ hnumber) h
    cases hc : before.any (same c) with
    | true =>
      rw [splitRepeats_of_repeats hc] at h
      exact hnext h
    | false =>
      rw [splitRepeats_of_not_repeats hc] at h
      rcases List.mem_cons.mp h with rfl | h
      · intro b hb hlt
        rcases List.mem_append.mp hb with hb | hb
        · simpa using List.any_eq_false.mp hc b hb
        · -- What comes behind has a greater number.
          rcases List.mem_cons.mp hb with rfl | hb
          · exact absurd hlt (Nat.lt_irrefl _)
          · have hgt := (List.pairwise_cons.mp (List.pairwise_append.mp hnumber).2.1).1 b hb
            exact absurd hlt (Nat.lt_asymm hgt)
      · exact hnext h

end

/-! ### Findings and their numbers -/

namespace Finding

/-- What two findings share that say the same. -/
def key (f : Finding) : Rule × Nat × Nat × String :=
  (f.rule, f.primary.start, f.primary.stop, f.symbol)

theorem repeats_iff {f g : Finding} : f.repeats g = true ↔ f.key = g.key := by
  simp only [repeats, key, Bool.and_eq_true, beq_iff_eq, Prod.mk.injEq, and_assoc]

/-- Whether one finding may be reported before another one: by start, by end, and by the name of
the rule. -/
def InReportOrder (f g : Finding) : Prop :=
  f.primary.start < g.primary.start ∨ (f.primary.start = g.primary.start ∧
    (f.primary.stop < g.primary.stop ∨
      (f.primary.stop = g.primary.stop ∧ f.rule.id ≤ g.rule.id)))

/-- The rank of a rule is its place in the order of the names. -/
theorem reportedBefore_iff {f g : Finding} : f.reportedBefore g = true ↔ f.InReportOrder g := by
  have hrank : ∀ r s : Rule, r.rank ≤ s.rank ↔ r.id ≤ s.id := by
    intro r s
    cases r <;> cases s <;> decide +kernel
  simp only [reportedBefore, InReportOrder, Bool.or_eq_true, Bool.and_eq_true, decide_eq_true_eq,
    beq_iff_eq, hrank]

theorem reportedBefore_trans (f g h : Finding) (hfg : f.reportedBefore g = true)
    (hgh : g.reportedBefore h = true) : f.reportedBefore h = true := by
  simp only [reportedBefore, Bool.or_eq_true, Bool.and_eq_true, decide_eq_true_eq,
    beq_iff_eq] at *
  omega

theorem reportedBefore_total (f g : Finding) :
    (f.reportedBefore g || g.reportedBefore f) = true := by
  simp only [reportedBefore, Bool.or_eq_true, Bool.and_eq_true, decide_eq_true_eq, beq_iff_eq]
  omega

theorem consideredBefore_trans (f g h : Finding) (hfg : f.consideredBefore g = true)
    (hgh : g.consideredBefore h = true) : f.consideredBefore h = true := by
  simp only [consideredBefore, Bool.or_eq_true, Bool.and_eq_true, decide_eq_true_eq,
    beq_iff_eq] at *
  omega

theorem consideredBefore_total (f g : Finding) :
    (f.consideredBefore g || g.consideredBefore f) = true := by
  simp only [consideredBefore, Bool.or_eq_true, Bool.and_eq_true, decide_eq_true_eq, beq_iff_eq]
  omega

/-- What is considered first is no smaller. -/
theorem length_le_of_consideredBefore {f g : Finding} (h : f.consideredBefore g = true) :
    g.combinedSpan.length ≤ f.combinedSpan.length := by
  simp only [consideredBefore, Bool.or_eq_true, Bool.and_eq_true, decide_eq_true_eq,
    beq_iff_eq] at h
  omega

/-- Two rewrites conflict if some edits of theirs overlap. -/
theorem conflicts_iff {f g : Finding} : f.conflicts g = true ↔
    ∃ a ∈ f.edits, ∃ b ∈ g.edits, a.span.overlaps b.span = true := by
  unfold conflicts edits
  cases f.rewrite with
  | none => simp
  | some r =>
    cases g.rewrite with
    | none => simp
    | some s => simp [Rewrite.overlaps]

theorem conflicts_comm (f g : Finding) : f.conflicts g = g.conflicts f := by
  rw [Bool.eq_iff_iff, conflicts_iff, conflicts_iff]
  constructor
  · rintro ⟨a, ha, b, hb, hover⟩
    exact ⟨b, hb, a, ha, Span.overlaps_comm a.span b.span ▸ hover⟩
  · rintro ⟨a, ha, b, hb, hover⟩
    exact ⟨b, hb, a, ha, Span.overlaps_comm a.span b.span ▸ hover⟩

end Finding

/-- Findings with their numbers. -/
def enumerated (findings : List Finding) : List Numbered :=
  findings.zipIdx.map fun (finding, number) => ⟨number, finding⟩

section

variable {findings : List Finding} {m n : Numbered}

theorem mem_enumerated : n ∈ enumerated findings ↔ findings[n.number]? = some n.finding := by
  rw [enumerated, List.mem_map]
  constructor
  · rintro ⟨⟨f, k⟩, hf, rfl⟩
    exact List.mem_zipIdx_iff_getElem?.mp hf
  · exact fun h => ⟨(n.finding, n.number), List.mem_zipIdx_iff_getElem?.mpr h, rfl⟩

theorem map_number_enumerated (findings : List Finding) :
    (enumerated findings).map (·.number) = List.range findings.length := by
  rw [enumerated, List.map_map, List.range_eq_range']
  exact List.zipIdx_map_snd 0 findings

theorem pairwise_enumerated (findings : List Finding) :
    (enumerated findings).Pairwise fun m n => m.number < n.number := by
  rw [← List.pairwise_map (f := Numbered.number) (R := (· < ·)), map_number_enumerated]
  exact List.pairwise_lt_range

theorem eq_of_number_eq (hm : m ∈ enumerated findings) (hn : n ∈ enumerated findings)
    (h : m.number = n.number) : m = n := by
  rw [mem_enumerated] at hm hn
  rw [h, hn] at hm
  cases m
  cases n
  simp_all

end

/-! ### Who is kept -/

namespace Tree

variable (t : Tree) (marker : String) (maxFindings : Nat) (findings : List Finding)

/-- Whether a comment exempts the finding of a number. -/
def ExemptAt (k : Nat) : Prop :=
  ∃ f, findings[k]? = some f ∧ ∃ c ∈ t.comments, c.Exempts marker f

/-- Whether the finding of a number says the same as an earlier one, and no comment exempts either
of them. -/
def RepeatedAt (k : Nat) : Prop :=
  ¬ t.ExemptAt marker findings k ∧ ∃ f, findings[k]? = some f ∧
    ∃ j < k, ¬ t.ExemptAt marker findings j ∧ ∃ g, findings[j]? = some g ∧ g.key = f.key

/-- The findings that no comment exempts. -/
def others : List Numbered := (enumerated findings).filter fun n => !t.exempts marker n.finding

/-- Those of them that say the same as none before, and those that say the same as some. -/
def splitOthers : List Numbered × List Numbered :=
  splitRepeats (fun m n => m.finding.repeats n.finding) [] (t.others marker findings)

/-- The findings that are left, in the order of report. -/
def ordered : List Numbered :=
  sortBy (fun m n => m.finding.reportedBefore n.finding) (t.splitOthers marker findings).1

/-- The findings with a rewrite, in the order in which they are considered. -/
def candidates (kept : List Numbered) : List Numbered :=
  sortBy (fun m n => m.finding.consideredBefore n.finding)
    (kept.filter fun n => !n.finding.edits.isEmpty)

/-- The steps of triage, one by one. -/
theorem triage_eq : t.triage marker maxFindings findings =
    { suppressed :=
        ((enumerated findings).filter fun n => t.exempts marker n.finding).map (·.number)
      truncated := (t.ordered marker findings).length - maxFindings
      kept := (t.ordered marker findings).take maxFindings
      accepted := (accept [] (candidates ((t.ordered marker findings).take maxFindings))).1
      superseded := (accept [] (candidates ((t.ordered marker findings).take maxFindings))).2
    } := by
  have hdistinct : distinctBy (fun m n : Numbered => m.finding.repeats n.finding) []
      (t.others marker findings) = (t.splitOthers marker findings).1 := by
    rw [splitOthers, ← List.nil_append (splitRepeats _ _ _).1]
    refine distinctBy_eq_splitRepeats (fun m n o hmn hno => ?_) fun _ => rfl
    rw [Finding.repeats_iff] at *
    exact hmn.trans hno
  unfold triage
  dsimp only
  rw [List.partition_eq_filter_filter]
  dsimp only
  rw [ordered, ← hdistinct]
  rfl

variable {t marker maxFindings findings}

theorem candidates_pairwise (kept : List Numbered) : (candidates kept).Pairwise fun m n =>
    m.finding.consideredBefore n.finding = true := by
  rw [candidates]
  refine pairwise_sortBy (fun m n o hmn hno => ?_) (fun m n => ?_) _
  · exact Finding.consideredBefore_trans m.finding n.finding o.finding hmn hno
  · exact Finding.consideredBefore_total m.finding n.finding

theorem exempts_iff_exemptAt {n : Numbered} (hn : n ∈ enumerated findings) :
    t.exempts marker n.finding = true ↔ t.ExemptAt marker findings n.number := by
  rw [exempts_iff, ExemptAt, mem_enumerated.mp hn]
  simp

theorem mem_others {n : Numbered} : n ∈ t.others marker findings ↔
    n ∈ enumerated findings ∧ ¬ t.ExemptAt marker findings n.number := by
  rw [others, List.mem_filter]
  refine and_congr_right fun hn => ?_
  rw [← exempts_iff_exemptAt hn, Bool.not_eq_true', Bool.not_eq_true]

theorem pairwise_others :
    (t.others marker findings).Pairwise fun m n => m.number < n.number :=
  (pairwise_enumerated findings).sublist List.filter_sublist

theorem splitOthers_perm : ((t.splitOthers marker findings).1 ++
    (t.splitOthers marker findings).2).Perm (t.others marker findings) :=
  splitRepeats_perm _ _ _

/-- A finding that says the same as one before is a repeated one. -/
theorem repeatedAt_of_mem {n : Numbered} (hn : n ∈ (t.splitOthers marker findings).2) :
    t.RepeatedAt marker findings n.number := by
  obtain ⟨hmem, hexempt⟩ := mem_others.mp (splitOthers_perm.mem_iff.mp (List.mem_append_right _ hn))
  obtain ⟨m, hm, hlt, hsame⟩ := exists_of_mem_repeats (pairwise_others (t := t)) hn
  obtain ⟨hm, hexempt'⟩ := mem_others.mp hm
  exact ⟨hexempt, n.finding, mem_enumerated.mp hmem, m.number, hlt, hexempt', m.finding,
    mem_enumerated.mp hm, (Finding.repeats_iff.mp hsame).symm⟩

/-- A finding that says the same as none before is no repeated one. -/
theorem not_repeatedAt_of_mem {n : Numbered} (hn : n ∈ (t.splitOthers marker findings).1) :
    ¬ t.RepeatedAt marker findings n.number := by
  rintro ⟨-, f, hf, j, hj, hexempt, g, hg, hkey⟩
  obtain ⟨hmem, -⟩ := mem_others.mp (splitOthers_perm.mem_iff.mp (List.mem_append_left _ hn))
  obtain rfl : n.finding = f := Option.some.inj ((mem_enumerated.mp hmem).symm.trans hf)
  have hearlier : (⟨j, g⟩ : Numbered) ∈ t.others marker findings :=
    mem_others.mpr ⟨mem_enumerated.mpr hg, hexempt⟩
  have hdifferent := same_eq_false_of_mem_firsts (pairwise_others (t := t)) hn ⟨j, g⟩ hearlier hj
  rw [Finding.repeats_iff.mpr hkey.symm] at hdifferent
  cases hdifferent

theorem ordered_perm : (t.ordered marker findings).Perm (t.splitOthers marker findings).1 :=
  sortBy_perm _ _

theorem ordered_pairwise : (t.ordered marker findings).Pairwise fun m n =>
    m.finding.InReportOrder n.finding :=
  (pairwise_sortBy (fun m n o => Finding.reportedBefore_trans m.finding n.finding o.finding)
    (fun m n => Finding.reportedBefore_total m.finding n.finding) _).imp
      Finding.reportedBefore_iff.mp

theorem mem_others_of_mem_ordered {n : Numbered} (hn : n ∈ t.ordered marker findings) :
    n ∈ t.others marker findings :=
  splitOthers_perm.mem_iff.mp (List.mem_append_left _ (ordered_perm.mem_iff.mp hn))

/-- **Every finding has one fate**: exempt, repeated, beyond the number that may be reported, or
kept. -/
theorem triage_partition (t : Tree) (marker : String) (maxFindings : Nat)
    (findings : List Finding) :
    let g := t.triage marker maxFindings findings
    ∃ duplicates truncated : List Nat,
      (g.suppressed ++ duplicates ++ truncated ++ g.kept.map (·.number)).Perm
        (List.range findings.length) ∧
      (∀ k, k ∈ g.suppressed ↔ t.ExemptAt marker findings k) ∧
      (∀ k, k ∈ duplicates ↔ t.RepeatedAt marker findings k) ∧
      g.truncated = truncated.length ∧
      ∀ k ∈ truncated, g.kept.length = maxFindings ∧
        ∃ f, findings[k]? = some f ∧ ∀ n ∈ g.kept, n.finding.InReportOrder f := by
  intro g
  have hg : g = _ := t.triage_eq marker maxFindings findings
  have hsplit : (((enumerated findings).filter fun n => t.exempts marker n.finding) ++
      ((t.splitOthers marker findings).2 ++ ((t.ordered marker findings).drop maxFindings ++
        (t.ordered marker findings).take maxFindings))).Perm (enumerated findings) := by
    have hordered : ((t.ordered marker findings).drop maxFindings ++
        (t.ordered marker findings).take maxFindings).Perm (t.splitOthers marker findings).1 := by
      refine List.perm_append_comm.trans ?_
      rw [List.take_append_drop]
      exact ordered_perm
    have hothers : ((t.splitOthers marker findings).2 ++
        ((t.ordered marker findings).drop maxFindings ++
          (t.ordered marker findings).take maxFindings)).Perm (t.others marker findings) :=
      ((hordered.append_left _).trans List.perm_append_comm).trans splitOthers_perm
    exact (hothers.append_left _).trans
      (List.filter_append_perm (fun n => t.exempts marker n.finding) (enumerated findings))
  refine ⟨(t.splitOthers marker findings).2.map (·.number),
    ((t.ordered marker findings).drop maxFindings).map (·.number), ?_, fun k => ?_, fun k => ?_,
    ?_, ?_⟩
  · have hnumbers := hsplit.map (·.number)
    rw [map_number_enumerated] at hnumbers
    rw [hg]
    simpa only [List.map_append, List.append_assoc] using hnumbers
  · rw [hg]
    dsimp only
    rw [List.mem_map]
    constructor
    · rintro ⟨n, hn, rfl⟩
      obtain ⟨hmem, hexempt⟩ := List.mem_filter.mp hn
      exact (exempts_iff_exemptAt hmem).mp hexempt
    · rintro hk
      obtain ⟨f, hf, -⟩ := id hk
      have hmem : (⟨k, f⟩ : Numbered) ∈ enumerated findings := mem_enumerated.mpr hf
      exact ⟨⟨k, f⟩, List.mem_filter.mpr ⟨hmem, (exempts_iff_exemptAt hmem).mpr hk⟩, rfl⟩
  · rw [List.mem_map]
    constructor
    · rintro ⟨n, hn, rfl⟩
      exact repeatedAt_of_mem hn
    · rintro hk
      obtain ⟨hexempt, f, hf, -⟩ := id hk
      have hmem : (⟨k, f⟩ : Numbered) ∈ t.others marker findings :=
        mem_others.mpr ⟨mem_enumerated.mpr hf, hexempt⟩
      rcases List.mem_append.mp (splitOthers_perm.mem_iff.mpr hmem) with hfirst | hrepeat
      · exact absurd hk (not_repeatedAt_of_mem hfirst)
      · exact ⟨⟨k, f⟩, hrepeat, rfl⟩
  · rw [hg, List.length_map, List.length_drop]
  · intro k hk
    obtain ⟨n, hn, rfl⟩ := List.mem_map.mp hk
    rw [hg]
    refine ⟨?_, n.finding, ?_, fun m hm => ?_⟩
    · have hlength := List.length_pos_of_mem hn
      rw [List.length_drop] at hlength
      exact List.length_take_of_le (by omega)
    · have hothers := mem_others_of_mem_ordered (List.mem_of_mem_drop hn)
      exact mem_enumerated.mp (mem_others.mp hothers).1
    · have hpairwise : (t.ordered marker findings).Pairwise fun m n =>
          m.finding.InReportOrder n.finding := ordered_pairwise
      rw [← List.take_append_drop maxFindings (t.ordered marker findings)] at hpairwise
      exact (List.pairwise_append.mp hpairwise).2.2 m hm n hn

end Tree

/-! ### What becomes of those that are kept -/

section

variable {accepted candidates : List Numbered} {n : Numbered}

/-- A rewrite that is considered is accepted or gives way. -/
theorem mem_accept_or (hn : n ∈ candidates) : n ∈ (accept accepted candidates).1 ∨
    ∃ s ∈ (accept accepted candidates).2, s.number = n.number := by
  induction candidates generalizing accepted with
  | nil => cases hn
  | cons c rest ih =>
    rw [accept]
    split
    · rcases List.mem_cons.mp hn with rfl | hn
      · exact .inr ⟨_, .head _, rfl⟩
      · rcases ih hn with haccepted | ⟨s, hs, hnumber⟩
        · exact .inl haccepted
        · exact .inr ⟨s, .tail _ hs, hnumber⟩
    · rcases List.mem_cons.mp hn with rfl | hn
      · obtain ⟨chosen, heq, -⟩ := accept_sublist (accepted ++ [n]) rest
        exact .inl (heq ▸ List.mem_append_left _ (List.mem_append_right _ (.head _)))
      · exact ih hn

/-- **A rewrite gives way to one that overlaps it and was considered before.** -/
theorem exists_of_mem_superseded
    (hsorted : candidates.Pairwise fun m n => m.finding.consideredBefore n.finding = true)
    (haccepted : ∀ w ∈ accepted, ∀ n ∈ candidates,
      w.finding.consideredBefore n.finding = true)
    {s : Numbered} (hs : s ∈ (accept accepted candidates).2) :
    ∃ n ∈ candidates, ∃ w ∈ (accept accepted candidates).1,
      s = ⟨n.number, n.finding.supersededBy w.finding⟩ ∧
      w.finding.conflicts n.finding = true ∧ w.finding.consideredBefore n.finding = true := by
  induction candidates generalizing accepted with
  | nil => cases hs
  | cons c rest ih =>
    rw [List.pairwise_cons] at hsorted
    rw [accept] at hs ⊢
    split at hs
    · rename_i winner hwinner
      have hmem : winner ∈ accepted := List.mem_of_find?_eq_some hwinner
      rcases List.mem_cons.mp hs with rfl | hs
      · obtain ⟨chosen, heq, -⟩ := accept_sublist accepted rest
        refine ⟨c, .head _, winner, heq ▸ List.mem_append_left _ hmem, rfl,
          by simpa using List.find?_some hwinner, haccepted winner hmem c (.head _)⟩
      · obtain ⟨n, hn, h⟩ := ih hsorted.2 (fun w hw n hn => haccepted w hw n (.tail _ hn)) hs
        exact ⟨n, .tail _ hn, h⟩
    · have hnext : ∀ w ∈ accepted ++ [c], ∀ n ∈ rest,
          w.finding.consideredBefore n.finding = true := by
        intro w hw n hn
        rcases List.mem_append.mp hw with hw | hw
        · exact haccepted w hw n (.tail _ hn)
        · rw [List.mem_singleton.mp hw]
          exact hsorted.1 n hn
      obtain ⟨n, hn, h⟩ := ih hsorted.2 hnext hs
      exact ⟨n, .tail _ hn, h⟩

end

/-- What a review makes of a finding that it keeps, when the accepted ones get a status: nothing
without a rewrite, the status, or the reason that the rewrite gives way to an accepted one, which
overlaps it and is no smaller. -/
inductive Review.Settles (r : Review) (status : Status) (f : Finding) : Finding → Prop
  | idle (hedits : f.edits = []) : r.Settles status f f
  | accepted (hedits : f.edits ≠ []) : r.Settles status f { f with status }
  | superseded (hedits : f.edits ≠ []) {m : Numbered} (hkept : m ∈ r.kept)
      (hstatus : m.finding.status = status)
      (hoverlap : ∃ a ∈ m.finding.edits, ∃ b ∈ f.edits, a.span.overlaps b.span = true)
      (hlength : f.combinedSpan.length ≤ m.finding.combinedSpan.length) :
      r.Settles status f (f.supersededBy m.finding)

/-- The findings with a status. -/
def Review.withStatus (r : Review) (status : Status) : List Numbered :=
  r.kept.filter fun n => n.finding.status == status

/-- The edits of the findings with a status. -/
def Review.editsWith (r : Review) (status : Status) : List Edit :=
  (r.withStatus status).flatMap (·.finding.edits)

namespace Tree

variable {t : Tree} {marker : String} {maxFindings : Nat} {findings : List Finding}

section

variable (t marker maxFindings findings)

theorem kept_subset : ∀ n ∈ (t.triage marker maxFindings findings).kept,
    n ∈ enumerated findings := by
  intro n hn
  rw [triage_eq] at hn
  exact (mem_others.mp (mem_others_of_mem_ordered (List.mem_of_mem_take hn))).1

theorem nodup_numbers : ((t.triage marker maxFindings findings).kept.map (·.number)).Nodup := by
  obtain ⟨duplicates, truncated, hperm, -⟩ := t.triage_partition marker maxFindings findings
  exact (List.nodup_append.mp (hperm.nodup_iff.mpr List.nodup_range)).2.1

theorem nodup_kept : (t.triage marker maxFindings findings).kept.Nodup :=
  (t.nodup_numbers marker maxFindings findings).of_map

theorem mem_candidates {n : Numbered} : n ∈ candidates
    (t.triage marker maxFindings findings).kept ↔
      n ∈ (t.triage marker maxFindings findings).kept ∧ n.finding.edits ≠ [] := by
  rw [candidates, mem_sortBy, List.mem_filter, Bool.not_eq_true', List.isEmpty_eq_false_iff]

theorem accept_candidates : accept [] (candidates (t.triage marker maxFindings findings).kept) =
    ((t.triage marker maxFindings findings).accepted,
      (t.triage marker maxFindings findings).superseded) := by
  rw [triage_eq]

theorem accepted_sublist : (t.triage marker maxFindings findings).accepted.Sublist
    (candidates (t.triage marker maxFindings findings).kept) := by
  obtain ⟨chosen, heq, hsub⟩ :=
    accept_sublist [] (candidates (t.triage marker maxFindings findings).kept)
  rw [accept_candidates] at heq
  rw [show (t.triage marker maxFindings findings).accepted = chosen from heq]
  exact hsub

theorem exists_of_mem_triage_superseded {s : Numbered}
    (hs : s ∈ (t.triage marker maxFindings findings).superseded) :
    ∃ n ∈ candidates (t.triage marker maxFindings findings).kept,
      ∃ w ∈ (t.triage marker maxFindings findings).accepted,
        s = ⟨n.number, n.finding.supersededBy w.finding⟩ ∧
        w.finding.conflicts n.finding = true ∧ w.finding.consideredBefore n.finding = true := by
  have haccept := t.accept_candidates marker maxFindings findings
  have hs' : s ∈ (accept [] (candidates (t.triage marker maxFindings findings).kept)).2 := by
    rwa [haccept]
  have h := exists_of_mem_superseded (candidates_pairwise _)
    (fun w hw => absurd hw List.not_mem_nil) hs'
  rwa [haccept] at h

/-- A kept finding is accepted exactly if its number is. -/
theorem accepts_iff {n : Numbered} (hn : n ∈ (t.triage marker maxFindings findings).kept) :
    (t.triage marker maxFindings findings).accepts n.number = true ↔
      n ∈ (t.triage marker maxFindings findings).accepted := by
  refine ⟨fun h => ?_, Triage.accepts_of_mem _⟩
  obtain ⟨m, hm, hnumber⟩ := List.any_eq_true.mp h
  have hkept := t.mem_kept_of_mem_accepted marker maxFindings findings hm
  rwa [← eq_of_number_eq (t.kept_subset marker maxFindings findings m hkept)
    (t.kept_subset marker maxFindings findings n hn) (by simpa using hnumber)]

/-- **What becomes of a finding that is kept.** -/
theorem settle_cases (status : Status) {n : Numbered}
    (hn : n ∈ (t.triage marker maxFindings findings).kept) :
    let g := t.triage marker maxFindings findings
    (n.finding.edits = [] ∧ g.accepts n.number = false ∧ g.settle status n = n) ∨
    (n ∈ g.accepted ∧ n.finding.edits ≠ [] ∧
      g.settle status n = ⟨n.number, { n.finding with status }⟩) ∨
    (g.accepts n.number = false ∧ n.finding.edits ≠ [] ∧ ∃ w ∈ g.accepted,
      g.settle status n = ⟨n.number, n.finding.supersededBy w.finding⟩ ∧
      w.finding.conflicts n.finding = true ∧
      n.finding.combinedSpan.length ≤ w.finding.combinedSpan.length) := by
  intro g
  have hsame : ∀ {m : Numbered}, m ∈ g.kept → m.number = n.number → m = n := fun hm =>
    eq_of_number_eq (t.kept_subset marker maxFindings findings _ hm)
      (t.kept_subset marker maxFindings findings n hn)
  -- Only what has a rewrite is considered.
  have hconsidered : ∀ {m : Numbered}, m ∈ candidates g.kept → m.number = n.number →
      n.finding.edits ≠ [] := fun hm hnumber => by
    obtain ⟨hkept, hedits⟩ := (t.mem_candidates marker maxFindings findings).mp hm
    exact hsame hkept hnumber ▸ hedits
  cases haccepts : g.accepts n.number with
  | true =>
    have hmem := (t.accepts_iff marker maxFindings findings hn).mp haccepts
    have hcandidate := (t.accepted_sublist marker maxFindings findings).subset hmem
    refine .inr (.inl ⟨hmem, hconsidered hcandidate rfl, ?_⟩)
    rw [Triage.settle, if_pos haccepts]
  | false =>
    have hnot : n ∉ g.accepted := fun hmem =>
      absurd (haccepts.symm.trans (Triage.accepts_of_mem _ hmem)) (by decide)
    have hsettle : g.settle status n = (g.superseded.find? (·.number == n.number)).getD n := by
      rw [Triage.settle, if_neg (by simp [haccepts])]
    cases hfind : g.superseded.find? (·.number == n.number) with
    | none =>
      rw [hfind, Option.getD_none] at hsettle
      refine .inl ⟨?_, rfl, hsettle⟩
      by_contra hedits
      have hcandidate := (t.mem_candidates marker maxFindings findings).mpr ⟨hn, hedits⟩
      have hor : n ∈ (accept [] (candidates g.kept)).1 ∨
          ∃ s ∈ (accept [] (candidates g.kept)).2, s.number = n.number :=
        mem_accept_or hcandidate
      rw [accept_candidates] at hor
      rcases hor with hmem | ⟨s, hs, hnumber⟩
      · exact hnot hmem
      · exact absurd hnumber (by simpa using List.find?_eq_none.mp hfind s hs)
    | some s =>
      rw [hfind, Option.getD_some] at hsettle
      obtain ⟨m, hm, w, hw, rfl, hconflicts, hbefore⟩ :=
        t.exists_of_mem_triage_superseded marker maxFindings findings
          (List.mem_of_find?_eq_some hfind)
      have hnumber : m.number = n.number := by simpa using List.find?_some hfind
      have hedits := hconsidered hm hnumber
      obtain rfl := hsame ((t.mem_candidates marker maxFindings findings).mp hm).1 hnumber
      exact .inr (.inr ⟨rfl, hedits, w, hw, hsettle, hconflicts,
        Finding.length_le_of_consideredBefore hbefore⟩)

end

/-- Only the status and the reason change. -/
theorem exists_settle_eq (status : Status) {n : Numbered}
    (hn : n ∈ (t.triage marker maxFindings findings).kept) :
    ∃ new reason, (t.triage marker maxFindings findings).settle status n =
      ⟨n.number, { n.finding with status := new, unavailable := reason }⟩ := by
  rcases t.settle_cases marker maxFindings findings status hn with
    ⟨-, -, h⟩ | ⟨-, -, h⟩ | ⟨-, -, w, -, h, -, -⟩
  all_goals exact ⟨_, _, h⟩

theorem edits_settle (status : Status) {n : Numbered}
    (hn : n ∈ (t.triage marker maxFindings findings).kept) :
    ((t.triage marker maxFindings findings).settle status n).finding.edits = n.finding.edits := by
  obtain ⟨new, reason, h⟩ := exists_settle_eq status hn
  rw [h]
  rfl

theorem inReportOrder_settle (status : Status) {m n : Numbered}
    (hm : m ∈ (t.triage marker maxFindings findings).kept)
    (h : m.finding.InReportOrder n.finding) :
    ((t.triage marker maxFindings findings).settle status m).finding.InReportOrder n.finding := by
  obtain ⟨new, reason, heq⟩ := exists_settle_eq status hm
  rw [heq]
  exact h

theorem map_number_settled (status : Status) :
    ((t.triage marker maxFindings findings).settled status).map (·.number) =
      (t.triage marker maxFindings findings).kept.map (·.number) := by
  rw [Triage.settled, List.map_map]
  exact List.map_congr_left fun n _ => Triage.number_settle _ status n

/-- A status by which an accepted finding can be told from all others. -/
def Tells (status : Status) : Prop := status ≠ .superseded ∧ status ≠ .unavailable

instance (status : Status) : Decidable (Tells status) :=
  inferInstanceAs (Decidable (status ≠ .superseded ∧ status ≠ .unavailable))

variable {status : Status}

/-- The accepted findings are those with the status. -/
theorem status_settle_iff (hstatus : Tells status)
    (hfresh : ∀ f ∈ findings, f.status = .unavailable) {n : Numbered}
    (hn : n ∈ (t.triage marker maxFindings findings).kept) :
    ((t.triage marker maxFindings findings).settle status n).finding.status = status ↔
      n ∈ (t.triage marker maxFindings findings).accepted := by
  rw [← t.accepts_iff marker maxFindings findings hn]
  rcases t.settle_cases marker maxFindings findings status hn with
    ⟨-, haccepts, h⟩ | ⟨hmem, -, h⟩ | ⟨haccepts, -, w, -, h, -, -⟩
  · have := hfresh n.finding (finding_mem_of_kept hn)
    rw [h, haccepts, this]
    exact iff_of_false (Ne.symm hstatus.2) (by decide)
  · rw [h]
    exact iff_of_true rfl (Triage.accepts_of_mem _ hmem)
  · rw [h, haccepts]
    exact iff_of_false (Ne.symm hstatus.1) (by decide)

/-- **What becomes of the findings that are kept**, in any review that reports the triage. -/
theorem settles_triage (hstatus : Tells status)
    (hfresh : ∀ f ∈ findings, f.status = .unavailable) {r : Review}
    (hkept : r.kept = (t.triage marker maxFindings findings).settled status) :
    (∀ n ∈ r.kept, ∃ f, findings[n.number]? = some f ∧ r.Settles status f n.finding) ∧
      ∀ m ∈ r.kept, ∀ n ∈ r.kept, m.finding.status = status → n.finding.status = status →
        m.number ≠ n.number →
          ∀ a ∈ m.finding.edits, ∀ b ∈ n.finding.edits, a.span.overlaps b.span = false := by
  have hmem : ∀ n ∈ r.kept, ∃ o ∈ (t.triage marker maxFindings findings).kept,
      (t.triage marker maxFindings findings).settle status o = n := fun n hn => by
    rw [hkept] at hn
    exact List.mem_map.mp hn
  constructor
  · intro n hn
    obtain ⟨o, ho, rfl⟩ := hmem n hn
    refine ⟨o.finding, ?_, ?_⟩
    · rw [Triage.number_settle]
      exact mem_enumerated.mp (t.kept_subset marker maxFindings findings o ho)
    · rcases t.settle_cases marker maxFindings findings status ho with
        ⟨hedits, -, h⟩ | ⟨-, hedits, h⟩ | ⟨-, hedits, w, hw, h, hconflicts, hlength⟩
      · rw [h]
        exact .idle hedits
      · rw [h]
        exact .accepted hedits
      · -- The winner is kept as well, and settled with the status.
        rw [h]
        have hwkept := t.mem_kept_of_mem_accepted marker maxFindings findings hw
        have hwinner : (t.triage marker maxFindings findings).settle status w =
            ⟨w.number, { w.finding with status }⟩ := by
          rw [Triage.settle, if_pos (Triage.accepts_of_mem _ hw)]
        have hwmem : (⟨w.number, { w.finding with status }⟩ : Numbered) ∈ r.kept := by
          rw [hkept, ← hwinner]
          exact List.mem_map_of_mem hwkept
        exact .superseded (m := ⟨w.number, { w.finding with status }⟩) hedits hwmem rfl
          (Finding.conflicts_iff.mp hconflicts) hlength
  · intro m hm n hn hmstatus hnstatus hne
    obtain ⟨o, ho, rfl⟩ := hmem m hm
    obtain ⟨o', ho', rfl⟩ := hmem n hn
    rw [edits_settle status ho, edits_settle status ho']
    rw [Triage.number_settle, Triage.number_settle] at hne
    refine Finding.not_overlaps_of_conflicts ?_
    have hapart : (accept [] (candidates (t.triage marker maxFindings findings).kept)).1.Pairwise
        fun m n => m.finding.conflicts n.finding = false := accept_pairwise .nil
    rw [accept_candidates] at hapart
    have : Std.Symm fun m n : Numbered => m.finding.conflicts n.finding = false :=
      ⟨fun m n h => Finding.conflicts_comm m.finding n.finding ▸ h⟩
    exact hapart.forall ((status_settle_iff hstatus hfresh ho).mp hmstatus)
      ((status_settle_iff hstatus hfresh ho').mp hnstatus) fun heq => hne (heq ▸ rfl)

/-- The findings with the status of the accepted ones: as many as were accepted, with their
edits. -/
theorem perm_withStatus (hstatus : Tells status)
    (hfresh : ∀ f ∈ findings, f.status = .unavailable) {r : Review}
    (hkept : r.kept = (t.triage marker maxFindings findings).settled status) :
    (r.withStatus status).length = (t.triage marker maxFindings findings).accepted.length ∧
      ∃ order : List Numbered,
        order.Perm (t.triage marker maxFindings findings).accepted ∧
        r.editsWith status = order.flatMap (·.finding.edits) := by
  have hfilter : r.withStatus status = ((t.triage marker maxFindings findings).kept.filter
      fun n => (t.triage marker maxFindings findings).accepts n.number).map
        ((t.triage marker maxFindings findings).settle status) := by
    rw [Review.withStatus, hkept, Triage.settled, List.filter_map]
    congr 1
    refine List.filter_congr fun n hn => ?_
    rw [Function.comp_apply, Bool.eq_iff_iff, beq_iff_eq, status_settle_iff hstatus hfresh hn,
      t.accepts_iff marker maxFindings findings hn]
  have hnodup : (t.triage marker maxFindings findings).accepted.Nodup := by
    refine List.Nodup.sublist (t.accepted_sublist marker maxFindings findings) ?_
    exact (sortBy_perm _ _).nodup_iff.mpr
      ((t.nodup_kept marker maxFindings findings).sublist List.filter_sublist)
  have hperm : ((t.triage marker maxFindings findings).kept.filter fun n =>
      (t.triage marker maxFindings findings).accepts n.number).Perm
        (t.triage marker maxFindings findings).accepted := by
    refine (List.perm_ext_iff_of_nodup
      ((t.nodup_kept marker maxFindings findings).sublist List.filter_sublist) hnodup).mpr
      fun n => ?_
    rw [List.mem_filter]
    constructor
    · exact fun ⟨hn, haccepts⟩ => (t.accepts_iff marker maxFindings findings hn).mp haccepts
    · exact fun hn => ⟨t.mem_kept_of_mem_accepted marker maxFindings findings hn,
        Triage.accepts_of_mem _ hn⟩
  refine ⟨by rw [hfilter, List.length_map, hperm.length_eq], _, hperm, ?_⟩
  rw [Review.editsWith, hfilter, List.flatMap_map]
  exact List.flatMap_congr fun n hn => edits_settle status (List.mem_filter.mp hn).1

/-- The edits with the status of the accepted ones are carried out in full, and give the splice of
the accepted edits. -/
theorem applyAll_editsWith (hstatus : Tells status)
    (hfresh : ∀ f ∈ findings, f.status = .unavailable) (hfits : ∀ f ∈ findings, f.Fits t.source)
    {r : Review} (hkept : r.kept = (t.triage marker maxFindings findings).settled status) :
    Edit.applyAll t.source (r.editsWith status) =
      (Edit.splice t.source 0 t.source.length
        (Edit.inOrder (t.triage marker maxFindings findings).edits),
        (r.editsWith status).length) := by
  obtain ⟨-, order, hperm, hedits⟩ := perm_withStatus hstatus hfresh hkept
  obtain ⟨candidates, haccepted, hmem⟩ := t.exists_candidates marker maxFindings findings
  have hcandidates : ∀ n ∈ candidates, n.finding.Fits t.source := fun n hn =>
    hfits n.finding (finding_mem_of_kept (hmem n hn))
  rw [hedits, applyAll_of_perm_accept hcandidates (haccepted ▸ hperm), Triage.edits, haccepted]

/-- There is no other status among the findings that are kept. -/
theorem withStatus_eq_nil (other : Status) (hother : Tells other) (hne : other ≠ status)
    (hfresh : ∀ f ∈ findings, f.status = .unavailable) {r : Review}
    (hkept : r.kept = (t.triage marker maxFindings findings).settled status) :
    r.withStatus other = [] := by
  rw [Review.withStatus, List.filter_eq_nil_iff, hkept]
  intro n hn
  obtain ⟨o, ho, rfl⟩ := List.mem_map.mp hn
  rw [beq_iff_eq]
  rcases t.settle_cases marker maxFindings findings status ho with
    ⟨-, -, h⟩ | ⟨-, -, h⟩ | ⟨-, -, w, -, h, -, -⟩
  · rw [h, hfresh o.finding (finding_mem_of_kept ho)]
    exact Ne.symm hother.2
  · rw [h]
    exact Ne.symm hne
  · rw [h]
    exact Ne.symm hother.1

end Tree

/-! ### All together -/

/-- What a review says of which findings it keeps. -/
structure Review.Divides (r : Review) (t : Tree) (marker : String) (maxFindings : Nat)
    (findings : List Finding) (duplicates truncated : List Nat) : Prop where
  /-- Each finding has one fate. -/
  partition : (r.suppressed ++ duplicates ++ truncated ++ r.kept.map (·.number)).Perm
    (List.range findings.length)
  mem_suppressed : ∀ k, k ∈ r.suppressed ↔ t.ExemptAt marker findings k
  mem_duplicates : ∀ k, k ∈ duplicates ↔ t.RepeatedAt marker findings k
  truncated_eq : r.truncated = truncated.length
  /-- What is beyond the number comes after all that is kept. -/
  beyond : ∀ k ∈ truncated, r.kept.length = maxFindings ∧
    ∃ f, findings[k]? = some f ∧ ∀ n ∈ r.kept, n.finding.InReportOrder f
  pairwise : r.kept.Pairwise fun m n => m.finding.InReportOrder n.finding
  length_le : r.kept.length ≤ maxFindings

/-- What a review says of the findings that it keeps, when the accepted ones get a status, and of
those that it drops. -/
structure Review.Agrees (r : Review) (findings : List Finding) (status : Status) : Prop where
  settles : ∀ n ∈ r.kept, ∃ f, findings[n.number]? = some f ∧ r.Settles status f n.finding
  /-- The accepted rewrites are disjoint. -/
  apart : ∀ m ∈ r.kept, ∀ n ∈ r.kept, m.finding.status = status → n.finding.status = status →
    m.number ≠ n.number →
      ∀ a ∈ m.finding.edits, ∀ b ∈ n.finding.edits, a.span.overlaps b.span = false
  statusOf_kept : ∀ n ∈ r.kept, r.statusOf n.number = n.finding.status
  statusOf_dropped : ∀ k, k ∉ r.kept.map (·.number) → r.statusOf k = .unavailable

/-- What a review says of the text, when the accepted findings get a status. -/
structure Review.Carries (r : Review) (G : Grammar Id) (t : Tree) (apply : Bool)
    (status : Status) : Prop where
  status_eq : if apply then status = .applied ∨ status = .invalidResult else status = .available
  applied_eq : r.applied = (r.withStatus .applied).length
  /-- What was applied is what the text is made of, all of it. -/
  adopted : r.withStatus .applied ≠ [] → ∃ s result, r.rewritten = some s ∧
    Edit.applyAll t.source (r.editsWith .applied) = (s, (r.editsWith .applied).length) ∧
    Tree.parse G t.language s = .ok result
  unchanged : r.withStatus .applied = [] → r.rewritten = none
  rolledBack : r.withStatus .invalidResult ≠ [] →
    ∃ s e, Edit.applyAll t.source (r.editsWith .invalidResult) =
        (s, (r.editsWith .invalidResult).length) ∧
      Tree.parse G t.language s = .error e

namespace Tree

variable {G : Grammar Id} {t : Tree} {marker : String} {maxFindings : Nat} {apply : Bool}
  {findings : List Finding} {status : Status} {r : Review}

/-- **Which findings are kept**, in any review that reports the triage. -/
theorem exists_divides (hkept : r.kept = (t.triage marker maxFindings findings).settled status)
    (hsuppressed : r.suppressed = (t.triage marker maxFindings findings).suppressed)
    (htruncated : r.truncated = (t.triage marker maxFindings findings).truncated) :
    ∃ duplicates truncated,
      r.Divides t marker maxFindings findings duplicates truncated := by
  obtain ⟨duplicates, truncated, hperm, hsupp, hdup, hlength, hbeyond⟩ :=
    t.triage_partition marker maxFindings findings
  have hnumbers : r.kept.map (·.number) =
      (t.triage marker maxFindings findings).kept.map (·.number) := by
    rw [hkept, map_number_settled]
  have hcount : r.kept.length = (t.triage marker maxFindings findings).kept.length := by
    rw [hkept, Triage.settled, List.length_map]
  refine ⟨duplicates, truncated, ⟨by rwa [hsuppressed, hnumbers], by rwa [hsuppressed], hdup,
    by rwa [htruncated], fun k hk => ?_, ?_, ?_⟩⟩
  · obtain ⟨hfull, f, hf, hafter⟩ := hbeyond k hk
    refine ⟨hcount.trans hfull, f, hf, fun n hn => ?_⟩
    rw [hkept] at hn
    obtain ⟨o, ho, rfl⟩ := List.mem_map.mp hn
    exact inReportOrder_settle (n := ⟨k, f⟩) status ho (hafter o ho)
  · have hordered : (t.triage marker maxFindings findings).kept.Pairwise fun m n =>
        m.finding.InReportOrder n.finding := by
      rw [triage_eq]
      exact ordered_pairwise.sublist (List.take_sublist _ _)
    rw [hkept, Triage.settled, List.pairwise_map]
    refine hordered.imp_of_mem fun hm hn h => inReportOrder_settle status hm ?_
    obtain ⟨new, reason, heq⟩ := exists_settle_eq status hn
    rw [heq]
    exact h
  · rw [hcount, triage_eq]
    exact List.length_take_le _ _

/-- Without an accepted finding, the status does not matter. -/
theorem settled_eq_of_accepted_eq_nil (h : (t.triage marker maxFindings findings).accepted = [])
    (other : Status) : (t.triage marker maxFindings findings).settled status =
      (t.triage marker maxFindings findings).settled other := by
  rw [Triage.settled, Triage.settled]
  refine List.map_congr_left fun n _ => ?_
  simp only [Triage.settle, Triage.accepts, h, List.any_nil, Bool.false_eq_true, if_false]

/-- **What is said of the findings agrees**, in any review that reports the triage. -/
theorem agrees_of_kept (hstatus : Tells status) (hfresh : ∀ f ∈ findings, f.status = .unavailable)
    (hkept : r.kept = (t.triage marker maxFindings findings).settled status) :
    r.Agrees findings status := by
  obtain ⟨hsettles, hapart⟩ := settles_triage hstatus hfresh hkept
  refine ⟨hsettles, hapart, fun n hn => ?_, fun k hk => ?_⟩
  · have hnodup : (r.kept.map (·.number)).Nodup := by
      rw [hkept, map_number_settled]
      exact t.nodup_numbers marker maxFindings findings
    rw [Review.statusOf]
    split
    · rename_i m h
      have hmem := List.mem_of_find?_eq_some h
      rw [List.inj_on_of_nodup_map hnodup hmem hn (by simpa using List.find?_some h)]
    · rename_i h
      exact absurd (beq_self_eq_true n.number) (List.find?_eq_none.mp h n hn)
  · have hnone : r.kept.find? (·.number == k) = none := by
      rw [List.find?_eq_none]
      intro n hn
      rw [beq_iff_eq]
      exact fun heq => hk (heq ▸ List.mem_map_of_mem hn)
    rw [Review.statusOf, hnone]

/-- What is said of the text when nothing is carried out. -/
theorem carries_report (hfresh : ∀ f ∈ findings, f.status = .unavailable)
    (hidle : (t.triage marker maxFindings findings).accepted = [] ∨ apply = false)
    (hr : r = (t.triage marker maxFindings findings).report .available) :
    ∃ status, Tells status ∧ r.kept = (t.triage marker maxFindings findings).settled status ∧
      r.Carries G t apply status := by
  have hkept : r.kept = (t.triage marker maxFindings findings).settled .available := by
    rw [hr]
    rfl
  have happlied := withStatus_eq_nil .applied (by decide) (by decide) hfresh hkept
  have hcount : r.applied = (r.withStatus .applied).length := by
    rw [happlied, hr]
    rfl
  have hunchanged : r.rewritten = none := by
    rw [hr]
    rfl
  have hinvalid := withStatus_eq_nil .invalidResult (by decide) (by decide) hfresh hkept
  cases apply with
  | false =>
    exact ⟨.available, by decide, hkept, rfl, hcount, absurd happlied, fun _ => hunchanged,
      absurd hinvalid⟩
  | true =>
    -- Nothing was accepted, so any status will do for what was.
    have hnone := hidle.resolve_right (by decide)
    rw [settled_eq_of_accepted_eq_nil hnone .invalidResult] at hkept
    exact ⟨.invalidResult, by decide, hkept, .inr rfl, hcount, absurd happlied,
      fun _ => hunchanged, absurd hinvalid⟩

/-- What is said of the text when the accepted rewrites are carried out: they are adopted or rolled
back together. -/
theorem carries_conclude (hfresh : ∀ f ∈ findings, f.status = .unavailable)
    (hfits : ∀ f ∈ findings, f.Fits t.source)
    (haccepted : (t.triage marker maxFindings findings).accepted ≠ [])
    (hr : let g := t.triage marker maxFindings findings
      let spliced := Edit.splice t.source 0 t.source.length (Edit.inOrder g.edits)
      r = g.conclude spliced (Tree.parse G t.language spliced)) :
    ∃ status, Tells status ∧ r.kept = (t.triage marker maxFindings findings).settled status ∧
      r.Carries G t true status := by
  dsimp only at hr
  cases hparse : Tree.parse G t.language (Edit.splice t.source 0 t.source.length
      (Edit.inOrder (t.triage marker maxFindings findings).edits)) with
  | ok result =>
    rw [hparse] at hr
    have hkept : r.kept = (t.triage marker maxFindings findings).settled .applied := by
      rw [hr]
      rfl
    have hlength := (perm_withStatus (by decide) hfresh hkept).1
    have hinvalid := withStatus_eq_nil .invalidResult (by decide) (by decide) hfresh hkept
    refine ⟨.applied, by decide, hkept, .inl rfl, ?_, fun _ => ?_, fun hnone => ?_,
      absurd hinvalid⟩
    · rw [hlength, hr]
      rfl
    · exact ⟨_, result, by rw [hr]; rfl, applyAll_editsWith (by decide) hfresh hfits hkept, hparse⟩
    · rw [hnone, List.length_nil] at hlength
      exact absurd (List.length_eq_zero_iff.mp hlength.symm) haccepted
  | error e =>
    rw [hparse] at hr
    have hkept : r.kept = (t.triage marker maxFindings findings).settled .invalidResult := by
      rw [hr]
      rfl
    have happlied := withStatus_eq_nil .applied (by decide) (by decide) hfresh hkept
    refine ⟨.invalidResult, by decide, hkept, .inr rfl, ?_, absurd happlied, fun _ => ?_,
      fun _ => ?_⟩
    · rw [happlied, hr]
      rfl
    · rw [hr]
      rfl
    · exact ⟨_, e, applyAll_editsWith (by decide) hfresh hfits hkept, hparse⟩

/-- What is dropped does not depend on what becomes of the rest. -/
theorem dropped_of_review (hr : t.review G marker maxFindings apply findings = .ok r) :
    r.suppressed = (t.triage marker maxFindings findings).suppressed ∧
      r.truncated = (t.triage marker maxFindings findings).truncated := by
  obtain ⟨-, rfl⟩ | ⟨-, -, -, rfl⟩ := review_cases hr
  · exact ⟨rfl, rfl⟩
  · unfold Triage.conclude
    split
    · exact ⟨rfl, rfl⟩
    · exact ⟨rfl, rfl⟩

/-- **Every finding is accounted for.**  When the findings are fresh and their rewrites are ones of
the source, a review comes to a result.  Each finding is exempt, repeated, beyond the number or
kept, and what is kept is in order.  The accepted rewrites are disjoint and share one status; each
other one gives way to one of them, which it overlaps and which is no smaller; all else stays as it
was.  What is reported as applied is what the text is made of. -/
theorem review_accounts (G : Grammar Id) (t : Tree) (marker : String) (maxFindings : Nat)
    (apply : Bool) (findings : List Finding) (hfresh : ∀ f ∈ findings, f.status = .unavailable)
    (hfits : ∀ f ∈ findings, f.Fits t.source) :
    ∃ r, t.review G marker maxFindings apply findings = .ok r ∧
      (∃ duplicates truncated, r.Divides t marker maxFindings findings duplicates truncated) ∧
      ∃ status, r.Agrees findings status ∧ r.Carries G t apply status := by
  obtain ⟨r, hr⟩ := t.exists_review_of_fits G marker maxFindings apply hfits
  have hcarries : ∃ status, Tells status ∧
      r.kept = (t.triage marker maxFindings findings).settled status ∧
      r.Carries G t apply status := by
    obtain ⟨hidle, hreport⟩ | ⟨haccepted, rfl, -, hconclude⟩ := review_cases hr
    · exact carries_report hfresh hidle hreport
    · exact carries_conclude hfresh hfits haccepted hconclude
  obtain ⟨status, hstatus, hkept, hcarries⟩ := hcarries
  obtain ⟨hsuppressed, htruncated⟩ := dropped_of_review hr
  exact ⟨r, hr, exists_divides hkept hsuppressed htruncated, status,
    agrees_of_kept hstatus hfresh hkept, hcarries⟩

end Tree

namespace Sample

/-- Two lines below a comment with the marker. -/
def spared : Bytes := Utf8.encode "// simplify-ignore\nab\ncdefg\n"

/-- The tree of `spared`. -/
def sparedTree : Concrete :=
  construct "program" 0 28 [.node ⟨"comment", true, false, 0, 18, none⟩ []]

/-- A finding at an offset of `spared`, with some replacements. -/
def remark (symbol : String) (k : Nat) (edits : List (Nat × Nat × String)) : Finding :=
  { rewriting symbol edits with
    primary := .ofOffsets spared k (k + 1)
    rewrite := some ⟨edits.map fun (start, stop, text) => ⟨.ofOffsets spared start stop, text⟩⟩ }

/-- Six findings: one that is exempt, two that say the same, one whose rewrite overlaps theirs, one
without any edit, and one more. -/
def remarks : List Finding :=
  [remark "a" 19 [(19, 20, "x")], remark "c" 22 [(22, 24, "y")], remark "c" 22 [(26, 27, "z")],
    remark "d" 23 [(23, 25, "z")], remark "e" 24 [], remark "f" 25 [(25, 26, "z")]]

end Sample

/-- Of six findings three are kept, each with another status. -/
theorem sample_review_accounts :
    let t := Tree.ofConcrete .javascript Sample.spared Sample.sparedTree
    (∀ f ∈ Sample.remarks, f.status = .unavailable) ∧
      (∀ f ∈ Sample.remarks, f.Fits t.source) ∧
      ∃ r, t.review Sample.blank "simplify-ignore" 3 true Sample.remarks = .ok r ∧
        (∃ duplicates truncated,
          r.Divides t "simplify-ignore" 3 Sample.remarks duplicates truncated) ∧
        (∃ status, r.Agrees Sample.remarks status ∧ r.Carries Sample.blank t true status) ∧
        r.suppressed = [0] ∧ r.truncated = 1 ∧ r.applied = 1 ∧
        r.kept.map (fun n => (n.number, n.finding.status)) =
          [(1, .applied), (3, .superseded), (4, .unavailable)] ∧
        r.rewritten = some (Utf8.encode "// simplify-ignore\nab\nyefg\n") := by
  intro t
  have hfresh : ∀ f ∈ Sample.remarks, f.status = .unavailable := by decide +kernel
  have hfits : ∀ f ∈ Sample.remarks, f.Fits t.source := by
    have hmade : ∀ f ∈ Sample.remarks, ∃ r, f.rewrite = some r ∧
        Rewrite.ofEdits r.edits = .ok r ∧
        ∀ e ∈ r.edits, e.span.start ≤ e.span.stop ∧ e.span.stop ≤ t.source.length := by
      intro f hf
      simp only [Sample.remarks, List.mem_cons, List.not_mem_nil, or_false] at hf
      rcases hf with rfl | rfl | rfl | rfl | rfl | rfl
      all_goals exact ⟨_, rfl, rfl, by decide +kernel⟩
    intro f hf r hr
    obtain ⟨s, hs, hofEdits, hbounds⟩ := hmade f hf
    obtain rfl := Option.some.inj (hr.symm.trans hs)
    exact ⟨⟨_, hofEdits⟩, hbounds⟩
  obtain ⟨r, hr, hdivides, hagrees⟩ := Tree.review_accounts Sample.blank t "simplify-ignore" 3 true
    Sample.remarks hfresh hfits
  have hreported : ∀ r ∈ (t.review Sample.blank "simplify-ignore" 3 true
      Sample.remarks).toOption,
      r.suppressed = [0] ∧ r.truncated = 1 ∧ r.applied = 1 ∧
        r.kept.map (fun n => (n.number, n.finding.status)) =
          [(1, .applied), (3, .superseded), (4, .unavailable)] ∧
        r.rewritten = some (Utf8.encode "// simplify-ignore\nab\nyefg\n") := by
    decide +kernel
  exact ⟨hfresh, hfits, r, hr, hdivides, hagrees, hreported r (Attempt.toOption_eq_some.mpr hr)⟩

end Declutter
