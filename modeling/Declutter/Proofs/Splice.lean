import Declutter.Edit
import Mathlib.Data.List.Pairwise
import Mathlib.Tactic.Common

/-!
# Carrying out edits

`Edit.applyAll` works from the end of the source to its start and skips what does not fit.  Here
the edits are put in ascending order, where the result can be read off: the pieces of the source
between the edits, with the replacements in between.  No edit is skipped exactly when the edits fit,
and edits fit as soon as no two of them overlap.

## Main definitions

* `Edit.inOrder` — edits in ascending order.
* `Edit.Fits` — edits that follow one another between two offsets.
* `Edit.splice` — the source between two offsets with edits carried out.

## Main results

* `Edit.splice_append` — a source may be cut between edits.
* `Edit.exists_splice_of_apart` — what no edit touches is kept.
* `Edit.applyAll_snd_eq_length_iff` — no edit is skipped iff the edits fit.
* `Edit.applyAll_fst` — the result is the splice.
* `Edit.fits_of_pairwise` — edits that do not overlap fit.
* `Edit.inOrder_eq_of_perm` — the order in which they are given does not matter.
* `Edit.fits_of_ascending`, `Edit.inOrder_of_ascending` — edits that are given in order.
* `Rewrite.pairwise_of_ofEdits` — the edits of a rewrite do not overlap.
-/

namespace Declutter

/-! ### Overlaps -/

theorem Span.overlaps_comm (a b : Span) : a.overlaps b = b.overlaps a := by
  unfold Span.overlaps
  by_cases ha : a.start = a.stop
  · by_cases hb : b.start = b.stop
    · simp [ha, hb, Bool.beq_comm]
    · simp [ha, hb]
  · by_cases hb : b.start = b.stop
    · simp [ha, hb]
    · simp [ha, hb, Bool.and_comm]

/-- Two spans do not overlap if one ends before the other begins, and they are not both empty at the
same place. -/
theorem Span.overlaps_eq_false_iff {a b : Span} (ha : a.start ≤ a.stop) (hb : b.start ≤ b.stop) :
    a.overlaps b = false ↔ (a.stop ≤ b.start ∨ b.stop ≤ a.start) ∧
      ¬ (a.start = a.stop ∧ b.start = b.stop ∧ a.start = b.start) := by
  unfold Span.overlaps
  split
  · simp only [beq_eq_false_iff_ne, ne_eq]
    omega
  split
  · simp only [Bool.and_eq_false_iff, decide_eq_false_iff_not]
    omega
  split
  · simp only [Bool.and_eq_false_iff, decide_eq_false_iff_not]
    omega
  · simp only [Bool.and_eq_false_iff, decide_eq_false_iff_not]
    omega

/-- Of two spans that do not overlap, one that comes earlier in the order ends before the other
begins. -/
theorem Edit.stop_le_of_after {a b : Edit} (ha : a.span.start ≤ a.span.stop)
    (hb : b.span.start ≤ b.span.stop) (h : a.after b = true) (hd : a.span.overlaps b.span = false) :
    b.span.stop ≤ a.span.start := by
  rw [Span.overlaps_eq_false_iff ha hb] at hd
  simp only [Edit.after, Bool.or_eq_true, Bool.and_eq_true, decide_eq_true_eq, beq_iff_eq] at h
  omega

namespace Edit

/-! ### The ascending view -/

/-- Some edits in ascending order. -/
def inOrder (edits : List Edit) : List Edit := (sortBy after edits).reverse

/-- Whether edits follow one another, without overlaps, between two offsets. -/
def Fits (offset stop : Nat) : List Edit → Prop
  | [] => offset ≤ stop
  | e :: rest => offset ≤ e.span.start ∧ e.span.start ≤ e.span.stop ∧ Fits e.span.stop stop rest

/-- The source between two offsets, with edits in ascending order carried out. -/
def splice (source : Bytes) (offset stop : Nat) : List Edit → Bytes
  | [] => Bytes.slice source offset stop
  | e :: rest =>
    Bytes.slice source offset e.span.start ++ Utf8.encode e.replacement ++
      splice source e.span.stop stop rest

theorem fits_concat (e : Edit) (es : List Edit) (offset stop : Nat) :
    Fits offset stop (es ++ [e]) ↔
      Fits offset e.span.start es ∧ e.span.start ≤ e.span.stop ∧ e.span.stop ≤ stop := by
  induction es generalizing offset with
  | nil => rfl
  | cons a es ih =>
    rw [List.cons_append, Fits, Fits, ih]
    tauto

theorem splice_concat (source : Bytes) (e : Edit) (es : List Edit) (offset stop : Nat) :
    splice source offset stop (es ++ [e]) =
      splice source offset e.span.start es ++ Utf8.encode e.replacement ++
        Bytes.slice source e.span.stop stop := by
  induction es generalizing offset with
  | nil => rfl
  | cons a es ih =>
    rw [List.cons_append, splice, ih, splice]
    simp only [List.append_assoc]

theorem slice_append_slice (source : Bytes) {offset k stop : Nat} (hk : offset ≤ k)
    (hstop : k ≤ stop) :
    Bytes.slice source offset k ++ Bytes.slice source k stop = Bytes.slice source offset stop := by
  have hlength : stop - offset = (k - offset) + (stop - k) := by omega
  have hdrop : (source.drop offset).drop (k - offset) = source.drop k := by
    rw [List.drop_drop, Nat.add_sub_cancel' hk]
  rw [Bytes.slice, Bytes.slice, Bytes.slice, hlength, List.take_add, hdrop]

theorem Fits.le {offset stop : Nat} {es : List Edit} (h : Fits offset stop es) :
    offset ≤ stop := by
  induction es generalizing offset with
  | nil => exact h
  | cons e es ih =>
    obtain ⟨hstart, hle, hrest⟩ := h
    exact Nat.le_trans hstart (Nat.le_trans hle (ih hrest))

theorem Fits.append {offset k stop : Nat} {es fs : List Edit} (hes : Fits offset k es)
    (hfs : Fits k stop fs) : Fits offset stop (es ++ fs) := by
  induction es generalizing offset with
  | nil =>
    cases fs with
    | nil => exact Nat.le_trans hes hfs
    | cons f fs => exact ⟨Nat.le_trans hes hfs.1, hfs.2⟩
  | cons e es ih => exact ⟨hes.1, hes.2.1, ih hes.2.2⟩

/-- **A source may be cut between edits**: what it becomes is what it becomes on either side. -/
theorem splice_append (source : Bytes) {offset k stop : Nat} {es fs : List Edit}
    (hes : Fits offset k es) (hfs : Fits k stop fs) :
    splice source offset stop (es ++ fs) =
      splice source offset k es ++ splice source k stop fs := by
  induction es generalizing offset with
  | nil =>
    cases fs with
    | nil => exact (slice_append_slice source hes hfs).symm
    | cons f fs =>
      rw [List.nil_append, splice, splice, splice, ← slice_append_slice source hes hfs.1]
      simp only [List.append_assoc]
  | cons e es ih =>
    rw [List.cons_append, splice, splice, ih hes.2.2]
    simp only [List.append_assoc]

/-- **What no edit touches is kept.** -/
theorem exists_splice_of_apart (source : Bytes) {offset start stop last : Nat} {es : List Edit}
    (hes : Fits offset last es) (hapart : ∀ e ∈ es, e.span.stop ≤ start ∨ stop ≤ e.span.start)
    (hstart : offset ≤ start) (hle : start ≤ stop) (hstop : stop ≤ last) :
    ∃ before after, splice source offset last es =
      before ++ Bytes.slice source start stop ++ after := by
  -- The source from an offset up to another one behind the range.
  have hslice : ∀ {offset k : Nat}, offset ≤ start → stop ≤ k → Bytes.slice source offset k =
      Bytes.slice source offset start ++ Bytes.slice source start stop ++
        Bytes.slice source stop k := fun hoffset hk => by
    rw [slice_append_slice source hoffset hle,
      slice_append_slice source (Nat.le_trans hoffset hle) hk]
  induction es generalizing offset with
  | nil => exact ⟨_, _, hslice hstart hstop⟩
  | cons e es ih =>
    rcases List.forall_mem_cons.mp hapart with ⟨hbefore | hbehind, hrest⟩
    · obtain ⟨before, after, heq⟩ := ih hes.2.2 hrest hbefore
      refine ⟨Bytes.slice source offset e.span.start ++ Utf8.encode e.replacement ++ before, after,
        ?_⟩
      rw [splice, heq]
      simp only [List.append_assoc]
    · refine ⟨Bytes.slice source offset start, Bytes.slice source stop e.span.start ++
        Utf8.encode e.replacement ++ splice source e.span.stop last es, ?_⟩
      rw [splice, hslice hstart hbehind]
      simp only [List.append_assoc]

/-! ### From the end to the start -/

theorem applyBelow_snd_le (source : Bytes) (es : List Edit) (limit : Nat) (tail : Bytes) :
    (applyBelow source es limit tail).2 ≤ es.length := by
  induction es generalizing limit tail with
  | nil => exact Nat.le_refl 0
  | cons e es ih =>
    rw [applyBelow]
    split
    · exact Nat.succ_le_succ (ih _ _)
    · exact Nat.le_succ_of_le (ih _ _)

theorem applyBelow_snd_eq_length_iff (source : Bytes) (es : List Edit) (limit : Nat)
    (tail : Bytes) :
    (applyBelow source es limit tail).2 = es.length ↔ Fits 0 limit es.reverse := by
  induction es generalizing limit tail with
  | nil => simp [applyBelow, Fits]
  | cons e es ih =>
    rw [applyBelow, List.reverse_cons, fits_concat]
    split
    · rename_i hfit
      simp only [Bool.and_eq_true, decide_eq_true_eq] at hfit
      simp only [List.length_cons, Nat.add_right_cancel_iff, ih, hfit, and_true]
    · rename_i hfit
      simp only [Bool.and_eq_true, decide_eq_true_eq] at hfit
      have := applyBelow_snd_le source es limit tail
      simp only [List.length_cons, hfit, and_false, iff_false]
      omega

/-- The result, when no edit is skipped. -/
theorem applyBelow_fst (source : Bytes) (es : List Edit) {limit : Nat} (tail : Bytes)
    (h : Fits 0 limit es.reverse) :
    (applyBelow source es limit tail).1 = splice source 0 limit es.reverse ++ tail := by
  induction es generalizing limit tail with
  | nil => simp [applyBelow, splice, Bytes.slice]
  | cons e es ih =>
    rw [List.reverse_cons, fits_concat] at h
    obtain ⟨hrest, hle, hstop⟩ := h
    rw [applyBelow, if_pos (by simp [hle, hstop]), List.reverse_cons, splice_concat]
    simp only [ih _ hrest, List.append_assoc]

/-! ### All edits -/

theorem inOrder_perm (edits : List Edit) : (inOrder edits).Perm edits :=
  (List.reverse_perm _).trans (sortBy_perm after edits)

/-- **No edit is skipped iff the edits fit**. -/
theorem applyAll_snd_eq_length_iff (source : Bytes) (edits : List Edit) :
    (applyAll source edits).2 = edits.length ↔ Fits 0 source.length (inOrder edits) := by
  rw [applyAll, inOrder, ← applyBelow_snd_eq_length_iff source _ source.length [],
    length_sortBy]

/-- **The result is the splice**, when the edits fit. -/
theorem applyAll_fst {source : Bytes} {edits : List Edit}
    (h : Fits 0 source.length (inOrder edits)) :
    (applyAll source edits).1 = splice source 0 source.length (inOrder edits) := by
  rw [applyAll, applyBelow_fst source _ [] h, List.append_nil]
  rfl

theorem after_trans (a b c : Edit) (hab : a.after b = true) (hbc : b.after c = true) :
    a.after c = true := by
  simp only [after, Bool.or_eq_true, Bool.and_eq_true, decide_eq_true_eq, beq_iff_eq] at *
  omega

theorem after_total (a b : Edit) : (a.after b || b.after a) = true := by
  simp only [after, Bool.or_eq_true, Bool.and_eq_true, decide_eq_true_eq, beq_iff_eq]
  omega

/-- Descending edits that do not overlap fit below any limit that they do not pass. -/
theorem fits_reverse {es : List Edit} {limit : Nat}
    (hsorted : es.Pairwise fun a b => a.after b = true)
    (hdisjoint : es.Pairwise fun a b => a.span.overlaps b.span = false)
    (hle : ∀ e ∈ es, e.span.start ≤ e.span.stop) (hstop : ∀ e ∈ es, e.span.stop ≤ limit) :
    Fits 0 limit es.reverse := by
  induction es generalizing limit with
  | nil => exact Nat.zero_le _
  | cons e es ih =>
    rw [List.pairwise_cons] at hsorted hdisjoint
    rw [List.reverse_cons, fits_concat]
    -- Below the first edit, which is the last one in the source, the others fit.
    refine ⟨ih hsorted.2 hdisjoint.2 (fun d hd => hle d (.tail _ hd)) fun d hd => ?_,
      hle e (.head _), hstop e (.head _)⟩
    exact stop_le_of_after (hle e (.head _)) (hle d (.tail _ hd)) (hsorted.1 d hd)
      (hdisjoint.1 d hd)

/-- **Edits that do not overlap fit** into a source that they do not leave. -/
theorem fits_of_pairwise {edits : List Edit} {length : Nat}
    (hdisjoint : edits.Pairwise fun a b => a.span.overlaps b.span = false)
    (hle : ∀ e ∈ edits, e.span.start ≤ e.span.stop) (hstop : ∀ e ∈ edits, e.span.stop ≤ length) :
    Fits 0 length (inOrder edits) := by
  have hperm := sortBy_perm after edits
  refine fits_reverse (pairwise_sortBy after_trans after_total edits)
    (hdisjoint.perm hperm.symm fun {a b} h => ?_) (fun e he => hle e (hperm.mem_iff.mp he))
    (fun e he => hstop e (hperm.mem_iff.mp he))
  rw [Span.overlaps_comm, h]

/-- Two edits that may each come first overlap. -/
theorem overlaps_of_after {a b : Edit} (ha : a.span.start ≤ a.span.stop)
    (hb : b.span.start ≤ b.span.stop) (hab : a.after b = true) (hba : b.after a = true) :
    a.span.overlaps b.span = true := by
  by_contra hd
  rw [Bool.not_eq_true] at hd
  have hstop := stop_le_of_after ha hb hab hd
  have hstart := stop_le_of_after hb ha hba (Span.overlaps_comm a.span b.span ▸ hd)
  obtain ⟨-, hne⟩ := (Span.overlaps_eq_false_iff ha hb).mp hd
  -- Each would have to end before the other begins, so both are insertions at one place.
  omega

/-- Different edits among some that do not overlap. -/
theorem not_overlaps_of_ne {edits : List Edit} {a b : Edit}
    (h : edits.Pairwise fun a b => a.span.overlaps b.span = false) (ha : a ∈ edits)
    (hb : b ∈ edits) (hne : a ≠ b) : a.span.overlaps b.span = false := by
  have : Std.Symm fun a b : Edit => a.span.overlaps b.span = false :=
    ⟨fun a b hab => Span.overlaps_comm a.span b.span ▸ hab⟩
  exact h.forall ha hb hne

/-- **The order in which edits are given does not matter**, when they do not overlap. -/
theorem inOrder_eq_of_perm {edits edits' : List Edit} (h : edits.Perm edits')
    (hdisjoint : edits.Pairwise fun a b => a.span.overlaps b.span = false)
    (hle : ∀ e ∈ edits, e.span.start ≤ e.span.stop) : inOrder edits = inOrder edits' := by
  have hperm : (sortBy after edits).Perm (sortBy after edits') :=
    (sortBy_perm after edits).trans (h.trans (sortBy_perm after edits').symm)
  unfold inOrder
  congr 1
  refine hperm.eq_of_pairwise (fun a b ha hb hab hba => ?_)
    (pairwise_sortBy after_trans after_total edits)
    (pairwise_sortBy after_trans after_total edits')
  rw [mem_sortBy] at ha hb
  have hb := h.mem_iff.mpr hb
  -- Edits that may come in either order overlap, so they are one and the same.
  by_contra hne
  have hover := overlaps_of_after (hle a ha) (hle b hb) hab hba
  rw [not_overlaps_of_ne hdisjoint ha hb hne] at hover
  cases hover

/-! ### Edits that are given in ascending order -/

/-- Edits each of which ends before the next one begins fit. -/
theorem fits_of_ascending {edits : List Edit} {offset stop : Nat} (hle : offset ≤ stop)
    (hstart : ∀ e ∈ edits, offset ≤ e.span.start) (hspan : ∀ e ∈ edits, e.span.start ≤ e.span.stop)
    (hstop : ∀ e ∈ edits, e.span.stop ≤ stop)
    (hordered : edits.Pairwise fun a b => a.span.stop ≤ b.span.start) :
    Fits offset stop edits := by
  induction edits generalizing offset with
  | nil => exact hle
  | cons e edits ih =>
    rw [List.pairwise_cons] at hordered
    refine ⟨hstart e (.head _), hspan e (.head _), ?_⟩
    exact ih (hstop e (.head _)) hordered.1 (fun d hd => hspan d (.tail _ hd))
      (fun d hd => hstop d (.tail _ hd)) hordered.2

/-- Edits that replace something, each before the next one, are in order. -/
theorem inOrder_of_ascending {edits : List Edit} (hspan : ∀ e ∈ edits, e.span.start < e.span.stop)
    (hordered : edits.Pairwise fun a b => a.span.stop ≤ b.span.start) : inOrder edits = edits := by
  have hdisjoint : edits.Pairwise fun a b => a.span.overlaps b.span = false := by
    refine hordered.imp_of_mem fun {a b} ha hb hab => ?_
    have ha := hspan a ha
    have hb := hspan b hb
    exact (Span.overlaps_eq_false_iff (Nat.le_of_lt ha) (Nat.le_of_lt hb)).mpr
      ⟨.inl hab, fun h => absurd h.1 (Nat.ne_of_lt ha)⟩
  have hsorted : edits.reverse.Pairwise fun a b => a.after b = true := by
    refine List.pairwise_reverse.mpr (hordered.imp_of_mem fun {a b} ha _ hab => ?_)
    have ha := hspan a ha
    simp only [after, Bool.or_eq_true, decide_eq_true_eq]
    omega
  have hsame : sortBy after edits = edits.reverse := by
    have hperm : (sortBy after edits).Perm edits.reverse :=
      (sortBy_perm after edits).trans (List.reverse_perm edits).symm
    refine hperm.eq_of_pairwise (fun a b ha hb hab hba => ?_)
      (pairwise_sortBy after_trans after_total edits) hsorted
    rw [mem_sortBy] at ha
    have hb := List.mem_reverse.mp hb
    by_contra hne
    have hover := overlaps_of_after (Nat.le_of_lt (hspan a ha)) (Nat.le_of_lt (hspan b hb)) hab hba
    rw [not_overlaps_of_ne hdisjoint ha hb hne] at hover
    cases hover
  rw [inOrder, hsame, List.reverse_reverse]

end Edit

/-! ### Rewrites -/

namespace Rewrite

/-- Whether an edit ends before another one begins, and is not an insertion at the same place. -/
def Precedes (a b : Edit) : Prop :=
  a.span.start ≤ a.span.stop ∧ a.span.stop ≤ b.span.start ∧ b.span.start ≤ b.span.stop ∧
    ¬ (a.span.start = a.span.stop ∧ b.span.start = b.span.stop ∧ a.span.start = b.span.start)

theorem Precedes.trans {a b c : Edit} (hab : Precedes a b) (hbc : Precedes b c) :
    Precedes a c := by
  obtain ⟨ha, hab, -, hne⟩ := hab
  obtain ⟨hb, hbc, hc, -⟩ := hbc
  refine ⟨ha, by omega, hc, fun h => hne ?_⟩
  omega

theorem Precedes.not_overlaps {a b : Edit} (h : Precedes a b) :
    a.span.overlaps b.span = false := by
  obtain ⟨ha, hab, hb, hne⟩ := h
  exact (Span.overlaps_eq_false_iff ha hb).mpr ⟨.inl hab, hne⟩

/-- Of two neighbours in order that do not overlap, the first precedes the second. -/
theorem precedes_of_before {a b : Edit} (ha : a.span.start ≤ a.span.stop)
    (hb : b.span.start ≤ b.span.stop) (h : a.before b = true)
    (hd : a.span.overlaps b.span = false) : Precedes a b := by
  simp only [Edit.before, Bool.or_eq_true, Bool.and_eq_true, decide_eq_true_eq, beq_iff_eq] at h
  obtain ⟨hapart, hne⟩ := (Span.overlaps_eq_false_iff ha hb).mp hd
  refine ⟨ha, ?_, hb, hne⟩
  omega

theorem before_trans (a b c : Edit) (hab : a.before b = true) (hbc : b.before c = true) :
    a.before c = true := by
  simp only [Edit.before, Bool.or_eq_true, Bool.and_eq_true, decide_eq_true_eq, beq_iff_eq] at *
  omega

theorem before_total (a b : Edit) : (a.before b || b.before a) = true := by
  simp only [Edit.before, Bool.or_eq_true, Bool.and_eq_true, decide_eq_true_eq, beq_iff_eq]
  omega

/-- Where no two neighbours clash, each edit precedes all later ones. -/
theorem pairwise_of_clash {edits : List Edit} (hle : ∀ e ∈ edits, e.span.start ≤ e.span.stop)
    (hsorted : edits.Pairwise fun a b => a.before b = true) (hclash : clash? edits = none) :
    edits.Pairwise Precedes := by
  induction edits with
  | nil => exact .nil
  | cons a rest ih =>
    cases rest with
    | nil => exact List.pairwise_singleton _ _
    | cons b rest =>
      rw [clash?] at hclash
      split at hclash
      · cases hclash
      · rename_i hab
        rw [List.pairwise_cons] at hsorted
        have hrest := ih (fun e he => hle e (.tail _ he)) hsorted.2 hclash
        have hfirst : Precedes a b :=
          precedes_of_before (hle a (.head _)) (hle b (.tail _ (.head _)))
            (hsorted.1 b (.head _)) (by simpa using hab)
        refine .cons (fun e he => ?_) hrest
        -- Only neighbours were compared; the rest follows along the order.
        rcases List.mem_cons.mp he with rfl | he
        · exact hfirst
        · exact hfirst.trans ((List.pairwise_cons.mp hrest).1 e he)

/-- A rewrite has the edits that it is made of, in order. -/
theorem perm_of_ofEdits {edits : List Edit} {r : Rewrite} (h : ofEdits edits = .ok r) :
    r.edits.Perm edits := by
  unfold ofEdits at h
  dsimp only at h
  split at h
  · cases h
  · rw [← Except.ok.inj h]
    exact sortBy_perm _ _

theorem mem_of_ofEdits {edits : List Edit} {r : Rewrite} (h : ofEdits edits = .ok r) (e : Edit) :
    e ∈ r.edits ↔ e ∈ edits := (perm_of_ofEdits h).mem_iff

/-- **The edits of a rewrite do not overlap.** -/
theorem pairwise_of_ofEdits {edits : List Edit} {r : Rewrite} (h : ofEdits edits = .ok r)
    (hle : ∀ e ∈ edits, e.span.start ≤ e.span.stop) :
    r.edits.Pairwise fun a b => a.span.overlaps b.span = false := by
  unfold ofEdits at h
  dsimp only at h
  split at h
  · cases h
  · rename_i hclash
    rw [← Except.ok.inj h]
    refine (pairwise_of_clash (fun e he => hle e ((mem_sortBy _).mp he))
      (pairwise_sortBy before_trans before_total edits) hclash).imp ?_
    exact fun hp => hp.not_overlaps

end Rewrite

end Declutter
