import Declutter.Proofs.Splice

/-!
# Comparing neighbours

A rewrite is refused when two of its edits overlap, and to find that out only neighbours are
compared, once the edits are in order.  That is enough: an edit that does not overlap the next one
ends where that one begins, or earlier, and so overlaps none of those behind it.  An insertion comes
before a replacement that begins at the same place and behind one that ends there, and two
insertions at one place overlap, so the order of the edits of a rewrite is strict, and does not
depend on the order in which they were given.

## Main definitions

* `Edit.Below` — the strict order of edits, by start and then by end.
* `Rewrite.TwoOverlap` — whether two of some edits overlap.

## Main results

* `Rewrite.ofEdits_eq_ok_iff` — the rewrite of some edits has them in an order in which each one
  precedes all later ones.
* `Rewrite.ofEdits_pairwise` — edits are refused exactly if two of them overlap.
-/

namespace Declutter

/-- Whether an edit starts before another one, or together with it and stops before it. -/
def Edit.Below (a b : Edit) : Prop :=
  a.span.start < b.span.start ∨ (a.span.start = b.span.start ∧ a.span.stop < b.span.stop)

namespace Rewrite

/-- Whether two of some edits overlap. -/
def TwoOverlap (edits : List Edit) : Prop :=
  ∃ (i j : Nat) (a b : Edit), i ≠ j ∧ edits[i]? = some a ∧ edits[j]? = some b ∧
    a.span.overlaps b.span = true

variable {edits edits' : List Edit} {r : Rewrite} {a b : Edit}

/-! ### Edits that precede one another -/

/-- No two edits overlap exactly if none overlaps a later one. -/
theorem not_twoOverlap_iff :
    ¬ TwoOverlap edits ↔ edits.Pairwise fun a b => a.span.overlaps b.span = false := by
  rw [List.pairwise_iff_getElem]
  constructor
  · intro h i j hi hj hij
    rw [← Bool.not_eq_true]
    intro hover
    exact h ⟨i, j, edits[i], edits[j], Nat.ne_of_lt hij, List.getElem?_eq_getElem hi,
      List.getElem?_eq_getElem hj, hover⟩
  · rintro h ⟨i, j, a, b, hne, ha, hb, hover⟩
    obtain ⟨hi, rfl⟩ := List.getElem?_eq_some_iff.mp ha
    obtain ⟨hj, rfl⟩ := List.getElem?_eq_some_iff.mp hb
    -- Either edit may be the later one.
    rcases Nat.lt_or_gt_of_ne hne with hij | hji
    · rw [h i j hi hj hij] at hover
      cases hover
    · rw [Span.overlaps_comm, h j i hj hi hji] at hover
      cases hover

theorem Precedes.below (h : Precedes a b) : a.Below b := by
  obtain ⟨ha, hab, hb, hne⟩ := h
  unfold Edit.Below
  omega

theorem Precedes.before (h : Precedes a b) : a.before b = true := by
  have hbelow := h.below
  simp only [Edit.before, Bool.or_eq_true, Bool.and_eq_true, decide_eq_true_eq, beq_iff_eq]
  unfold Edit.Below at hbelow
  omega

/-- Of two edits one of which precedes the other, only that one may come first. -/
theorem Precedes.not_before (h : Precedes a b) : b.before a = false := by
  have hbelow := h.below
  simp only [Edit.before, Bool.or_eq_false_iff, Bool.and_eq_false_iff, decide_eq_false_iff_not,
    beq_eq_false_iff_ne]
  unfold Edit.Below at hbelow
  omega

/-- Of different edits each of which precedes the later ones, one precedes the other. -/
theorem precedes_or_precedes (h : edits.Pairwise Precedes) (ha : a ∈ edits) (hb : b ∈ edits)
    (hne : a ≠ b) : Precedes a b ∨ Precedes b a := by
  have hsymm : Std.Symm fun a b => Precedes a b ∨ Precedes b a := ⟨fun _ _ => Or.symm⟩
  have heither : edits.Pairwise fun a b => Precedes a b ∨ Precedes b a := h.imp Or.inl
  exact heither.forall ha hb hne

/-- Some edits have one order in which each precedes all later ones, and are sorted into it. -/
theorem sortBy_eq_of_precedes (hperm : edits'.Perm edits) (h : edits'.Pairwise Precedes) :
    sortBy Edit.before edits = edits' := by
  have hsame : (sortBy Edit.before edits).Perm edits' := (sortBy_perm _ _).trans hperm.symm
  refine hsame.eq_of_pairwise (fun a b ha hb hab hba => ?_)
    (pairwise_sortBy before_trans before_total edits) (h.imp fun hp => hp.before)
  by_contra hne
  rcases precedes_or_precedes h (hsame.mem_iff.mp ha) hb hne with hp | hp
  · rw [hp.not_before] at hba
    cases hba
  · rw [hp.not_before] at hab
    cases hab

/-! ### Neighbours -/

/-- Two edits that clash are neighbours, and overlap. -/
theorem exists_neighbours_of_clash (h : clash? edits = some (a, b)) :
    (∃ front back, edits = front ++ a :: b :: back) ∧ a.span.overlaps b.span = true := by
  induction edits with
  | nil => cases h
  | cons c rest ih =>
    cases rest with
    | nil => cases h
    | cons d rest =>
      rw [clash?] at h
      split at h
      · rename_i hover
        obtain ⟨rfl, rfl⟩ := Prod.mk.inj (Option.some.inj h)
        exact ⟨⟨[], rest, rfl⟩, hover⟩
      · obtain ⟨⟨front, back, hrest⟩, hover⟩ := ih h
        exact ⟨⟨c :: front, back, by rw [hrest]; rfl⟩, hover⟩

theorem clash_eq_none_of_precedes (h : edits.Pairwise Precedes) : clash? edits = none := by
  rw [Option.eq_none_iff_forall_not_mem]
  rintro ⟨a, b⟩ hclash
  obtain ⟨⟨front, back, rfl⟩, hover⟩ := exists_neighbours_of_clash hclash
  have hab := (List.pairwise_cons.mp (List.pairwise_append.mp h).2.1).1 b (.head _)
  rw [hab.not_overlaps] at hover
  cases hover

/-- **The rewrite of some edits** has them in an order in which each one precedes all later ones. -/
theorem ofEdits_eq_ok_iff (hle : ∀ e ∈ edits, e.span.start ≤ e.span.stop) :
    ofEdits edits = .ok r ↔ r.edits.Perm edits ∧ r.edits.Pairwise Precedes := by
  constructor
  · intro h
    refine ⟨perm_of_ofEdits h, ?_⟩
    unfold ofEdits at h
    dsimp only at h
    split at h
    · cases h
    · rename_i hclash
      rw [← Except.ok.inj h]
      exact pairwise_of_clash (fun e he => hle e ((mem_sortBy _).mp he))
        (pairwise_sortBy before_trans before_total edits) hclash
  · rintro ⟨hperm, hprecedes⟩
    rw [ofEdits, sortBy_eq_of_precedes hperm hprecedes, clash_eq_none_of_precedes hprecedes]

/-- What a refusal names are two of the edits, and they overlap. -/
theorem twoOverlap_of_ofEdits_eq_error (h : ofEdits edits = .error (a, b)) :
    a ∈ edits ∧ b ∈ edits ∧ a.span.overlaps b.span = true ∧ TwoOverlap edits := by
  unfold ofEdits at h
  dsimp only at h
  split at h
  · rename_i clash hclash
    obtain rfl := Except.error.inj h
    obtain ⟨⟨front, back, hsorted⟩, hover⟩ := exists_neighbours_of_clash hclash
    have hperm := hsorted ▸ sortBy_perm Edit.before edits
    refine ⟨hperm.mem_iff.mp (by simp), hperm.mem_iff.mp (by simp), hover, ?_⟩
    by_contra hnone
    have hapart := not_twoOverlap_iff.mp hnone
    have hsymm : ∀ {c d : Edit}, c.span.overlaps d.span = false → d.span.overlaps c.span = false :=
      fun {c d} hcd => Span.overlaps_comm c.span d.span ▸ hcd
    have hab := (List.pairwise_cons.mp
      (List.pairwise_append.mp (hapart.perm hperm.symm hsymm)).2.1).1 b (.head _)
    rw [hab] at hover
    cases hover
  · cases h

/-- **Edits are refused exactly if two of them overlap**, though only neighbours are compared, and
overlapping is symmetric.  What a refusal names are two edits that overlap.  Otherwise the edits are
stored in strict order, and every permutation of them makes the same rewrite. -/
theorem ofEdits_pairwise (edits : List Edit) (hle : ∀ e ∈ edits, e.span.start ≤ e.span.stop) :
    (∀ a b : Span, a.overlaps b = b.overlaps a) ∧
      ((∃ clash, ofEdits edits = .error clash) ↔ TwoOverlap edits) ∧
      (∀ a b, ofEdits edits = .error (a, b) →
        a ∈ edits ∧ b ∈ edits ∧ a.span.overlaps b.span = true) ∧
      ∀ r, ofEdits edits = .ok r →
        r.edits.Perm edits ∧ r.edits.Pairwise Edit.Below ∧
          ∀ edits', edits'.Perm edits → ofEdits edits' = .ok r := by
  refine ⟨Span.overlaps_comm, ⟨?_, fun hover => ?_⟩, fun a b h => ?_, fun r h => ?_⟩
  · rintro ⟨⟨a, b⟩, h⟩
    exact (twoOverlap_of_ofEdits_eq_error h).2.2.2
  · cases h : ofEdits edits with
    | error clash => exact ⟨clash, rfl⟩
    | ok r =>
      -- A rewrite has no two edits that overlap, in whatever order they are looked at.
      obtain ⟨hperm, -⟩ := (ofEdits_eq_ok_iff hle).mp h
      refine absurd hover (not_twoOverlap_iff.mpr ?_)
      exact (pairwise_of_ofEdits h hle).perm hperm
        fun {c d} hcd => Span.overlaps_comm c.span d.span ▸ hcd
  · obtain ⟨ha, hb, hover, -⟩ := twoOverlap_of_ofEdits_eq_error h
    exact ⟨ha, hb, hover⟩
  · obtain ⟨hperm, hprecedes⟩ := (ofEdits_eq_ok_iff hle).mp h
    refine ⟨hperm, hprecedes.imp fun hp => hp.below, fun edits' hperm' => ?_⟩
    have hle' : ∀ e ∈ edits', e.span.start ≤ e.span.stop :=
      fun e he => hle e (hperm'.mem_iff.mp he)
    exact (ofEdits_eq_ok_iff hle').mpr ⟨hperm.trans hperm'.symm, hprecedes⟩

/-- Replaces `bc` in `abcd`, and inserts something right behind it and right before it. -/
def bracketing : List Edit :=
  let source := Utf8.encode "abcd"
  [⟨.ofOffsets source 3 3, ")"⟩, ⟨.ofOffsets source 1 3, "x"⟩, ⟨.ofOffsets source 1 1, "("⟩]

/-- Inserts something between `b` and `c` as well. -/
def piercing : List Edit := ⟨.ofOffsets (Utf8.encode "abcd") 2 2, "+"⟩ :: bracketing

/-- Insertions at the ends of a replacement make a rewrite with it, in whatever order they are
given; an insertion inside is refused. -/
theorem sample_ofEdits_pairwise :
    (∀ e ∈ bracketing, e.span.start ≤ e.span.stop) ∧
      ofEdits bracketing = .ok ⟨bracketing.reverse⟩ ∧
      bracketing.reverse.Pairwise Edit.Below ∧
      ofEdits bracketing.reverse = .ok ⟨bracketing.reverse⟩ ∧
      (∀ e ∈ piercing, e.span.start ≤ e.span.stop) ∧
      ∃ clash, ofEdits piercing = .error clash := by
  have hle : ∀ e ∈ bracketing, e.span.start ≤ e.span.stop := by decide +kernel
  have hle' : ∀ e ∈ piercing, e.span.start ≤ e.span.stop := by decide +kernel
  have hok : ofEdits bracketing = .ok ⟨bracketing.reverse⟩ := by decide +kernel
  obtain ⟨-, hbelow, hperm⟩ := (ofEdits_pairwise bracketing hle).2.2.2 _ hok
  refine ⟨hle, hok, hbelow, hperm _ (List.reverse_perm _), hle', ?_⟩
  -- The insertion is the first of these edits, and the replacement the third.
  exact (ofEdits_pairwise piercing hle').2.1.mpr
    ⟨0, 2, _, _, by decide, rfl, rfl, by decide +kernel⟩

end Rewrite

end Declutter
