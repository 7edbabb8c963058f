import Declutter.Proofs.Rewrite.Placement

/-!
# What the removal of a statement takes

The removal of a statement reaches beyond the statement: to the ends of its lines, over the blanks
behind it, and over a comment that trails it.  All that it takes there are blanks, semicolons and
that comment, so no other construct loses any of its text.

## Main definitions

* `Tree.IsIncidental` — whether an offset belongs to no construct.
* `Tree.Confined` — whether an edit takes nothing from other constructs.
* `Tree.Clears` — whether the removal of a statement may take an offset.
* `Tree.removalKeeping` — the removal of a statement, with any choice of the comments to keep.

## Main results

* `Tree.removalKeeping_clears` — what the removal of a statement takes.
* `Tree.removal_confined` — the removal of a statement takes nothing from other constructs.
* `Tree.removalKeeping_covers` — it takes all of the statement.
-/

namespace Declutter

/-! ### What stands between statements -/

namespace Bytes

variable {s : Bytes} {b : UInt8}

/-- Whether a byte may stand between two statements: blanks and semicolons. -/
def isFiller (b : UInt8) : Bool := isBlank b || b == semicolon

/-- A byte is a blank at the start, or is left when these are gone. -/
theorem mem_stripStart_or (h : b ∈ s) : isBlank b = true ∨ b ∈ stripStart s := by
  rw [← List.takeWhile_append_dropWhile (p := isBlank) (l := s), List.mem_append] at h
  exact h.imp_left List.mem_takeWhile_imp

theorem mem_strip_or (h : b ∈ s) : isBlank b = true ∨ b ∈ strip s := by
  rcases mem_stripStart_or h with h | h
  · exact .inl h
  · rw [strip, List.mem_reverse]
    exact mem_stripStart_or (List.mem_reverse.mpr h)

/-- Blanks around at most one semicolon are nothing else. -/
theorem isFiller_of_isTerminator (h : isTerminator s = true) (hb : b ∈ s) : isFiller b = true := by
  rw [isFiller, Bool.or_eq_true, beq_iff_eq]
  refine (mem_strip_or hb).imp_right fun hb => ?_
  rw [isTerminator, Bool.or_eq_true, beq_iff_eq, beq_iff_eq] at h
  rcases h with h | h
  · rw [h] at hb
    cases hb
  · rw [h] at hb
    exact List.mem_singleton.mp hb

end Bytes

/-! ### Removals -/

namespace Tree

variable {t : Tree}

/-- Whether an offset belongs to no construct: it holds a blank or a semicolon, or lies in a
comment. -/
def IsIncidental (t : Tree) (k : Nat) : Prop :=
  (∀ b, t.source[k]? = some b → Bytes.isFiller b = true) ∨
    ∃ c ∈ t.comments, c.span.start ≤ k ∧ k < c.span.stop

theorem isIncidental_iff {k : Nat} : t.IsIncidental k ↔
    (t.source[k]?).all Bytes.isFiller = true ∨
      ∃ c ∈ t.comments, c.span.start ≤ k ∧ k < c.span.stop := by
  rw [IsIncidental]
  cases t.source[k]? with
  | none => simp
  | some b => simp

instance (t : Tree) (k : Nat) : Decidable (t.IsIncidental k) :=
  decidable_of_iff _ isIncidental_iff.symm

/-- Whether an edit takes nothing from constructs outside of `i`. -/
def Confined (t : Tree) (e : Edit) (i : NodeId) : Prop :=
  ∀ k, e.span.start ≤ k → k < e.span.stop →
    ((t.span i).start ≤ k ∧ k < (t.span i).stop) ∨ t.IsIncidental k

/-- The edit of a construct is confined to it. -/
theorem confined_span (i : NodeId) (text : String) : t.Confined ⟨t.span i, text⟩ i :=
  fun _ hstart hstop => .inl ⟨hstart, hstop⟩

/-- Whether the removal of a statement may take an offset: it holds a blank before the statement,
belongs to the statement, holds a blank or a semicolon behind it, or lies in the comment that trails
it. -/
def Clears (t : Tree) (i : NodeId) (k : Nat) : Prop :=
  (k < (t.span i).start ∧ ∀ b, t.source[k]? = some b → Bytes.isBlank b = true) ∨
    ((t.span i).start ≤ k ∧ k < (t.span i).stop) ∨
    ((t.span i).stop ≤ k ∧ ((∀ b, t.source[k]? = some b → Bytes.isFiller b = true) ∨
      ∃ c, t.trailingComment? i = some c ∧ c.span.start ≤ k ∧ k < c.span.stop))

/-- A comment that trails a statement begins behind it. -/
theorem stop_le_of_trailing {i : NodeId} {c : Comment} (hc : t.trailingComment? i = some c) :
    (t.span i).stop ≤ c.span.start := by
  have hbehind := List.find?_some hc
  simp only [Bool.and_eq_true, decide_eq_true_eq] at hbehind
  exact hbehind.1.2

/-- Between a statement and the end of the comment that trails it there is nothing else. -/
theorem clears_of_lt_tailStop {i : NodeId} {k : Nat} (hstop : (t.span i).stop ≤ k)
    (hk : k < t.tailStop i) : t.Clears i k := by
  refine .inr (.inr ⟨hstop, ?_⟩)
  rw [tailStop] at hk
  cases hc : t.trailingComment? i with
  | none =>
    rw [hc] at hk
    exact absurd hk (Nat.not_lt.mpr hstop)
  | some c =>
    rw [hc] at hk
    have hbehind := List.find?_some hc
    simp only [Bool.and_eq_true, decide_eq_true_eq] at hbehind
    rcases Nat.lt_or_ge k c.span.start with hlt | hge
    · exact .inl fun b hb =>
        Bytes.isFiller_of_isTerminator hbehind.2 (Bytes.mem_slice hb hstop hlt)
    · exact .inr ⟨c, rfl, hge, hk⟩

/-- The lines of a statement that stands alone hold nothing else. -/
theorem clears_of_standsAlone {i : NodeId} (h : t.standsAlone i = true) {k : Nat}
    (hstart : Bytes.lineStart t.source (t.span i).start ≤ k)
    (hstop : k < min (Bytes.lineEnd t.source (t.tailStop i) + 1) t.source.length) :
    t.Clears i k := by
  rw [standsAlone, Bool.and_eq_true] at h
  rcases Nat.lt_or_ge k (t.span i).start with hbefore | hge
  · refine .inl ⟨hbefore, fun b hb => ?_⟩
    exact List.all_eq_true.mp h.1 b (Bytes.mem_linePrefix hb hstart hbefore)
  rcases Nat.lt_or_ge k (t.span i).stop with hwithin | hge'
  · exact .inr (.inl ⟨hge, hwithin⟩)
  rcases Nat.lt_or_ge k (t.tailStop i) with htail | htail
  · exact clears_of_lt_tailStop hge' htail
  refine .inr (.inr ⟨hge', .inl fun b hb => ?_⟩)
  rcases Nat.lt_or_ge k (Bytes.lineEnd t.source (t.tailStop i)) with hline | hline
  · exact Bytes.isFiller_of_isTerminator h.2 (Bytes.mem_slice hb htail hline)
  · -- The last byte of the lines is the line break.
    obtain rfl : k = Bytes.lineEnd t.source (t.tailStop i) := by omega
    rw [Bytes.eq_newline_of_lineEnd hb]
    rfl

/-- The blanks behind a statement. -/
theorem isFiller_of_lt_blanks {i : NodeId} {k : Nat} (hge : (t.span i).stop ≤ k)
    (hk : k < (t.span i).stop +
      ((t.source.drop (t.span i).stop).takeWhile Bytes.isIndent).length) {b : UInt8}
    (hb : t.source[k]? = some b) : Bytes.isFiller b = true := by
  have hindent := Bytes.of_takeWhile_drop hb hge hk
  simp only [Bytes.isIndent, Bool.or_eq_true, beq_iff_eq] at hindent
  rcases hindent with rfl | rfl <;> rfl

/-! ### Which comments are kept -/

/-- The text of the trailing comment that outlives a statement, where `keep` tells which comments
do; empty if there is none. -/
def keptBy (t : Tree) (keep : Comment → Bool) (i : NodeId) : String :=
  match t.trailingComment? i with
  | some c => if keep c then c.text else ""
  | none => ""

/-- The edit that removes a statement, where `keep` tells which comments outlive it. -/
def removalKeeping (t : Tree) (keep : Comment → Bool) (i : NodeId) : Edit :=
  let start := (t.span i).start
  let stop := (t.span i).stop
  let kept := t.keptBy keep i
  if t.standsAlone i then
    let lines := min (Bytes.lineEnd t.source (t.tailStop i) + 1) t.source.length
    { span := .ofOffsets t.source (Bytes.lineStart t.source start) lines
      replacement := if kept == "" then "" else t.indentationAt start ++ kept ++ "\n" }
  else
    let blanks := ((t.source.drop stop).takeWhile Bytes.isIndent).length
    { span := .ofOffsets t.source start
        (if kept == "" then max (stop + blanks) (t.tailStop i) else stop + blanks)
      replacement := "" }

/-- The comments that explain something are those that are kept. -/
theorem removal_eq (marker : String) (i : NodeId) :
    t.removal marker i = t.removalKeeping (fun c => Comment.explains marker c.text) i := rfl

/-- **What the removal of a statement takes.** -/
theorem removalKeeping_clears (keep : Comment → Bool) {i : NodeId} {k : Nat}
    (hstart : (t.removalKeeping keep i).span.start ≤ k)
    (hstop : k < (t.removalKeeping keep i).span.stop) : t.Clears i k := by
  rw [removalKeeping] at hstart hstop
  dsimp only at hstart hstop
  split at hstart
  · rename_i halone
    rw [if_pos halone] at hstop
    exact clears_of_standsAlone halone hstart hstop
  · rename_i halone
    rw [if_neg halone] at hstop
    change (t.span i).start ≤ k at hstart
    rcases Nat.lt_or_ge k (t.span i).stop with hwithin | hge
    · exact .inr (.inl ⟨hstart, hwithin⟩)
    rcases Nat.lt_or_ge k (t.tailStop i) with htail | htail
    · exact clears_of_lt_tailStop hge htail
    have hblanks : k < (t.span i).stop +
        ((t.source.drop (t.span i).stop).takeWhile Bytes.isIndent).length := by
      simp only [Span.ofOffsets] at hstop
      split at hstop <;> omega
    exact .inr (.inr ⟨hge, .inl fun b hb => isFiller_of_lt_blanks hge hblanks hb⟩)

theorem removal_clears (marker : String) {i : NodeId} {k : Nat}
    (hstart : (t.removal marker i).span.start ≤ k) (hstop : k < (t.removal marker i).span.stop) :
    t.Clears i k :=
  removalKeeping_clears _ hstart hstop

/-- The removal of a statement does not go back beyond its line. -/
theorem lineStart_le_removalKeeping (keep : Comment → Bool) (i : NodeId) :
    Bytes.lineStart t.source (t.span i).start ≤ (t.removalKeeping keep i).span.start := by
  rw [removalKeeping]
  dsimp only
  split
  · exact Nat.le_refl _
  · exact Bytes.lineStart_le _ _

theorem lineStart_le_removal (marker : String) (i : NodeId) :
    Bytes.lineStart t.source (t.span i).start ≤ (t.removal marker i).span.start :=
  lineStart_le_removalKeeping _ i

/-- A statement whose trailing comment is kept, and which shares its lines, goes with the blanks
behind it. -/
theorem lt_blanks_of_kept {keep : Comment → Bool} {i : NodeId} {k : Nat}
    (halone : ¬ t.standsAlone i = true) (hkept : t.keptBy keep i ≠ "")
    (hk : k < (t.removalKeeping keep i).span.stop) :
    k < (t.span i).stop + ((t.source.drop (t.span i).stop).takeWhile Bytes.isIndent).length := by
  simpa [removalKeeping, halone, hkept, Span.ofOffsets] using hk

/-- The removal of a statement goes as far as the comment that trails it, once it comes to this. -/
theorem stop_le_removal (marker : String) {i : NodeId} {c : Comment}
    (hc : t.trailingComment? i = some c) (hstop : c.span.stop ≤ t.source.length)
    (hlt : c.span.start < (t.removal marker i).span.stop)
    (hbegun : ¬ ∀ b, t.source[c.span.start]? = some b → Bytes.isFiller b = true) :
    c.span.stop ≤ (t.removal marker i).span.stop := by
  have htail : t.tailStop i = c.span.stop := by rw [tailStop, hc]
  rw [removal_eq] at hlt ⊢
  by_cases halone : t.standsAlone i = true
  · have hend := Bytes.le_lineEnd t.source (t.tailStop i)
    simp only [removalKeeping, if_pos halone, Span.ofOffsets]
    omega
  by_cases hkept : t.keptBy (fun c => Comment.explains marker c.text) i = ""
  · simp only [removalKeeping, if_neg halone, hkept, beq_self_eq_true, if_true, Span.ofOffsets]
    omega
  · -- A comment that is kept stays behind the blanks that are taken.
    have hblanks := lt_blanks_of_kept halone hkept hlt
    exact absurd (fun b hb => isFiller_of_lt_blanks (stop_le_of_trailing hc) hblanks hb) hbegun

/-- **The removal of a statement takes nothing from other constructs.** -/
theorem removal_confined (marker : String) (i : NodeId) : t.Confined (t.removal marker i) i := by
  intro k hstart hstop
  rcases removal_clears marker hstart hstop with ⟨-, hblank⟩ | hwithin | ⟨-, hfiller | hcomment⟩
  · refine .inr (.inl fun b hb => ?_)
    rw [Bytes.isFiller, hblank b hb, Bool.true_or]
  · exact .inl hwithin
  · exact .inr (.inl hfiller)
  · obtain ⟨c, hc, hin⟩ := hcomment
    exact .inr (.inr ⟨c, List.mem_of_find?_eq_some hc, hin⟩)

/-- The removal of a statement does not reach what belongs to a construct behind it. -/
theorem removal_stop_le_of_not_isIncidental (marker : String) {i : NodeId} {k : Nat}
    (hstart : (t.removal marker i).span.start ≤ k) (hbehind : (t.span i).stop ≤ k)
    (hk : ¬ t.IsIncidental k) : (t.removal marker i).span.stop ≤ k := by
  by_contra hlt
  rcases removal_confined marker i k hstart (by omega) with hwithin | hincidental
  · omega
  · exact hk hincidental

/-- A trailing comment lies behind its statement. -/
theorem le_tailStop (hcomments : ∀ c ∈ t.comments, c.span.start ≤ c.span.stop) (i : NodeId) :
    (t.span i).stop ≤ t.tailStop i := by
  rw [tailStop]
  cases hc : t.trailingComment? i with
  | none => exact Nat.le_refl _
  | some c =>
    exact Nat.le_trans (stop_le_of_trailing hc) (hcomments c (List.mem_of_find?_eq_some hc))

/-- **The removal of a statement takes all of it.** -/
theorem removalKeeping_covers (keep : Comment → Bool) {i : NodeId}
    (hcomments : ∀ c ∈ t.comments, c.span.start ≤ c.span.stop)
    (hstop : (t.span i).stop ≤ t.source.length) :
    (t.removalKeeping keep i).span.covers (t.span i) = true := by
  rw [Span.covers, Bool.and_eq_true, decide_eq_true_eq, decide_eq_true_eq, removalKeeping]
  dsimp only
  split
  · have hline := Bytes.lineStart_le t.source (t.span i).start
    have htail := le_tailStop hcomments i
    have hend := Bytes.le_lineEnd t.source (t.tailStop i)
    simp only [Span.ofOffsets]
    omega
  · simp only [Span.ofOffsets]
    split <;> omega

theorem removal_covers (marker : String) {i : NodeId}
    (hcomments : ∀ c ∈ t.comments, c.span.start ≤ c.span.stop)
    (hstop : (t.span i).stop ≤ t.source.length) :
    (t.removal marker i).span.covers (t.span i) = true :=
  removalKeeping_covers _ hcomments hstop

end Tree

end Declutter
