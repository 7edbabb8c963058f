import Declutter.Proofs.Analysis.Exemption
import Declutter.Proofs.Syntax.Layout

/-!
# How far the removal of a statement reaches

Where constructs and comments follow one another, the removal of a statement takes the statement,
and blanks and semicolons around it.  The comment that trails it goes too, but for one that is to
be kept: that is left alone, or put back.  No other comment is taken, whichever comments are kept.

## Main definitions

* `Tree.Written`, `Tree.Delimited` — whether a comment is more than blanks, and where these stand.

## Main results

* `Tree.removalKeeping_takes` — the bytes that a removal takes.
* `Tree.kept_or_filler` — what becomes of a trailing comment that is kept.
* `Tree.LaidOut.not_covers_other`, `Tree.LaidOut.clear_other` — what becomes of all others.
* `Tree.removal_extent` — all of this, for the tree of a program.
-/

namespace Declutter

namespace Tree

/-- Whether a comment holds anything but blanks and semicolons. -/
def Written (t : Tree) (c : Comment) : Prop :=
  ∃ k, c.span.start ≤ k ∧ k < c.span.stop ∧ ∃ b, t.source[k]? = some b ∧ Bytes.isFiller b = false

/-- Whether a comment begins with neither a blank nor a semicolon, and does not end with a blank
unless it is of one line. -/
structure Delimited (t : Tree) (c : Comment) : Prop where
  filled : c.span.start < c.span.stop
  begun : (t.source[c.span.start]?).any (!Bytes.isFiller ·) = true
  ended : (t.source[c.span.stop - 1]?).any Bytes.isBlank = false ∨
    (Bytes.slice t.source c.span.start c.span.stop).contains Bytes.newline = false

theorem delimited_iff {t : Tree} {c : Comment} : t.Delimited c ↔ c.span.start < c.span.stop ∧
    (t.source[c.span.start]?).any (!Bytes.isFiller ·) = true ∧
    ((t.source[c.span.stop - 1]?).any Bytes.isBlank = false ∨
      (Bytes.slice t.source c.span.start c.span.stop).contains Bytes.newline = false) :=
  ⟨fun h => ⟨h.filled, h.begun, h.ended⟩, fun ⟨h₁, h₂, h₃⟩ => ⟨h₁, h₂, h₃⟩⟩

instance (t : Tree) (c : Comment) : Decidable (t.Delimited c) :=
  decidable_of_iff _ delimited_iff.symm

variable {t : Tree} {c : Comment} {keep : Comment → Bool} {i : NodeId} {k : Nat}

namespace Delimited

variable (hc : t.Delimited c)
include hc

theorem exists_first : ∃ b, t.source[c.span.start]? = some b ∧ Bytes.isFiller b = false := by
  cases hget : t.source[c.span.start]? with
  | none => cases hget ▸ hc.begun
  | some b => exact ⟨b, rfl, by simpa [hget] using hc.begun⟩

/-- What begins with neither a blank nor a semicolon holds something else. -/
theorem written : t.Written c := ⟨c.span.start, Nat.le_refl _, hc.filled, hc.exists_first⟩

end Delimited

/-! ### What is taken -/

/-- **The bytes that a removal takes** belong to the statement or the comment that trails it, or are
blanks and semicolons. -/
theorem removalKeeping_takes (keep : Comment → Bool) {b : UInt8}
    (hstart : (t.removalKeeping keep i).span.start ≤ k)
    (hstop : k < (t.removalKeeping keep i).span.stop) (hb : t.source[k]? = some b) :
    ((t.span i).start ≤ k ∧ k < (t.span i).stop) ∨
      (∃ c, t.trailingComment? i = some c ∧ c.span.start ≤ k ∧ k < c.span.stop) ∨
      Bytes.isFiller b = true := by
  rcases removalKeeping_clears keep hstart hstop with
    ⟨-, hblank⟩ | hwithin | ⟨-, hfiller | htrailing⟩
  · rw [Bytes.isFiller, hblank b hb, Bool.true_or]
    exact .inr (.inr rfl)
  · exact .inl hwithin
  · exact .inr (.inr (hfiller b hb))
  · exact .inr (.inl htrailing)

/-- A removal that goes back beyond the statement goes back to the start of its line. -/
theorem start_eq_lineStart (keep : Comment → Bool) (i : NodeId)
    (h : (t.removalKeeping keep i).span.start < (t.span i).start) :
    (t.removalKeeping keep i).span.start = Bytes.lineStart t.source (t.span i).start := by
  rw [removalKeeping] at h ⊢
  dsimp only at h ⊢
  split at h
  · rename_i halone
    rw [if_pos halone]
    rfl
  · exact absurd h (Nat.lt_irrefl _)

/-- A removal ends within the source. -/
theorem removalKeeping_stop_le (hstop : t.tailStop i ≤ t.source.length)
    (hle : (t.span i).stop ≤ t.tailStop i) :
    (t.removalKeeping keep i).span.stop ≤ t.source.length := by
  have hblanks : (t.span i).stop +
      ((t.source.drop (t.span i).stop).takeWhile Bytes.isIndent).length ≤ t.source.length := by
    have hprefix := (List.takeWhile_prefix Bytes.isIndent
      (l := t.source.drop (t.span i).stop)).length_le
    rw [List.length_drop] at hprefix
    omega
  rw [removalKeeping]
  dsimp only
  split
  · simp only [Span.ofOffsets]
    omega
  · simp only [Span.ofOffsets]
    split <;> omega

/-- **A trailing comment that is kept is not lost**: the removal puts it back, or takes at most
blanks of it. -/
theorem kept_or_filler (hc : t.trailingComment? i = some c) (hkeep : keep c = true) :
    (∃ before after, (t.removalKeeping keep i).replacement = before ++ c.text ++ after) ∨
      ∀ k, c.span.start ≤ k → k < (t.removalKeeping keep i).span.stop →
        ∀ b, t.source[k]? = some b → Bytes.isFiller b = true := by
  have hkept : t.keptBy keep i = c.text := by
    rw [keptBy, hc]
    exact if_pos hkeep
  by_cases hempty : c.text = ""
  · exact .inl ⟨_, "", by rw [hempty, String.append_empty, String.append_empty]⟩
  by_cases halone : t.standsAlone i = true
  · refine .inl ⟨t.indentationAt (t.span i).start, "\n", ?_⟩
    simp [removalKeeping, halone, hkept, hempty]
  · refine .inr fun k hstart hk b hb => ?_
    have hblanks := lt_blanks_of_kept halone (hkept ▸ hempty) hk
    exact isFiller_of_lt_blanks (Nat.le_trans (stop_le_of_trailing hc) hstart) hblanks hb

namespace LaidOut

variable (h : t.LaidOut)
include h

/-- A removal takes the whole statement, and ends within the source. -/
theorem removal_bounds (keep : Comment → Bool) (hi : i < t.nodes.size) :
    (t.removalKeeping keep i).span.covers (t.span i) = true ∧
      (t.removalKeeping keep i).span.stop ≤ t.source.length := by
  have hcomments : ∀ c ∈ t.comments, c.span.start ≤ c.span.stop := fun c hc => (h.comment c hc).1
  have hstop := (h.node i hi).2
  refine ⟨removalKeeping_covers keep hcomments hstop,
    removalKeeping_stop_le ?_ (le_tailStop hcomments i)⟩
  rw [tailStop]
  split
  · rename_i c hc
    exact (h.comment c (List.mem_of_find?_eq_some hc)).2
  · exact hstop

/-! ### Other comments -/

/-- A comment outside of a statement that does not trail it is taken at most where it holds blanks
and semicolons. -/
theorem isFiller_of_other (keep : Comment → Bool) (hi : i < t.nodes.size) (hc : c ∈ t.comments)
    (hout : (t.span i).covers c.span = false) (hother : t.trailingComment? i ≠ some c)
    (hstart : c.span.start ≤ k) (hstop : k < c.span.stop)
    (hfirst : (t.removalKeeping keep i).span.start ≤ k)
    (hlast : k < (t.removalKeeping keep i).span.stop) {b : UInt8} (hb : t.source[k]? = some b) :
    Bytes.isFiller b = true := by
  rcases removalKeeping_takes keep hfirst hlast hb with hwithin | ⟨c', hc', hin⟩ | hfiller
  · rcases h.beside c hc i hi with hcovers | hclear
    · cases hout.symm.trans hcovers
    · omega
  · have hne : c ≠ c' := by
      rintro rfl
      exact hother hc'
    have hapart := h.apart c hc c' (List.mem_of_find?_eq_some hc') hne
    omega
  · exact hfiller

/-- **No other comment is taken.** -/
theorem not_covers_other (hi : i < t.nodes.size) (hc : c ∈ t.comments)
    (hout : (t.span i).covers c.span = false) (hother : t.trailingComment? i ≠ some c)
    (hwritten : t.Written c) : (t.removalKeeping keep i).span.covers c.span = false := by
  obtain ⟨k, hstart, hstop, b, hb, hnot⟩ := hwritten
  rw [← Bool.not_eq_true]
  intro hcovers
  rw [Span.covers_iff] at hcovers
  have hfiller := h.isFiller_of_other keep hi hc hout hother hstart hstop (by omega) (by omega) hb
  cases hnot.symm.trans hfiller

/-- The removal of a statement does not reach back into a comment before it. -/
theorem stop_le_removal_start (hi : i < t.nodes.size) (hd : t.Delimited c)
    (hbefore : c.span.stop ≤ (t.span i).start) :
    c.span.stop ≤ (t.removalKeeping keep i).span.start := by
  by_contra hreach
  have hlength := (h.node i hi).2
  have hle := (h.node i hi).1
  have hcovers := Span.covers_iff.mp (h.removal_bounds keep hi).1
  have hline := t.start_eq_lineStart keep i (by omega)
  have hblank : ∀ k, (t.removalKeeping keep i).span.start ≤ k → k < c.span.stop →
      ∀ b, t.source[k]? = some b → Bytes.isBlank b = true := by
    intro k hstart hstop
    obtain ⟨-, hblank⟩ | hwithin | ⟨hbehind, -⟩ :=
      removalKeeping_clears keep hstart (by omega)
    · exact hblank
    · omega
    · omega
  obtain ⟨first, hfirst, hnot⟩ := hd.exists_first
  have hfilled := hd.filled
  -- The comment begins before the line of the statement, so it is of more than one line.
  have hinside : c.span.start < (t.removalKeeping keep i).span.start := by
    by_contra hge
    have hblank := hblank c.span.start (by omega) hfilled first hfirst
    simp [Bytes.isFiller, hblank] at hnot
  have hbreak := Bytes.getElem?_before_lineStart (s := t.source) (i := (t.span i).start) (by omega)
  rw [← hline] at hbreak
  have hnewline : Bytes.newline ∈ Bytes.slice t.source c.span.start c.span.stop :=
    Bytes.mem_slice hbreak (by omega) (by omega)
  rcases hd.ended with hended | hended
  · have hget := List.getElem?_eq_getElem (by omega : c.span.stop - 1 < t.source.length)
    rw [hget, Option.any_some, hblank (c.span.stop - 1) (by omega) (by omega) _ hget] at hended
    cases hended
  · rw [List.contains_iff_mem.mpr hnewline] at hended
    cases hended

/-- **No other comment is touched** if it begins and ends like one. -/
theorem clear_other (hi : i < t.nodes.size) (hc : c ∈ t.comments)
    (hout : (t.span i).covers c.span = false) (hother : t.trailingComment? i ≠ some c)
    (hd : t.Delimited c) : Clear (t.removalKeeping keep i) c := by
  rcases h.beside c hc i hi with hcovers | hbefore | hbehind
  · cases hout.symm.trans hcovers
  · exact .inr (h.stop_le_removal_start hi hd hbefore)
  · refine .inl (Nat.le_of_not_lt fun hlt => ?_)
    obtain ⟨first, hfirst, hnot⟩ := hd.exists_first
    have hcovers := Span.covers_iff.mp (h.removal_bounds keep hi).1
    have hle := (h.node i hi).1
    have hfiller := h.isFiller_of_other keep hi hc hout hother (Nat.le_refl _) hd.filled
      (by omega : (t.removalKeeping keep i).span.start ≤ c.span.start) hlt hfirst
    cases hnot.symm.trans hfiller

end LaidOut

/-- **The removal of a statement deletes nothing but the statement.**  It takes the statement; what
it takes besides lies in the comment that trails it, or is a blank or a semicolon.  A trailing
comment that is kept is put back, or not taken.  No comment outside of the statement that does not
trail it is taken, and none is touched that begins and ends like one. -/
theorem removal_extent (l : Language) (source : Bytes) (root : Concrete) (keep : Comment → Bool) :
    let t := Tree.ofConcrete l source root
    root.isLaidOut = true → root.head.stop ≤ source.length → ∀ i < t.nodes.size,
      let e := t.removalKeeping keep i
      (e.span.covers (t.span i) = true ∧ e.span.stop ≤ source.length) ∧
      (∀ k b, e.span.start ≤ k → k < e.span.stop → source[k]? = some b →
        ((t.span i).start ≤ k ∧ k < (t.span i).stop) ∨
          (∃ c, t.trailingComment? i = some c ∧ c.span.start ≤ k ∧ k < c.span.stop) ∨
          Bytes.isFiller b = true) ∧
      (∀ c, t.trailingComment? i = some c → keep c = true →
        (∃ before after, e.replacement = before ++ c.text ++ after) ∨
          (t.Written c → e.span.covers c.span = false) ∧ (t.Delimited c → Clear e c)) ∧
      ∀ c ∈ t.comments, (t.span i).covers c.span = false → t.trailingComment? i ≠ some c →
        (t.Written c → e.span.covers c.span = false) ∧ (t.Delimited c → Clear e c) := by
  intro t hroot hstop i hi e
  have h : t.LaidOut := laidOut_ofConcrete l source hroot hstop
  refine ⟨h.removal_bounds keep hi, fun k b hstart hstop hb =>
    removalKeeping_takes keep hstart hstop hb, fun c hc hkeep => ?_, fun c hc hout hother =>
    ⟨h.not_covers_other hi hc hout hother, h.clear_other hi hc hout hother⟩⟩
  refine (kept_or_filler hc hkeep).imp id fun hfiller => ⟨?_, fun hd => ?_⟩
  · rintro ⟨k, hstart, hstop, b, hb, hnot⟩
    rw [← Bool.not_eq_true]
    intro hcovers
    have hlast := (Span.covers_iff.mp hcovers).2
    cases hnot.symm.trans (hfiller k hstart (Nat.lt_of_lt_of_le hstop hlast) b hb)
  · obtain ⟨b, hb, hnot⟩ := hd.exists_first
    refine .inl (Nat.le_of_not_lt fun hlt => ?_)
    cases hnot.symm.trans (hfiller c.span.start (Nat.le_refl _) hlt b hb)

end Tree

namespace Sample

/-- A constant with a comment before it, one behind it and one further on. -/
def remarked : Bytes :=
  Utf8.encode "// first\nconst a = 1; // once read\nuse(a); /* last */\n"

/-- The tree of `remarked`. -/
def remarkedTree : Concrete :=
  construct "program" 0 54 [
    .node ⟨"comment", true, false, 0, 8, none⟩ [], constant 9,
    .node ⟨"comment", true, false, 22, 34, none⟩ [],
    usage 35 40 (construct "identifier" 39 40 []),
    .node ⟨"comment", true, false, 43, 53, none⟩ []]

end Sample

/-- The comment behind the constant is put back, and the ones around stay. -/
theorem sample_removal_extent :
    let t := Tree.ofConcrete .javascript Sample.remarked Sample.remarkedTree
    let keep : Comment → Bool := fun c => Comment.explains "simplify-ignore" c.text
    Sample.remarkedTree.isLaidOut = true ∧
      Sample.remarkedTree.head.stop ≤ Sample.remarked.length ∧
      1 < t.nodes.size ∧ (t.removalKeeping keep 1).span.covers (t.span 1) = true ∧
      (∃ c, t.trailingComment? 1 = some c ∧ keep c = true ∧ t.Delimited c ∧
        ((∃ before after, (t.removalKeeping keep 1).replacement = before ++ c.text ++ after) ∨
          Tree.Clear (t.removalKeeping keep 1) c)) ∧
      ∃ c ∈ t.comments, (t.span 1).covers c.span = false ∧ t.trailingComment? 1 ≠ some c ∧
        t.Delimited c ∧ Tree.Clear (t.removalKeeping keep 1) c := by
  intro t keep
  have hroot : Sample.remarkedTree.isLaidOut = true := by decide +kernel
  have hstop : Sample.remarkedTree.head.stop ≤ Sample.remarked.length := by decide +kernel
  have hsize : 1 < t.nodes.size := by decide +kernel
  obtain ⟨c, hc, hkeep, hd⟩ :
      ∃ c ∈ t.trailingComment? 1, keep c = true ∧ t.Delimited c := by decide +kernel
  obtain ⟨other, hother, hout, hne, hdOther⟩ : ∃ c ∈ t.comments, (t.span 1).covers c.span = false ∧
      t.trailingComment? 1 ≠ some c ∧ t.Delimited c := by decide +kernel
  obtain ⟨⟨hcovers, -⟩, -, hkept, hclear⟩ :=
    Tree.removal_extent .javascript Sample.remarked Sample.remarkedTree keep hroot hstop 1 hsize
  have hback := (hkept c hc hkeep).imp id fun h => h.2 hd
  have hstay := (hclear other hother hout hne).2 hdOther
  exact ⟨hroot, hstop, hsize, hcovers, ⟨c, hc, hkeep, hd, hback⟩, other, hother, hout, hne, hdOther,
    hstay⟩

end Declutter
