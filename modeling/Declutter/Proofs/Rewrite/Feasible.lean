import Declutter.Proofs.Analysis.Exemption
import Declutter.Proofs.Rewrite.Neighbours
import Declutter.Proofs.Syntax.Layout

/-!
# Every single-use binding can be inlined

The rewrite of a single-use binding has two edits: one takes the place of the usage, the other
removes the declaration, with the blanks and the comment around it.  Where constructs and comments
follow one another, the removal ends before the usage, so the edits never overlap and the rewrite is
never withheld.

## Main definitions

* `Tree.Headed` — what the grammars promise of names and of the start of statements.

## Main results

* `Rewrite.ofEdits_pair` — two edits, one behind the other, are a rewrite.
* `BindingTable.SingleUse.removal_stop_le_usage` — the removal ends before the usage.
* `BindingTable.inline_never_withheld` — every single-use binding has its rewrite.
-/

namespace Declutter

/-- Two edits that are given in the wrong order make a rewrite, if one ends before the other one
begins. -/
theorem Rewrite.ofEdits_pair {a b : Edit} (ha : a.span.start ≤ a.span.stop)
    (hab : a.span.stop ≤ b.span.start) (hb : b.span.start < b.span.stop) :
    Rewrite.ofEdits [b, a] = .ok ⟨[a, b]⟩ := by
  have hle : ∀ e ∈ [b, a], e.span.start ≤ e.span.stop := by simp [ha, hb.le]
  have hprecedes : Precedes a b := ⟨ha, hab, hb.le, fun h => Nat.ne_of_lt hb h.2.1⟩
  exact (ofEdits_eq_ok_iff hle).mpr ⟨.swap .., List.pairwise_pair.mpr hprecedes⟩

/-- Whether a statement begins with no blank, semicolon or comment, or at least the names in it do
not. -/
def Tree.BegunByToken (t : Tree) (s : NodeId) : Prop :=
  ∀ n < t.nodes.size, t.isReferenceNode n = true → t.isWithin n s = true →
    ¬ t.IsIncidental (t.span s).start ∨ ¬ t.IsIncidental (t.span n).start

instance (t : Tree) (s : NodeId) : Decidable (t.BegunByToken s) :=
  inferInstanceAs (Decidable (∀ n < _, _))

/-- What the grammars promise of tokens: names are not empty, and a statement of a list that holds a
name begins with a token. -/
structure Tree.Headed (t : Tree) : Prop where
  name : ∀ n < t.nodes.size, t.isReferenceNode n = true → (t.span n).start < (t.span n).stop
  begun : ∀ s < t.nodes.size, t.isListed s = true → t.BegunByToken s

theorem Tree.headed_iff {t : Tree} : t.Headed ↔
    (∀ n < t.nodes.size, t.isReferenceNode n = true → (t.span n).start < (t.span n).stop) ∧
      ∀ s < t.nodes.size, t.isListed s = true → t.BegunByToken s :=
  ⟨fun h => ⟨h.name, h.begun⟩, fun ⟨h₁, h₂⟩ => ⟨h₁, h₂⟩⟩

instance (t : Tree) : Decidable t.Headed := decidable_of_iff _ Tree.headed_iff.symm

namespace BindingTable

section

variable {t : Tree} {policy : InlinePolicy} {i : BindingId} {d declarator v next : NodeId}
  {u : Usage} {path : EvaluationPath}

/-- The statement behind a listed one is listed. -/
theorem isListed_of_nextStatement (hn : t.InPreorder) (hd : t.isListed d = true)
    (h : t.nextStatement? d = some next) : t.isListed next = true ∧ next < t.nodes.size := by
  obtain ⟨p, pre, post, hp, -, -, hsub⟩ := hn.exists_of_nextStatement h
  have hmem : next ∈ t.children p := hsub.subset (by simp)
  have hparent : t.parent? next = some p := hn.mem_children_iff.mp hmem
  refine ⟨?_, hn.lt_size_of_mem hmem⟩
  rw [Tree.isListed, Tree.parentKind?, hp] at hd
  rw [Tree.isListed, Tree.parentKind?, hparent]
  exact hd

/-- **The removal of the declaration ends before the usage**, since the next statement, or else the
usage, begins with none of what the removal takes besides the declaration. -/
theorem SingleUse.removal_stop_le_usage (hn : t.InPreorder) (hl : t.LaidOut) (hh : t.Headed)
    (h : (ofTree t).SingleUse t policy i d declarator v u next path) (marker : String) :
    (t.removal marker d).span.stop ≤ (t.span u.node).start := by
  have hs := hl.spaced hh.name
  obtain ⟨hsize, href⟩ := h.isReferenceNode (accounted_ofTree t)
  obtain ⟨hlisted, hnext⟩ := isListed_of_nextStatement hn h.listed h.next_eq
  have hinside := Span.covers_iff.mp (hs.covers_of_isWithin hn h.within_next)
  have hbehind := hn.stop_le_of_nextStatement hl.ordered h.next_eq
  have hdeclaration := hs.span_le d
  have hcovers := Span.covers_iff.mp (Tree.removal_covers marker hs.comment hdeclaration.2)
  rcases hh.begun next hnext hlisted u.node hsize href h.within_next with hbegun | hbegun
  · have hstop := Tree.removal_stop_le_of_not_isIncidental marker (by omega) hbehind hbegun
    omega
  · exact Tree.removal_stop_le_of_not_isIncidental marker (by omega) (by omega) hbegun

end

/-- **Every single-use binding has its rewrite**, for every policy and marker.  Where constructs and
comments follow one another, and statements begin with their first token, the rewrite is not
withheld.  It has two edits that do not overlap and lie within the source: the first one removes the
declaration, the second one replaces the usage. -/
theorem inline_never_withheld (l : Language) (source : Bytes) (root : Concrete)
    (policy : InlinePolicy) (marker : String) :
    let t := Tree.ofConcrete l source root
    let b := ofTree t
    root.isLaidOut = true → root.head.stop ≤ source.length → t.Headed →
      ∀ i, b.isSingleUse t policy i = true → ∃ u d text first second,
        b.soleRead? i = some u ∧ (b.binding i).declaration = some d ∧
        b.inline t marker i = .ok ⟨[first, second]⟩ ∧
        first = t.removal marker d ∧ first.span.covers (t.span d) = true ∧
        second = ⟨t.span u, text⟩ ∧
        first.span.start ≤ first.span.stop ∧ first.span.stop ≤ second.span.start ∧
        second.span.start ≤ second.span.stop ∧ second.span.stop ≤ source.length ∧
        first.span.overlaps second.span = false := by
  intro t b hroot hstop hh i hi
  have hn : t.InPreorder := Tree.inPreorder_ofConcrete l source root
  have hl : t.LaidOut := Tree.laidOut_ofConcrete l source hroot hstop
  obtain ⟨d, declarator, v, u, next, path, h⟩ := singleUse_of_isSingleUse hi
  have hs := hl.spaced hh.name
  obtain ⟨hsize, href⟩ := h.isReferenceNode (accounted_ofTree t)
  have hname := hh.name u.node hsize href
  have hdeclaration := hs.span_le d
  have hcovers := Tree.removal_covers marker hs.comment hdeclaration.2
  have hle := Span.le_of_covers hcovers hdeclaration.1
  have hapart := h.removal_stop_le_usage hn hl hh marker
  have hedits : Rewrite.ofEdits [⟨t.span u.node, b.inlineText t i d v u.node⟩, t.removal marker d] =
      .ok ⟨[t.removal marker d, ⟨t.span u.node, b.inlineText t i d v u.node⟩]⟩ :=
    Rewrite.ofEdits_pair hle hapart hname
  have hinline : b.inline t marker i =
      .ok ⟨[t.removal marker d, ⟨t.span u.node, b.inlineText t i d v u.node⟩]⟩ := by
    rw [inline, h.declaration_eq, h.initializer_eq]
    dsimp only
    rw [h.soleRead_eq]
    simp only [Attempt.fetch, bind, Except.bind]
    rw [hedits]
    rfl
  refine ⟨u.node, d, _, _, _, h.soleRead_eq, h.declaration_eq, hinline, rfl, hcovers, rfl, hle,
    hapart, hname.le, (hs.node u.node hsize).2, ?_⟩
  exact (Span.overlaps_eq_false_iff hle hname.le).mpr
    ⟨.inl hapart, fun hempty => Nat.ne_of_lt hname hempty.2.1⟩

/-- A constant with a comment behind it, which the removal takes. -/
theorem sample_never_withheld :
    let t := Tree.ofConcrete .javascript Sample.guarding Sample.guardingTree
    let b := ofTree t
    let c : Config := {}
    Sample.guardingTree.isLaidOut = true ∧
      Sample.guardingTree.head.stop ≤ Sample.guarding.length ∧ t.Headed ∧
      b.isSingleUse t c.inlinePolicy 0 = true ∧ ∃ u d text first second,
        b.soleRead? 0 = some u ∧ (b.binding 0).declaration = some d ∧
        b.inline t c.marker 0 = .ok ⟨[first, second]⟩ ∧
        first = t.removal c.marker d ∧ first.span.covers (t.span d) = true ∧
        second = ⟨t.span u, text⟩ ∧ first.span.overlaps second.span = false := by
  intro t b c
  have hroot : Sample.guardingTree.isLaidOut = true := by decide +kernel
  have hstop : Sample.guardingTree.head.stop ≤ Sample.guarding.length := by decide +kernel
  have hheaded : t.Headed := by decide +kernel
  have hsingle : b.isSingleUse t c.inlinePolicy 0 = true := by decide +kernel
  obtain ⟨u, d, text, first, second, hread, hdeclaration, hinline, hfirst, hcovers, hsecond,
    -, -, -, -, hapart⟩ :=
      inline_never_withheld .javascript Sample.guarding Sample.guardingTree c.inlinePolicy
        c.marker hroot hstop hheaded 0 hsingle
  exact ⟨hroot, hstop, hheaded, hsingle, u, d, text, first, second, hread, hdeclaration, hinline,
    hfirst, hcovers, hsecond, hapart⟩

end BindingTable

end Declutter
