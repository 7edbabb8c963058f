import Declutter.Proofs.Binding.Declaration
import Declutter.Proofs.Rewrite.Removal
import Declutter.Proofs.Rewrite.Substitution

/-!
# Inlining keeps statements apart

A statement that lacks its terminator goes on with the next one if that begins with a parenthesis,
a bracket, an operator or the like.  Inlining takes a declaration, and with it a terminator, from
between two statements, and may put such a character where a statement begins.  Where the value
comes to begin the statement behind the declaration, a terminator is put before it if need be, and
where it comes to stand further behind, the statement begins as before.

Two cases escape: a statement in another list than the declaration, whose own predecessor is not
looked at, and a statement behind the declaration that has always begun with such a character, which
was harmless as long as the declaration stood before it.

## Main definitions

* `Tree.goesOn`, `Bytes.continues` — which statements go on, and with what.
* `Tree.exposed?` — the statement that gets a new predecessor or a new beginning.
* `Tree.statementBefore?` — what it comes to follow.
* `Tree.WellBegun`, `Tree.Arranged` — what the grammars promise of the order of constructs.
* `Tree.Overlooked` — the cases that escape.

## Main results

* `Edit.applyAll_pair` — what has become of a source from an offset on.
* `BindingTable.inline_keeps_statements_apart` — no statement goes on with one that did not follow.
* `BindingTable.inline_in_block_goes_on`, `BindingTable.inline_exposes_bracket` — the exceptions.
-/

namespace Declutter

/-! ### Texts that go on -/

namespace Bytes

/-- Whether bytes begin with a character that continues a statement which lacks its terminator. -/
def continues : Bytes → Bool
  | b :: _ => [40, 91, 96, 43, 45, 47].contains b
  | [] => false

theorem continues_append {s : Bytes} (hs : s ≠ []) (rest : Bytes) :
    continues (s ++ rest) = continues s := by
  cases s with
  | nil => exact absurd rfl hs
  | cons b s => rfl

theorem continues_iff {s : Bytes} :
    continues s = true ↔ ∃ n ∈ [40, 91, 96, 43, 45, 47], s.head? = some (.ofNat n) := by
  cases s with
  | nil => simp [continues]
  | cons b s => simp [continues]

theorem continuesStatement_iff {s : String} : continuesStatement s = true ↔
    ∃ n ∈ [40, 91, 96, 43, 45, 47], s.toList.head? = some (.ofNat n) := by
  unfold continuesStatement
  cases s.toList with
  | nil => simp
  | cons c cs => simp

/-- The beginning of a text is the same as characters and as bytes. -/
theorem continues_encode (s : String) : continues (Utf8.encode s) = continuesStatement s := by
  rw [Bool.eq_iff_iff, continues_iff, continuesStatement_iff]
  have hsmall : ∀ n ∈ [40, 91, 96, 43, 45, 47], n < 0x80 := by decide
  constructor
  · rintro ⟨n, hn, hhead⟩
    exact ⟨n, hn, (Utf8.head?_encode_iff s (hsmall n hn)).mp hhead⟩
  · rintro ⟨n, hn, hhead⟩
    exact ⟨n, hn, (Utf8.head?_encode_iff s (hsmall n hn)).mpr hhead⟩

end Bytes

/-! ### Statements in a row -/

namespace Tree

variable {t : Tree} {d u s next : NodeId}

/-- Whether a statement lacks a terminator, so that it goes on with what may continue it. -/
def goesOn (t : Tree) (s : NodeId) : Bool :=
  let text := Text.stripEnd (t.text s)
  !Text.endsWith text ";" && !(Text.endsWith text "\x7d" && (t.kind s).endsWithBrace)

theorem needsTerminator_eq (t : Tree) (d : NodeId) :
    t.needsTerminator d = (t.previousStatement? d).any t.goesOn := by
  unfold needsTerminator
  cases t.previousStatement? d with
  | none => rfl
  | some p => rw [Option.any_some, goesOn]

/-- The expression statement that an expression begins. -/
def begunStatement? (t : Tree) (u : NodeId) : Option NodeId :=
  (t.statementBegunBy? u).filter (t.kind · == .expressionStatement)

/-- The statement that gets a new beginning or a new predecessor when a declaration gives way to
its value in the place of a usage: the one that the usage begins, or else the one behind the
declaration. -/
def exposed? (t : Tree) (d u : NodeId) : Option NodeId :=
  (t.begunStatement? u).or (t.nextStatement? d)

/-- The statement before another one, once a declaration is gone. -/
def statementBefore? (t : Tree) (d s : NodeId) : Option NodeId :=
  (((t.siblings s).filter (· != d)).takeWhile (· != s)).getLast?

/-- **The statement behind a declaration comes to follow the one before the declaration.** -/
theorem InPreorder.statementBefore_next (hn : t.InPreorder) (h : t.nextStatement? d = some next) :
    t.statementBefore? d next = t.previousStatement? d := by
  obtain ⟨p, pre, post, -, hsplit, hsame, hsub⟩ := hn.exists_of_nextStatement h
  have hnodup := hsub.nodup (hn.nodup_children p)
  obtain ⟨-, hrest, hapart⟩ := List.nodup_append.mp hnodup
  have hd : ∀ x ∈ pre, (x != d) = true := by
    intro x hx
    exact bne_iff_ne.mpr (hapart x hx d (.head _))
  have hnext : ∀ x ∈ pre, (x != next) = true := by
    intro x hx
    exact bne_iff_ne.mpr (hapart x hx next (.tail _ (.head _)))
  have hne : next ≠ d := fun heq => (List.nodup_cons.mp hrest).1 (heq ▸ .head _)
  have hkept : ((pre ++ d :: next :: post).filter (· != d)).takeWhile (· != next) = pre := by
    rw [List.filter_append, List.filter_eq_self.mpr hd, List.filter_cons_of_neg (by simp),
      List.filter_cons_of_pos (by simpa using hne), List.takeWhile_append_of_pos hnext,
      List.takeWhile_cons_of_neg (by simp), List.append_nil]
  have hbefore : (pre ++ d :: next :: post).takeWhile (· != d) = pre := by
    rw [List.takeWhile_append_of_pos hd, List.takeWhile_cons_of_neg (by simp), List.append_nil]
  rw [statementBefore?, previousStatement?, hsame, hsplit, hkept, hbefore]

theorem InPreorder.lt_size_of_nextStatement (hn : t.InPreorder)
    (h : t.nextStatement? d = some next) : d < t.nodes.size := by
  obtain ⟨p, pre, post, -, -, -, hsub⟩ := hn.exists_of_nextStatement h
  have hmem : d ∈ t.children p := hsub.subset (List.mem_append_right pre (.head _))
  exact hn.lt_size_of_mem hmem

/-- A statement begins where the expression does that begins it. -/
theorem start_of_statementBegunBy {outer : List NodeId}
    (h : t.statementBegunBy u outer = some s) (hs : t.kind s = .expressionStatement) :
    (t.span s).start = (t.span u).start := by
  induction outer generalizing u with
  | nil => cases h
  | cons parent outer ih =>
    rw [statementBegunBy] at h
    split at h
    · -- The body of a function begins no expression statement.
      rename_i hfunction
      obtain rfl := Option.some.inj h
      simp [hs] at hfunction
    split at h
    · cases h
    rename_i hstart
    rw [bne_iff_ne, ne_eq, not_not] at hstart
    split at h
    · obtain rfl := Option.some.inj h
      exact hstart
    split at h
    · cases h
    · rw [ih h, hstart]

theorem start_of_begunStatement (h : t.begunStatement? u = some s) :
    (t.span s).start = (t.span u).start := by
  obtain ⟨hbegun, hkind⟩ := Option.filter_eq_some_iff.mp h
  exact start_of_statementBegunBy hbegun (by simpa using hkind)

/-- Whether a statement begins as those that hold a name do: neither with a blank or a semicolon nor
in a comment, and with the name only if it is an expression statement. -/
def WellBegun (t : Tree) (s : NodeId) : Prop :=
  ∀ n < t.nodes.size, t.isReferenceNode n = true → t.isWithin n s = true →
    ¬ t.IsIncidental (t.span s).start ∧
      ((t.span s).start = (t.span n).start → t.begunStatement? n = some s)

instance (t : Tree) (s : NodeId) : Decidable (t.WellBegun s) :=
  inferInstanceAs (Decidable (∀ n < _, _))

/-- What the grammars promise of the order of constructs: those in a construct stand one after
another; a statement behind another one in a list is well begun; a shorthand property stands behind
the brace of its object; and a value is not empty. -/
structure Arranged (t : Tree) : Prop where
  ordered : ∀ i < t.nodes.size,
    (t.children i).Pairwise fun c d => (t.span c).stop ≤ (t.span d).start
  wellBegun : ∀ d < t.nodes.size, t.isListed d = true → ∀ next ∈ t.nextStatement? d,
    t.WellBegun next
  shorthand : ∀ n < t.nodes.size, t.kind n = .shorthandProperty →
    ∀ p ∈ t.parent? n, (t.span p).start < (t.span n).start
  value : ∀ v < t.nodes.size, t.hasField v "value" = true → t.text v ≠ ""

theorem arranged_iff : t.Arranged ↔
    (∀ i < t.nodes.size,
        (t.children i).Pairwise fun c d => (t.span c).stop ≤ (t.span d).start) ∧
      (∀ d < t.nodes.size, t.isListed d = true → ∀ next ∈ t.nextStatement? d, t.WellBegun next) ∧
      (∀ n < t.nodes.size, t.kind n = .shorthandProperty →
        ∀ p ∈ t.parent? n, (t.span p).start < (t.span n).start) ∧
      ∀ v < t.nodes.size, t.hasField v "value" = true → t.text v ≠ "" :=
  ⟨fun h => ⟨h.ordered, h.wellBegun, h.shorthand, h.value⟩,
    fun ⟨h₁, h₂, h₃, h₄⟩ => ⟨h₁, h₂, h₃, h₄⟩⟩

instance (t : Tree) : Decidable t.Arranged := decidable_of_iff _ arranged_iff.symm

theorem Arranged.isOrdered (ha : t.Arranged) : t.Ordered := ha.ordered

/-- The next statement begins behind the end of a statement. -/
theorem Arranged.stop_le_start (ha : t.Arranged) (hn : t.InPreorder)
    (h : t.nextStatement? d = some next) : (t.span d).stop ≤ (t.span next).start :=
  hn.stop_le_of_nextStatement ha.isOrdered h

/-- A shorthand property begins no expression statement. -/
theorem Arranged.begunStatement_of_shorthand (ha : t.Arranged) (hu : u < t.nodes.size)
    (hkind : t.kind u = .shorthandProperty) : t.begunStatement? u = none := by
  unfold begunStatement? statementBegunBy?
  cases hp : t.parent? u with
  | none =>
    rw [ancestors, hp]
    rfl
  | some p =>
    have hstart := ha.shorthand u hu hkind p hp
    rw [ancestors, hp]
    dsimp only
    split
    · rw [statementBegunBy]
      split
      · rename_i hfunction
        simp only [Bool.and_eq_true, beq_iff_eq] at hfunction
        simp [Option.filter, hfunction.1]
      · rw [if_pos (bne_iff_ne.mpr (Nat.ne_of_lt hstart))]
        rfl
    · rfl

/-- The cases that escape: a statement that the usage begins in another list than the declaration,
unless a terminator is put there for the sake of the declaration; and a statement behind the
declaration that has always begun with what continues a statement. -/
def Overlooked (t : Tree) (d u s : NodeId) : Prop :=
  (t.begunStatement? u = some s ∧ t.nextStatement? d ≠ some s ∧ t.needsTerminator d = false) ∨
    (t.begunStatement? u = none ∧ Bytes.continues (t.source.drop (t.span s).start) = true)

instance (t : Tree) (d u s : NodeId) : Decidable (t.Overlooked d u s) :=
  inferInstanceAs (Decidable (_ ∨ _))

/-- Where a terminator is needed, the value does not continue the statement before. -/
theorem continues_substitutedText {v : NodeId} (hbegun : t.begunStatement? u = some s)
    (hneeds : t.needsTerminator d = true) :
    continuesStatement (t.substitutedText d v u) = false := by
  have hany : (t.statementBegunBy? u).any (t.kind · == .expressionStatement) = true := by
    obtain ⟨hs, hkind⟩ := Option.filter_eq_some_iff.mp hbegun
    rw [hs]
    exact hkind
  rw [substitutedText_eq]
  generalize parenthesize (t.isWrapped v u) (t.text v) = wrapped
  rw [hany, hneeds, Bool.true_and, Bool.and_true]
  by_cases hgoes : continuesStatement wrapped = true
  · rw [if_pos hgoes]
    unfold continuesStatement
    rw [String.toList_append]
    rfl
  · rw [if_neg hgoes]
    simpa using hgoes

/-- What is substituted for a usage is not empty. -/
theorem substitutedText_ne_empty {v : NodeId} (hv : t.text v ≠ "") :
    t.substitutedText d v u ≠ "" := by
  have happend : ∀ a b : String, a ≠ "" ∨ b ≠ "" → a ++ b ≠ "" := by
    intro a b h heq
    rw [String.append_eq_empty_iff] at heq
    exact h.elim (fun ha => ha heq.1) (fun hb => hb heq.2)
  have hwrapped : ∀ wrap, parenthesize wrap (t.text v) ≠ "" := by
    intro wrap
    unfold parenthesize
    split
    · exact happend _ _ (.inr (by decide))
    · exact hv
  rw [substitutedText_eq]
  split
  · exact happend _ _ (.inl (by decide))
  · exact hwrapped _

end Tree

/-! ### Two edits -/

/-- What two edits lead to on either side of an offset between them. -/
theorem Edit.applyAll_pair {source : Bytes} {edits : List Edit} {a b : Edit} {k : Nat}
    (hperm : edits.Perm [b, a]) (hdisjoint : b.span.overlaps a.span = false)
    (ha : a.span.start ≤ a.span.stop) (hak : a.span.stop ≤ k) (hkb : k ≤ b.span.start)
    (hb : b.span.start ≤ b.span.stop) (hlength : b.span.stop ≤ source.length) :
    (applyAll source edits).1 = splice source 0 k [a] ++ splice source k source.length [b] := by
  have hle : ∀ e ∈ [b, a], e.span.start ≤ e.span.stop := by
    intro e he
    rcases List.mem_cons.mp he with rfl | he
    · exact hb
    · rw [List.mem_singleton.mp he]
      exact ha
  have horder : inOrder edits = [a, b] := by
    have hpair : [b, a].Pairwise fun a b => a.span.overlaps b.span = false :=
      .cons (fun e he => List.mem_singleton.mp he ▸ hdisjoint) (List.pairwise_singleton _ _)
    have hafter : b.after a = true := by
      simp only [after, Bool.or_eq_true, Bool.and_eq_true, decide_eq_true_eq, beq_iff_eq]
      omega
    rw [← inOrder_eq_of_perm hperm.symm hpair hle, inOrder, sortBy, sortBy, sortBy, insertBy,
      insertBy, if_pos hafter]
    rfl
  have hfirst : Fits 0 k [a] := ⟨Nat.zero_le _, ha, hak⟩
  have hsecond : Fits k source.length [b] := ⟨hkb, hb, hlength⟩
  have hfits : Fits 0 source.length (inOrder edits) := by
    rw [horder]
    exact hfirst.append hsecond
  rw [applyAll_fst hfits, horder]
  exact splice_append source hfirst hsecond

/-! ### Inlining -/

namespace BindingTable

section

variable {t : Tree} {policy : InlinePolicy} {marker text : String} {i : BindingId}
  {d declarator v s next : NodeId} {u : Usage} {path : EvaluationPath} {r : Rewrite} {k : Nat}

/-- **The removal of the declaration ends before the usage**: it begins with the declaration, and
does not overlap with the substitution. -/
theorem SingleUse.removal_stop_le (hn : t.InPreorder) (hs : t.Spaced) (ha : t.Arranged)
    (h : (ofTree t).SingleUse t policy i d declarator v u next path)
    (hr : Rewrite.ofEdits [⟨t.span u.node, text⟩, t.removal marker d] = .ok r) :
    (t.span u.node).overlaps (t.removal marker d).span = false ∧
      (t.removal marker d).span.start ≤ (t.removal marker d).span.stop ∧
      (t.removal marker d).span.stop ≤ (t.span u.node).start := by
  obtain ⟨hsize, href⟩ := h.isReferenceNode (accounted_ofTree t)
  have hname := hs.name u.node hsize href
  have hnode := hs.span_le u.node
  have hinside := Span.covers_iff.mp (hs.covers_of_isWithin hn h.within_next)
  have hbehind := ha.stop_le_start hn h.next_eq
  have hdeclaration := hs.span_le d
  have hcovers := Tree.removal_covers marker hs.comment hdeclaration.2
  have hle := Span.le_of_covers hcovers hdeclaration.1
  rw [Span.covers_iff] at hcovers
  have hpair := Rewrite.pairwise_of_ofEdits hr (by
    intro e he
    rcases List.mem_cons.mp he with rfl | he
    · exact hnode.1
    · exact List.mem_singleton.mp he ▸ hle)
  have hsymm : ∀ {a c : Edit}, a.span.overlaps c.span = false → c.span.overlaps a.span = false :=
    fun h => by rw [Span.overlaps_comm, h]
  have hdisjoint : (t.span u.node).overlaps (t.removal marker d).span = false :=
    (List.pairwise_cons.mp (hpair.perm (Rewrite.perm_of_ofEdits hr) hsymm)).1 _ (.head _)
  have hapart := (Span.overlaps_eq_false_iff hnode.1 hle).mp hdisjoint
  exact ⟨hdisjoint, hle, by omega⟩

/-- The result of inlining on either side of an offset between the two edits. -/
theorem SingleUse.applyAll_eq (hn : t.InPreorder) (hs : t.Spaced) (ha : t.Arranged)
    (h : (ofTree t).SingleUse t policy i d declarator v u next path)
    (hr : Rewrite.ofEdits [⟨t.span u.node, text⟩, t.removal marker d] = .ok r)
    (hk : (t.removal marker d).span.stop ≤ k) (hku : k ≤ (t.span u.node).start) :
    (Edit.applyAll t.source r.edits).1 = Edit.splice t.source 0 k [t.removal marker d] ++
      Edit.splice t.source k t.source.length [⟨t.span u.node, text⟩] := by
  obtain ⟨hdisjoint, hle, -⟩ := h.removal_stop_le hn hs ha hr
  have hnode := hs.span_le u.node
  exact Edit.applyAll_pair (Rewrite.perm_of_ofEdits hr) hdisjoint hle hk hku hnode.1 hnode.2

/-- A statement that the usage begins is guarded, if it is not overlooked. -/
theorem SingleUse.continues_begun (hn : t.InPreorder) (ha : t.Arranged)
    (h : (ofTree t).SingleUse t policy i d declarator v u next path)
    (hbegun : t.begunStatement? u.node = some s) {p : NodeId}
    (hp : t.statementBefore? d s = some p) (hgoes : t.goesOn p = true)
    (hnot : ¬ t.Overlooked d u.node s) :
    Bytes.continues (Edit.splice t.source (t.span s).start t.source.length
      [⟨t.span u.node, (ofTree t).inlineText t i d v u.node⟩]) = false := by
  -- The statement looked at is the one before the declaration.
  have hneeds : t.needsTerminator d = true := by
    by_cases hnext : t.nextStatement? d = some s
    · rw [hn.statementBefore_next hnext] at hp
      rw [Tree.needsTerminator_eq, hp, Option.any_some, hgoes]
    · by_contra hneeds
      exact hnot (.inl ⟨hbegun, hnext, by simpa using hneeds⟩)
  have hplain : t.kind u.node ≠ .shorthandProperty := by
    intro hkind
    rw [ha.begunStatement_of_shorthand (h.isReferenceNode (accounted_ofTree t)).1 hkind] at hbegun
    cases hbegun
  have htext : t.text v ≠ "" := by
    obtain ⟨_, -, hvalue, -⟩ := exists_declarator_of_initializer h.declaration_eq h.initializer_eq
    obtain ⟨hmem, hfield⟩ := Tree.mem_of_child? hvalue
    exact ha.value v (hn.lt_size_of_mem hmem) hfield
  have hne : Utf8.encode (t.substitutedText d v u.node) ≠ [] := by
    intro hempty
    have hchars : (t.substitutedText d v u.node).toList = "".toList :=
      Utf8.encodeAll_injective hempty
    exact Tree.substitutedText_ne_empty htext (String.toList_inj.mp hchars)
  rw [inlineText, if_neg (by simpa using hplain), Edit.splice, Tree.start_of_begunStatement hbegun,
    Bytes.slice_eq_nil_of_le _ (Nat.le_refl _), List.nil_append, Bytes.continues_append hne,
    Bytes.continues_encode]
  exact Tree.continues_substitutedText hbegun hneeds

/-- The next statement begins before the usage, unless the usage begins an expression statement. -/
theorem SingleUse.start_ne (hn : t.InPreorder) (ha : t.Arranged)
    (h : (ofTree t).SingleUse t policy i d declarator v u next path)
    (hbegun : t.begunStatement? u.node = none) :
    (t.span next).start ≠ (t.span u.node).start := by
  intro heq
  obtain ⟨hsize, href⟩ := h.isReferenceNode (accounted_ofTree t)
  have hd := hn.lt_size_of_nextStatement h.next_eq
  have hsome := (ha.wellBegun d hd h.listed next h.next_eq u.node hsize href h.within_next).2 heq
  rw [hbegun] at hsome
  cases hsome

/-- The removal of the declaration ends where the next statement begins, or before. -/
theorem SingleUse.removal_stop_le_next (hn : t.InPreorder) (hs : t.Spaced) (ha : t.Arranged)
    (h : (ofTree t).SingleUse t policy i d declarator v u next path) (marker : String) :
    (t.removal marker d).span.stop ≤ (t.span next).start := by
  have hd := hn.lt_size_of_nextStatement h.next_eq
  have hbehind := ha.stop_le_start hn h.next_eq
  have hdeclaration := hs.span_le d
  have hcovers := Span.covers_iff.mp (Tree.removal_covers marker hs.comment hdeclaration.2)
  obtain ⟨hsize, href⟩ := h.isReferenceNode (accounted_ofTree t)
  exact Tree.removal_stop_le_of_not_isIncidental marker (by omega) hbehind
    (ha.wellBegun d hd h.listed next h.next_eq u.node hsize href h.within_next).1

/-- The next statement begins as before, if the usage stands further behind. -/
theorem continues_next (hs : t.Spaced) {n : NodeId}
    (hlt : (t.span next).start < (t.span n).start)
    (hplain : Bytes.continues (t.source.drop (t.span next).start) = false) :
    Bytes.continues (Edit.splice t.source (t.span next).start t.source.length
      [⟨t.span n, text⟩]) = false := by
  have hnode := hs.span_le n
  have hlength : 0 < (t.source.drop (t.span next).start).length := by
    rw [List.length_drop]
    omega
  rw [Edit.splice, List.append_assoc, Bytes.slice]
  cases hrest : t.source.drop (t.span next).start with
  | nil =>
    rw [hrest] at hlength
    cases hlength
  | cons b rest =>
    obtain ⟨k, hk⟩ := Nat.exists_eq_succ_of_ne_zero (Nat.sub_ne_zero_of_lt hlt)
    rw [hrest] at hplain
    rw [hk, List.take_succ_cons, List.cons_append]
    exact hplain

end

/-- **Inlining keeps statements apart.**  The result of the rewrite is what becomes of the source
before the exposed statement, followed by what becomes of it from there on.  If the statement comes
to follow one that lacks its terminator, it does not begin with what would continue that, unless it
is overlooked. -/
theorem inline_keeps_statements_apart (l : Language) (source : Bytes) (root : Concrete)
    (policy : InlinePolicy) (marker : String) (i : BindingId) :
    let t := Tree.ofConcrete l source root
    let b := ofTree t
    t.Spaced → t.Arranged → b.isSingleUse t policy i = true → ∀ r, b.inline t marker i = .ok r →
      ∃ u d v s, b.soleRead? i = some u ∧ (b.binding i).declaration = some d ∧
        (b.binding i).initializer = some v ∧ t.exposed? d u = some s ∧
        let substitution : Edit := ⟨t.span u, b.inlineText t i d v u⟩
        let beginning := Edit.splice t.source (t.span s).start t.source.length [substitution]
        (Edit.applyAll t.source r.edits).1 =
            Edit.splice t.source 0 (t.span s).start [t.removal marker d] ++ beginning ∧
          ∀ p, t.statementBefore? d s = some p → t.goesOn p = true → ¬ t.Overlooked d u s →
            Bytes.continues beginning = false := by
  intro t b hs ha hsingle r hr
  have hn : t.InPreorder := Tree.inPreorder_ofConcrete l source root
  obtain ⟨d, declarator, v, usage, next, path, hfacts⟩ := singleUse_of_isSingleUse hsingle
  obtain ⟨u, d', v', hu, hd, hv, hr⟩ := ofEdits_of_inline hr
  obtain rfl := Option.some.inj (hfacts.declaration_eq.symm.trans hd)
  obtain rfl := Option.some.inj (hfacts.initializer_eq.symm.trans hv)
  obtain rfl : usage.node = u := Option.some.inj (hfacts.soleRead_eq.symm.trans hu)
  obtain ⟨-, -, hapart⟩ := hfacts.removal_stop_le hn hs ha hr
  have hinside := Span.covers_iff.mp (hs.covers_of_isWithin hn hfacts.within_next)
  -- The value begins the exposed statement, or stands further behind in the next one.
  cases hbegun : t.begunStatement? usage.node with
  | some s =>
    have hstart := Tree.start_of_begunStatement hbegun
    refine ⟨usage.node, d, v, s, hu, hd, hv, by rw [Tree.exposed?, hbegun]; rfl, ?_, ?_⟩
    · exact hfacts.applyAll_eq hn hs ha hr (hstart ▸ hapart) (Nat.le_of_eq hstart)
    · intro p hp hgoes hnot
      exact hfacts.continues_begun hn ha hbegun hp hgoes hnot
  | none =>
    refine ⟨usage.node, d, v, next, hu, hd, hv, ?_, ?_, ?_⟩
    · rw [Tree.exposed?, hbegun]
      exact hfacts.next_eq
    · exact hfacts.applyAll_eq hn hs ha hr (hfacts.removal_stop_le_next hn hs ha marker) hinside.1
    · intro p hp hgoes hnot
      have hne := hfacts.start_ne hn ha hbegun
      refine continues_next hs (Nat.lt_of_le_of_ne hinside.1 hne) ?_
      by_contra hcontinues
      exact hnot (.inr ⟨hbegun, by simpa using hcontinues⟩)

end BindingTable

/-! ### Three programs -/

namespace Sample

/-- The declaration `const f = (n) => n * 2;` at an offset. -/
def doubling (k : Nat) : Concrete :=
  construct "lexical_declaration" k (k + 23) [
    token "const" k (some "kind"),
    construct "variable_declarator" (k + 6) (k + 22) [
      construct "identifier" (k + 6) (k + 7) [] (some "name"), token "=" (k + 8),
      construct "arrow_function" (k + 10) (k + 22) [
        construct "formal_parameters" (k + 10) (k + 13) [
          token "(" (k + 10), construct "identifier" (k + 11) (k + 12) [], token ")" (k + 12)]
          (some "parameters"),
        token "=>" (k + 14),
        construct "binary_expression" (k + 17) (k + 22) [
          construct "identifier" (k + 17) (k + 18) [] (some "left"),
          token "*" (k + 19) (some "operator"),
          construct "number" (k + 21) (k + 22) [] (some "right")] (some "body")] (some "value")],
    token ";" (k + 22)]

/-- The call `f(3)` at an offset. -/
def call (k : Nat) : Concrete :=
  construct "call_expression" k (k + 4) [
    construct "identifier" k (k + 1) [] (some "function"),
    construct "arguments" (k + 1) (k + 4)
      [token "(" (k + 1), construct "number" (k + 2) (k + 3) [], token ")" (k + 3)]
      (some "arguments")]

/-- A function is called in the next statement, behind one without terminator. -/
def trailing : Bytes := Utf8.encode "foo\nconst f = (n) => n * 2;\nf(3);\n"

/-- The tree of `trailing`. -/
def trailingTree : Concrete :=
  construct "program" 0 34 [
    construct "expression_statement" 0 3 [construct "identifier" 0 3 []],
    doubling 4,
    construct "expression_statement" 28 33 [call 28, token ";" 32]]

/-- A function is called in a block, behind a statement without terminator. -/
def nesting : Bytes := Utf8.encode "const f = (n) => n * 2;\n\x7b\n  a\n  f(3)\n\x7d\n"

/-- The tree of `nesting`. -/
def nestingTree : Concrete :=
  construct "program" 0 39 [
    doubling 0,
    construct "statement_block" 24 38 [
      token "\x7b" 24,
      construct "expression_statement" 28 29 [construct "identifier" 28 29 []],
      construct "expression_statement" 32 36 [call 32],
      token "\x7d" 37]]

/-- A constant stands between a statement without terminator and one that begins with a bracket. -/
def parting : Bytes := Utf8.encode "foo\nconst x = 1;\n[x].forEach(f);\n"

/-- The tree of `parting`. -/
def partingTree : Concrete :=
  construct "program" 0 33 [
    construct "expression_statement" 0 3 [construct "identifier" 0 3 []],
    construct "lexical_declaration" 4 16 [
      token "const" 4 (some "kind"),
      construct "variable_declarator" 10 15 [
        construct "identifier" 10 11 [] (some "name"), token "=" 12,
        construct "number" 14 15 [] (some "value")],
      token ";" 15],
    construct "expression_statement" 17 32 [
      construct "call_expression" 17 31 [
        construct "member_expression" 17 28 [
          construct "array" 17 20
            [token "[" 17, construct "identifier" 18 19 [], token "]" 19] (some "object"),
          token "." 20, construct "property_identifier" 21 28 [] (some "property")]
          (some "function"),
        construct "arguments" 28 31
          [token "(" 28, construct "identifier" 29 30 [], token ")" 30] (some "arguments")],
      token ";" 31]]

end Sample

namespace BindingTable

/-- The function comes to begin a statement behind one without terminator and gets one. -/
theorem sample_statements_apart :
    let t := Tree.ofConcrete .javascript Sample.trailing Sample.trailingTree
    let b := ofTree t
    let beginning := Edit.splice t.source 28 t.source.length
      [⟨t.span 14, b.inlineText t 0 3 6 14⟩]
    t.Spaced ∧ t.Arranged ∧ b.isSingleUse t Sample.shallow 0 = true ∧
      t.exposed? 3 14 = some 12 ∧ t.statementBefore? 3 12 = some 1 ∧ t.goesOn 1 = true ∧
      ¬ t.Overlooked 3 14 12 ∧ ∃ r, b.inline t "" 0 = .ok r ∧
        (Edit.applyAll t.source r.edits).1 =
          Edit.splice t.source 0 28 [t.removal "" 3] ++ beginning ∧
        beginning = Utf8.encode ";((n) => n * 2)(3);\n" ∧ Bytes.continues beginning = false := by
  intro t b beginning
  have hs : t.Spaced := by decide +kernel
  have ha : t.Arranged := by decide +kernel
  have hfacts : b.isSingleUse t Sample.shallow 0 = true ∧ b.soleRead? 0 = some 14 ∧
      (b.binding 0).declaration = some 3 ∧ (b.binding 0).initializer = some 6 ∧
      t.exposed? 3 14 = some 12 ∧ t.statementBefore? 3 12 = some 1 ∧ t.goesOn 1 = true ∧
      ¬ t.Overlooked 3 14 12 ∧ (t.span 12).start = 28 ∧
      (b.inline t "" 0).toOption.isSome = true ∧
      beginning = Utf8.encode ";((n) => n * 2)(3);\n" := by
    decide +kernel
  obtain ⟨hsingle, hread, hdeclaration, hinitializer, hexposed, hbefore, hgoes, hnot, hstart, hsome,
    hbeginning⟩ := hfacts
  obtain ⟨r, hsome⟩ := Option.isSome_iff_exists.mp hsome
  have hr := Attempt.toOption_eq_some.mp hsome
  obtain ⟨u, d, v, s, hu, hd, hv, hs', happly, hguard⟩ :=
    inline_keeps_statements_apart .javascript Sample.trailing Sample.trailingTree Sample.shallow ""
      0 hs ha hsingle r hr
  obtain rfl := Option.some.inj (hread.symm.trans hu)
  obtain rfl := Option.some.inj (hdeclaration.symm.trans hd)
  obtain rfl := Option.some.inj (hinitializer.symm.trans hv)
  obtain rfl := Option.some.inj (hexposed.symm.trans hs')
  rw [hstart] at happly hguard
  exact ⟨hs, ha, hsingle, hexposed, hbefore, hgoes, hnot, r, hr, happly, hbeginning,
    hguard 1 hbefore hgoes hnot⟩

/-- **The first exception.**  A statement in a block is begun by the function: the statement before
it lacks its terminator, but the one looked at is the one before the declaration, and there is
none. -/
theorem inline_in_block_goes_on :
    let t := Tree.ofConcrete .javascript Sample.nesting Sample.nestingTree
    let b := ofTree t
    b.isSingleUse t Sample.shallow 0 = true ∧ t.exposed? 1 15 = some 13 ∧
      t.statementBefore? 1 13 = some 11 ∧ t.goesOn 11 = true ∧ t.Overlooked 1 15 13 ∧
      (b.inline t "" 0).toOption.map (fun r => (Edit.applyAll t.source r.edits).1) =
        some (Utf8.encode "\x7b\n  a\n  ((n) => n * 2)(3)\n\x7d\n") := by
  decide +kernel

/-- **The second exception.**  A statement that begins with a bracket comes to follow one that lacks
its terminator when the declaration between them is gone. -/
theorem inline_exposes_bracket :
    let t := Tree.ofConcrete .javascript Sample.parting Sample.partingTree
    let b := ofTree t
    b.isSingleUse t Sample.shallow 0 = true ∧ t.exposed? 3 11 = some 7 ∧
      t.statementBefore? 3 7 = some 1 ∧ t.goesOn 1 = true ∧ t.Overlooked 3 11 7 ∧
      (b.inline t "" 0).toOption.map (fun r => (Edit.applyAll t.source r.edits).1) =
        some (Utf8.encode "foo\n[1].forEach(f);\n") := by
  decide +kernel

end BindingTable

end Declutter
