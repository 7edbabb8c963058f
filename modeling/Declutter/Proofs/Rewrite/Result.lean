import Declutter.Proofs.Expression.Place
import Declutter.Proofs.Rewrite.Guard

/-!
# The result of inlining

An inline rewrite has two edits: a text takes the place of the usage, and the declaration is
removed.  The declaration stands before the usage, so behind the text comes what stood behind the
usage.  Before the text comes what stood before the usage, unless that went with the declaration,
which is possible only where the usage begins a statement.

## Main definitions

* `BindingTable.Substitutes` — an inline rewrite with its parts.

## Main results

* `BindingTable.Substitutes.applyAll_eq` — the result on both sides of the text.
* `BindingTable.Substitutes.getLast?_before` — the byte before the text.
-/

namespace Declutter

/-- An edit leaves the last byte before an offset alone if it ends earlier. -/
theorem Edit.getLast?_splice {source : Bytes} {e : Edit} {k : Nat} (he : e.span.stop < k)
    (hk : k ≤ source.length) : (splice source 0 k [e]).getLast? = (source.take k).getLast? := by
  have hlength : (source.take k).length = k := by
    rw [List.length_take, Nat.min_eq_left hk]
  have hrest : splice source e.span.stop k [] = (source.take k).drop e.span.stop := by
    rw [splice, Bytes.slice, List.drop_take]
  have hlast : ((source.take k).drop e.span.stop).getLast? = (source.take k).getLast? := by
    rw [List.getLast?_drop, if_neg (by omega)]
  have hne : (source.take k).drop e.span.stop ≠ [] := by
    rw [ne_eq, List.drop_eq_nil_iff]
    omega
  rw [splice, hrest, List.getLast?_append_of_ne_nil _ hne, hlast]

namespace BindingTable

/-- An inline rewrite, the declaration that it removes, the initial value of the binding, and the
usage whose place the value takes. -/
structure Substitutes (b : BindingTable) (t : Tree) (marker : String) (i : BindingId)
    (declaration value usage : NodeId) (r : Rewrite) : Prop where
  inline_eq : b.inline t marker i = .ok r
  soleRead_eq : b.soleRead? i = some usage
  declaration_eq : (b.binding i).declaration = some declaration
  initializer_eq : (b.binding i).initializer = some value

namespace Substitutes

section

variable {b : BindingTable} {t : Tree} {marker : String} {i : BindingId} {d value u : NodeId}
  {r : Rewrite}

theorem ofEdits_eq (h : b.Substitutes t marker i d value u r) :
    Rewrite.ofEdits [⟨t.span u, b.inlineText t i d value u⟩, t.removal marker d] = .ok r := by
  obtain ⟨u', d', value', hread, hdeclaration, hvalue, hedits⟩ := ofEdits_of_inline h.inline_eq
  obtain rfl := Option.some.inj (h.soleRead_eq.symm.trans hread)
  obtain rfl := Option.some.inj (h.declaration_eq.symm.trans hdeclaration)
  obtain rfl := Option.some.inj (h.initializer_eq.symm.trans hvalue)
  exact hedits

/-- The edit at the usage. -/
theorem mem_edits (h : b.Substitutes t marker i d value u r) :
    ⟨t.span u, b.inlineText t i d value u⟩ ∈ r.edits :=
  (Rewrite.mem_of_ofEdits h.ofEdits_eq _).mpr (.head _)

/-- The usage is a name. -/
theorem kind_mem (hn : t.InPreorder) (hb : b.Accounted t)
    (h : b.Substitutes t marker i d value u r) :
    t.kind u ∈ [Kind.identifier, .shorthandProperty, .pattern] := by
  obtain ⟨hsize, href⟩ := hb.isReferenceNode_of_soleRead h.soleRead_eq
  exact hn.kind_of_isReferenceNode hsize href

end

section

variable {t : Tree} {policy : InlinePolicy} {marker : String} {i : BindingId} {d value u : NodeId}
  {r : Rewrite}

/-- What is known of the binding if it is single-use. -/
theorem exists_singleUse (h : (ofTree t).Substitutes t marker i d value u r)
    (hsingle : (ofTree t).isSingleUse t policy i = true) :
    ∃ declarator usage next path, usage.node = u ∧
      (ofTree t).SingleUse t policy i d declarator value usage next path := by
  obtain ⟨d', declarator, value', usage, next, path, hfacts⟩ := singleUse_of_isSingleUse hsingle
  obtain rfl := Option.some.inj (h.declaration_eq.symm.trans hfacts.declaration_eq)
  obtain rfl := Option.some.inj (h.initializer_eq.symm.trans hfacts.initializer_eq)
  exact ⟨declarator, usage, next, path,
    Option.some.inj (hfacts.soleRead_eq.symm.trans h.soleRead_eq), hfacts⟩

/-- **The result of inlining**: what stood behind the usage stands right behind the text that has
taken its place. -/
theorem applyAll_eq (hn : t.InPreorder) (hs : t.Spaced) (ha : t.Arranged)
    (h : (ofTree t).Substitutes t marker i d value u r)
    (hsingle : (ofTree t).isSingleUse t policy i = true) :
    (Edit.applyAll t.source r.edits).1 =
      Edit.splice t.source 0 (t.span u).start [t.removal marker d] ++
        Utf8.encode ((ofTree t).inlineText t i d value u) ++ t.source.drop (t.span u).stop := by
  obtain ⟨declarator, usage, next, path, rfl, hfacts⟩ := h.exists_singleUse hsingle
  obtain ⟨-, -, hstop⟩ := hfacts.removal_stop_le hn hs ha h.ofEdits_eq
  have hbehind : Bytes.slice t.source (t.span usage.node).stop t.source.length =
      t.source.drop (t.span usage.node).stop := by
    rw [Bytes.slice, List.take_of_length_le (by simp)]
  rw [hfacts.applyAll_eq hn hs ha h.ofEdits_eq hstop (Nat.le_refl _), List.append_assoc]
  congr 1
  rw [Edit.splice, Edit.splice, Bytes.slice_eq_nil_of_le _ (Nat.le_refl _), List.nil_append,
    hbehind]

/-- The byte before the text is the one before the usage, unless the usage begins a statement. -/
theorem getLast?_before (hn : t.InPreorder) (hs : t.Spaced) (ha : t.Arranged)
    (h : (ofTree t).Substitutes t marker i d value u r)
    (hsingle : (ofTree t).isSingleUse t policy i = true) (hbegun : t.begunStatement? u = none) :
    (Edit.splice t.source 0 (t.span u).start [t.removal marker d]).getLast? =
      (t.source.take (t.span u).start).getLast? := by
  obtain ⟨declarator, usage, next, path, rfl, hfacts⟩ := h.exists_singleUse hsingle
  -- The removal ends where the next statement begins, or before, and that is before the usage.
  have hnext := hfacts.removal_stop_le_next hn hs ha marker
  have hinside := Span.covers_iff.mp (hs.covers_of_isWithin hn hfacts.within_next)
  have hne := hfacts.start_ne hn ha hbegun
  have hspan := hs.span_le usage.node
  have hearlier : (t.removal marker d).span.stop < (t.span usage.node).start := by omega
  exact Edit.getLast?_splice hearlier (Nat.le_trans hspan.1 hspan.2)

end

end Substitutes

end BindingTable

end Declutter
