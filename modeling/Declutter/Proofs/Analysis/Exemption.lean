import Declutter.Proofs.Analysis.Copying
import Declutter.Proofs.Rewrite.Removal

/-!
# Comments that exempt a finding

A comment with the marker exempts the findings of the next line.  When the rewrites of other
findings are carried out, the comment has to stay, or the next pass takes up what it exempts.  An
edit takes a comment only if it replaces or removes a construct around it, or removes the statement
that it trails; it does not reach into any other one, so the text of all others is found in the
result.

The comment that trails a removed statement is lost: only comments that explain something are kept
then, and one with the marker is taken not to.  The findings of the next line are exempt no longer.

## Main definitions

* `Comment.Exempts` — whether a comment exempts a finding.
* `Tree.Commented` — what the grammars promise of comments.
* `Tree.Takes` — whether an edit takes a comment, with its construct or behind a statement.

## Main results

* `Tree.Commented.removal_apart` — the removal of a statement takes a comment or keeps clear of it.
* `exempting_comments_kept` — a comment that exempts a finding is kept, unless an edit takes it.
-/

namespace Declutter

/-- Whether a comment exempts a finding: it has the marker and ends on the line before. -/
structure Comment.Exempts (marker : String) (k : Comment) (f : Finding) : Prop where
  line_pos : 1 ≤ f.primary.first.line - 1
  line_eq : k.span.last.line = f.primary.first.line - 1
  marked : Text.contains k.text marker = true

theorem Comment.exempts_iff {marker : String} {k : Comment} {f : Finding} :
    k.Exempts marker f ↔ 1 ≤ f.primary.first.line - 1 ∧
      k.span.last.line = f.primary.first.line - 1 ∧ Text.contains k.text marker = true :=
  ⟨fun h => ⟨h.line_pos, h.line_eq, h.marked⟩, fun ⟨h₁, h₂, h₃⟩ => ⟨h₁, h₂, h₃⟩⟩

instance (marker : String) (k : Comment) (f : Finding) : Decidable (k.Exempts marker f) :=
  decidable_of_iff _ Comment.exempts_iff.symm

namespace Tree

variable {t : Tree} {c : Config} {marker : String} {k : Comment} {e : Edit} {i : NodeId}

/-- **A finding is exempt if some comment exempts it.** -/
theorem exempts_iff {f : Finding} :
    t.exempts marker f = true ↔ ∃ k ∈ t.comments, k.Exempts marker f := by
  rw [exempts]
  simp only [Bool.and_eq_true, decide_eq_true_eq, List.any_eq_true, beq_iff_eq]
  constructor
  · rintro ⟨hpos, k, hk, hline, hmarked⟩
    exact ⟨k, hk, hpos, hline, hmarked⟩
  · rintro ⟨k, hk, h⟩
    exact ⟨h.line_pos, k, hk, h.line_eq, h.marked⟩

/-- What the grammars promise of comments: they follow one another, are not empty and begin with no
blank or semicolon; a comment lies within a construct or beside it; and one that ends with a blank
has no construct behind it on its line. -/
structure Commented (t : Tree) : Prop where
  apart : t.comments.Pairwise fun a b => a.span.stop ≤ b.span.start
  filled : ∀ k ∈ t.comments, k.span.start < k.span.stop ∧ k.span.stop ≤ t.source.length
  begun : ∀ k ∈ t.comments, (t.source[k.span.start]?).any Bytes.isFiller = false
  nested : ∀ k ∈ t.comments, ∀ i < t.nodes.size, (t.span i).covers k.span = true ∨
    k.span.stop ≤ (t.span i).start ∨ (t.span i).stop ≤ k.span.start
  ended : ∀ k ∈ t.comments, (t.source[k.span.stop - 1]?).any Bytes.isBlank = true →
    ∀ i < t.nodes.size, k.span.stop ≤ (t.span i).start →
      k.span.stop ≤ Bytes.lineStart t.source (t.span i).start

theorem commented_iff : t.Commented ↔
    t.comments.Pairwise (fun a b => a.span.stop ≤ b.span.start) ∧
      (∀ k ∈ t.comments, k.span.start < k.span.stop ∧ k.span.stop ≤ t.source.length) ∧
      (∀ k ∈ t.comments, (t.source[k.span.start]?).any Bytes.isFiller = false) ∧
      (∀ k ∈ t.comments, ∀ i < t.nodes.size, (t.span i).covers k.span = true ∨
        k.span.stop ≤ (t.span i).start ∨ (t.span i).stop ≤ k.span.start) ∧
      ∀ k ∈ t.comments, (t.source[k.span.stop - 1]?).any Bytes.isBlank = true →
        ∀ i < t.nodes.size, k.span.stop ≤ (t.span i).start →
          k.span.stop ≤ Bytes.lineStart t.source (t.span i).start :=
  ⟨fun h => ⟨h.apart, h.filled, h.begun, h.nested, h.ended⟩,
    fun ⟨h₁, h₂, h₃, h₄, h₅⟩ => ⟨h₁, h₂, h₃, h₄, h₅⟩⟩

instance (t : Tree) : Decidable t.Commented := decidable_of_iff _ commented_iff.symm

/-- Whether an edit takes a comment: it covers the comment and replaces a construct, or removes a
statement around the comment or before it. -/
def Takes (t : Tree) (marker : String) (e : Edit) (k : Comment) : Prop :=
  e.span.covers k.span = true ∧ ∃ i, e.span = t.span i ∨
    (e = t.removal marker i ∧ ((t.span i).covers k.span = true ∨ t.trailingComment? i = some k))

/-- Whether an edit keeps clear of a comment. -/
def Clear (e : Edit) (k : Comment) : Prop :=
  e.span.stop ≤ k.span.start ∨ k.span.stop ≤ e.span.start

/-- An edit of a program replaces a construct or removes a statement. -/
theorem Synthesizes.exists_node {r : Rewrite} (h : t.Synthesizes c r) (he : e ∈ r.edits) :
    ∃ i, e.span = t.span i ∨ e = t.removal c.marker i := by
  cases h with
  | inline h =>
    obtain ⟨usage, d, value, -, -, -, hr⟩ := BindingTable.ofEdits_of_inline h
    rcases List.mem_cons.mp ((Rewrite.mem_of_ofEdits hr e).mp he) with rfl | he
    · exact ⟨usage, .inl rfl⟩
    · exact ⟨d, .inr (List.mem_singleton.mp he)⟩
  | merge hg h =>
    obtain ⟨copied, hpart⟩ := MergePlan.exists_part h he
    exact hpart.exists_node

namespace Commented

variable (ht : t.Commented) (hk : k ∈ t.comments)

include ht hk

/-- A comment lies within a node or beside it, also where there is none. -/
theorem node_cases (i : Nat) : (t.span i).covers k.span = true ∨
    k.span.stop ≤ (t.span i).start ∨ (t.span i).stop ≤ k.span.start := by
  rcases Nat.lt_or_ge i t.nodes.size with hi | hi
  · exact ht.nested k hk i hi
  · rw [span, node_of_size_le hi]
    exact .inr (.inr (Nat.zero_le _))

theorem not_isFiller : ¬ ∀ b, t.source[k.span.start]? = some b → Bytes.isFiller b = true := by
  intro h
  obtain ⟨hlt, hle⟩ := ht.filled k hk
  have hget := List.getElem?_eq_getElem (Nat.lt_of_lt_of_le hlt hle)
  have hbegun := ht.begun k hk
  rw [hget, Option.any_some, h _ hget] at hbegun
  cases hbegun

/-- A comment in which another one begins is that one. -/
theorem eq_of_within {k' : Comment} (hk' : k' ∈ t.comments) (hstart : k'.span.start ≤ k.span.start)
    (hstop : k.span.start < k'.span.stop) : k' = k := by
  by_contra hne
  have hlt := (ht.filled k hk).1
  have hpairwise : t.comments.Pairwise fun a b =>
      a.span.stop ≤ b.span.start ∨ b.span.stop ≤ a.span.start := ht.apart.imp .inl
  have : Std.Symm fun a b : Comment =>
      a.span.stop ≤ b.span.start ∨ b.span.stop ≤ a.span.start := ⟨fun _ _ => .symm⟩
  rcases hpairwise.forall hk' hk hne with h | h <;> omega

/-- The removal of the statement before a comment ends before it, or takes it whole. -/
theorem removal_behind (hs : t.Spaced) (hbehind : (t.span i).stop ≤ k.span.start) :
    (t.removal marker i).span.stop ≤ k.span.start ∨
      (t.trailingComment? i = some k ∧ (t.removal marker i).span.covers k.span = true) := by
  rcases Nat.lt_or_ge k.span.start (t.removal marker i).span.stop with hlt | hge
  swap
  · exact .inl hge
  have hle := (hs.span_le i).1
  have hcovers := Span.covers_iff.mp (removal_covers marker hs.comment (hs.span_le i).2)
  have hbegun := ht.not_isFiller hk
  obtain ⟨hbefore, -⟩ | ⟨-, hwithin⟩ | ⟨-, hfiller | ⟨k', htrailing, hstart, hstop⟩⟩ :=
    removal_clears marker (by omega) hlt
  · omega
  · omega
  · exact absurd hfiller hbegun
  · have hk' := List.mem_of_find?_eq_some htrailing
    obtain rfl := ht.eq_of_within hk hk' hstart hstop
    have hreach := stop_le_removal marker htrailing (ht.filled _ hk).2 hlt hbegun
    exact .inr ⟨htrailing, Span.covers_iff.mpr ⟨by omega, hreach⟩⟩

/-- The removal of the statement behind a comment does not reach back to it. -/
theorem removal_before (hs : t.Spaced) (hbefore : k.span.stop ≤ (t.span i).start) :
    k.span.stop ≤ (t.removal marker i).span.start := by
  by_contra hreach
  obtain ⟨hlt, hlength⟩ := ht.filled k hk
  have hle := (hs.span_le i).1
  have hcovers := Span.covers_iff.mp (removal_covers marker hs.comment (hs.span_le i).2)
  have hline := lineStart_le_removal (t := t) marker i
  -- The comment would end with a blank, and the statement would stand on the same line.
  obtain ⟨-, hblank⟩ | ⟨hwithin, -⟩ | ⟨hwithin, -⟩ :=
    removal_clears (t := t) marker (i := i) (k := k.span.stop - 1) (by omega) (by omega)
  · have hget := List.getElem?_eq_getElem (by omega : k.span.stop - 1 < t.source.length)
    have hi : i < t.nodes.size := by
      by_contra hi
      rw [span, node_of_size_le (Nat.not_lt.mp hi)] at hbefore
      exact absurd hbefore (Nat.not_le.mpr (Nat.lt_of_le_of_lt (Nat.zero_le _) hlt))
    have hended := ht.ended k hk (by rw [hget, Option.any_some, hblank _ hget]) i hi hbefore
    omega
  · omega
  · omega

/-- **The removal of a statement takes a comment or keeps clear of it.** -/
theorem removal_apart (hs : t.Spaced) :
    t.Takes marker (t.removal marker i) k ∨ Clear (t.removal marker i) k := by
  rcases ht.node_cases hk i with hcovers | hbefore | hbehind
  · have hremoval := removal_covers marker hs.comment (hs.span_le i).2
    exact .inl ⟨Span.covers_trans hremoval hcovers, i, .inr ⟨rfl, .inl hcovers⟩⟩
  · exact .inr (.inr (ht.removal_before hk hs hbefore))
  · rcases ht.removal_behind hk hs hbehind with hstop | ⟨htrailing, hcovers⟩
    · exact .inr (.inl hstop)
    · exact .inl ⟨hcovers, i, .inr ⟨rfl, .inr htrailing⟩⟩

end Commented

/-- A comment with the marker is not kept behind the statement that it trails. -/
theorem removal_replacement_eq (hmarker : marker ≠ "")
    (hmarked : Text.contains k.text marker = true) (htrailing : t.trailingComment? i = some k) :
    (t.removal marker i).replacement = "" := by
  have hexplains : Comment.explains marker k.text = false := by
    simp [Comment.explains, hmarker, hmarked]
  have hkept : t.keptComment marker i = "" := by
    rw [keptComment, htrailing]
    simp [hexplains]
  rw [removal]
  split
  · simp [lineRemoval, hkept]
  · rfl

/-- What a review turns a source into is the splice of the accepted edits, and these fit. -/
theorem splice_of_rewritten {G : Grammar Id} {maxFindings : Nat} {apply : Bool}
    {findings : List Finding} {r : Review} {s : Bytes}
    (hr : t.review G marker maxFindings apply findings = .ok r) (hs : r.rewritten = some s) :
    let edits := Edit.inOrder (t.triage marker maxFindings findings).edits
    Edit.Fits 0 t.source.length edits ∧ s = Edit.splice t.source 0 t.source.length edits := by
  obtain ⟨-, rfl⟩ | ⟨-, -, hfits, rfl⟩ := review_cases hr
  · cases hs
  · refine ⟨hfits, ?_⟩
    unfold Triage.conclude at hs
    split at hs
    · exact (Option.some.inj hs).symm
    · cases hs

end Tree

/-- **Comments that exempt a finding are kept, unless an edit takes them.**  Of findings whose
rewrites are made for the program: an edit of an accepted rewrite takes such a comment, with the
construct around it or behind the statement that is removed, or keeps clear of it.  If none takes
the comment, its text is found in the result.  Behind a statement that is removed nothing is left of
it. -/
theorem exempting_comments_kept (G : Grammar Id) (l : Language) (source : Bytes) (root : Concrete)
    (c : Config) :
    let t := Tree.ofConcrete l source root
    t.Spaced → t.Commented → ∀ findings : List Finding,
      (∀ f ∈ findings, ∀ r, f.rewrite = some r → t.Synthesizes c r) →
      let g := t.triage c.marker c.maxFindings findings
      ∀ f ∈ findings, ∀ k ∈ t.comments, k.Exempts c.marker f →
        (∀ n ∈ g.accepted, ∀ e ∈ n.finding.edits, t.Takes c.marker e k ∨ Tree.Clear e k) ∧
        (∀ r s, t.review G c.marker c.maxFindings true findings = .ok r → r.rewritten = some s →
          (∀ e ∈ g.edits, ¬ t.Takes c.marker e k) →
          ∃ before after, s = before ++ Bytes.slice t.source k.span.start k.span.stop ++ after) ∧
        (c.marker ≠ "" → ∀ i, t.trailingComment? i = some k →
          (t.removal c.marker i).replacement = "") := by
  intro t hs ht findings hfindings g f hf k hk hexempts
  have hedits : ∀ n ∈ g.accepted, ∀ e ∈ n.finding.edits,
      t.Takes c.marker e k ∨ Tree.Clear e k := by
    intro n hn e he
    have hmem : n.finding ∈ findings :=
      finding_mem_of_kept (t.mem_kept_of_mem_accepted c.marker c.maxFindings findings hn)
    obtain ⟨r, hr, he⟩ := Finding.exists_rewrite_of_mem he
    obtain ⟨i, hspan | rfl⟩ := (hfindings _ hmem r hr).exists_node he
    · -- A construct is replaced: no comment lies in it in part.
      rw [Tree.Takes, Tree.Clear, hspan]
      rcases ht.node_cases hk i with hcovers | hbefore | hbehind
      · exact .inl ⟨hcovers, i, .inl rfl⟩
      · exact .inr (.inr hbefore)
      · exact .inr (.inl hbehind)
    · exact ht.removal_apart hk hs
  refine ⟨hedits, fun r s hr hrewritten hnot => ?_, fun hmarker i htrailing => ?_⟩
  · obtain ⟨hfits, rfl⟩ := Tree.splice_of_rewritten hr hrewritten
    obtain ⟨hlt, hle⟩ := ht.filled k hk
    refine Edit.exists_splice_of_apart t.source hfits (fun e he => ?_) (Nat.zero_le _) hlt.le hle
    have he := (Edit.inOrder_perm _).mem_iff.mp he
    obtain ⟨n, hn, hen⟩ := List.mem_flatMap.mp he
    exact (hedits n hn e hen).resolve_left (hnot e he)
  · exact Tree.removal_replacement_eq hmarker hexempts.marked htrailing

namespace Sample

/-- The declaration of a constant with a name and a digit at an offset. -/
def constant (k : Nat) : Concrete :=
  construct "lexical_declaration" k (k + 12) [
    token "const" k (some "kind"),
    construct "variable_declarator" (k + 6) (k + 11) [
      construct "identifier" (k + 6) (k + 7) [] (some "name"), token "=" (k + 8),
      construct "number" (k + 10) (k + 11) [] (some "value")],
    token ";" (k + 11)]

/-- The statement `use(x);` at an offset, with an argument. -/
def usage (k stop : Nat) (argument : Concrete) : Concrete :=
  construct "expression_statement" k (stop + 2) [
    construct "call_expression" k (stop + 1) [
      construct "identifier" k (k + 3) [] (some "function"),
      construct "arguments" (k + 3) (stop + 1)
        [token "(" (k + 3), argument, token ")" stop] (some "arguments")],
    token ";" (stop + 1)]

/-- One of two constants is exempt. -/
def sparing : Bytes :=
  Utf8.encode "// simplify-ignore\nconst a = 1;\nuse(a);\nconst b = 2;\nuse(b);\n"

/-- The tree of `sparing`. -/
def sparingTree : Concrete :=
  construct "program" 0 61 [
    .node ⟨"comment", true, false, 0, 18, none⟩ [],
    constant 19, usage 32 37 (construct "identifier" 36 37 []),
    constant 40, usage 53 58 (construct "identifier" 57 58 [])]

end Sample

/-- The constant that is not exempt is inlined, and the comment stays. -/
theorem sample_comments_kept :
    let t := Tree.ofConcrete .javascript Sample.sparing Sample.sparingTree
    let c : Config := {}
    t.Spaced ∧ t.Commented ∧ ∃ findings, t.collectFindings c = .ok findings ∧
      (∀ f ∈ findings, ∀ r, f.rewrite = some r → t.Synthesizes c r) ∧
      let g := t.triage c.marker c.maxFindings findings
      ∃ f ∈ findings, ∃ k ∈ t.comments, k.Exempts c.marker f ∧
        (∀ n ∈ g.accepted, ∀ e ∈ n.finding.edits, t.Takes c.marker e k ∨ Tree.Clear e k) ∧
        ∃ r s, t.review Sample.blank c.marker c.maxFindings true findings = .ok r ∧
          r.rewritten = some s ∧
          s = Utf8.encode "// simplify-ignore\nconst a = 1;\nuse(a);\nuse(2);\n" ∧
          (∀ e ∈ g.edits, ¬ t.Takes c.marker e k) ∧
          (∃ before after,
            s = before ++ Bytes.slice t.source k.span.start k.span.stop ++ after) ∧
          c.marker ≠ "" := by
  intro t c
  have hs : t.Spaced := by decide +kernel
  have ht : t.Commented := by decide +kernel
  have hmarker : c.marker ≠ "" := by decide
  have hfound : ∃ findings ∈ (t.collectFindings c).toOption,
      (∃ f ∈ findings, ∃ k ∈ t.comments, k.Exempts c.marker f ∧
        ∀ e ∈ (t.triage c.marker c.maxFindings findings).edits, e.span.covers k.span = false) ∧
      ∃ r ∈ (t.review Sample.blank c.marker c.maxFindings true findings).toOption,
        r.rewritten =
          some (Utf8.encode "// simplify-ignore\nconst a = 1;\nuse(a);\nuse(2);\n") := by
    decide +kernel
  obtain ⟨findings, hsome, ⟨f, hf, k, hk, hexempts, hcovers⟩, r, hreviewed, hrewritten⟩ := hfound
  have hfindings := Attempt.toOption_eq_some.mp hsome
  have hr := Attempt.toOption_eq_some.mp hreviewed
  have hsynthesizes : ∀ f ∈ findings, ∀ r, f.rewrite = some r → t.Synthesizes c r :=
    fun f hf r hr => Tree.synthesizes_of_mem_findings hfindings hf hr
  obtain ⟨hedits, hkept, -⟩ := exempting_comments_kept Sample.blank .javascript Sample.sparing
    Sample.sparingTree c hs ht findings hsynthesizes f hf k hk hexempts
  have hnot : ∀ e ∈ (t.triage c.marker c.maxFindings findings).edits,
      ¬ t.Takes c.marker e k := by
    intro e he htakes
    cases (hcovers e he).symm.trans htakes.1
  exact ⟨hs, ht, findings, hfindings, hsynthesizes, f, hf, k, hk, hexempts, hedits, r, _, hr,
    hrewritten, rfl, hnot, hkept r _ hr hrewritten hnot, hmarker⟩

namespace Sample

/-- A constant is exempt by the comment that trails the one before. -/
def guarding : Bytes :=
  Utf8.encode "const a = 2; // simplify-ignore\nconst b = a + 1;\nuse(b);\n"

/-- The tree of `guarding`. -/
def guardingTree : Concrete :=
  construct "program" 0 57 [
    constant 0, .node ⟨"comment", true, false, 13, 31, none⟩ [],
    construct "lexical_declaration" 32 48 [
      token "const" 32 (some "kind"),
      construct "variable_declarator" 38 47 [
        construct "identifier" 38 39 [] (some "name"), token "=" 40,
        construct "binary_expression" 42 47 [
          construct "identifier" 42 43 [] (some "left"), token "+" 44 (some "operator"),
          construct "number" 46 47 [] (some "right")] (some "value")],
      token ";" 47],
    usage 49 54 (construct "identifier" 53 54 [])]

/-- What becomes of `guarding`. -/
def exposed : Bytes := Utf8.encode "const b = 2 + 1;\nuse(b);\n"

/-- The tree of `exposed`. -/
def exposedTree : Concrete :=
  construct "program" 0 25 [
    construct "lexical_declaration" 0 16 [
      token "const" 0 (some "kind"),
      construct "variable_declarator" 6 15 [
        construct "identifier" 6 7 [] (some "name"), token "=" 8,
        construct "binary_expression" 10 15 [
          construct "number" 10 11 [] (some "left"), token "+" 12 (some "operator"),
          construct "number" 14 15 [] (some "right")] (some "value")],
      token ";" 15],
    usage 17 22 (construct "identifier" 21 22 [])]

end Sample

/-- What a pass does with the findings of a program: the numbers of those that are exempt, the
symbols of those whose rewrites are accepted, and the result. -/
def Tree.passed (t : Tree) (c : Config) : Option (List Nat × List String × Bytes) :=
  (t.collectFindings c).toOption.map fun findings =>
    let g := t.triage c.marker c.maxFindings findings
    (g.suppressed, g.accepted.map (·.finding.symbol), (Edit.applyAll t.source g.edits).1)

/-- **The exception.**  The constant before goes with the comment that trails it, and the next pass
inlines the one that was exempt. -/
theorem removal_exposes_finding :
    let t := Tree.ofConcrete .javascript Sample.guarding Sample.guardingTree
    let t' := Tree.ofConcrete .javascript Sample.exposed Sample.exposedTree
    let c : Config := {}
    t.Commented ∧ (∃ k ∈ t.comments, t.trailingComment? 1 = some k ∧
        (t.removal c.marker 1).span.covers k.span = true) ∧
      t.passed c = some ([1], ["a"], Sample.exposed) ∧
      t'.passed c = some ([], ["b"], Utf8.encode "use(2 + 1);\n") := by
  decide +kernel

end Declutter
