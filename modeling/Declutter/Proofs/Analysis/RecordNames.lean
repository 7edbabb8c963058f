import Declutter.Proofs.Analysis.Copying
import Declutter.Proofs.Naming

/-!
# The names of collections that are merged in one pass

Every merge declares its collection of records under a name that no identifier of the program
spells.  The name is chosen for each merge by itself, from the name of the collection that leads the
group; so the names of merges that are carried out together differ as far as these words do, and no
further.

## Main definitions

* `Finding.Merges` — whether a finding proposes the merge of a group.

## Main results

* `Tree.exists_merges` — an accepted finding about parallel collections proposes a merge.
* `Finding.Merges.exists_declaration` — a merge declares its collection of records.
* `merged_names_differ` — the names of merges that are accepted together.
* `merged_names_clash` — two merges that declare the same name.
-/

namespace Declutter

open Attempt

variable {t : Tree} {c : Config} {f : Finding} {g : Group} {findings : List Finding}

/-- Whether a finding proposes the merge of a group of the program. -/
structure Finding.Merges (t : Tree) (c : Config) (f : Finding) (g : Group) : Prop where
  group_mem : g ∈ (Arena.ofTree (.ofTree t) t).groups (.ofTree t) t
  exists_rewrite : ∃ found r, g.finding (Arena.ofTree (.ofTree t) t) (.ofTree t) t = .ok found ∧
    (t.mergePlan c g).rewrite = .ok r ∧ f = { found with rewrite := some r }

/-! ### Findings that are accepted -/

theorem Finding.eq_of_resolve {f g : Finding} {attempt : Attempt Rewrite} {r : Rewrite}
    (hf : f.rewrite = none) (h : f.resolve attempt = .ok g) (hr : g.rewrite = some r) :
    g = { f with rewrite := some r } := by
  rw [Finding.eq_ok_of_resolve hf h hr] at h
  exact (Except.ok.inj h).symm

namespace Tree

/-- A single-use binding is no group of collections. -/
theorem rule_of_singleUseFindings (h : t.singleUseFindings c (.ofTree t) = .ok findings)
    (hf : f ∈ findings) : f.rule = .singleUse := by
  obtain ⟨i, -, hi⟩ := (mem_of_mapM h).mp hf
  obtain ⟨found, hfound, hi⟩ := bind_eq_ok.mp hi
  obtain ⟨u, -, rfl⟩ := map_eq_ok.mp hfound
  unfold Finding.resolve at hi
  split at hi
  · rw [← Except.ok.inj hi]
    rfl
  · rw [← Except.ok.inj hi]
    rfl
  · cases hi

/-- A rewrite that is proposed for parallel collections is the merge of a group. -/
theorem exists_merges_of_parallel (h : t.parallelFindings c (.ofTree t) = .ok findings)
    (hf : f ∈ findings) (hedits : f.edits ≠ []) : ∃ g, f.Merges t c g := by
  unfold parallelFindings at h
  dsimp only at h
  split at h
  · cases h
  · obtain ⟨g, hg, hgroup⟩ := (mem_of_mapM h).mp hf
    obtain ⟨found, hfound, hresolve⟩ := bind_eq_ok.mp hgroup
    obtain ⟨first, hfirst, heq⟩ := map_eq_ok.mp hfound
    obtain ⟨e, he⟩ := List.exists_mem_of_ne_nil _ hedits
    obtain ⟨r, hr, -⟩ := Finding.exists_rewrite_of_mem he
    have hnone : found.rewrite = none := by
      rw [← heq]
      rfl
    exact ⟨g, hg, found, r, hfound, Finding.eq_ok_of_resolve hnone hresolve hr,
      Finding.eq_of_resolve hnone hresolve hr⟩

theorem edits_ne_nil_of_mem_accepted {marker : String} {maxFindings : Nat} {n : Numbered}
    (hn : n ∈ (t.triage marker maxFindings findings).accepted) : n.finding.edits ≠ [] := by
  unfold Tree.triage at hn
  dsimp only at hn
  obtain ⟨chosen, heq, hsub⟩ := accept_sublist [] _
  rw [heq, List.nil_append] at hn
  simpa using (List.mem_filter.mp ((mem_sortBy _).mp (hsub.subset hn))).2

/-- **An accepted finding about parallel collections** proposes the merge of a group. -/
theorem exists_merges (h : t.collectFindings c = .ok findings) {marker : String}
    {maxFindings : Nat} {n : Numbered}
    (hn : n ∈ (t.triage marker maxFindings findings).accepted)
    (hrule : n.finding.rule = .parallelCollections) : ∃ g, n.finding.Merges t c g := by
  have hmem := finding_mem_of_kept (t.mem_kept_of_mem_accepted marker maxFindings findings hn)
  have hedits := edits_ne_nil_of_mem_accepted hn
  obtain ⟨single, hsingle, h⟩ := bind_eq_ok.mp h
  obtain ⟨parallel, hparallel, h⟩ := bind_eq_ok.mp h
  rw [← pure_eq_ok.mp h] at hmem
  rcases List.mem_append.mp hmem with hmem | hmem
  · have hother := rule_of_singleUseFindings (eq_ok_of_enabledFindings hsingle hmem) hmem
    rw [hrule] at hother
    cases hother
  · exact exists_merges_of_parallel (eq_ok_of_enabledFindings hparallel hmem) hmem hedits

end Tree

/-! ### What a merge declares -/

theorem Finding.Merges.exists_declaration (h : f.Merges t c g) :
    let p := t.mergePlan c g
    ∃ m ∈ p.removed, ∃ d value, (p.binding m).declaration = some d ∧
      ∃ e ∈ f.edits, e.replacement = p.declarationText value d ∧
        e.span.covers (t.span d) = true := by
  intro p
  obtain ⟨found, r, -, hr, rfl⟩ := h.exists_rewrite
  exact MergePlan.exists_declaration hr

/-- A finding that proposes the merge of a group is about that group. -/
theorem Finding.Merges.symbol_eq (h : f.Merges t c g) :
    (g.finding (Arena.ofTree (.ofTree t) t) (.ofTree t) t).toOption.map (·.symbol) =
      some f.symbol := by
  obtain ⟨found, r, hfound, -, rfl⟩ := h.exists_rewrite
  rw [hfound]
  rfl

/-- **Merges that are accepted together** declare their collections of records, under names that
are new to the program; and these names are the same only where the names of the anchors give the
same word. -/
theorem merged_names_differ (t : Tree) (c : Config) (findings : List Finding)
    (h : t.collectFindings c = .ok findings) :
    let accepted := (t.triage c.marker c.maxFindings findings).accepted
    (∀ n ∈ accepted, n.finding.rule = .parallelCollections → ∃ g, n.finding.Merges t c g) ∧
    (∀ n ∈ accepted, ∀ g, n.finding.Merges t c g →
      let p := t.mergePlan c g
      p.recordName ∉ t.spelledNames ∧
      ∃ m ∈ p.removed, ∃ d value, (p.binding m).declaration = some d ∧
        ∃ e ∈ n.finding.edits, e.replacement = p.declarationText value d ∧
          e.span.covers (t.span d) = true) ∧
    accepted.Pairwise fun m n => ∀ g k, m.finding.Merges t c g → n.finding.Merges t c k →
      let p := t.mergePlan c g
      let q := t.mergePlan c k
      p.recordName = q.recordName ↔
        groupBase (p.nameOf g.anchor) = groupBase (q.nameOf k.anchor) := by
  intro accepted
  refine ⟨fun n hn hrule => Tree.exists_merges h hn hrule, fun n hn g hmerges => ?_, ?_⟩
  · exact ⟨fresh_notMem _ _, hmerges.exists_declaration⟩
  · refine List.pairwise_of_forall fun m n g k _ _ => ?_
    exact groupName_eq_groupName_iff _ _ t.spelledNames

/-! ### Two programs -/

namespace Sample

/-- The declaration `const item = get();` of a name of some length at an offset. -/
def listDeclaration (k n : Nat) : Concrete :=
  construct "lexical_declaration" k (k + n + 15) [
    token "const" k (some "kind"),
    construct "variable_declarator" (k + 6) (k + n + 14) [
      construct "identifier" (k + 6) (k + n + 6) [] (some "name"), token "=" (k + n + 7),
      construct "call_expression" (k + n + 9) (k + n + 14) [
        construct "identifier" (k + n + 9) (k + n + 12) [] (some "function"),
        construct "arguments" (k + n + 12) (k + n + 14)
          [token "(" (k + n + 12), token ")" (k + n + 13)] (some "arguments")]
        (some "value")],
    token ";" (k + n + 14)]

/-- The declaration `const a = item.slice();` of a copy of a collection with a name of some length
at an offset. -/
def copyDeclaration (k n : Nat) : Concrete :=
  construct "lexical_declaration" k (k + n + 19) [
    token "const" k (some "kind"),
    construct "variable_declarator" (k + 6) (k + n + 18) [
      construct "identifier" (k + 6) (k + 7) [] (some "name"), token "=" (k + 8),
      construct "call_expression" (k + 10) (k + n + 18) [
        construct "member_expression" (k + 10) (k + n + 16) [
          construct "identifier" (k + 10) (k + n + 10) [] (some "object"), token "." (k + n + 10),
          construct "property_identifier" (k + n + 11) (k + n + 16) [] (some "property")]
          (some "function"),
        construct "arguments" (k + n + 16) (k + n + 18)
          [token "(" (k + n + 16), token ")" (k + n + 17)] (some "arguments")]
        (some "value")],
    token ";" (k + n + 18)]

/-- Two collections, the first one with a name of four letters, each with two copies. -/
def twoLists (first : String) : Bytes := Utf8.encode (
  s!"const {first} = get();\nconst items = get();\n" ++
  s!"const a = {first}.slice();\nconst b = {first}.slice();\n" ++
  "const c = items.slice();\nconst d = items.slice();\n")

/-- The tree of such a program. -/
def twoListsTree : Concrete :=
  construct "program" 0 139 [
    listDeclaration 0 4, listDeclaration 20 5,
    copyDeclaration 41 4, copyDeclaration 65 4, copyDeclaration 89 5, copyDeclaration 114 5]

end Sample

/-- The copies of `list` and of `items` are merged under names that are new and differ. -/
theorem sample_names_differ :
    let t := Tree.ofConcrete .javascript (Sample.twoLists "list") Sample.twoListsTree
    let c : Config := {}
    ∃ findings m n, t.collectFindings c = .ok findings ∧
      (t.triage c.marker c.maxFindings findings).accepted = [m, n] ∧
      m.finding.symbol = "c, d" ∧ n.finding.symbol = "a, b" ∧
      ∃ g k, m.finding.Merges t c g ∧ n.finding.Merges t c k ∧
        (t.mergePlan c g).recordName ∉ t.spelledNames ∧
        (t.mergePlan c k).recordName ∉ t.spelledNames ∧
        (t.mergePlan c g).recordName ≠ (t.mergePlan c k).recordName := by
  intro t c
  have hfound : ∃ findings ∈ (t.collectFindings c).toOption,
      (t.triage c.marker c.maxFindings findings).accepted.map
        (fun n => (n.finding.rule, n.finding.symbol)) =
        [(.parallelCollections, "c, d"), (.parallelCollections, "a, b")] := by
    decide +kernel
  have hgroups : ∀ g ∈ (Arena.ofTree (.ofTree t) t).groups (.ofTree t) t,
      ((g.finding (Arena.ofTree (.ofTree t) t) (.ofTree t) t).toOption.map (·.symbol),
        (t.mergePlan c g).nameOf g.anchor) ∈
        [(some "a, b", "list"), (some "c, d", "items")] := by
    decide +kernel
  obtain ⟨findings, hsome, haccepted⟩ := hfound
  have hfindings := toOption_eq_some.mp hsome
  obtain ⟨hmerges, hnew, hdiffer⟩ := merged_names_differ t c findings hfindings
  obtain ⟨m, rest, hlist, hm, hrest⟩ := List.map_eq_cons_iff.mp haccepted
  obtain ⟨n, others, rfl, hn, hothers⟩ := List.map_eq_cons_iff.mp hrest
  obtain rfl := List.map_eq_nil_iff.mp hothers
  rw [Prod.mk.injEq] at hm hn
  rw [hlist] at hmerges hnew hdiffer
  obtain ⟨g, hg⟩ := hmerges m (.head _) hm.1
  obtain ⟨k, hk⟩ := hmerges n (.tail _ (.head _)) hn.1
  -- The symbols tell the groups, and with them the collections that lead them.
  have hitems : (t.mergePlan c g).nameOf g.anchor = "items" := by
    have hmem := hgroups g hg.group_mem
    rw [hg.symbol_eq, hm.2] at hmem
    simpa using hmem
  have hlists : (t.mergePlan c k).nameOf k.anchor = "list" := by
    have hmem := hgroups k hk.group_mem
    rw [hk.symbol_eq, hn.2] at hmem
    simpa using hmem
  refine ⟨findings, m, n, hfindings, hlist, hm.2, hn.2, g, k, hg, hk,
    (hnew m (.head _) g hg).1, (hnew n (.tail _ (.head _)) k hk).1, fun heq => ?_⟩
  have hbase := (List.rel_of_pairwise_cons hdiffer (.head _) g k hg hk).mp heq
  rw [hitems, hlists] at hbase
  revert hbase
  decide +kernel

/-- `item` and `items` give the same word, so the merges of their copies declare the same name. -/
theorem merged_names_clash :
    let t := Tree.ofConcrete .javascript (Sample.twoLists "item") Sample.twoListsTree
    let c : Config := {}
    (t.collectFindings c).toOption.map (fun findings =>
      (t.triage c.marker c.maxFindings findings).accepted.map fun n =>
        n.finding.edits.map (·.replacement)) =
      some [
        ["const itemRecords = items.map(item2 => (\x7b cItem: item2, dItem: item2 \x7d));", ""],
        ["const itemRecords = item.map(item2 => (\x7b aItem: item2, bItem: item2 \x7d));", ""]] := by
  decide +kernel

end Declutter
