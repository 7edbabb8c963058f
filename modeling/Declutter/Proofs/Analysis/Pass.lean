import Declutter.Analysis.File
import Declutter.Proofs.Splice

/-!
# One pass over a program

What a pass can do to the source it is given: leave it alone, replace it by the splice of all
accepted edits, or roll that back.  Everything that is said of the passes over a file rests on
these three cases.

## Main definitions

* `Pass`, `Pass.Of` — a pass, and whether it is one over a given source.
* `Pass.RollsBack` — whether the rewrites of a pass lead to no program.
* `Adopts` — whether a pass turns one source into another.

## Main results

* `Pass.Of.adopts` — a pass that rewrites adopts the splice of all accepted edits.
* `Pass.RollsBack.review_eq` — a pass that is rolled back changes nothing and says so.
-/

namespace Declutter

/-! ### Triage -/

/-- The accepted findings and those that give way are among the given ones. -/
theorem accept_sublist (accepted candidates : List Numbered) :
    ∃ chosen, (accept accepted candidates).1 = accepted ++ chosen ∧
      chosen.Sublist candidates := by
  induction candidates generalizing accepted with
  | nil => exact ⟨[], by simp [accept], .refl _⟩
  | cons n rest ih =>
    rw [accept]
    split
    · obtain ⟨chosen, heq, hsub⟩ := ih accepted
      exact ⟨chosen, heq, hsub.cons n⟩
    · obtain ⟨chosen, heq, hsub⟩ := ih (accepted ++ [n])
      exact ⟨n :: chosen, by rw [heq, List.append_assoc]; rfl, hsub.cons_cons n⟩

theorem Tree.mem_kept_of_mem_accepted (t : Tree) (marker : String) (maxFindings : Nat)
    (findings : List Finding) {n : Numbered}
    (hn : n ∈ (t.triage marker maxFindings findings).accepted) :
    n ∈ (t.triage marker maxFindings findings).kept := by
  unfold Tree.triage at hn ⊢
  dsimp only at hn ⊢
  obtain ⟨chosen, heq, hsub⟩ := accept_sublist [] _
  rw [heq, List.nil_append] at hn
  exact List.mem_filter.mp ((mem_sortBy _).mp (hsub.subset hn)) |>.1

namespace Triage

variable (g : Triage)

@[simp] theorem number_settle (status : Status) (n : Numbered) :
    (g.settle status n).number = n.number := by
  unfold settle
  split
  · rfl
  · cases h : g.superseded.find? (·.number == n.number) with
    | none => rfl
    | some m => simpa using List.find?_some h

theorem status_settle {status : Status} {n : Numbered} (h : g.accepts n.number = true) :
    (g.settle status n).finding.status = status := by
  rw [settle, if_pos h]

theorem accepts_of_mem {n : Numbered} (h : n ∈ g.accepted) : g.accepts n.number = true :=
  List.any_eq_true.mpr ⟨n, h, beq_self_eq_true _⟩

/-- The report gives each accepted finding the status. -/
theorem statusOf_report (status : Status) {n : Numbered} (hk : n ∈ g.kept)
    (ha : n ∈ g.accepted) : (g.report status).statusOf n.number = status := by
  have hex : ∃ m ∈ g.settled status, m.number = n.number :=
    ⟨g.settle status n, List.mem_map_of_mem hk, g.number_settle status n⟩
  rw [Review.statusOf]
  split
  · rename_i m h
    have hmn : m.number = n.number := by simpa using List.find?_some h
    obtain ⟨o, -, rfl⟩ := List.mem_map.mp (List.mem_of_find?_eq_some h)
    rw [number_settle] at hmn
    exact g.status_settle (hmn ▸ g.accepts_of_mem ha)
  · -- The finding was kept, so one of its number is found.
    rename_i h
    obtain ⟨m, hm, hmn⟩ := hex
    exact absurd hmn (by simpa using List.find?_eq_none.mp h m hm)

end Triage

/-! ### Passes -/

variable {G : Grammar Id} {l : Language} {c : Config}

/-- A pass over a program: the program, the findings, and what is reported of them. -/
structure Pass where
  tree : Tree
  findings : List Finding
  review : Review

namespace Pass

/-- What becomes of the findings of a pass. -/
def triage (c : Config) (p : Pass) : Triage := p.tree.triage c.marker c.maxFindings p.findings

/-- The source with the accepted edits of a pass carried out. -/
def spliced (c : Config) (p : Pass) : Bytes :=
  Edit.splice p.tree.source 0 p.tree.source.length (Edit.inOrder (p.triage c).edits)

/-- Whether a pass is the one over a source, with or without carrying out rewrites. -/
structure Of (G : Grammar Id) (l : Language) (c : Config) (apply : Bool) (source : Bytes)
    (p : Pass) : Prop where
  parsed : Tree.parse G l source = .ok p.tree
  collected : p.tree.collectFindings c = .ok p.findings
  reviewed : p.tree.review G c.marker c.maxFindings apply p.findings = .ok p.review

/-- Whether a pass over a source carries out rewrites that lead to no program. -/
structure RollsBack (G : Grammar Id) (l : Language) (c : Config) (source : Bytes) (p : Pass) :
    Prop where
  of : p.Of G l c true source
  accepts : (p.triage c).accepted ≠ []
  unparsed : ∃ e, Tree.parse G l (p.spliced c) = .error e

end Pass

/-- Whether a pass turns one source into another: the rewrites that it accepts all fit, the other
source is the splice of all their edits, and it is a program again. -/
def Adopts (G : Grammar Id) (l : Language) (c : Config) (source source' : Bytes) : Prop :=
  ∃ p : Pass, p.Of G l c true source ∧ (p.triage c).accepted ≠ [] ∧
    Edit.Fits 0 source.length (Edit.inOrder (p.triage c).edits) ∧
    source' = Edit.splice source 0 source.length (Edit.inOrder (p.triage c).edits) ∧
    p.review.applied = (p.triage c).accepted.length ∧
    ∃ t, Tree.parse G l source' = .ok t

theorem Parsed.toTree_ok {p : Parsed} {l : Language} {s : Bytes} {t : Tree}
    (h : p.toTree l s = .ok t) : t = .ofConcrete l s p.root := by
  unfold Parsed.toTree at h
  split at h
  · split at h <;> cases h
  · exact (Except.ok.inj h).symm

theorem Tree.eq_of_parse {s : Bytes} {t : Tree} (h : Tree.parse G l s = .ok t) :
    t = .ofConcrete l s (G l s).root := by
  unfold Tree.parse at h
  split at h
  · cases h
  · exact Parsed.toTree_ok h

theorem Tree.source_of_parse {s : Bytes} {t : Tree} (h : Tree.parse G l s = .ok t) :
    t.source = s := by
  rw [Tree.eq_of_parse h]
  rfl

theorem Tree.language_of_parse {s : Bytes} {t : Tree} (h : Tree.parse G l s = .ok t) :
    t.language = l := by
  rw [Tree.eq_of_parse h]
  rfl

/-- The cases of a review: nothing is carried out, or the accepted edits all fit and the result is
judged by what parsing it gives. -/
theorem Tree.review_cases {t : Tree} {marker : String} {maxFindings : Nat} {apply : Bool}
    {findings : List Finding} {r : Review}
    (h : t.review G marker maxFindings apply findings = .ok r) :
    let g := t.triage marker maxFindings findings
    let spliced := Edit.splice t.source 0 t.source.length (Edit.inOrder g.edits)
    ((g.accepted = [] ∨ apply = false) ∧ r = g.report .available) ∨
    (g.accepted ≠ [] ∧ apply = true ∧ Edit.Fits 0 t.source.length (Edit.inOrder g.edits) ∧
      r = g.conclude spliced (Tree.parse G t.language spliced)) := by
  intro g spliced
  unfold Tree.review at h
  dsimp only at h
  split at h
  · rename_i hidle
    refine .inl ⟨?_, (Except.ok.inj h).symm⟩
    simpa [Bool.or_eq_true] using hidle
  split at h
  · cases h
  · rename_i hidle hcount
    have hfits : Edit.Fits 0 t.source.length (Edit.inOrder g.edits) := by
      rw [← Edit.applyAll_snd_eq_length_iff]
      simpa using hcount
    have hidle' : g.accepted ≠ [] ∧ apply = true := by simpa [Bool.or_eq_true] using hidle
    refine .inr ⟨hidle'.1, hidle'.2, hfits, ?_⟩
    rw [← show (Edit.applyAll t.source g.edits).1 = spliced from Edit.applyAll_fst hfits]
    exact (Except.ok.inj h).symm

namespace Pass

variable {apply : Bool} {source source' : Bytes} {p : Pass}

/-- There is only one pass over a source. -/
theorem Of.unique {q : Pass} (hp : p.Of G l c apply source) (hq : q.Of G l c apply source) :
    p = q := by
  obtain ⟨t, fs, r⟩ := p
  obtain ⟨t', fs', r'⟩ := q
  obtain rfl : t = t' := Except.ok.inj (hp.parsed.symm.trans hq.parsed)
  obtain rfl : fs = fs' := Except.ok.inj (hp.collected.symm.trans hq.collected)
  obtain rfl : r = r' := Except.ok.inj (hp.reviewed.symm.trans hq.reviewed)
  rfl

/-- What a pass that carries out rewrites reports depends on what parsing the result gives. -/
theorem Of.review_eq (hp : p.Of G l c apply source)
    (hne : (p.triage c).accepted ≠ []) (happly : apply = true) :
    Edit.Fits 0 source.length (Edit.inOrder (p.triage c).edits) ∧
      p.review = (p.triage c).conclude (p.spliced c) (Tree.parse G l (p.spliced c)) := by
  have hsource := Tree.source_of_parse hp.parsed
  have hlanguage := Tree.language_of_parse hp.parsed
  obtain ⟨hidle, -⟩ | ⟨-, -, hfits, hr⟩ := Tree.review_cases hp.reviewed
  · rcases hidle with hidle | hidle
    · exact absurd hidle hne
    · exact absurd (happly.symm.trans hidle) (by decide)
  · rw [hlanguage] at hr
    rw [hsource] at hfits
    exact ⟨hfits, hr⟩

/-- **A pass that rewrites** was to carry out rewrites, and adopts the splice of all accepted
edits. -/
theorem Of.adopts (hp : p.Of G l c apply source) (h : p.review.rewritten = some source') :
    apply = true ∧ Adopts G l c source source' := by
  obtain ⟨-, hr⟩ | ⟨hne, happly, -, -⟩ := Tree.review_cases hp.reviewed
  · rw [hr] at h
    cases h
  obtain ⟨hfits, hr⟩ := hp.review_eq hne happly
  refine ⟨happly, p, happly ▸ hp, hne, hfits, ?_⟩
  cases hparse : Tree.parse G l (p.spliced c) with
  | error e =>
    -- A result that is no program is not given.
    rw [hr, hparse] at h
    cases h
  | ok t =>
    rw [hparse] at hr
    have hs : p.spliced c = source' := by
      rw [hr] at h
      exact Option.some.inj h
    refine ⟨?_, by rw [hr]; rfl, t, hs ▸ hparse⟩
    rw [← hs, spliced, Tree.source_of_parse hp.parsed]

/-- **A pass that is rolled back** leaves the source as it is, resolves nothing, and says so of
every finding whose rewrite was accepted. -/
theorem RollsBack.review_eq (h : p.RollsBack G l c source) :
    p.review.rewritten = none ∧ p.review.applied = 0 ∧
      ∀ n ∈ (p.triage c).accepted, p.review.statusOf n.number = .invalidResult := by
  obtain ⟨-, hr⟩ := h.of.review_eq h.accepts rfl
  obtain ⟨e, he⟩ := h.unparsed
  rw [he] at hr
  rw [hr]
  refine ⟨rfl, rfl, fun n hn => ?_⟩
  exact (p.triage c).statusOf_report .invalidResult
    (p.tree.mem_kept_of_mem_accepted c.marker c.maxFindings p.findings hn) hn

end Pass

end Declutter
