import Declutter.Collection.Iteration
import Declutter.Proofs.Rewrite.Mentions
import Declutter.Proofs.Syntax.Spacing
import Mathlib.Data.List.Forall2

/-!
# Trees with a value in the place of a node

The grammar makes a new tree of a rewritten source, with numbers of its own.  What can be said of
the new tree is how it looks next to the old one: the constructs around the place of the edit have
the same form, and at the place stands a copy of the value, in parentheses if the edit wrote them.

A way down from a node, to one child at each step, then takes the same turns in both trees until it
comes to the place.

## Main definitions

* `Tree.Becomes` — whether a construct of one tree has become one of another tree.
* `Tree.Renders` — whether a node is what a value was rendered as.
* `Tree.checkBecomes`, `Tree.checkRenders` — the decidable checks.
* `Tree.isWrapped` — whether the rewrite renders a value in parentheses.

## Main results

* `Tree.exists_descent`, `Tree.Becomes.descent` — the ways down in both trees.
* `BindingTable.exists_edit_of_inline` — the edit that puts the value in the place of a name.
-/

namespace Declutter

/-! ### Lists whose members correspond -/

section

variable {α β : Type} {R : α → β → Prop} {p : α → Bool} {q : β → Bool} {l : List α} {l' : List β}

theorem map_eq_of_forall₂ {γ : Type} {f : α → γ} {g : β → γ} (h : List.Forall₂ R l l')
    (hfg : ∀ a b, R a b → g b = f a) : l'.map g = l.map f := by
  induction h with
  | nil => rfl
  | cons hab _ ih => rw [List.map_cons, List.map_cons, ih, hfg _ _ hab]

/-- The first members of two lists that are asked for correspond. -/
theorem rel_find? (h : List.Forall₂ R l l') (hpq : l'.map q = l.map p) :
    Option.Rel R (l.find? p) (l'.find? q) := by
  induction h with
  | nil => exact .none
  | cons hab _ ih =>
    rw [List.map_cons, List.map_cons, List.cons.injEq] at hpq
    rw [List.find?_cons, List.find?_cons, hpq.1]
    split
    · exact .some hab
    · exact ih hpq.2

theorem isSome_eq_of_rel {a : Option α} {b : Option β} (h : Option.Rel R a b) :
    b.isSome = a.isSome := by
  cases h with
  | none => rfl
  | some _ => rfl

theorem exists_of_rel_some {a : α} {b : Option β} (h : Option.Rel R (some a) b) :
    ∃ b', b = some b' ∧ R a b' := by
  cases h with
  | some h => exact ⟨_, rfl, h⟩

theorem eq_none_of_rel_none {b : Option β} (h : Option.Rel R none b) : b = none := by
  cases h with
  | none => rfl

theorem rel_or {a b : Option α} {a' b' : Option β} (ha : Option.Rel R a a')
    (hb : Option.Rel R b b') : Option.Rel R (a.or b) (a'.or b') := by
  cases ha with
  | none => exact hb
  | some h => exact .some h

end

namespace Tree

/-- Whether two nodes are constructs of the same kind with the same tokens. -/
structure Alike (t t' : Tree) (i j : NodeId) : Prop where
  kind_eq : t'.kind j = t.kind i
  marks_eq : (t'.node j).marks = (t.node i).marks

/-- Whether a construct of one tree has become a construct of another one: where it is the site, it
has become something `new`; else the two are alike, and so are the roles of their children, each of
which has become the other one. -/
inductive Becomes (t t' : Tree) (site : Option NodeId) (new : NodeId → Prop) :
    NodeId → NodeId → Prop
  | site {i j : NodeId} : site = some i → new j → Becomes t t' site new i j
  | node {i j : NodeId} : site ≠ some i → t.Alike t' i j →
      (t'.children j).map t'.field = (t.children i).map t.field →
      List.Forall₂ (Becomes t t' site new) (t.children i) (t'.children j) →
      Becomes t t' site new i j

/-- Whether a construct of one tree has been copied to one of another tree. -/
def Copied (t t' : Tree) : NodeId → NodeId → Prop := t.Becomes t' none fun _ => False

/-- Whether a node is what a value has been rendered as: a copy of it, in parentheses or not. -/
def Renders (t t' : Tree) (wrap : Bool) (value j : NodeId) : Prop :=
  if wrap then t'.kind j = .parenthesized ∧ ∃ c, t'.children j = [c] ∧ t.Copied t' value c
  else t.Copied t' value j

variable {t t' : Tree} {site : Option NodeId} {new : NodeId → Prop} {i j : NodeId}

namespace Becomes

theorem of_site (h : t.Becomes t' site new i j) (hi : site = some i) : new j := by
  cases h with
  | site _ hnew => exact hnew
  | node hne => exact absurd hi hne

theorem alike (h : t.Becomes t' site new i j) (hi : site ≠ some i) : t.Alike t' i j := by
  cases h with
  | site heq => exact absurd heq hi
  | node _ halike => exact halike

theorem fields (h : t.Becomes t' site new i j) (hi : site ≠ some i) :
    (t'.children j).map t'.field = (t.children i).map t.field := by
  cases h with
  | site heq => exact absurd heq hi
  | node _ _ hfields => exact hfields

theorem children (h : t.Becomes t' site new i j) (hi : site ≠ some i) :
    List.Forall₂ (t.Becomes t' site new) (t.children i) (t'.children j) := by
  cases h with
  | site heq => exact absurd heq hi
  | node _ _ _ hchildren => exact hchildren

/-- The children with a role have become each other. -/
theorem child? (h : t.Becomes t' site new i j) (hi : site ≠ some i) (field : String) :
    Option.Rel (t.Becomes t' site new) (t.child? i field) (t'.child? j field) := by
  refine rel_find? (h.children hi) ?_
  have hfields := congrArg (List.map (· == some field)) (h.fields hi)
  simpa [List.map_map, Function.comp_def] using hfields

/-- What stands within parentheses or type assertions has become each other, unless the site or
what is new there is a type. -/
theorem wrapped? (h : t.Becomes t' site new i j) (hi : site ≠ some i)
    (hsite : ∀ s ∈ site, t.kind s ≠ .type) (hnew : ∀ n, new n → t'.kind n ≠ .type) :
    Option.Rel (t.Becomes t' site new) (t.wrapped? i) (t'.wrapped? j) := by
  have hkinds : (t'.children j).map (t'.kind · != .type) =
      (t.children i).map (t.kind · != .type) := by
    refine map_eq_of_forall₂ (h.children hi) fun a b hab => ?_
    by_cases ha : site = some a
    · have htype := bne_iff_ne.mpr (hsite a ha)
      exact (bne_iff_ne.mpr (hnew b (hab.of_site ha))).trans htype.symm
    · rw [(hab.alike ha).kind_eq]
  unfold Tree.wrapped?
  rw [(h.alike hi).kind_eq]
  split
  · exact rel_find? (h.children hi) hkinds
  · exact .none

/-- The objects and callees of a chain have become each other. -/
theorem chainObject? (h : t.Becomes t' site new i j) (hi : site ≠ some i) :
    Option.Rel (t.Becomes t' site new) (t.chainObject? i) (t'.chainObject? j) := by
  unfold Tree.chainObject?
  rw [(h.alike hi).kind_eq]
  split
  · exact rel_or (h.child? hi "function") (h.child? hi "object")
  · exact .none

end Becomes

/-! ### The check of two trees -/

/-- Whether it shows, so many levels down, that a construct has become another one. -/
def checkBecomes (t t' : Tree) (site : Option NodeId) (new : NodeId → Bool) :
    (depth : Nat) → (i j : NodeId) → Bool
  | 0, _, _ => false
  | depth + 1, i, j =>
    if site = some i then new j
    else t'.kind j == t.kind i && (t'.node j).marks == (t.node i).marks &&
      (t'.children j).map t'.field == (t.children i).map t.field &&
      ((t.children i).zip (t'.children j)).all fun (a, b) => checkBecomes t t' site new depth a b

/-- Whether it shows, so many levels down, that a value has been rendered as a node. -/
def checkRenders (t t' : Tree) (depth : Nat) (wrap : Bool) (value j : NodeId) : Bool :=
  let copied := t.checkBecomes t' none (fun _ => false) depth value
  if wrap then
    t'.kind j == .parenthesized &&
      match t'.children j with
      | [c] => copied c
      | _ => false
  else copied j

theorem becomes_of_check {check : NodeId → Bool} (hnew : ∀ n, check n = true → new n) {depth : Nat}
    (h : t.checkBecomes t' site check depth i j = true) : t.Becomes t' site new i j := by
  induction depth generalizing i j with
  | zero => cases h
  | succ depth ih =>
    rw [checkBecomes] at h
    split at h
    · next hi => exact .site hi (hnew j h)
    · next hi =>
      simp only [Bool.and_eq_true, beq_iff_eq, List.all_eq_true] at h
      obtain ⟨⟨⟨hkind, hmarks⟩, hfields⟩, hchildren⟩ := h
      have hlength : (t.children i).length = (t'.children j).length := by
        simpa using (congrArg List.length hfields).symm
      exact .node hi ⟨hkind, hmarks⟩ hfields
        (List.forall₂_iff_zip.mpr ⟨hlength, fun hab => ih (hchildren _ hab)⟩)

theorem renders_of_check {depth : Nat} {wrap : Bool} {value : NodeId}
    (h : t.checkRenders t' depth wrap value j = true) : t.Renders t' wrap value j := by
  have hcopied : ∀ c, t.checkBecomes t' none (fun _ => false) depth value c = true →
      t.Copied t' value c := fun c hc => becomes_of_check (by simp) hc
  unfold checkRenders at h
  unfold Renders
  split at h
  · rw [if_pos ‹_›]
    rw [Bool.and_eq_true, beq_iff_eq] at h
    obtain ⟨hkind, h⟩ := h
    split at h
    · next c hc => exact ⟨hkind, c, hc, hcopied c h⟩
    · cases h
  · rw [if_neg ‹_›]
    exact hcopied j h

/-! ### Ways down -/

/-- A way down begins where it starts. -/
theorem descent_ne_nil (next? : NodeId → Option NodeId) (i : NodeId) : t.descent next? i ≠ [] := by
  rw [descent]
  split
  · simp
  · split <;> simp

/-- A way down goes on with the child that comes next. -/
theorem InPreorder.descent_of_some (hn : t.InPreorder) {next? : NodeId → Option NodeId} {c : NodeId}
    (hc : next? i = some c) (hmem : c ∈ t.children i) :
    t.descent next? i = i :: t.descent next? c := by
  rw [descent, hc]
  exact if_pos ⟨(hn.child_bounds hmem).1, hn.lt_size_of_mem hmem⟩

theorem descent_of_none {next? : NodeId → Option NodeId} (hi : next? i = none) :
    t.descent next? i = [i] := by
  rw [descent, hi]

/-- Where a way down ends does not depend on where it starts. -/
theorem bottom_eq_of_descent {next? : NodeId → Option NodeId} {pre : List NodeId} {c : NodeId}
    (h : t.descent next? i = pre ++ t.descent next? c) : t.bottom next? i = t.bottom next? c := by
  obtain ⟨d, ds, hd⟩ := List.exists_cons_of_ne_nil (t.descent_ne_nil next? c)
  rw [bottom, bottom, h, hd]
  simp [List.getLastD_eq_getLast?, List.getLast?_append, List.getLast?_cons]

theorem bottom_of_none {next? : NodeId → Option NodeId} (hi : next? i = none) :
    t.bottom next? i = i := by
  rw [bottom, descent_of_none hi]
  rfl

/-- **The ways down from two nodes that correspond** go through nodes that correspond, until one of
them is a stop or the ways end. -/
theorem exists_descent (hn : t.InPreorder) (hn' : t'.InPreorder)
    {next? next?' : NodeId → Option NodeId} (hnext : ∀ i, ∀ c ∈ next? i, c ∈ t.children i)
    (hnext' : ∀ j, ∀ c ∈ next?' j, c ∈ t'.children j) {R : NodeId → NodeId → Prop}
    {stop : NodeId → Prop} (hrel : ∀ i j, R i j → ¬ stop i → Option.Rel R (next? i) (next?' j))
    {i j : NodeId} (h : R i j) :
    ∃ pre pre' i₀ j₀, List.Forall₂ (fun n n' => ¬ stop n ∧ R n n') pre pre' ∧
      t.descent next? i = pre ++ t.descent next? i₀ ∧
      t'.descent next?' j = pre' ++ t'.descent next?' j₀ ∧ R i₀ j₀ ∧
      (stop i₀ ∨ next? i₀ = none ∧ next?' j₀ = none) := by
  induction hk : t.nodes.size - i using Nat.strongRecOn generalizing i j with
  | ind k ih =>
    by_cases hstop : stop i
    · exact ⟨[], [], i, j, .nil, rfl, rfl, h, .inl hstop⟩
    · have hstep := hrel i j h hstop
      cases hi : next? i with
      | none =>
        rw [hi] at hstep
        exact ⟨[], [], i, j, .nil, rfl, rfl, h, .inr ⟨hi, eq_none_of_rel_none hstep⟩⟩
      | some c =>
        rw [hi] at hstep
        obtain ⟨c', hj, hcc⟩ := exists_of_rel_some hstep
        have hc := hnext i c hi
        have hc' := hnext' j c' hj
        have hless : t.nodes.size - c < k :=
          hk ▸ Nat.sub_lt_sub_left (Tree.lt_size_of_mem_children hc) (hn.child_bounds hc).1
        obtain ⟨pre, pre', i₀, j₀, hpre, hdescent, hdescent', hend⟩ := ih _ hless hcc rfl
        refine ⟨i :: pre, j :: pre', i₀, j₀, .cons ⟨hstop, h⟩ hpre, ?_, ?_, hend⟩
        · rw [hn.descent_of_some hi hc, hdescent]
          rfl
        · rw [hn'.descent_of_some hj hc', hdescent']
          rfl

/-- All nodes on a way down but the last one have one that comes next. -/
theorem isSome_next_of_descent {next? : NodeId → Option NodeId} {way : List NodeId} {last : NodeId}
    (h : t.descent next? i = way ++ [last]) : ∀ n ∈ way, (next? n).isSome = true := by
  induction way generalizing i with
  | nil => simp
  | cons a way ih =>
    rw [Tree.descent] at h
    split at h
    · simp at h
    · next c hc =>
      split at h
      · rw [List.cons_append, List.cons.injEq] at h
        intro n hmem
        rcases List.mem_cons.mp hmem with rfl | hmem
        · rw [← h.1, hc]
          rfl
        · exact ih h.2 n hmem
      · simp at h

/-- A way down ends where nothing comes next. -/
theorem exists_way_of_mem_descent {next? : NodeId → Option NodeId} {c : NodeId}
    (h : c ∈ t.descent next? i) (hc : next? c = none) : ∃ way, t.descent next? i = way ++ [c] := by
  fun_induction Tree.descent t next? i with
  | case1 i => exact ⟨[], by rw [List.mem_singleton.mp h]; rfl⟩
  | case2 i d hd hlt ih =>
    rcases List.mem_cons.mp h with rfl | h
    · rw [hc] at hd
      cases hd
    · obtain ⟨way, hway⟩ := ih h
      exact ⟨i :: way, by rw [hway]; rfl⟩
  | case3 i d hd hlt =>
    rw [List.mem_singleton.mp h, hd] at hc
    cases hc

/-- What is on a way down but does not begin it comes next to something. -/
theorem exists_next_of_mem_descent {next? : NodeId → Option NodeId} {c : NodeId}
    (h : c ∈ t.descent next? i) (hne : i ≠ c) : ∃ p, next? p = some c := by
  fun_induction Tree.descent t next? i with
  | case1 i => simp [Ne.symm hne] at h
  | case2 i d hd hlt ih =>
    rcases List.mem_cons.mp h with rfl | h
    · exact absurd rfl hne
    · by_cases hdc : d = c
      · exact ⟨i, hdc ▸ hd⟩
      · exact ih h hdc
  | case3 i d hd hlt => simp [Ne.symm hne] at h

/-- **A way down a copy** takes the same turns. -/
theorem Copied.descent (hn : t.InPreorder) (hn' : t'.InPreorder)
    {next? next?' : NodeId → Option NodeId} (hnext : ∀ i, ∀ c ∈ next? i, c ∈ t.children i)
    (hnext' : ∀ j, ∀ c ∈ next?' j, c ∈ t'.children j)
    (hrel : ∀ i j, t.Copied t' i j → Option.Rel (t.Copied t') (next? i) (next?' j))
    (h : t.Copied t' i j) :
    List.Forall₂ (t.Alike t') (t.descent next? i) (t'.descent next?' j) := by
  have hstep : ∀ i j, t.Copied t' i j → ¬ False → Option.Rel (t.Copied t') (next? i) (next?' j) :=
    fun i j h _ => hrel i j h
  obtain ⟨pre, pre', i₀, j₀, hpre, hdescent, hdescent', hend, hstop | ⟨hi, hj⟩⟩ :=
    exists_descent hn hn' hnext hnext' hstep h
  · exact hstop.elim
  · rw [hdescent, hdescent', descent_of_none hi, descent_of_none hj]
    refine List.rel_append ?_ ?_
    · exact hpre.imp fun _ _ hab => hab.2.alike (by simp)
    · exact .cons (hend.alike (by simp)) .nil

/-- **A way down to the site** takes the same turns in the other tree, and goes on with what is new
there. -/
theorem Becomes.descent (hn : t.InPreorder) (hn' : t'.InPreorder) {u : NodeId}
    {next? next?' : NodeId → Option NodeId} (hnext : ∀ i, ∀ c ∈ next? i, c ∈ t.children i)
    (hnext' : ∀ j, ∀ c ∈ next?' j, c ∈ t'.children j)
    (hrel : ∀ i j, t.Becomes t' (some u) new i j → ¬ some u = some i →
      Option.Rel (t.Becomes t' (some u) new) (next? i) (next?' j))
    (hlast : next? u = none) (hmem : u ∈ t.descent next? i) (h : t.Becomes t' (some u) new i j) :
    ∃ way way' j₀, t.descent next? i = way ++ [u] ∧
      t'.descent next?' j = way' ++ t'.descent next?' j₀ ∧
      List.Forall₂ (t.Alike t') way way' ∧ new j₀ := by
  obtain ⟨pre, pre', i₀, j₀, hpre, hdescent, hdescent', hend, hstop⟩ :=
    exists_descent hn hn' hnext hnext' hrel h
  -- The way ends at the site, so it does not stop before.
  have hsite : u = i₀ := by
    rcases hstop with hstop | ⟨hnone, -⟩
    · exact Option.some.inj hstop
    · rw [hdescent, descent_of_none hnone, List.mem_append, List.mem_singleton] at hmem
      rcases hmem with hmem | rfl
      · exact absurd rfl (((List.forall₂_and_left _ _).mp hpre).1 u hmem)
      · rfl
  subst hsite
  rw [descent_of_none hlast] at hdescent
  exact ⟨pre, pre', j₀, hdescent, hdescent', hpre.imp fun _ _ hab => hab.2.alike hab.1,
    hend.of_site rfl⟩

theorem mem_children_of_chainObject? : ∀ i, ∀ c ∈ t.chainObject? i, c ∈ t.children i := by
  intro i c hc
  unfold Tree.chainObject? at hc
  split at hc
  · rcases Option.or_eq_some_iff.mp hc with hfunction | ⟨-, hobject⟩
    · exact (mem_of_child? hfunction).1
    · exact (mem_of_child? hobject).1
  · cases hc

/-- What is left of a copy without parentheses and type assertions is a copy of what is left of the
other one. -/
theorem Copied.stripped (hn : t.InPreorder) (hn' : t'.InPreorder) (h : t.Copied t' i j) :
    t.Copied t' (t.stripped i) (t'.stripped j) := by
  have hrel : ∀ i j, t.Copied t' i j → ¬ False →
      Option.Rel (t.Copied t') (t.wrapped? i) (t'.wrapped? j) := fun i j h _ =>
    h.wrapped? (by simp) (by simp) (by simp)
  obtain ⟨pre, pre', i₀, j₀, -, hdescent, hdescent', hend, hstop | ⟨hi, hj⟩⟩ :=
    exists_descent hn hn' mem_children_of_wrapped? mem_children_of_wrapped? hrel h
  · exact hstop.elim
  · unfold Tree.stripped
    rwa [bottom_eq_of_descent hdescent, bottom_eq_of_descent hdescent', bottom_of_none hi,
      bottom_of_none hj]

namespace Renders

variable {wrap : Bool} {value : NodeId}

/-- A rendered value is no type. -/
theorem kind_ne_type (h : t.Renders t' wrap value j) (hvalue : t.kind value ≠ .type) :
    t'.kind j ≠ .type := by
  unfold Renders at h
  split at h
  · rw [h.1]
    decide
  · rw [(h.alike (by simp)).kind_eq]
    exact hvalue

/-- Without parentheses and type assertions, a rendered value is a copy of what is left of the value
without them. -/
theorem stripped (hn : t.InPreorder) (hn' : t'.InPreorder) (h : t.Renders t' wrap value j)
    (hvalue : t.kind value ≠ .type) : t.Copied t' (t.stripped value) (t'.stripped j) := by
  unfold Renders at h
  split at h
  · obtain ⟨hkind, c, hchildren, hcopy⟩ := h
    have hc : t'.kind c ≠ .type := by
      rw [(hcopy.alike (by simp)).kind_eq]
      exact hvalue
    have hnext : t'.wrapped? j = some c := by
      simp [Tree.wrapped?, hkind, hchildren, hc]
    have hdescent : t'.descent t'.wrapped? j = [j] ++ t'.descent t'.wrapped? c :=
      hn'.descent_of_some hnext (mem_children_of_wrapped? j c hnext)
    have hbottom : t'.stripped j = t'.stripped c := bottom_eq_of_descent hdescent
    rw [hbottom]
    exact hcopy.stripped hn hn'
  · exact h.stripped hn hn'

end Renders

/-! ### The text of the rewrite -/

/-- Whether a value stands in parentheses in the place of a name. -/
def isWrapped (t : Tree) (value usage : NodeId) : Bool :=
  t.needsParentheses value (t.text value) usage ||
    ((t.statementBegunBy? usage).isSome && startsStatementAmbiguously (t.text value))

/-- In the place of a name comes the value, in parentheses or not.  A terminator comes first if the
value would begin a statement, and continue the one before the declaration. -/
theorem substitutedText_eq (t : Tree) (declaration value usage : NodeId) :
    let wrapped := parenthesize (t.isWrapped value usage) (t.text value)
    t.substitutedText declaration value usage =
      if (t.statementBegunBy? usage).any (t.kind · == .expressionStatement) &&
          continuesStatement wrapped && t.needsTerminator declaration then ";" ++ wrapped
      else wrapped := rfl

end Tree

namespace BindingTable

variable {b : BindingTable} {t : Tree} {i : BindingId} {value usage : NodeId}

/-- In the place of a name comes the value, in parentheses or not, and before it perhaps the end of
the statement before. -/
theorem inlineText_eq {declaration : NodeId} (h : t.kind usage ≠ .shorthandProperty) :
    ∃ terminator ∈ ["", ";"], b.inlineText t i declaration value usage =
      terminator ++ parenthesize (t.isWrapped value usage) (t.text value) := by
  have hkind : (t.kind usage == .shorthandProperty) = false := by simpa using h
  rw [inlineText, hkind, if_neg (by simp), Tree.substitutedText_eq]
  split
  · exact ⟨";", by simp, rfl⟩
  · exact ⟨"", by simp, by simp⟩

/-- The edit that puts the value in the place of a name. -/
theorem exists_edit_of_inline {marker : String} {r : Rewrite} (hr : b.inline t marker i = .ok r)
    (husage : b.soleRead? i = some usage) (hvalue : (b.binding i).initializer = some value)
    (hkind : t.kind usage ≠ .shorthandProperty) :
    ∃ terminator ∈ ["", ";"],
      ⟨t.span usage, terminator ++ parenthesize (t.isWrapped value usage) (t.text value)⟩ ∈
        r.edits := by
  obtain ⟨declaration, value', -, hvalue', hedits⟩ := mem_edits_of_inline husage hr
  obtain rfl := Option.some.inj (hvalue.symm.trans hvalue')
  obtain ⟨terminator, hterminator, htext⟩ := inlineText_eq (b := b) (i := i) hkind
  exact ⟨terminator, hterminator, (hedits _).mpr (.inl (htext ▸ rfl))⟩

end BindingTable

end Declutter
