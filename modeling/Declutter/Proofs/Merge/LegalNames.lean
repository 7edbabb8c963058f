import Declutter.Proofs.Merge.NewNames
import Declutter.Proofs.Text.Identifier

/-!
# Whether new names are identifiers

The names that a merge introduces are spelled like identifiers: they are put together of the
characters of identifiers, or are an identifier of the program without its plural ending.  But an
identifier must not be a reserved word.  The name of the records never is, nor is a name with a
number or with `Item` behind it; but the singular of a name may be.

## Main definitions

* `fieldBase` — the field of a collection before it is numbered.
* `MergePlan.IsBareSingular` — the names of a merge that are singulars and nothing else.
* `Alphabet.ascii` — the identifiers of ASCII.

## Main results

* `Alphabet.isIdentifier_singularize` — the singular of an identifier is one.
* `isPlain_groupName`, `isPlain_fieldBase` — the names of records and of fields.
* `MergePlan.introduced_names_legal` — what holds of the names that a merge introduces.
* `introduced_names_reserved` — the exception.
-/

namespace Declutter

/-! ### Singulars -/

/-- What becomes a small letter is that letter or its capital. -/
theorem eq_or_eq_of_toLower (capital : Char) {c small : Char}
    (hcapital : capital.val + ('a'.val - 'A'.val) = small.val) (h : c.toLower = small) :
    c = small ∨ c = capital := by
  unfold Char.toLower at h
  split at h
  · have hval : c.val + ('a'.val - 'A'.val) = small.val := congrArg Char.val h
    exact .inr (Char.ext ((UInt32.add_left_inj _).mp (hval.trans hcapital.symm)))
  · exact .inl h

/-- The letters before which a plural is cut stand in no escape. -/
theorem of_toLower_mem {c : Char} (h : c.toLower ∈ ['s', 'x', 'h', 'i']) :
    isEscapeChar c = false ∧ c.isAlpha = true := by
  simp only [List.mem_cons, List.not_mem_nil, or_false] at h
  rcases h with h | h | h | h
  · rcases eq_or_eq_of_toLower 'S' (by decide) h with rfl | rfl <;> decide
  · rcases eq_or_eq_of_toLower 'X' (by decide) h with rfl | rfl <;> decide
  · rcases eq_or_eq_of_toLower 'H' (by decide) h with rfl | rfl <;> decide
  · rcases eq_or_eq_of_toLower 'I' (by decide) h with rfl | rfl <;> decide

/-- Where a name is cut that ends like a word, but for capitals. -/
theorem exists_cut (before : List Char) (c : Char) (after : List Char) {chars : List Char}
    {word : String} (hword : word.toList = before ++ c :: after)
    (h : word.toList.isSuffixOf (chars.map Char.toLower) = true) :
    ∃ front x rest, chars = front ++ x :: rest ∧ x.toLower = c ∧ rest.length = after.length := by
  obtain ⟨more, hmore⟩ := List.isSuffixOf_iff_suffix.mp h
  rw [hword, ← List.append_assoc] at hmore
  obtain ⟨front, last, rfl, -, hlast⟩ := List.map_eq_append_iff.mp hmore.symm
  obtain ⟨x, rest, rfl, hx, hrest⟩ := List.map_eq_cons_iff.mp hlast
  exact ⟨front, x, rest, rfl, hx, by rw [← hrest, List.length_map]⟩

/-- **How a plural is cut**: before a letter that stands in no escape, and letters of ASCII may be
put in its place. -/
theorem singularize_cases (name : String) : singularize name = name ∨
    ∃ front x rest more, name.toList = front ++ x :: rest ∧ isEscapeChar x = false ∧
      (∀ c ∈ more, c.isAlpha = true) ∧ front ++ more ≠ [] ∧
      singularize name = String.ofList (front ++ more) := by
  unfold singularize
  dsimp only
  split
  · -- `-ies` becomes `-y`.
    rename_i hends
    rw [Bool.and_eq_true] at hends
    obtain ⟨front, x, rest, hname, hx, hrest⟩ := exists_cut [] 'i' ['e', 's'] rfl hends.1
    have hletter := of_toLower_mem (c := x) (by simp [hx])
    refine .inr ⟨front, x, rest, ['y'], hname, hletter.1, by simp, by simp, ?_⟩
    simp [hname, hrest]
  split
  · -- `-es` is cut behind a sibilant.
    rename_i hends
    obtain ⟨front, x, rest, hname, hx, hrest⟩ : ∃ front x rest, name.toList = front ++ x :: rest ∧
        x.toLower ∈ ['s', 'x', 'h', 'i'] ∧ rest.length = 2 := by
      simp only [Bool.or_eq_true] at hends
      rcases hends with ((h | h) | h) | h
      · obtain ⟨front, x, rest, hname, hx, hrest⟩ := exists_cut ['s'] 's' ['e', 's'] rfl h
        exact ⟨front, x, rest, hname, by simp [hx], hrest⟩
      · obtain ⟨front, x, rest, hname, hx, hrest⟩ := exists_cut [] 'x' ['e', 's'] rfl h
        exact ⟨front, x, rest, hname, by simp [hx], hrest⟩
      · obtain ⟨front, x, rest, hname, hx, hrest⟩ := exists_cut ['c'] 'h' ['e', 's'] rfl h
        exact ⟨front, x, rest, hname, by simp [hx], hrest⟩
      · obtain ⟨front, x, rest, hname, hx, hrest⟩ := exists_cut ['s'] 'h' ['e', 's'] rfl h
        exact ⟨front, x, rest, hname, by simp [hx], hrest⟩
    have hletter := of_toLower_mem hx
    refine .inr ⟨front, x, rest, [x], hname, hletter.1, by simpa using hletter.2, by simp, ?_⟩
    simp [hname, hrest, List.take_append, List.take_of_length_le]
  split
  · -- `-s` is cut.
    rename_i hends
    rw [Bool.and_eq_true, Bool.and_eq_true] at hends
    obtain ⟨front, x, rest, hname, hx, hrest⟩ := exists_cut [] 's' [] rfl hends.1.1
    have hletter := of_toLower_mem (c := x) (by simp [hx])
    have hlength := of_decide_eq_true hends.2
    refine .inr ⟨front, x, rest, [], hname, hletter.1, by simp, ?_, ?_⟩
    · rintro hempty
      rw [List.append_nil] at hempty
      simp [hname, hempty, hrest] at hlength
    · simp [hname, hrest]
  · exact .inl rfl

/-- **The singular of an identifier is one.** -/
theorem Alphabet.isIdentifier_singularize {A : Alphabet} {name : String} (h : A.IsIdentifier name) :
    A.IsIdentifier (singularize name) := by
  obtain ⟨value, hvalue⟩ := h
  rcases singularize_cases name with heq | ⟨front, x, rest, more, hname, hx, hmore, hne, heq⟩
  · rw [heq]
    exact ⟨value, hvalue⟩
  · rw [heq]
    exact hvalue.isIdentifier_replace hname hx hmore hne

/-! ### Numbers -/

theorem isIdentifierChar_of_mem_toString {n : Nat} {c : Char} (h : c ∈ (toString n).toList) :
    isIdentifierChar c = true := by
  simp [isIdentifierChar, Char.isAlphanum, isDigit_of_mem_toString h]

theorem isDigit_eq_false_of_isAlpha {c : Char} (h : c.isAlpha = true) : c.isDigit = false := by
  rw [← Bool.not_eq_true]
  intro hdigit
  have hle : c.val ≤ '9'.val := of_decide_eq_true (Bool.and_eq_true_iff.mp hdigit).2
  rcases Bool.or_eq_true_iff.mp h with h | h
  · have hge : 'A'.val ≤ c.val := (of_decide_eq_true h).1
    exact absurd (UInt32.le_trans hge hle) (by decide)
  · have hge : 'a'.val ≤ c.val := of_decide_eq_true (Bool.and_eq_true_iff.mp h).1
    exact absurd (UInt32.le_trans hge hle) (by decide)

/-- A word with something in it that is no small letter is not reserved. -/
theorem notMem_reservedWords {word : String} {c : Char} (hc : c ∈ word.toList)
    (hlower : c.isLower = false) : word ∉ reservedWords := by
  intro hmem
  rw [isLower_of_mem_reservedWords word hmem c hc] at hlower
  cases hlower

/-- A word that ends with a number is not reserved. -/
theorem append_number_notMem (word : String) (n : Nat) :
    word ++ toString n ∉ reservedWords := by
  obtain ⟨c, rest, hdigits⟩ := List.exists_cons_of_ne_nil (l := (toString n).toList) (by
    rw [Nat.toString_eq_repr, Nat.toList_repr]
    exact Nat.toDigits_ne_nil)
  have hc : c ∈ (toString n).toList := by
    rw [hdigits]
    exact .head _
  refine notMem_reservedWords (c := c) ?_ ?_
  · rw [String.toList_append]
    exact List.mem_append_right _ hc
  · rw [← Bool.not_eq_true]
    intro hlower
    have halpha : c.isAlpha = true := Bool.or_eq_true_iff.mpr (.inr hlower)
    cases (isDigit_of_mem_toString hc).symm.trans (isDigit_eq_false_of_isAlpha halpha)

namespace Alphabet

variable {A : Alphabet} {base name value : String}

theorem Spells.numbered (h : A.Spells base value) (n : Nat) :
    A.Spells (numbered base n) (value ++ toString n) :=
  h.append (.of_part fun c hc => A.part_of_isDigit c (isDigit_of_mem_toString hc))

/-- A fresh name is an identifier, if it is made from one. -/
theorem IsIdentifier.fresh (h : A.IsIdentifier base) (taken : List String) :
    A.IsIdentifier (fresh base taken) := by
  obtain ⟨value, hvalue⟩ := h
  exact fresh_induction ⟨value, hvalue⟩ (fun n => ⟨_, hvalue.numbered n⟩) taken

/-- **A fresh name that is reserved** has no number. -/
theorem IsIdentifier.fresh_eq (h : A.IsIdentifier base) {taken : List String}
    (hvalue : A.Spells (Declutter.fresh base taken) value) (hreserved : value ∈ reservedWords) :
    Declutter.fresh base taken = base := by
  obtain ⟨word, hword⟩ := h
  refine fresh_eq_of_ne fun n heq => ?_
  rw [heq] at hvalue
  rw [hvalue.unique (hword.numbered n)] at hreserved
  exact append_number_notMem word n hreserved

end Alphabet

/-! ### The names of records and fields -/

theorem isPlain_toIdentifier (name : String) {fallback : String} (h : IsPlain fallback) :
    IsPlain (toIdentifier name fallback) := by
  have hall : ∀ c ∈ name.toList.filter isIdentifierChar, isIdentifierChar c = true :=
    fun c hc => (List.mem_filter.mp hc).2
  unfold toIdentifier
  split
  · exact h
  · rename_i c rest hfilter
    rw [hfilter] at hall
    split
    · exact h.append (by simpa using hall)
    · rename_i hdigit
      exact ⟨by simpa using hdigit, by simpa using hall⟩

theorem isPlain_numbered {base : String} (h : IsPlain base) (n : Nat) : IsPlain (numbered base n) :=
  h.append fun _ => isIdentifierChar_of_mem_toString

theorem isPlain_fresh {base : String} (h : IsPlain base) (taken : List String) :
    IsPlain (fresh base taken) :=
  fresh_induction h (isPlain_numbered h) taken

/-- The name of a collection of records is plain. -/
theorem isPlain_groupName (anchor : String) (taken : List String) :
    IsPlain (groupName anchor taken) :=
  isPlain_fresh (isPlain_toIdentifier _ (by decide)) taken

/-- The name of a collection of records is not reserved. -/
theorem groupName_notMem_reservedWords (anchor : String) (taken : List String) :
    groupName anchor taken ∉ reservedWords := by
  obtain ⟨front, hbase⟩ := exists_groupBase_eq anchor
  have hrecords : 'R' ∈ (groupBase anchor).toList := by
    rw [hbase, String.toList_append]
    exact List.mem_append_right _ (by decide)
  rw [groupName_eq]
  refine notMem_reservedWords (c := 'R') ?_ (by decide)
  refine fresh_induction (P := fun name => 'R' ∈ name.toList) hrecords (fun n => ?_) taken
  rw [numbered, String.toList_append]
  exact List.mem_append_left _ hrecords

/-- The field of a collection before it is numbered. -/
def fieldBase (collection : String) : String :=
  let base := toIdentifier (singularize collection) "value"
  if base == collection then base ++ "Item" else base

theorem fieldName_eq (collection : String) (taken : List String) :
    fieldName collection taken = fresh (fieldBase collection) taken := rfl

theorem isPlain_fieldBase (collection : String) : IsPlain (fieldBase collection) := by
  have hbase : IsPlain (toIdentifier (singularize collection) "value") :=
    isPlain_toIdentifier _ (by decide)
  unfold fieldBase
  dsimp only
  split
  · exact hbase.append (List.all_eq_true.mp (by decide))
  · exact hbase

/-- **A field that is reserved** is the singular of the name of its collection, and nothing else. -/
theorem fieldName_eq_of_reserved {collection : String} {taken : List String}
    (h : fieldName collection taken ∈ reservedWords) :
    fieldName collection taken = toIdentifier (singularize collection) "value" := by
  rw [fieldName_eq] at h ⊢
  have hbare : fresh (fieldBase collection) taken = fieldBase collection := by
    refine fresh_eq_of_ne fun n heq => ?_
    rw [heq] at h
    exact append_number_notMem _ n h
  rw [hbare] at h ⊢
  unfold fieldBase at h ⊢
  dsimp only at h ⊢
  split
  · rename_i hsame
    rw [if_pos hsame] at h
    refine absurd h (notMem_reservedWords (c := 'I') ?_ (by decide))
    rw [String.toList_append]
    exact List.mem_append_right _ (by decide)
  · rfl

/-! ### What a merge introduces -/

namespace MergePlan

/-- Whether a name is a singular and nothing else: that of the name of the anchor, or that of the
name of a member, reduced to the characters of an identifier. -/
def IsBareSingular (p : MergePlan) (name : String) : Prop :=
  name = singularize (p.nameOf p.group.anchor) ∨
    ∃ target, p.hasMember target = true ∧
      name = toIdentifier (singularize (p.table.binding target).name) "value"

/-- A field that is chosen is made from the name of its member. -/
theorem exists_fieldName_of_chooseFields {nameOf : BindingId → String} {members : List BindingId}
    {taken : List String} {entry : BindingId × String}
    (h : entry ∈ chooseFields nameOf taken members) :
    ∃ taken', entry.2 = fieldName (nameOf entry.1) taken' := by
  induction members generalizing taken with
  | nil => cases h
  | cons i rest ih =>
    rw [chooseFields] at h
    rcases List.mem_cons.mp h with rfl | h
    · exact ⟨taken, rfl⟩
    · exact ih h

/-- The name of a binding is an identifier, if names are; without binding there is no name. -/
theorem isIdentifier_or_eq_empty {A : Alphabet} {t : Tree}
    (hnames : ∀ n < t.nodes.size, t.isReferenceNode n = true → A.IsIdentifier (t.text n))
    (i : BindingId) : A.IsIdentifier ((BindingTable.ofTree t).binding i).name ∨
      ((BindingTable.ofTree t).binding i).name = "" := by
  rcases Nat.lt_or_ge i (BindingTable.ofTree t).bindings.size with hlt | hge
  · have hspelled := BindingTable.spelled_ofTree t hlt
    refine .inl ?_
    rw [hspelled.name_eq]
    exact hnames _ (Tree.lt_size_of_isReferenceNode hspelled.isReferenceNode)
      hspelled.isReferenceNode
  · refine .inr ?_
    rw [BindingTable.binding, Array.getD_eq_getD_getElem?, Array.getElem?_eq_none hge]
    rfl

/-- A parameter that is made up is an identifier, and reserved only without a number. -/
theorem parameter_legal {A : Alphabet} {anchor : String} (names : List String)
    (hanchor : A.IsIdentifier anchor ∨ anchor = "") :
    let name := fresh (if singularize anchor == anchor then "item" else singularize anchor) names
    A.IsIdentifier name ∧
      ∀ value, A.Spells name value → value ∈ reservedWords → name = singularize anchor := by
  dsimp only
  have hitem : IsPlain "item" := by decide
  by_cases hsame : (singularize anchor == anchor) = true
  · rw [if_pos hsame]
    have hidentifier : A.IsIdentifier "item" := ⟨_, hitem.spells A⟩
    refine ⟨hidentifier.fresh names, fun value hvalue hreserved => ?_⟩
    have heq := hidentifier.fresh_eq hvalue hreserved
    rw [heq] at hvalue
    rw [hvalue.unique (hitem.spells A)] at hreserved
    exact absurd hreserved (by decide)
  · rw [if_neg hsame]
    have hidentifier : A.IsIdentifier (singularize anchor) := by
      rcases hanchor with h | rfl
      · exact Alphabet.isIdentifier_singularize h
      · exact absurd (by decide) hsame
    exact ⟨hidentifier.fresh names, fun value => hidentifier.fresh_eq⟩

/-- **The names that a merge introduces are spelled like identifiers**, if those of the program are.
One that is reserved is a bare singular; the name of the records never is. -/
theorem introduced_names_legal (A : Alphabet) (l : Language) (source : Bytes) (root : Concrete)
    (pure : List String) (marker : String) (g : Group) :
    let t := Tree.ofConcrete l source root
    let b := BindingTable.ofTree t
    let a := Arena.ofTree b t
    let p := ofGroup t b a pure marker t.spelledNames g
    (∀ n < t.nodes.size, t.isReferenceNode n = true → A.IsIdentifier (t.text n)) →
      ∀ r, p.rewrite = .ok r →
        (∀ value, A.Spells p.recordName value → value ∉ reservedWords) ∧
        ∀ name, p.Introduces r.edits name → A.IsIdentifier name ∧
          ∀ value, A.Spells name value → value ∈ reservedWords → p.IsBareSingular name := by
  intro t b a p hnames r hr
  have hplain : IsPlain p.recordName := isPlain_groupName _ _
  have hrecord : ∀ value, A.Spells p.recordName value → value ∉ reservedWords := by
    intro value hvalue
    rw [hvalue.unique (hplain.spells A)]
    exact groupName_notMem_reservedWords _ _
  refine ⟨hrecord, fun name hname => ?_⟩
  cases hname with
  | record => exact ⟨⟨_, hplain.spells A⟩, fun value hvalue h => absurd h (hrecord value hvalue)⟩
  | parameter _ hnone _ _ =>
    rw [viewParameter_eq hnone]
    obtain ⟨hidentifier, hbare⟩ := parameter_legal p.names
      (isIdentifier_or_eq_empty hnames (p.bindingId p.group.anchor))
    exact ⟨hidentifier, fun value hvalue h => .inl (hbare value hvalue h)⟩
  | taken _ _ _ _ hname =>
    obtain ⟨⟨target, hmember, -, rfl⟩, -⟩ := of_mem_newLocals hname
    have hapart : p.FieldsApart := fieldsApart_ofGroup t b a pure marker t.spelledNames g
    obtain ⟨taken, hfield⟩ := exists_fieldName_of_chooseFields (hapart.mem_fields hmember)
    have hfield : p.fieldOf target = fieldName (b.binding target).name taken := hfield
    have hplain : IsPlain (p.fieldOf target) := by
      rw [hfield, fieldName_eq]
      exact isPlain_fresh (isPlain_fieldBase _) taken
    refine ⟨⟨_, hplain.spells A⟩, fun value hvalue h => .inr ⟨target, hmember, ?_⟩⟩
    rw [hvalue.unique (hplain.spells A), hfield] at h
    rw [hfield]
    exact fieldName_eq_of_reserved h

end MergePlan

/-! ### A program -/

/-- The identifiers of ASCII. -/
def Alphabet.ascii : Alphabet where
  start c := isIdentifierChar c && !c.isDigit
  part := isIdentifierChar
  part_of_start _ h := (Bool.and_eq_true_iff.mp h).1
  start_of_isAlpha c h := by
    simp [isIdentifierChar, Char.isAlphanum, h, isDigit_eq_false_of_isAlpha h]
  start_underscore := rfl
  start_dollar := rfl
  part_of_isDigit _ h := by simp [isIdentifierChar, Char.isAlphanum, h]
  part_backslash := rfl

namespace Sample

/-- The declaration `const a = item.slice();` of a copy, with names of some length, at an offset. -/
def copyTree (k m n : Nat) : Concrete :=
  construct "lexical_declaration" k (k + m + n + 18) [
    token "const" k (some "kind"),
    construct "variable_declarator" (k + 6) (k + m + n + 17) [
      construct "identifier" (k + 6) (k + m + 6) [] (some "name"), token "=" (k + m + 7),
      construct "call_expression" (k + m + 9) (k + m + n + 17) [
        construct "member_expression" (k + m + 9) (k + m + n + 15) [
          construct "identifier" (k + m + 9) (k + m + n + 9) [] (some "object"),
          token "." (k + m + n + 9),
          construct "property_identifier" (k + m + n + 10) (k + m + n + 15) [] (some "property")]
          (some "function"),
        construct "arguments" (k + m + n + 15) (k + m + n + 17)
          [token "(" (k + m + n + 15), token ")" (k + m + n + 16)] (some "arguments")]
        (some "value")],
    token ";" (k + m + n + 17)]

/-- Two copies of one collection.  The singulars of the collection and of the second copy are
reserved words. -/
def classes : Bytes := Utf8.encode ("const classes = get();\nconst a = classes.slice();\n" ++
  "const cases = classes.slice();\na.forEach((v, i) => f(v, cases[i]));\n")

/-- The tree of `classes`. -/
def classesTree : Concrete :=
  construct "program" 0 118 [
    listDeclaration 0 7, copyTree 23 1 7, copyTree 50 5 7,
    iterationTree 81 11 [
      nameTree 103, token "," 104,
      construct "subscript_expression" 106 114 [
        construct "identifier" 106 111 [] (some "object"), token "[" 111,
        nameTree 112 (some "index"), token "]" 113]]]

/-- The iteration over the first copy. -/
def classesContext : ZipContext := ⟨24, 1, 4, 33, .callback "forEach" 26 29⟩

end Sample

/-- What the merge of the copies introduces. -/
theorem sample_classes :
    let t := Tree.ofConcrete .javascript Sample.classes Sample.classesTree
    let b := BindingTable.ofTree t
    let a := Arena.ofTree b t
    let g : Group := ⟨[1, 2], 0, .derivedViews, none, false⟩
    let p := MergePlan.ofGroup t b a [] "" t.spelledNames g
    (g ∈ a.groups b t ∧ ∀ n < t.nodes.size, t.isReferenceNode n = true → IsPlain (t.text n)) ∧
      ∃ r, p.rewrite = .ok r ∧
        (p.recordName = "classRecords" ∧ p.Introduces r.edits "class" ∧
          p.Introduces r.edits "case") ∧
        (∃ e ∈ r.edits, e.replacement = "const classRecords = classes.map(class => " ++
          "(\x7b aItem: class, case: class \x7d));") ∧
        ∃ e ∈ r.edits, e.replacement = "\x7b aItem: v, case \x7d" := by
  intro t b a g p
  have hfacts : (a.groups b t = [g] ∧ a.contexts = [Sample.classesContext] ∧
        ∀ n < t.nodes.size, t.isReferenceNode n = true → IsPlain (t.text n)) ∧
      (p.recordName = "classRecords" ∧ p.viewParameter = "class" ∧
        ∀ m ∈ p.removed, (a.collection m).derivation = .map → p.callbackParameter? m = none) ∧
      (p.concerns Sample.classesContext = true ∧
        ∀ first ∈ (t.functionParameters 29).head?,
          "case" ∈ p.newLocals Sample.classesContext first) ∧
      ∃ r ∈ p.rewrite.toOption,
        (∃ e ∈ r.edits, e.replacement = "const classRecords = classes.map(class => " ++
          "(\x7b aItem: class, case: class \x7d));") ∧
        ∃ e ∈ r.edits, e.replacement = "\x7b aItem: v, case \x7d" := by
    decide +kernel
  obtain ⟨⟨hgroups, hcontexts, hplain⟩, ⟨hrecord, hparameter, hnone⟩, ⟨hconcerns, hlocal⟩, r, hr,
    htexts⟩ := hfacts
  have hr := Attempt.toOption_eq_some.mp hr
  have hcontext : Sample.classesContext ∈ a.contexts := by
    rw [hcontexts]
    exact .head _
  obtain ⟨first, hfirst, hpattern⟩ := MergePlan.exists_pattern hr hcontext hconcerns rfl
  refine ⟨⟨by rw [hgroups]; exact .head _, hplain⟩, r, hr, ⟨hrecord, ?_, ?_⟩, htexts⟩
  · exact hparameter ▸ MergePlan.introduces_viewParameter hr rfl hnone
  · exact .taken hcontext rfl hfirst hpattern (hlocal first hfirst)

/-- The names that are introduced are spelled like identifiers, and that of the records is not
reserved. -/
theorem sample_names_legal :
    let t := Tree.ofConcrete .javascript Sample.classes Sample.classesTree
    let b := BindingTable.ofTree t
    let a := Arena.ofTree b t
    let g : Group := ⟨[1, 2], 0, .derivedViews, none, false⟩
    let p := MergePlan.ofGroup t b a [] "" t.spelledNames g
    (∀ n < t.nodes.size, t.isReferenceNode n = true →
        Alphabet.ascii.IsIdentifier (t.text n)) ∧
      ∃ r, p.rewrite = .ok r ∧
        (∀ value, Alphabet.ascii.Spells "classRecords" value → value ∉ reservedWords) ∧
        ∀ name ∈ ["class", "case"], p.Introduces r.edits name ∧
          Alphabet.ascii.IsIdentifier name ∧ p.IsBareSingular name := by
  intro t b a g p
  obtain ⟨⟨-, hplain⟩, r, hr, ⟨hrecord, hclass, hcase⟩, -⟩ := sample_classes
  have hnames : ∀ n < t.nodes.size, t.isReferenceNode n = true →
      Alphabet.ascii.IsIdentifier (t.text n) :=
    fun n hn href => ⟨_, (hplain n hn href).spells _⟩
  obtain ⟨hfree, hlegal⟩ := MergePlan.introduced_names_legal .ascii .javascript Sample.classes
    Sample.classesTree [] "" g hnames r hr
  refine ⟨hnames, r, hr, hrecord ▸ hfree, fun name hname => ?_⟩
  have hword : p.Introduces r.edits name ∧ IsPlain name ∧ name ∈ reservedWords := by
    simp only [List.mem_cons, List.not_mem_nil, or_false] at hname
    rcases hname with rfl | rfl
    · exact ⟨hclass, by decide, by decide⟩
    · exact ⟨hcase, by decide, by decide⟩
  obtain ⟨hintroduced, hplain, hreserved⟩ := hword
  obtain ⟨hidentifier, hbare⟩ := hlegal name hintroduced
  exact ⟨hintroduced, hidentifier, hbare name (hplain.spells _) hreserved⟩

/-- **The exception.**  The singular of `classes` becomes the parameter of the function that derives
the records, and the singular of `cases` a name in a callback.  Both are reserved words, so what the
merge writes is no program. -/
theorem introduced_names_reserved :
    let t := Tree.ofConcrete .javascript Sample.classes Sample.classesTree
    let b := BindingTable.ofTree t
    let a := Arena.ofTree b t
    let g : Group := ⟨[1, 2], 0, .derivedViews, none, false⟩
    let p := MergePlan.ofGroup t b a [] "" t.spelledNames g
    g ∈ a.groups b t ∧ ∃ r, p.rewrite = .ok r ∧
      (∀ name ∈ ["class", "case"], p.Introduces r.edits name ∧
        Alphabet.ascii.Spells name name ∧ name ∈ reservedWords) ∧
      (∃ e ∈ r.edits, e.replacement = "const classRecords = classes.map(class => " ++
        "(\x7b aItem: class, case: class \x7d));") ∧
      ∃ e ∈ r.edits, e.replacement = "\x7b aItem: v, case \x7d" := by
  intro t b a g p
  obtain ⟨⟨hg, -⟩, r, hr, ⟨-, hclass, hcase⟩, htexts⟩ := sample_classes
  refine ⟨hg, r, hr, fun name hname => ?_, htexts⟩
  simp only [List.mem_cons, List.not_mem_nil, or_false] at hname
  rcases hname with rfl | rfl
  · exact ⟨hclass, IsPlain.spells (by decide) _, by decide⟩
  · exact ⟨hcase, IsPlain.spells (by decide) _, by decide⟩

end Declutter
