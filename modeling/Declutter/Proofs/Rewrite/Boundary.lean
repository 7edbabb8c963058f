import Declutter.Proofs.Rewrite.Callee
import Declutter.Proofs.Rewrite.Result

/-!
# Inlining behind a sign or a slash

A plus, a minus or a slash means one thing alone and another thing twice: `--` is no two minuses,
and `//` begins a comment.  So where a usage stands right behind such a character, and the value in
its place begins with the same one, the two are read together.

The question after parentheses looks at the text of a value in one place only, behind a unary plus
or minus.  In all other places levels are compared.  Behind a binary operator, a value that begins
with the character of the operator is often a unary expression or a literal, which bind more tightly
than any binary operator, so it goes there without parentheses.

## Main definitions

* `Bytes.doubles` — whether the same of these characters stands on both sides of a boundary.
* `Tree.isGuarded` — whether a terminator comes first in the place of a usage.

## Main results

* `Tree.doubles_substitutedText` — when what takes the place of a name doubles the byte before.
* `BindingTable.inlined_value_doubles` — which rewrites double it, by the place of the usage.
* `BindingTable.inlined_regex_begins_comment` — a division that becomes a comment.
-/

namespace Declutter

/-- The characters that mean another thing when they are doubled: `+`, `-` and `/`. -/
def doubledCodes : List Nat := [43, 45, 47]

/-- Whether one byte string ends, and another one begins, with the same of these characters. -/
def Bytes.doubles (left right : Bytes) : Bool :=
  doubledCodes.any fun n => left.getLast? == some (.ofNat n) && right.head? == some (.ofNat n)

/-- A unary expression binds more tightly than any binary operator. -/
theorem binaryPrecedence_lt_unary (operator : String) :
    binaryPrecedence operator < Precedence.unary := by
  have hlevels : ∀ o ∈ binaryPrecedenceTable, o.2 < Precedence.unary := by decide
  unfold binaryPrecedence
  cases hlookup : binaryPrecedenceTable.lookup operator with
  | none => decide
  | some level =>
    obtain ⟨before, after, htable, -⟩ := List.lookup_eq_some_iff.mp hlookup
    exact hlevels (operator, level) (by rw [htable]; simp)

/-! ### How texts begin -/

section

variable {before : Bytes} {s : String}

theorem doubles_encode_iff : Bytes.doubles before (Utf8.encode s) = true ↔
    ∃ n ∈ doubledCodes, before.getLast? = some (.ofNat n) ∧
      s.toList.head? = some (.ofNat n) := by
  have hsmall : ∀ n ∈ doubledCodes, n < 0x80 := by decide
  simp only [Bytes.doubles, List.any_eq_true, Bool.and_eq_true, beq_iff_eq]
  constructor
  · rintro ⟨n, hn, hlast, hfirst⟩
    exact ⟨n, hn, hlast, (Utf8.head?_encode_iff s (hsmall n hn)).mp hfirst⟩
  · rintro ⟨n, hn, hlast, hfirst⟩
    exact ⟨n, hn, hlast, (Utf8.head?_encode_iff s (hsmall n hn)).mpr hfirst⟩

/-- A text that begins with another character doubles nothing. -/
theorem doubles_cons_eq_false {c : Char} {cs : List Char} (hs : s.toList = c :: cs)
    (hc : ∀ n ∈ doubledCodes, c ≠ .ofNat n) : Bytes.doubles before (Utf8.encode s) = false := by
  rw [← Bool.not_eq_true, doubles_encode_iff]
  rintro ⟨n, hn, -, hfirst⟩
  rw [hs, List.head?_cons, Option.some.injEq] at hfirst
  exact hc n hn hfirst

/-- What doubles a character continues a statement. -/
theorem continuesStatement_of_doubles (h : Bytes.doubles before (Utf8.encode s) = true) :
    continuesStatement s = true := by
  obtain ⟨n, hn, -, hfirst⟩ := doubles_encode_iff.mp h
  have hcodes : ∀ n ∈ doubledCodes, n ∈ [40, 91, 96, 43, 45, 47] := by decide
  exact Bytes.continuesStatement_iff.mpr ⟨n, hcodes n hn, hfirst⟩

/-- What doubles a character is no block and no declaration. -/
theorem startsStatementAmbiguously_of_doubles (h : Bytes.doubles before (Utf8.encode s) = true) :
    startsStatementAmbiguously s = false := by
  obtain ⟨n, hn, -, hfirst⟩ := doubles_encode_iff.mp h
  obtain ⟨cs, hcs⟩ := List.head?_eq_some_iff.mp hfirst
  have hblank : ∀ n ∈ doubledCodes, Text.isBlank (.ofNat n) = false := by decide
  have hstrip : (Text.stripStart s).toList = .ofNat n :: cs := by
    simp [Text.stripStart, hcs, hblank n hn]
  have hletters : ∀ n ∈ doubledCodes, ∀ c ∈ ['\x7b', 'f', 'c', 'a', 'l'], c ≠ .ofNat n := by
    simp [doubledCodes]
  have hletter : ∀ c ∈ ['\x7b', 'f', 'c', 'a', 'l'], c ≠ .ofNat n := hletters n hn
  simp only [List.forall_mem_cons] at hletter
  simp [startsStatementAmbiguously, opensWith, Text.beginsWith, List.isPrefixOf, hstrip, hletter]

/-- What doubles a plus or a minus begins with it. -/
theorem beginsWith_of_doubles {op : String} (hop : op = "+" ∨ op = "-")
    (hbefore : before.getLast? = (Utf8.encode op).getLast?)
    (h : Bytes.doubles before (Utf8.encode s) = true) : Text.beginsWith s op = true := by
  obtain ⟨n, hn, hlast, hfirst⟩ := doubles_encode_iff.mp h
  obtain ⟨cs, hcs⟩ := List.head?_eq_some_iff.mp hfirst
  have hcodes : ∀ n ∈ doubledCodes, ∀ o ∈ ["+", "-"],
      some (UInt8.ofNat n) = (Utf8.encode o).getLast? → o.toList = [.ofNat n] := by decide
  have hchar : op.toList = [.ofNat n] :=
    hcodes n hn op (by simpa using hop) (hlast.symm.trans hbefore)
  rw [Text.beginsWith, hchar, hcs]
  simp

/-- Only the beginning of a text decides. -/
theorem doubles_append (hs : s ≠ "") (rest : String) :
    Bytes.doubles before (Utf8.encode (s ++ rest)) = Bytes.doubles before (Utf8.encode s) := by
  have hchars : s.toList ≠ [] := by simpa using hs
  have hfirst : (s ++ rest).toList.head? = s.toList.head? := by
    rw [String.toList_append, List.head?_append_of_ne_nil _ hchars]
  rw [Bool.eq_iff_iff, doubles_encode_iff, doubles_encode_iff, hfirst]

/-- Parentheses double nothing. -/
theorem doubles_parenthesize : Bytes.doubles before (Utf8.encode (parenthesize true s)) = false := by
  have hs : (parenthesize true s).toList = '(' :: (s ++ ")").toList := by
    simp [parenthesize]
  exact doubles_cons_eq_false hs (by decide)

/-- A terminator doubles nothing. -/
theorem doubles_terminator : Bytes.doubles before (Utf8.encode (";" ++ s)) = false := by
  have hs : (";" ++ s).toList = ';' :: s.toList := by
    simp
  exact doubles_cons_eq_false hs (by decide)

end

namespace Tree

variable {t : Tree} {d p u value : NodeId}

/-! ### Values in the place of names -/

/-- Whether a terminator comes first when a value that continues a statement takes the place of a
usage. -/
def isGuarded (t : Tree) (d u : NodeId) : Bool :=
  (t.begunStatement? u).isSome && t.needsTerminator d

theorem isSome_begunStatement :
    (t.begunStatement? u).isSome =
      (t.statementBegunBy? u).any (t.kind · == .expressionStatement) := by
  unfold begunStatement?
  cases t.statementBegunBy? u with
  | none => rfl
  | some s => by_cases hs : t.kind s = .expressionStatement <;> simp [Option.filter, hs]

/-- **What takes the place of a name** doubles the byte before exactly if the value does, and has
neither parentheses nor a terminator before it. -/
theorem doubles_substitutedText (before : Bytes) :
    Bytes.doubles before (Utf8.encode (t.substitutedText d value u)) =
      (Bytes.doubles before (Utf8.encode (t.text value)) &&
        !t.needsParentheses value (t.text value) u && !t.isGuarded d u) := by
  rw [substitutedText_eq]
  by_cases hvalue : Bytes.doubles before (Utf8.encode (t.text value)) = true
  · rw [isWrapped, hvalue, startsStatementAmbiguously_of_doubles hvalue, Bool.and_false,
      Bool.or_false, Bool.true_and]
    cases t.needsParentheses value (t.text value) u with
    | true =>
      split
      · exact doubles_terminator
      · exact doubles_parenthesize
    | false =>
      have hplain : parenthesize false (t.text value) = t.text value := rfl
      rw [hplain, continuesStatement_of_doubles hvalue, ← isSome_begunStatement, Bool.and_true]
      cases hguard : t.isGuarded d u with
      | true =>
        rw [isGuarded] at hguard
        rw [if_pos hguard, doubles_terminator]
        rfl
      | false =>
        rw [isGuarded] at hguard
        rw [if_neg (by simp [hguard]), hvalue]
        rfl
  · rw [Bool.eq_false_of_not_eq_true hvalue, Bool.false_and, Bool.false_and]
    split
    · exact doubles_terminator
    · unfold parenthesize
      split
      · exact doubles_parenthesize
      · exact Bool.eq_false_of_not_eq_true hvalue

/-- **Behind a unary plus or minus**, a value that begins with the same one gets parentheses. -/
theorem InPreorder.needsParentheses_of_unary (hn : t.InPreorder) {text : String}
    (hp : t.kind p = .unary) (hu : u ∈ t.children p)
    (hop : t.operatorText p = "+" ∨ t.operatorText p = "-")
    (htext : Text.beginsWith text (t.operatorText p) = true) :
    t.needsParentheses value text u = true := by
  rw [needsParentheses, hn.parent_of_mem p u hu]
  rcases hop with hop | hop
  · rw [hop] at htext
    simp [hp, hop, htext]
  · rw [hop] at htext
    simp [hp, hop, htext]

/-- **On the right of a binary operator**, what binds as tightly as a unary expression gets no
parentheses. -/
theorem InPreorder.needsParentheses_on_right (hn : t.InPreorder) (text : String)
    (hp : t.kind p = .binary) (hu : t.child? p "right" = some u)
    (hvalue : Precedence.unary ≤ t.precedence value) : t.needsParentheses value text u = false := by
  obtain ⟨hmem, hfield⟩ := mem_of_child? hu
  have hleft : t.hasField u "left" = false := by
    rw [hasField, beq_iff_eq] at hfield
    simp [hasField, hfield]
  have hlt := binaryPrecedence_lt_unary (t.operatorText p)
  have hkind : t.kind value ≠ .binary := by
    intro hkind
    have hlevel : t.precedence value = binaryPrecedence (t.operatorText value) := by
      simp [precedence, hkind]
    have hlt := binaryPrecedence_lt_unary (t.operatorText value)
    omega
  -- Neither the order of levels nor the exceptions of the operators are an obstacle.
  have hside : t.needsParenthesesInBinary value p false = false := by
    simp only [needsParenthesesInBinary, beq_eq_false_iff_ne.mpr hkind, Bool.false_and,
      Bool.false_eq_true, if_false]
    split
    · exact decide_eq_false (by omega)
    · exact decide_eq_false (by omega)
  rw [needsParentheses, hn.parent_of_mem p u hmem]
  simp [hp, hleft, hside]

/-- Behind a unary plus or minus, the sign is not doubled. -/
theorem InPreorder.doubles_of_unary (hn : t.InPreorder) {before : Bytes} (hp : t.kind p = .unary)
    (hu : u ∈ t.children p) (hop : t.operatorText p = "+" ∨ t.operatorText p = "-")
    (hbefore : before.getLast? = (Utf8.encode (t.operatorText p)).getLast?) :
    Bytes.doubles before (Utf8.encode (t.substitutedText d value u)) = false := by
  rw [doubles_substitutedText]
  by_cases halike : Bytes.doubles before (Utf8.encode (t.text value)) = true
  · have hbegins := beginsWith_of_doubles hop hbefore halike
    rw [hn.needsParentheses_of_unary hp hu hop hbegins]
    simp
  · rw [Bool.eq_false_of_not_eq_true halike]
    rfl

/-- On the right of a binary operator, only a terminator keeps apart what binds tightly. -/
theorem InPreorder.doubles_on_right (hn : t.InPreorder) (before : Bytes) (hp : t.kind p = .binary)
    (hu : t.child? p "right" = some u) (hvalue : Precedence.unary ≤ t.precedence value) :
    Bytes.doubles before (Utf8.encode (t.substitutedText d value u)) =
      (Bytes.doubles before (Utf8.encode (t.text value)) && !t.isGuarded d u) := by
  rw [doubles_substitutedText, hn.needsParentheses_on_right _ hp hu hvalue, Bool.not_false,
    Bool.and_true]

end Tree

/-- **Inlining behind a sign or a slash.**  A rewrite doubles the byte before the usage exactly if
the value begins with it and goes there without parentheses and without a terminator before it.
Behind a unary plus or minus it never does.  On the right of a binary operator, no parentheses keep
a value apart that binds as tightly as a unary expression.  A shorthand property begins with its
name.  Unless the usage begins a statement, what the rewrite doubles is doubled in the result. -/
theorem BindingTable.inlined_value_doubles (l : Language) (source : Bytes) (root : Concrete)
    (marker : String) {i : BindingId} {u d value : NodeId} {r : Rewrite} :
    let t := Tree.ofConcrete l source root
    let b := ofTree t
    b.Substitutes t marker i d value u r →
    let before := t.source.take (t.span u).start
    let text := b.inlineText t i d value u
    let doubled := Bytes.doubles before (Utf8.encode text)
    let alike := Bytes.doubles before (Utf8.encode (t.text value))
    ⟨t.span u, text⟩ ∈ r.edits ∧
    (t.kind u ≠ .shorthandProperty →
      doubled = (alike && !t.needsParentheses value (t.text value) u && !t.isGuarded d u) ∧
      (∀ p, t.kind p = .unary → u ∈ t.children p →
        t.operatorText p = "+" ∨ t.operatorText p = "-" →
        before.getLast? = (Utf8.encode (t.operatorText p)).getLast? → doubled = false) ∧
      ∀ p, t.kind p = .binary → t.child? p "right" = some u →
        Precedence.unary ≤ t.precedence value → doubled = (alike && !t.isGuarded d u)) ∧
    (t.kind u = .shorthandProperty →
      doubled = Bytes.doubles before (Utf8.encode ((b.binding i).name ++ ": "))) ∧
    ∀ policy, t.Spaced → t.Arranged → b.isSingleUse t policy i = true →
      t.begunStatement? u = none →
        ∃ before', (Edit.applyAll t.source r.edits).1 =
            before' ++ Utf8.encode text ++ t.source.drop (t.span u).stop ∧
          Bytes.doubles before' (Utf8.encode text) = doubled := by
  intro t b h before text doubled alike
  have hn : t.InPreorder := Tree.inPreorder_ofConcrete l source root
  refine ⟨h.mem_edits, ?_, ?_, ?_⟩
  · intro hkind
    have hdoubled : doubled =
        Bytes.doubles before (Utf8.encode (t.substitutedText d value u)) := by
      show Bytes.doubles before (Utf8.encode (b.inlineText t i d value u)) = _
      rw [inlineText, if_neg (by simpa using hkind)]
    rw [hdoubled]
    refine ⟨Tree.doubles_substitutedText before, ?_, ?_⟩
    · intro p hp hu hop hbefore
      exact hn.doubles_of_unary hp hu hop hbefore
    · intro p hp hu hlevel
      exact hn.doubles_on_right before hp hu hlevel
  · intro hkind
    show Bytes.doubles before (Utf8.encode (b.inlineText t i d value u)) = _
    have hne : (b.binding i).name ++ ": " ≠ "" := by
      rw [ne_eq, String.append_eq_empty_iff]
      simp
    rw [inlineText, if_pos (by simpa using hkind), Tree.expandedProperty, doubles_append hne]
  · intro policy hs ha hsingle hbegun
    refine ⟨_, h.applyAll_eq hn hs ha hsingle, ?_⟩
    show Bytes.doubles _ _ = Bytes.doubles _ _
    rw [Bytes.doubles, h.getLast?_before hn hs ha hsingle hbegun]
    rfl

/-! ### Two programs -/

namespace Sample

/-- The tree of a minus before something. -/
def minusTree (k : Nat) (argument : Concrete) (field : Option String := none) : Concrete :=
  construct "unary_expression" k argument.head.stop
    [token "-" k (some "operator"), argument] field

/-- The tree of `y = ` with a value. -/
def settingTree (k : Nat) (value : Concrete) : Concrete :=
  construct "assignment_expression" k value.head.stop
    [nameTree k (some "left"), token "=" (k + 2), value]

/-- A negative number is negated. -/
def negating : Bytes := naming "-1" "y = -f"

/-- The tree of `negating`. -/
def negatingTree : Concrete :=
  namingTree (minusTree 10 (construct "number" 11 12 [] (some "argument")) (some "value"))
    (settingTree 14 (minusTree 18 (nameTree 19 (some "argument")) (some "right")))

/-- A variable is divided by a regular expression. -/
def dividing : Bytes := naming "/b/" "y = a/f"

/-- The tree of `dividing`. -/
def dividingTree : Concrete :=
  namingTree
    (construct "regex" 10 13
      [token "/" 10, construct "regex_pattern" 11 12 [] (some "pattern"), token "/" 12]
      (some "value"))
    (settingTree 15 (construct "binary_expression" 19 22
      [nameTree 19 (some "left"), token "/" 20 (some "operator"), nameTree 21 (some "right")]
      (some "right")))

/-- The tree of `y = a` with a comment behind it. -/
def commentedTree : Concrete :=
  construct "program" 0 11 [
    construct "expression_statement" 0 5 [settingTree 0 (nameTree 4 (some "right"))],
    construct "comment" 5 10 []]

end Sample

/-- Behind a minus, a negative number gets parentheses. -/
theorem BindingTable.sample_minus_not_doubled :
    let t := Tree.ofConcrete .javascript Sample.negating Sample.negatingTree
    let b := ofTree t
    let before := t.source.take (t.span 10).start
    let text := b.inlineText t 0 1 4 10
    ∃ r, b.inline t "" 0 = .ok r ∧ before.getLast? = some 45 ∧ text = "(-1)" ∧
      Bytes.doubles before (Utf8.encode text) = false ∧
      ∃ before', (Edit.applyAll t.source r.edits).1 =
          before' ++ Utf8.encode text ++ t.source.drop (t.span 10).stop ∧
        Bytes.doubles before' (Utf8.encode text) = false := by
  intro t b before text
  have hs : t.Spaced := by decide +kernel
  have ha : t.Arranged := by decide +kernel
  have hfacts : b.soleRead? 0 = some 10 ∧ (b.binding 0).declaration = some 1 ∧
      (b.binding 0).initializer = some 4 ∧ t.kind 10 ≠ .shorthandProperty ∧ t.kind 9 = .unary ∧
      10 ∈ t.children 9 ∧ (t.operatorText 9 = "+" ∨ t.operatorText 9 = "-") ∧
      before.getLast? = (Utf8.encode (t.operatorText 9)).getLast? ∧ before.getLast? = some 45 ∧
      text = "(-1)" ∧ b.isSingleUse t Sample.shallow 0 = true ∧ t.begunStatement? 10 = none ∧
      (b.inline t "" 0).toOption.isSome = true := by
    decide +kernel
  obtain ⟨hread, hdeclaration, hvalue, hkind, hp, hu, hop, hbefore, hminus, htext, hsingle, hbegun,
    hsome⟩ := hfacts
  obtain ⟨r, hsome⟩ := Option.isSome_iff_exists.mp hsome
  have hr := Attempt.toOption_eq_some.mp hsome
  obtain ⟨-, hplace, -, hafter⟩ := inlined_value_doubles .javascript _ _ ""
    ⟨hr, hread, hdeclaration, hvalue⟩
  obtain ⟨-, hunary, -⟩ := hplace hkind
  have hdoubled := hunary 9 hp hu hop hbefore
  obtain ⟨before', hresult, hsame⟩ := hafter Sample.shallow hs ha hsingle hbegun
  exact ⟨r, hr, hminus, htext, hdoubled, before', hresult, hsame.trans hdoubled⟩

/-- **The exception.**  A regular expression comes to stand right behind the slash of a division.
Read again, the rewritten statement ends before the slash, and the rest of the line is a comment. -/
theorem BindingTable.inlined_regex_begins_comment :
    let t := Tree.ofConcrete .javascript Sample.dividing Sample.dividingTree
    let read := Tree.ofConcrete .javascript (Utf8.encode "y = a//b/;\n") Sample.commentedTree
    let b := ofTree t
    b.isSingleUse t Sample.shallow 0 = true ∧ t.kind 9 = .binary ∧
      t.child? 9 "right" = some 11 ∧ t.text 9 = "a/f" ∧
      (t.source.take (t.span 11).start).getLast? = some 47 ∧ b.inlineText t 0 1 4 11 = "/b/" ∧
      Bytes.doubles (t.source.take (t.span 11).start)
        (Utf8.encode (b.inlineText t 0 1 4 11)) = true ∧
      (b.inline t "" 0).toOption.map (fun r => (Edit.applyAll t.source r.edits).1) =
        some read.source ∧
      (t.child? 7 "right").map t.text = some "a/f" ∧
      (read.child? 2 "right").map read.text = some "a" ∧
      read.comments.map (fun c => Bytes.slice read.source c.span.start c.span.stop) =
        [Utf8.encode "//b/;"] := by
  decide +kernel

end Declutter
