import Mathlib.Data.List.TakeWhile
import Mathlib.Tactic.Common
import Declutter.Naming

/-!
# Identifiers

An identifier is a row of letters, the first of which may begin one.  A letter is a character, or an
escape that stands for one: `\u` with four hexadecimal digits, or with any number of them in
braces.  Which characters are letters is left open, but for those of ASCII.  A reserved word is no
identifier, however it is spelled.

## Main definitions

* `Alphabet` — the characters of identifiers.
* `Alphabet.Letters`, `Alphabet.Spells` — the word that a name spells, escapes replaced.
* `reservedWords` — the words that no binding can have as its name.
* `IsPlain` — whether a name is made of ASCII letters and digits.

## Main results

* `Alphabet.Letters.unique` — a name spells one word.
* `Alphabet.Letters.cut` — where a name may be cut in two.
* `IsPlain.spells` — a plain name spells itself.
-/

namespace Declutter

/-! ### Escapes -/

/-- Whether a character is a hexadecimal digit. -/
def isHexDigit (c : Char) : Bool :=
  c.isDigit || ('a' ≤ c && c ≤ 'f') || ('A' ≤ c && c ≤ 'F')

/-- The value of a hexadecimal digit. -/
def hexDigitValue (c : Char) : Nat :=
  if c.isDigit then c.toNat - 48 else if 'a' ≤ c then c.toNat - 87 else c.toNat - 55

/-- The number that hexadecimal digits write. -/
def hexNumber (digits : List Char) : Nat :=
  digits.foldl (fun n c => 16 * n + hexDigitValue c) 0

/-- The escapes of a character. -/
inductive Escape : List Char → Char → Prop
  | short {digits : List Char} {c : Char} (hlength : digits.length = 4)
      (hdigits : ∀ d ∈ digits, isHexDigit d = true) (hvalue : hexNumber digits = c.toNat) :
      Escape ('\x5c' :: 'u' :: digits) c
  | braced {digits : List Char} {c : Char} (hne : digits ≠ [])
      (hdigits : ∀ d ∈ digits, isHexDigit d = true) (hvalue : hexNumber digits = c.toNat) :
      Escape ('\x5c' :: 'u' :: '\x7b' :: (digits ++ ['\x7d'])) c

/-- The characters that may stand in an escape. -/
def isEscapeChar (c : Char) : Bool :=
  isHexDigit c || c == '\x5c' || c == 'u' || c == '\x7b' || c == '\x7d'

namespace Escape

variable {e e' : List Char} {c c' : Char}

theorem exists_cons (h : Escape e c) : ∃ rest, e = '\x5c' :: rest := by
  cases h with
  | short => exact ⟨_, rfl⟩
  | braced => exact ⟨_, rfl⟩

theorem isEscapeChar_of_mem (h : Escape e c) {x : Char} (hx : x ∈ e) : isEscapeChar x = true := by
  have hhex : ∀ d, isHexDigit d = true → isEscapeChar d = true := fun d hd => by
    simp [isEscapeChar, hd]
  cases h with
  | short _ hdigits =>
    simp only [List.mem_cons] at hx
    rcases hx with rfl | rfl | hx
    · rfl
    · rfl
    · exact hhex x (hdigits x hx)
  | braced _ hdigits =>
    simp only [List.mem_cons, List.mem_append, List.not_mem_nil, or_false] at hx
    rcases hx with rfl | rfl | rfl | hx | rfl
    · rfl
    · rfl
    · rfl
    · exact hhex x (hdigits x hx)
    · rfl

/-- Digits that a brace closes are all digits there are. -/
theorem takeWhile_digits {digits rest : List Char} (h : ∀ d ∈ digits, isHexDigit d = true) :
    (digits ++ '\x7d' :: rest).takeWhile isHexDigit = digits := by
  rw [List.takeWhile_append_of_pos h, List.takeWhile_cons_of_neg (by decide), List.append_nil]

/-- **Where an escape ends, and what it stands for**, can be told from what follows it. -/
theorem unique (h : Escape e c) (h' : Escape e' c') {cs cs' : List Char}
    (heq : e ++ cs = e' ++ cs') : c = c' ∧ cs = cs' := by
  -- Four digits are not opened by a brace.
  have hbrace : ∀ {digits cs rest : List Char}, digits.length = 4 →
      (∀ d ∈ digits, isHexDigit d = true) → digits ++ cs ≠ '\x7b' :: rest := by
    intro digits cs rest hlength hdigits heq
    cases digits with
    | nil => cases hlength
    | cons d digits =>
      have hd := hdigits d (.head _)
      rw [(List.cons.inj heq).1] at hd
      exact absurd hd (by decide)
  cases h with
  | short hlength hdigits hvalue =>
    cases h' with
    | short hlength' _ hvalue' =>
      simp only [List.cons_append, List.cons.injEq, true_and] at heq
      obtain ⟨rfl, rfl⟩ := List.append_inj heq (hlength.trans hlength'.symm)
      exact ⟨Char.toNat_inj.mp (hvalue.symm.trans hvalue'), rfl⟩
    | braced =>
      simp only [List.cons_append, List.cons.injEq, true_and] at heq
      exact absurd heq (hbrace hlength hdigits)
  | braced hne hdigits hvalue =>
    cases h' with
    | short hlength' hdigits' =>
      simp only [List.cons_append, List.cons.injEq, true_and] at heq
      exact absurd heq.symm (hbrace hlength' hdigits')
    | braced _ hdigits' hvalue' =>
      simp only [List.cons_append, List.cons.injEq, true_and, List.append_assoc,
        List.nil_append] at heq
      have hsame := congrArg (List.takeWhile isHexDigit) heq
      rw [takeWhile_digits hdigits, takeWhile_digits hdigits'] at hsame
      subst hsame
      exact ⟨Char.toNat_inj.mp (hvalue.symm.trans hvalue'),
        (List.cons.inj (List.append_cancel_left heq)).2⟩

end Escape

/-! ### Names -/

/-- The characters of identifiers: which of them may begin one, and which may stand in one.  The
letters of ASCII, the underscore and the dollar sign may do both, and digits stand in one. -/
structure Alphabet where
  start : Char → Bool
  part : Char → Bool
  part_of_start : ∀ c, start c = true → part c = true
  start_of_isAlpha : ∀ c, c.isAlpha = true → start c = true
  start_underscore : start '_' = true
  start_dollar : start '$' = true
  part_of_isDigit : ∀ c, c.isDigit = true → part c = true
  part_backslash : part '\x5c' = false

/-- The row of characters that letters stand for. -/
inductive Alphabet.Letters (A : Alphabet) : List Char → List Char → Prop
  | nil : Letters A [] []
  | char {c : Char} {cs vs : List Char} (hc : A.part c = true) (h : Letters A cs vs) :
      Letters A (c :: cs) (c :: vs)
  | escape {e : List Char} {c : Char} {cs vs : List Char} (he : Escape e c)
      (hc : A.part c = true) (h : Letters A cs vs) : Letters A (e ++ cs) (c :: vs)

/-- Whether a name spells a word that begins like an identifier. -/
structure Alphabet.Spells (A : Alphabet) (name value : String) : Prop where
  letters : A.Letters name.toList value.toList
  head : value.toList.head?.any A.start = true

/-- Whether a name is spelled like an identifier. -/
def Alphabet.IsIdentifier (A : Alphabet) (name : String) : Prop := ∃ value, A.Spells name value

/-- What a row of characters begins with, a longer one begins with. -/
theorem any_head?_append {p : Char → Bool} {cs : List Char} (h : cs.head?.any p = true)
    (ds : List Char) : (cs ++ ds).head?.any p = true := by
  cases cs with
  | nil => cases h
  | cons c cs => exact h

namespace Alphabet

variable {A : Alphabet} {cs ds vs ws : List Char}

namespace Letters

theorem append (h : A.Letters cs vs) (h' : A.Letters ds ws) : A.Letters (cs ++ ds) (vs ++ ws) := by
  induction h with
  | nil => exact h'
  | char hc _ ih => exact .char hc ih
  | escape he hc _ ih =>
    rw [List.append_assoc]
    exact .escape he hc ih

/-- Characters that may stand in an identifier stand for themselves. -/
theorem of_part (h : ∀ c ∈ cs, A.part c = true) : A.Letters cs cs := by
  induction cs with
  | nil => exact .nil
  | cons c cs ih => exact .char (h c (.head _)) (ih fun d hd => h d (.tail _ hd))

/-- No letter but an escape begins with a backslash. -/
theorem ne_backslash {c : Char} (hc : A.part c = true) : c ≠ '\x5c' := by
  rintro rfl
  rw [A.part_backslash] at hc
  cases hc

/-- **A name spells one word.** -/
theorem unique (h : A.Letters cs vs) (h' : A.Letters cs ws) : vs = ws := by
  induction h generalizing ws with
  | nil =>
    generalize hcs : ([] : List Char) = cs at h'
    cases h' with
    | nil => rfl
    | char => cases hcs
    | escape he =>
      obtain ⟨rest, rfl⟩ := he.exists_cons
      cases hcs
  | @char c cs vs hc _ ih =>
    generalize hcs : c :: cs = ds at h'
    cases h' with
    | nil => cases hcs
    | char _ h' =>
      obtain ⟨rfl, rfl⟩ := List.cons.inj hcs
      rw [ih h']
    | escape he =>
      obtain ⟨rest, rfl⟩ := he.exists_cons
      exact absurd (List.cons.inj hcs).1 (ne_backslash hc)
  | @escape e c cs vs he _ _ ih =>
    generalize hcs : e ++ cs = ds at h'
    cases h' with
    | nil =>
      obtain ⟨rest, rfl⟩ := he.exists_cons
      cases hcs
    | char hc =>
      obtain ⟨rest, rfl⟩ := he.exists_cons
      exact absurd (List.cons.inj hcs).1.symm (ne_backslash hc)
    | escape he' _ h' =>
      obtain ⟨rfl, rfl⟩ := he.unique he' hcs
      rw [ih h']

/-- **A name may be cut** before a character that stands in no escape. -/
theorem cut {x : Char} (hx : isEscapeChar x = false) (h : A.Letters (cs ++ x :: ds) vs) :
    ∃ us ws, A.Letters cs us ∧ A.Letters (x :: ds) ws ∧ vs = us ++ ws := by
  generalize hl : cs ++ x :: ds = l at h
  induction h generalizing cs with
  | nil => simp at hl
  | @char c l vs hc h ih =>
    cases cs with
    | nil =>
      obtain ⟨rfl, rfl⟩ := List.cons.inj hl
      exact ⟨[], _, .nil, .char hc h, rfl⟩
    | cons d cs =>
      obtain ⟨rfl, hrest⟩ := List.cons.inj hl
      obtain ⟨us, ws, hus, hws, rfl⟩ := ih hrest
      exact ⟨_, ws, .char hc hus, hws, rfl⟩
  | @escape e c l vs he hc h ih =>
    -- The escape lies before the cut, as the character is none of it.
    have hnot : x ∉ e := fun hmem => by
      rw [he.isEscapeChar_of_mem hmem] at hx
      cases hx
    rcases List.append_eq_append_iff.mp hl with ⟨as, rfl, hrest⟩ | ⟨as, rfl, hrest⟩
    · cases as with
      | nil =>
        rw [List.append_nil] at he
        exact ⟨[c], vs, by simpa using Letters.escape he hc .nil, hrest ▸ h, rfl⟩
      | cons a as =>
        rw [List.cons_append] at hrest
        rw [(List.cons.inj hrest).1] at hnot
        exact absurd (List.mem_append_right cs (.head _)) hnot
    · obtain ⟨us, ws, hus, hws, rfl⟩ := ih hrest.symm
      exact ⟨_, ws, .escape he hc hus, hws, rfl⟩

end Letters

namespace Spells

variable {name value : String}

/-- A name spells one word. -/
theorem unique (h : A.Spells name value) {value' : String} (h' : A.Spells name value') :
    value = value' :=
  String.toList_inj.mp (h.letters.unique h'.letters)

/-- What begins an identifier begins a longer one. -/
theorem append (h : A.Spells name value) {more word : String}
    (hmore : A.Letters more.toList word.toList) : A.Spells (name ++ more) (value ++ word) := by
  refine ⟨?_, ?_⟩
  · rw [String.toList_append, String.toList_append]
    exact h.letters.append hmore
  · rw [String.toList_append]
    exact any_head?_append h.head _

/-- **The end of an identifier may be replaced**, from a letter on that stands in no escape, by
letters of ASCII. -/
theorem isIdentifier_replace (h : A.Spells name value) {front rest more : List Char} {x : Char}
    (hname : name.toList = front ++ x :: rest) (hx : isEscapeChar x = false)
    (hmore : ∀ c ∈ more, c.isAlpha = true) (hne : front ++ more ≠ []) :
    A.IsIdentifier (String.ofList (front ++ more)) := by
  have hletters := h.letters
  rw [hname] at hletters
  obtain ⟨us, ws, hus, -, hvalue⟩ := hletters.cut hx
  have hpart : A.Letters more more := .of_part fun c hc =>
    A.part_of_start c (A.start_of_isAlpha c (hmore c hc))
  refine ⟨String.ofList (us ++ more), by simpa using hus.append hpart, ?_⟩
  have hhead := h.head
  rw [hvalue] at hhead
  rw [String.toList_ofList]
  cases us with
  | cons u us => exact hhead
  | nil =>
    -- Nothing is left of the identifier but what was put behind.
    cases hus with
    | nil =>
      cases more with
      | nil => exact absurd rfl hne
      | cons c more => exact A.start_of_isAlpha c (hmore c (.head _))

end Spells

end Alphabet

/-! ### Plain names -/

/-- Whether a name is made of the letters and digits of ASCII, underscores and dollar signs, and
begins with no digit. -/
structure IsPlain (name : String) : Prop where
  head : name.toList.head?.any (!Char.isDigit ·) = true
  all : ∀ c ∈ name.toList, isIdentifierChar c = true

theorem isPlain_iff {name : String} : IsPlain name ↔
    name.toList.head?.any (!Char.isDigit ·) = true ∧ name.toList.all isIdentifierChar = true :=
  ⟨fun h => ⟨h.head, List.all_eq_true.mpr h.all⟩, fun ⟨h₁, h₂⟩ => ⟨h₁, List.all_eq_true.mp h₂⟩⟩

-- The characters are tested by a function: whether all of a sort are is not to be decided over the
-- whole type.
instance (name : String) : Decidable (IsPlain name) := decidable_of_iff _ isPlain_iff.symm

theorem Alphabet.part_of_isIdentifierChar (A : Alphabet) {c : Char}
    (h : isIdentifierChar c = true) : A.part c = true ∧ (c.isDigit = false → A.start c = true) := by
  simp only [isIdentifierChar, Char.isAlphanum, Bool.or_eq_true, beq_iff_eq] at h
  rcases h with ((hletter | hdigit) | rfl) | rfl
  · have hstart := A.start_of_isAlpha c hletter
    exact ⟨A.part_of_start c hstart, fun _ => hstart⟩
  · refine ⟨A.part_of_isDigit c hdigit, fun hnot => ?_⟩
    rw [hdigit] at hnot
    cases hnot
  · exact ⟨A.part_of_start _ A.start_underscore, fun _ => A.start_underscore⟩
  · exact ⟨A.part_of_start _ A.start_dollar, fun _ => A.start_dollar⟩

namespace IsPlain

variable {name : String}

/-- **A plain name spells itself.** -/
theorem spells (h : IsPlain name) (A : Alphabet) : A.Spells name name := by
  refine ⟨.of_part fun c hc => (A.part_of_isIdentifierChar (h.all c hc)).1, ?_⟩
  have hhead := h.head
  cases hname : name.toList with
  | nil =>
    rw [hname] at hhead
    cases hhead
  | cons c rest =>
    rw [hname] at hhead
    have hc : isIdentifierChar c = true := h.all c (by rw [hname]; exact .head _)
    exact (A.part_of_isIdentifierChar hc).2 (by simpa using hhead)

/-- A plain name goes on with the characters of plain names. -/
theorem append (h : IsPlain name) {more : String}
    (hmore : ∀ c ∈ more.toList, isIdentifierChar c = true) : IsPlain (name ++ more) := by
  refine ⟨?_, fun c hc => ?_⟩
  · rw [String.toList_append]
    exact any_head?_append h.head _
  · rw [String.toList_append] at hc
    exact (List.mem_append.mp hc).elim (h.all c) (hmore c)

end IsPlain

/-! ### Reserved words -/

/-- The words that no binding can have as its name, in modules and strict code included. -/
def reservedWords : List String :=
  ["await", "break", "case", "catch", "class", "const", "continue", "debugger", "default", "delete",
    "do", "else", "enum", "export", "extends", "false", "finally", "for", "function", "if",
    "implements", "import", "in", "instanceof", "interface", "let", "new", "null", "package",
    "private", "protected", "public", "return", "static", "super", "switch", "this", "throw",
    "true", "try", "typeof", "var", "void", "while", "with", "yield"]

/-- Reserved words are made of small letters. -/
theorem isLower_of_mem_reservedWords :
    ∀ word ∈ reservedWords, ∀ c ∈ word.toList, c.isLower = true := by
  have hall : (reservedWords.all fun word => word.toList.all Char.isLower) = true := by decide
  exact fun word hword => List.all_eq_true.mp (List.all_eq_true.mp hall word hword)

end Declutter
