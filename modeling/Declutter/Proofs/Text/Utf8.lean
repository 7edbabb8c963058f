import Declutter.Text.Utf8
import Mathlib.Tactic.Common

/-!
# Reading what was written

The reader of UTF-8 undoes the writer, and accepts nothing else: a byte string is well formed
exactly when it is the encoding of a text, and of one text only.  The machine is followed through
one character at a time.  What it may read after a first byte depends on that byte, and
`first_three` and `first_four` say it once for all the first bytes of one length.

## Main results

* `decode?_encode` — a text is read back.
* `encode_of_decode?` — what is read is written as it was.
* `decode?_eq_some_iff` — both together.
* `head?_encode_iff` — whether a text begins with a character below 128 shows in its bytes.
* `isBoundary_of_ascii` — a byte below 128 is a character of its own.
-/

namespace Declutter.Utf8

/-! ### One byte at a time -/

theorem first_one {a : UInt8} (ha : a.toNat < 0x80) :
    first a = ([some (Char.ofNat a.toNat)], .boundary) := by
  have : a < 0x80 := UInt8.lt_iff_toNat_lt.mpr ha
  rw [first, if_pos this]

theorem first_two {a : UInt8} (ha : 0xC2 ≤ a.toNat) (ha' : a.toNat < 0xE0) :
    first a = ([], .inside 1 0x80 0xBF (a.toNat - 0xC0)) := by
  have h₁ : ¬ a < 0x80 := by rw [UInt8.lt_iff_toNat_lt]; simp; omega
  have h₂ : ¬ a < 0xC2 := by rw [UInt8.lt_iff_toNat_lt]; simp; omega
  have h₃ : a < 0xE0 := by rw [UInt8.lt_iff_toNat_lt]; simpa using ha'
  rw [first, if_neg h₁, if_neg h₂, if_pos h₃]

/-- The byte after the first of three must not make the form overlong nor the character a
surrogate. -/
theorem first_three {a : UInt8} (ha : 0xE0 ≤ a.toNat) (ha' : a.toNat < 0xF0) :
    ∃ low high, first a = ([], .inside 2 low high (a.toNat - 0xE0)) ∧
      ∀ b : UInt8, (low ≤ b ∧ b ≤ high) ↔
        0x80 ≤ b.toNat ∧ b.toNat ≤ 0xBF ∧ (a.toNat = 0xE0 → 0xA0 ≤ b.toNat) ∧
          (a.toNat = 0xED → b.toNat ≤ 0x9F) := by
  have h₁ : ¬ a < 0x80 := by rw [UInt8.lt_iff_toNat_lt]; simp; omega
  have h₂ : ¬ a < 0xC2 := by rw [UInt8.lt_iff_toNat_lt]; simp; omega
  have h₃ : ¬ a < 0xE0 := by rw [UInt8.lt_iff_toNat_lt]; simp; omega
  have h₄ : a < 0xF0 := by rw [UInt8.lt_iff_toNat_lt]; simpa using ha'
  rw [first, if_neg h₁, if_neg h₂, if_neg h₃]
  by_cases h : a = 0xE0
  · subst h
    exact ⟨0xA0, 0xBF, rfl, fun b => by simp [UInt8.le_iff_toNat_le]; omega⟩
  by_cases h' : a = 0xED
  · subst h'
    exact ⟨0x80, 0x9F, rfl, fun b => by simp [UInt8.le_iff_toNat_le]; omega⟩
  have hne : a.toNat ≠ 0xE0 := fun e => h (UInt8.toNat_inj.mp e)
  have hne' : a.toNat ≠ 0xED := fun e => h' (UInt8.toNat_inj.mp e)
  refine ⟨0x80, 0xBF, by simp [h, h', h₄], fun b => ?_⟩
  simp only [UInt8.le_iff_toNat_le, UInt8.reduceToNat]
  omega

/-- The byte after the first of four must not make the form overlong nor lead past the last
character. -/
theorem first_four {a : UInt8} (ha : 0xF0 ≤ a.toNat) (ha' : a.toNat ≤ 0xF4) :
    ∃ low high, first a = ([], .inside 3 low high (a.toNat - 0xF0)) ∧
      ∀ b : UInt8, (low ≤ b ∧ b ≤ high) ↔
        0x80 ≤ b.toNat ∧ b.toNat ≤ 0xBF ∧ (a.toNat = 0xF0 → 0x90 ≤ b.toNat) ∧
          (a.toNat = 0xF4 → b.toNat ≤ 0x8F) := by
  have h₁ : ¬ a < 0x80 := by rw [UInt8.lt_iff_toNat_lt]; simp; omega
  have h₂ : ¬ a < 0xC2 := by rw [UInt8.lt_iff_toNat_lt]; simp; omega
  have h₃ : ¬ a < 0xE0 := by rw [UInt8.lt_iff_toNat_lt]; simp; omega
  have h₄ : ¬ a < 0xF0 := by rw [UInt8.lt_iff_toNat_lt]; simp; omega
  have hE : a ≠ 0xE0 := by rintro rfl; simp at ha
  have hD : a ≠ 0xED := by rintro rfl; simp at ha
  rw [first, if_neg h₁, if_neg h₂, if_neg h₃]
  by_cases h : a = 0xF0
  · subst h
    exact ⟨0x90, 0xBF, rfl, fun b => by simp [UInt8.le_iff_toNat_le]; omega⟩
  by_cases h' : a = 0xF4
  · subst h'
    exact ⟨0x80, 0x8F, rfl, fun b => by simp [UInt8.le_iff_toNat_le]; omega⟩
  have hne : a.toNat ≠ 0xF0 := fun e => h (UInt8.toNat_inj.mp e)
  have hne' : a.toNat ≠ 0xF4 := fun e => h' (UInt8.toNat_inj.mp e)
  have h₅ : a < 0xF4 := by rw [UInt8.lt_iff_toNat_lt]; simp; omega
  refine ⟨0x80, 0xBF, by simp [h, h₄, h₅, hE, hD], fun b => ?_⟩
  simp only [UInt8.le_iff_toNat_le, UInt8.reduceToNat]
  omega

/-- No character starts with the remaining bytes. -/
theorem first_none {a : UInt8} (h : 0x80 ≤ a.toNat) (h' : a.toNat < 0xC2 ∨ 0xF4 < a.toNat) :
    first a = ([none], .boundary) := by
  have h₁ : ¬ a < 0x80 := by rw [UInt8.lt_iff_toNat_lt]; simp; omega
  rw [first, if_neg h₁]
  rcases h' with h' | h'
  · rw [if_pos (UInt8.lt_iff_toNat_lt.mpr h')]
  · have ne {k : UInt8} (hk : k.toNat ≤ 0xF4) : a ≠ k := by rintro rfl; omega
    have nlt {k : UInt8} (hk : k.toNat ≤ 0xF4) : ¬ a < k := by
      rw [UInt8.lt_iff_toNat_lt]; omega
    simp [ne, nlt]

variable {owed value : Nat} {low high b : UInt8} {rest : Bytes}

theorem scan_boundary_cons (b : UInt8) (rest : Bytes) :
    scan .boundary (b :: rest) = (first b).1 ++ scan (first b).2 rest := rfl

/-- A byte that leaves the character unfinished. -/
theorem scan_inside_cons (h : low ≤ b ∧ b ≤ high) :
    scan (.inside (owed + 2) low high value) (b :: rest) =
      scan (.inside (owed + 1) 0x80 0xBF (value * 64 + (b.toNat - 0x80))) rest := by
  simp [scan, step, h]

/-- The last byte of a character. -/
theorem scan_inside_last (h : low ≤ b ∧ b ≤ high) :
    scan (.inside 1 low high value) (b :: rest) =
      some (Char.ofNat (value * 64 + (b.toNat - 0x80))) :: scan .boundary rest := by
  simp [scan, step, h]

/-- A well-formed character goes on with a byte in bounds. -/
theorem exists_cons_of_scan_inside {s : Bytes} (h : none ∉ scan (.inside owed low high value) s) :
    ∃ b rest, s = b :: rest ∧ low ≤ b ∧ b ≤ high := by
  cases s with
  | nil => simp [scan] at h
  | cons b rest =>
    refine ⟨b, rest, rfl, ?_⟩
    by_contra hb
    simp [scan, step, hb] at h

theorem tail_bounds : (0x80 : UInt8) ≤ b ∧ b ≤ 0xBF ↔ 0x80 ≤ b.toNat ∧ b.toNat ≤ 0xBF := by
  simp [UInt8.le_iff_toNat_le]

/-! ### One character at a time -/

theorem toNat_ofNat_of_lt {n : Nat} (h : n < 256) : (UInt8.ofNat n).toNat = n := by
  rw [UInt8.toNat_ofNat']
  exact Nat.mod_eq_of_lt h

theorem ofNat_eq_iff {n : Nat} (h : n < 256) : UInt8.ofNat n = b ↔ n = b.toNat := by
  rw [← UInt8.toNat_inj, toNat_ofNat_of_lt h]

theorem toNat_charOfNat {n : Nat} (h : n < 0xD800 ∨ 0xDFFF < n ∧ n < 0x110000) :
    (Char.ofNat n).toNat = n := by
  have hv : n.isValidChar := h
  rw [Char.ofNat, dif_pos hv]
  exact rfl

theorem toNat_range (c : Char) : c.toNat < 0xD800 ∨ 0xDFFF < c.toNat ∧ c.toNat < 0x110000 :=
  c.valid

/-- The encoding of a character, in terms of its code. -/
def encodeCode (v : Nat) : Bytes :=
  if v ≤ 0x7f then [.ofNat v]
  else if v ≤ 0x7ff then [.ofNat (v / 64 % 0x20 + 0xc0), .ofNat (v % 0x40 + 0x80)]
  else if v ≤ 0xffff then
    [.ofNat (v / 4096 % 0x10 + 0xe0), .ofNat (v / 64 % 0x40 + 0x80), .ofNat (v % 0x40 + 0x80)]
  else
    [.ofNat (v / 262144 % 0x08 + 0xf0), .ofNat (v / 4096 % 0x40 + 0x80),
      .ofNat (v / 64 % 0x40 + 0x80), .ofNat (v % 0x40 + 0x80)]

theorem encodeChar_eq (c : Char) : String.utf8EncodeChar c = encodeCode c.toNat := rfl

section

variable {v : Nat}

theorem scan_two_bytes (hv : 0x7f < v) (hv' : v ≤ 0x7ff) (rest : Bytes) :
    scan .boundary (.ofNat (v / 64 % 0x20 + 0xc0) :: .ofNat (v % 0x40 + 0x80) :: rest) =
      some (.ofNat v) :: scan .boundary rest := by
  have ha : (UInt8.ofNat (v / 64 % 0x20 + 0xc0)).toNat = v / 64 + 0xc0 := by
    rw [toNat_ofNat_of_lt] <;> omega
  have hb : (UInt8.ofNat (v % 0x40 + 0x80)).toNat = v % 64 + 0x80 := toNat_ofNat_of_lt (by omega)
  rw [scan_boundary_cons, first_two (by omega) (by omega), List.nil_append,
    scan_inside_last (tail_bounds.mpr (by omega)), ha, hb,
    show (v / 64 + 0xc0 - 0xC0) * 64 + (v % 64 + 0x80 - 0x80) = v by omega]

theorem scan_three_bytes (hv : 0x7ff < v) (hv' : v ≤ 0xffff) (hvalid : v < 0xD800 ∨ 0xDFFF < v)
    (rest : Bytes) :
    scan .boundary (.ofNat (v / 4096 % 0x10 + 0xe0) :: .ofNat (v / 64 % 0x40 + 0x80) ::
      .ofNat (v % 0x40 + 0x80) :: rest) = some (.ofNat v) :: scan .boundary rest := by
  have ha : (UInt8.ofNat (v / 4096 % 0x10 + 0xe0)).toNat = v / 4096 + 0xe0 := by
    rw [toNat_ofNat_of_lt] <;> omega
  have hb : (UInt8.ofNat (v / 64 % 0x40 + 0x80)).toNat = v / 64 % 64 + 0x80 :=
    toNat_ofNat_of_lt (by omega)
  have hd : (UInt8.ofNat (v % 0x40 + 0x80)).toNat = v % 64 + 0x80 := toNat_ofNat_of_lt (by omega)
  obtain ⟨low, high, hfirst, hsecond⟩ :=
    first_three (a := UInt8.ofNat (v / 4096 % 0x10 + 0xe0)) (by omega) (by omega)
  rw [scan_boundary_cons, hfirst, List.nil_append, scan_inside_cons ((hsecond _).mpr (by omega)),
    scan_inside_last (tail_bounds.mpr (by omega)), ha, hb, hd,
    show ((v / 4096 + 0xe0 - 0xE0) * 64 + (v / 64 % 64 + 0x80 - 0x80)) * 64 +
      (v % 64 + 0x80 - 0x80) = v by omega]

theorem scan_four_bytes (hv : 0xffff < v) (hv' : v < 0x110000) (rest : Bytes) :
    scan .boundary (.ofNat (v / 262144 % 0x08 + 0xf0) :: .ofNat (v / 4096 % 0x40 + 0x80) ::
      .ofNat (v / 64 % 0x40 + 0x80) :: .ofNat (v % 0x40 + 0x80) :: rest) =
      some (.ofNat v) :: scan .boundary rest := by
  have ha : (UInt8.ofNat (v / 262144 % 0x08 + 0xf0)).toNat = v / 262144 + 0xf0 := by
    rw [toNat_ofNat_of_lt] <;> omega
  have hb : (UInt8.ofNat (v / 4096 % 0x40 + 0x80)).toNat = v / 4096 % 64 + 0x80 :=
    toNat_ofNat_of_lt (by omega)
  have hd : (UInt8.ofNat (v / 64 % 0x40 + 0x80)).toNat = v / 64 % 64 + 0x80 :=
    toNat_ofNat_of_lt (by omega)
  have he : (UInt8.ofNat (v % 0x40 + 0x80)).toNat = v % 64 + 0x80 := toNat_ofNat_of_lt (by omega)
  obtain ⟨low, high, hfirst, hsecond⟩ :=
    first_four (a := UInt8.ofNat (v / 262144 % 0x08 + 0xf0)) (by omega) (by omega)
  rw [scan_boundary_cons, hfirst, List.nil_append, scan_inside_cons ((hsecond _).mpr (by omega)),
    scan_inside_cons (tail_bounds.mpr (by omega)), scan_inside_last (tail_bounds.mpr (by omega)),
    ha, hb, hd, he,
    show (((v / 262144 + 0xf0 - 0xF0) * 64 + (v / 4096 % 64 + 0x80 - 0x80)) * 64 +
      (v / 64 % 64 + 0x80 - 0x80)) * 64 + (v % 64 + 0x80 - 0x80) = v by omega]

end

/-- The machine reads the encoding of a character as that character. -/
theorem scan_encodeChar (c : Char) (rest : Bytes) :
    scan .boundary (String.utf8EncodeChar c ++ rest) = some c :: scan .boundary rest := by
  have hc := toNat_range c
  have hof : Char.ofNat c.toNat = c := Char.ofNat_toNat c
  rw [encodeChar_eq, encodeCode]
  generalize c.toNat = v at hc hof
  rw [← hof]
  split
  · rw [List.singleton_append, scan_boundary_cons, first_one (by rw [toNat_ofNat_of_lt] <;> omega),
      toNat_ofNat_of_lt (by omega)]
    rfl
  split
  · exact scan_two_bytes (by omega) (by omega) rest
  split
  · exact scan_three_bytes (by omega) (by omega) (by omega) rest
  · exact scan_four_bytes (by omega) (by omega) rest

/-! ### The character at the start -/

section

variable {a : UInt8} {s : Bytes}

theorem exists_encodeChar_of_two (h₂ : 0xC2 ≤ a.toNat) (h₃ : a.toNat < 0xE0)
    (h : none ∉ scan .boundary (a :: s)) :
    ∃ c rest, a :: s = String.utf8EncodeChar c ++ rest := by
  rw [scan_boundary_cons, first_two h₂ h₃, List.nil_append] at h
  obtain ⟨b, s, rfl, hb⟩ := exists_cons_of_scan_inside h
  rw [tail_bounds] at hb
  refine ⟨Char.ofNat ((a.toNat - 0xC0) * 64 + (b.toNat - 0x80)), s, ?_⟩
  have hv := toNat_charOfNat (n := (a.toNat - 0xC0) * 64 + (b.toNat - 0x80)) (by omega)
  rw [encodeChar_eq, hv, encodeCode, if_neg (by omega), if_pos (by omega),
    (ofNat_eq_iff (b := a) (by omega)).mpr (by omega),
    (ofNat_eq_iff (b := b) (by omega)).mpr (by omega)]
  rfl

theorem exists_encodeChar_of_three (h₃ : 0xE0 ≤ a.toNat) (h₄ : a.toNat < 0xF0)
    (h : none ∉ scan .boundary (a :: s)) :
    ∃ c rest, a :: s = String.utf8EncodeChar c ++ rest := by
  obtain ⟨low, high, hfirst, hsecond⟩ := first_three h₃ h₄
  rw [scan_boundary_cons, hfirst, List.nil_append] at h
  obtain ⟨b, s, rfl, hb⟩ := exists_cons_of_scan_inside h
  rw [scan_inside_cons hb] at h
  obtain ⟨d, s, rfl, hd⟩ := exists_cons_of_scan_inside h
  rw [hsecond] at hb
  rw [tail_bounds] at hd
  generalize hn : ((a.toNat - 0xE0) * 64 + (b.toNat - 0x80)) * 64 + (d.toNat - 0x80) = n
  refine ⟨Char.ofNat n, s, ?_⟩
  have hv := toNat_charOfNat (n := n) (by omega)
  rw [encodeChar_eq, hv, encodeCode, if_neg (by omega), if_neg (by omega), if_pos (by omega),
    (ofNat_eq_iff (b := a) (by omega)).mpr (by omega),
    (ofNat_eq_iff (b := b) (by omega)).mpr (by omega),
    (ofNat_eq_iff (b := d) (by omega)).mpr (by omega)]
  rfl

theorem exists_encodeChar_of_four (h₄ : 0xF0 ≤ a.toNat) (h₅ : a.toNat ≤ 0xF4)
    (h : none ∉ scan .boundary (a :: s)) :
    ∃ c rest, a :: s = String.utf8EncodeChar c ++ rest := by
  obtain ⟨low, high, hfirst, hsecond⟩ := first_four h₄ h₅
  rw [scan_boundary_cons, hfirst, List.nil_append] at h
  obtain ⟨b, s, rfl, hb⟩ := exists_cons_of_scan_inside h
  rw [scan_inside_cons hb] at h
  obtain ⟨d, s, rfl, hd⟩ := exists_cons_of_scan_inside h
  rw [scan_inside_cons hd] at h
  obtain ⟨e, s, rfl, he⟩ := exists_cons_of_scan_inside h
  rw [hsecond] at hb
  rw [tail_bounds] at hd he
  generalize hn : (((a.toNat - 0xF0) * 64 + (b.toNat - 0x80)) * 64 + (d.toNat - 0x80)) * 64 +
    (e.toNat - 0x80) = n
  refine ⟨Char.ofNat n, s, ?_⟩
  have hv := toNat_charOfNat (n := n) (by omega)
  rw [encodeChar_eq, hv, encodeCode, if_neg (by omega), if_neg (by omega), if_neg (by omega),
    (ofNat_eq_iff (b := a) (by omega)).mpr (by omega),
    (ofNat_eq_iff (b := b) (by omega)).mpr (by omega),
    (ofNat_eq_iff (b := d) (by omega)).mpr (by omega),
    (ofNat_eq_iff (b := e) (by omega)).mpr (by omega)]
  rfl

end

/-- Bytes that begin a well-formed text begin with the encoding of a character. -/
theorem exists_encodeChar_of_scan {s : Bytes} (hs : s ≠ []) (h : none ∉ scan .boundary s) :
    ∃ c rest, s = String.utf8EncodeChar c ++ rest := by
  obtain ⟨a, s, rfl⟩ := List.exists_cons_of_ne_nil hs
  -- The first byte tells how many bytes there are, or that there is no character.
  rcases Nat.lt_or_ge a.toNat 0x80 with h₁ | h₁
  · refine ⟨Char.ofNat a.toNat, s, ?_⟩
    have hv := toNat_charOfNat (n := a.toNat) (by omega)
    rw [encodeChar_eq, hv, encodeCode, if_pos (by omega), List.singleton_append,
      (ofNat_eq_iff (by omega)).mpr rfl]
  rcases Nat.lt_or_ge a.toNat 0xC2 with h₂ | h₂
  · rw [scan_boundary_cons, first_none h₁ (.inl h₂)] at h
    simp at h
  rcases Nat.lt_or_ge a.toNat 0xE0 with h₃ | h₃
  · exact exists_encodeChar_of_two h₂ h₃ h
  rcases Nat.lt_or_ge a.toNat 0xF0 with h₄ | h₄
  · exact exists_encodeChar_of_three h₃ h₄ h
  rcases Nat.lt_or_ge 0xF4 a.toNat with h₅ | h₅
  · rw [scan_boundary_cons, first_none h₁ (.inr h₅)] at h
    simp at h
  · exact exists_encodeChar_of_four h₄ h₅ h

/-! ### Whole texts -/

/-- The encoding of a list of characters. -/
def encodeAll (cs : List Char) : Bytes := cs.flatMap String.utf8EncodeChar

theorem encode_eq (s : String) : encode s = encodeAll s.toList := rfl

@[simp] theorem encodeAll_nil : encodeAll [] = [] := rfl

@[simp] theorem encodeAll_cons (c : Char) (cs : List Char) :
    encodeAll (c :: cs) = String.utf8EncodeChar c ++ encodeAll cs := rfl

@[simp] theorem encodeAll_append (cs ds : List Char) :
    encodeAll (cs ++ ds) = encodeAll cs ++ encodeAll ds := List.flatMap_append

theorem scan_encodeAll (cs : List Char) (rest : Bytes) :
    scan .boundary (encodeAll cs ++ rest) = cs.map some ++ scan .boundary rest := by
  induction cs with
  | nil => rfl
  | cons c cs ih => rw [encodeAll_cons, List.append_assoc, scan_encodeChar, ih]; rfl

/-- Bytes without a malformed character are the encoding of a text. -/
theorem exists_encodeAll_of_scan (s : Bytes) (h : none ∉ scan .boundary s) :
    ∃ cs, s = encodeAll cs := by
  by_cases hs : s = []
  · exact ⟨[], hs⟩
  · obtain ⟨c, rest, hr⟩ := exists_encodeChar_of_scan hs h
    have hlen : rest.length < s.length := by
      rw [hr, List.length_append, String.length_utf8EncodeChar]
      have := c.utf8Size_pos
      omega
    rw [hr, scan_encodeChar, List.mem_cons, not_or] at h
    obtain ⟨cs, hcs⟩ := exists_encodeAll_of_scan rest h.2
    exact ⟨c :: cs, by rw [hr, hcs, encodeAll_cons]⟩
termination_by s.length

theorem mapM_some (cs : List Char) : (cs.map some).mapM id = some cs := by
  induction cs with
  | nil => rfl
  | cons c cs ih => simp [ih]

theorem none_notMem_of_mapM {l : List (Option Char)} {cs : List Char} (h : l.mapM id = some cs) :
    none ∉ l := by
  intro hn
  obtain ⟨l₁, l₂, rfl⟩ := List.append_of_mem hn
  simp [List.mapM_append] at h

/-- **A text is read back**. -/
@[simp] theorem decode?_encode (s : String) : decode? (encode s) = some s := by
  have h := scan_encodeAll s.toList []
  rw [List.append_nil, show scan .boundary [] = [] from rfl, List.append_nil] at h
  rw [decode?, encode_eq, h, mapM_some, Option.map_some, String.ofList_toList]

/-- Nothing of a text is replaced when it is read. -/
theorem encode_decode_encodeAll (cs : List Char) :
    encode (decode (encodeAll cs)) = encodeAll cs := by
  have h := scan_encodeAll cs []
  rw [List.append_nil, show scan .boundary [] = [] from rfl, List.append_nil] at h
  have hread : (cs.map some).map (·.getD replacement) = cs := by
    rw [List.map_map]
    exact List.map_id cs
  rw [decode, h, hread, encode_eq, String.toList_ofList]

/-- **What is read is written as it was**. -/
theorem encode_of_decode? {b : Bytes} {s : String} (h : decode? b = some s) : encode s = b := by
  obtain ⟨cs, hcs, -⟩ := Option.map_eq_some_iff.mp h
  obtain ⟨ds, rfl⟩ := exists_encodeAll_of_scan b (none_notMem_of_mapM hcs)
  have hd := decode?_encode (String.ofList ds)
  rw [encode_eq, String.toList_ofList, h, Option.some_inj] at hd
  rw [hd, encode_eq, String.toList_ofList]

/-- The well-formed byte strings are the encodings. -/
theorem decode?_eq_some_iff {b : Bytes} {s : String} : decode? b = some s ↔ encode s = b :=
  ⟨encode_of_decode?, fun h => h ▸ decode?_encode s⟩

/-! ### Boundaries between characters -/

/-- Whether an offset lies between two characters of a text. -/
def IsBoundary (s : Bytes) (i : Nat) : Prop :=
  ∃ cs ds, s = encodeAll cs ++ encodeAll ds ∧ i = (encodeAll cs).length

theorem encodeAll_injective {cs ds : List Char} (h : encodeAll cs = encodeAll ds) : cs = ds := by
  have hc := decode?_encode (String.ofList cs)
  have hd := decode?_encode (String.ofList ds)
  rw [encode_eq, String.toList_ofList] at hc hd
  rw [h, hd, Option.some_inj] at hc
  simpa using (congrArg String.toList hc).symm

theorem IsBoundary.le {s : Bytes} {i : Nat} (h : IsBoundary s i) : i ≤ s.length := by
  obtain ⟨cs, ds, rfl, rfl⟩ := h
  rw [List.length_append]
  omega

theorem isBoundary_zero (cs : List Char) : IsBoundary (encodeAll cs) 0 := ⟨[], cs, rfl, rfl⟩

theorem isBoundary_length (cs : List Char) : IsBoundary (encodeAll cs) (encodeAll cs).length :=
  ⟨cs, [], by simp, rfl⟩

/-- Text before a text moves its boundaries. -/
theorem IsBoundary.prepend {s : Bytes} {i : Nat} (cs : List Char) (h : IsBoundary s i) :
    IsBoundary (encodeAll cs ++ s) ((encodeAll cs).length + i) := by
  obtain ⟨ds, es, rfl, rfl⟩ := h
  exact ⟨cs ++ ds, es, by simp, by simp⟩

theorem encodeChar_ne_nil (c : Char) : String.utf8EncodeChar c ≠ [] := by
  intro hnil
  have hlength := congrArg List.length hnil
  rw [String.length_utf8EncodeChar] at hlength
  exact absurd hlength (Nat.ne_of_gt c.utf8Size_pos)

/-- A character below 128 is its code as one byte; the bytes of any other one are above. -/
theorem encodeChar_ascii_or (c : Char) :
    (c.toNat < 0x80 ∧ String.utf8EncodeChar c = [.ofNat c.toNat]) ∨
      (0x80 ≤ c.toNat ∧ ∀ b ∈ String.utf8EncodeChar c, 0x80 ≤ b.toNat) := by
  have hc := toNat_range c
  rw [encodeChar_eq, encodeCode]
  generalize c.toNat = v at hc
  split
  · exact .inl ⟨by omega, rfl⟩
  · refine .inr ⟨by omega, fun b hb => ?_⟩
    have key {n : Nat} (h₁ : 0x80 ≤ n) (h₂ : n < 256) : 0x80 ≤ (UInt8.ofNat n).toNat := by
      rwa [toNat_ofNat_of_lt h₂]
    split at hb
    · simp only [List.mem_cons, List.not_mem_nil, or_false] at hb
      rcases hb with rfl | rfl <;> exact key (by omega) (by omega)
    split at hb
    · simp only [List.mem_cons, List.not_mem_nil, or_false] at hb
      rcases hb with rfl | rfl | rfl <;> exact key (by omega) (by omega)
    · simp only [List.mem_cons, List.not_mem_nil, or_false] at hb
      rcases hb with rfl | rfl | rfl | rfl <;> exact key (by omega) (by omega)

/-- A text begins with a byte below 128 exactly if it begins with the character of that code. -/
theorem head?_encode_iff (s : String) {n : Nat} (hn : n < 0x80) :
    (encode s).head? = some (.ofNat n) ↔ s.toList.head? = some (.ofNat n) := by
  rw [encode_eq]
  cases s.toList with
  | nil => simp
  | cons c cs =>
    have hchar : (Char.ofNat n).toNat = n := toNat_charOfNat (by omega)
    rw [encodeAll_cons, List.head?_cons, Option.some.injEq]
    obtain ⟨hc, hone⟩ | ⟨hc, hlarge⟩ := encodeChar_ascii_or c
    · have hbyte : (UInt8.ofNat n).toNat = n := toNat_ofNat_of_lt (by omega)
      rw [hone, List.singleton_append, List.head?_cons, Option.some.injEq,
        ofNat_eq_iff (by omega), hbyte]
      constructor
      · intro h
        rw [← h, Char.ofNat_toNat]
      · rintro rfl
        exact hchar
    · -- Neither the character nor its first byte is below 128.
      constructor
      · intro h
        have hmem : .ofNat n ∈ String.utf8EncodeChar c := by
          obtain ⟨b, rest, hbytes⟩ := List.exists_cons_of_ne_nil (encodeChar_ne_nil c)
          rw [hbytes, List.cons_append, List.head?_cons, Option.some.injEq] at h
          rw [hbytes]
          exact h ▸ .head _
        have hbyte := hlarge _ hmem
        rw [toNat_ofNat_of_lt (by omega)] at hbyte
        omega
      · rintro rfl
        omega

/-- A byte below 128 is a character of its own. -/
theorem isBoundary_of_ascii {cs : List Char} {i : Nat} {b : UInt8}
    (hb : (encodeAll cs)[i]? = some b) (hascii : b.toNat < 0x80) :
    IsBoundary (encodeAll cs) i ∧ IsBoundary (encodeAll cs) (i + 1) := by
  induction cs generalizing i with
  | nil => simp at hb
  | cons c cs ih =>
    rw [encodeAll_cons] at hb
    have hone : String.utf8EncodeChar c = encodeAll [c] := by simp
    rcases Nat.lt_or_ge i (String.utf8EncodeChar c).length with hi | hi
    · rw [List.getElem?_append_left hi] at hb
      obtain ⟨-, hd⟩ | ⟨-, hlarge⟩ := encodeChar_ascii_or c
      · rw [hd] at hi
        obtain rfl : i = 0 := by simpa using hi
        refine ⟨isBoundary_zero _, [c], cs, by simp, ?_⟩
        rw [← hone, hd]
        rfl
      · have := hlarge b (List.mem_of_getElem? hb)
        omega
    · rw [List.getElem?_append_right hi] at hb
      obtain ⟨h₁, h₂⟩ := ih hb
      have h₁ := h₁.prepend [c]
      have h₂ := h₂.prepend [c]
      rw [← hone, ← encodeAll_cons] at h₁ h₂
      rw [Nat.add_sub_of_le hi] at h₁
      rw [← Nat.add_assoc, Nat.add_sub_of_le hi] at h₂
      exact ⟨h₁, h₂⟩

/-- Between two boundaries lies a text. -/
theorem IsBoundary.exists_slice {s : Bytes} {i j : Nat} (hi : IsBoundary s i)
    (hj : IsBoundary s j) (hij : i ≤ j) : ∃ cs, Bytes.slice s i j = encodeAll cs := by
  obtain ⟨cs, ds, hs, rfl⟩ := hi
  obtain ⟨cs', ds', hs', rfl⟩ := hj
  rw [← encodeAll_append] at hs hs'
  have heq := encodeAll_injective (hs.symm.trans hs')
  obtain ⟨ms, rfl⟩ : ∃ ms, cs' = cs ++ ms := by
    rcases List.append_eq_append_iff.mp heq with ⟨ms, hms, -⟩ | ⟨ms, hms, -⟩
    · exact ⟨ms, hms⟩
    · -- The second prefix cannot be the shorter one.
      refine ⟨[], ?_⟩
      cases ms with
      | nil => simpa using hms.symm
      | cons c ms =>
        rw [hms, encodeAll_append, List.length_append, encodeAll_cons, List.length_append,
          String.length_utf8EncodeChar] at hij
        have := c.utf8Size_pos
        omega
  refine ⟨ms, ?_⟩
  rw [hs', Bytes.slice, List.append_assoc, encodeAll_append cs ms, encodeAll_append cs,
    List.drop_left, List.length_append, Nat.add_sub_cancel_left, encodeAll_append, List.take_left]

end Declutter.Utf8
