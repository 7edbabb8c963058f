import Declutter.Proofs.Splice
import Mathlib.Data.List.Basic

/-!
# Which edits are carried out, and what becomes of the source

Edits may be given in any order, may overlap, and may leave the source.  From the end of the source
to its start, each one is carried out that does not reach into the one carried out before it; the
others are skipped.  What comes out is the simultaneous substitution of those that were chosen:
every offset has the texts of the edits that begin there, and its byte unless an edit covers it.

It makes no difference whether the edits are carried out one by one in a buffer, whose length
changes, or on the source itself.

## Main definitions

* `Edit.select` — the edits that are carried out, and those that are skipped.
* `Edit.substitute` — the simultaneous substitution.
* `Span.Apart` — whether two spans can both be replaced.
* `Edit.replaceAll` — edits carried out one by one in a buffer.

## Main results

* `Edit.splice_eq_substitute` — the splice of edits that fit is their simultaneous substitution.
* `Edit.applyBelow_eq_select` — any edits are carried out as the splice of the chosen ones.
* `Edit.skipped_cases` — why an edit is skipped.
* `Edit.replaceAll_eq_applyBelow` — the buffer holds the same.
* `Edit.applyAll_eq_substitute` — all together.
-/

namespace Declutter

/-! ### Spans that can both be replaced -/

/-- Whether a span has the byte at an offset. -/
def Span.HasByte (s : Span) (k : Nat) : Prop := s.start ≤ k ∧ k < s.stop

/-- Whether a span is an insertion strictly inside another one. -/
def Span.InsertsInto (s outer : Span) : Prop :=
  s.start = s.stop ∧ outer.start < s.start ∧ s.start < outer.stop

/-- Whether two spans share no byte, and neither is an insertion strictly inside the other. -/
def Span.Apart (a b : Span) : Prop :=
  (∀ k, ¬ (a.HasByte k ∧ b.HasByte k)) ∧ ¬ a.InsertsInto b ∧ ¬ b.InsertsInto a

theorem Span.apart_of_le {a b : Span} (ha : a.start ≤ a.stop) (h : a.stop ≤ b.start) :
    a.Apart b := by
  refine ⟨fun k ⟨hak, hbk⟩ => ?_, fun hinsert => ?_, fun hinsert => ?_⟩
  · have := hak.2
    have := hbk.1
    omega
  · have := hinsert.2.1
    omega
  · have := hinsert.2.2
    omega

namespace Edit

/-! ### Simultaneous substitution -/

/-- The texts of the edits that begin at an offset. -/
def textsAt (edits : List Edit) (k : Nat) : Bytes :=
  (edits.filter (·.span.start == k)).flatMap fun e => Utf8.encode e.replacement

/-- The byte at an offset, unless an edit covers it. -/
def keptAt (source : Bytes) (edits : List Edit) (k : Nat) : Bytes :=
  if edits.any (fun e => e.span.start ≤ k && k < e.span.stop) then [] else source[k]?.toList

/-- What stands at an offset: the texts of the edits that begin there, and then the byte. -/
def pieceAt (source : Bytes) (edits : List Edit) (k : Nat) : Bytes :=
  textsAt edits k ++ keptAt source edits k

/-- The source with all edits carried out at once.  The offset behind the last byte has no byte of
its own, but edits may begin there. -/
def substitute (source : Bytes) (edits : List Edit) : Bytes :=
  (List.range (source.length + 1)).flatMap (pieceAt source edits)

section

variable {source : Bytes} {e : Edit} {es : List Edit} {k offset n : Nat}

/-- Before all edits stand the bytes of the source. -/
theorem pieceAt_of_lt (h : ∀ d ∈ es, k < d.span.start) :
    pieceAt source es k = source[k]?.toList := by
  have htexts : textsAt es k = [] := by
    rw [textsAt, List.filter_eq_nil_iff.mpr fun d hd => ?_, List.flatMap_nil]
    simpa using Nat.ne_of_gt (h d hd)
  have hkept : keptAt source es k = source[k]?.toList := by
    rw [keptAt, if_neg]
    simp only [List.any_eq_true, Bool.and_eq_true, decide_eq_true_eq, not_exists, not_and]
    exact fun d hd hstart => absurd hstart (Nat.not_le.mpr (h d hd))
  rw [pieceAt, htexts, hkept, List.nil_append]

/-- An edit says nothing of an offset where it does not begin, and which it does not cover. -/
theorem pieceAt_cons_of_ne (hstart : e.span.start ≠ k)
    (hcovers : ¬ (e.span.start ≤ k ∧ k < e.span.stop)) :
    pieceAt source (e :: es) k = pieceAt source es k := by
  have htexts : textsAt (e :: es) k = textsAt es k := by
    rw [textsAt, List.filter_cons_of_neg (by simpa using hstart), textsAt]
  have hkept : keptAt source (e :: es) k = keptAt source es k := by
    have : (decide (e.span.start ≤ k) && decide (k < e.span.stop)) = false := by
      simpa using hcovers
    rw [keptAt, List.any_cons, this, Bool.false_or, keptAt]
  rw [pieceAt, htexts, hkept, pieceAt]

/-- At the place of an insertion stands its text, before all else. -/
theorem pieceAt_insertion (hempty : e.span.start = e.span.stop) :
    pieceAt source (e :: es) e.span.start =
      Utf8.encode e.replacement ++ pieceAt source es e.span.start := by
  have hkept : keptAt source (e :: es) e.span.start = keptAt source es e.span.start := by
    have : (decide (e.span.start ≤ e.span.start) &&
        decide (e.span.start < e.span.stop)) = false := by
      simp [hempty]
    rw [keptAt, List.any_cons, this, Bool.false_or, keptAt]
  rw [pieceAt, hkept, textsAt, List.filter_cons_of_pos (by simp), List.flatMap_cons,
    List.append_assoc, pieceAt, textsAt]

/-- Where an edit replaces something, its text stands at its start, and nothing behind it, when the
other edits begin no earlier than it ends. -/
theorem pieceAt_replacement (hbehind : ∀ d ∈ es, e.span.stop ≤ d.span.start)
    (hk : e.span.start ≤ k) (hk' : k < e.span.stop) :
    pieceAt source (e :: es) k = if e.span.start = k then Utf8.encode e.replacement else [] := by
  have hkept : keptAt source (e :: es) k = [] := by
    rw [keptAt, if_pos]
    simp [hk, hk']
  have hothers : es.filter (·.span.start == k) = [] := by
    refine List.filter_eq_nil_iff.mpr fun d hd => ?_
    have := hbehind d hd
    simp only [beq_iff_eq]
    omega
  rw [pieceAt, hkept, List.append_nil, textsAt, List.filter_cons, hothers]
  by_cases hstart : e.span.start = k
  · simp [hstart]
  · simp [hstart]

/-- The bytes before all edits, offset by offset. -/
theorem flatMap_pieceAt_of_lt (h : ∀ k < offset + n, ∀ d ∈ es, k < d.span.start) :
    (List.range' offset n).flatMap (pieceAt source es) = (source.drop offset).take n := by
  induction n generalizing offset with
  | zero => rfl
  | succ n ih =>
    rw [List.range'_succ, List.flatMap_cons, ih fun k hk => h k (by omega),
      pieceAt_of_lt (h offset (by omega))]
    rcases Nat.lt_or_ge offset source.length with hlt | hge
    · rw [List.getElem?_eq_getElem hlt, List.drop_eq_getElem_cons hlt, List.take_succ_cons]
      rfl
    · rw [List.getElem?_eq_none hge, List.drop_eq_nil_of_le hge,
        List.drop_eq_nil_of_le (Nat.le_succ_of_le hge), List.take_nil, List.take_nil]
      rfl

/-- Behind an edit, the others decide. -/
theorem flatMap_pieceAt_cons (hoffset : e.span.stop ≤ offset) (hstart : e.span.start < offset) :
    (List.range' offset n).flatMap (pieceAt source (e :: es)) =
      (List.range' offset n).flatMap (pieceAt source es) :=
  List.flatMap_congr fun k hk => by
    rw [List.mem_range'_1] at hk
    exact pieceAt_cons_of_ne (by omega) (by omega)

/-- An edit that replaces something, up to where it ends. -/
theorem flatMap_pieceAt_replacement (hbehind : ∀ d ∈ es, e.span.stop ≤ d.span.start)
    (hlt : e.span.start < e.span.stop) :
    (List.range' e.span.start (e.span.stop - e.span.start)).flatMap (pieceAt source (e :: es)) =
      Utf8.encode e.replacement := by
  obtain ⟨n, hn⟩ : ∃ n, e.span.stop - e.span.start = n + 1 :=
    ⟨e.span.stop - e.span.start - 1, by omega⟩
  have hrest : (List.range' (e.span.start + 1) n).flatMap (pieceAt source (e :: es)) = [] := by
    refine List.flatMap_eq_nil_iff.mpr fun k hk => ?_
    rw [List.mem_range'_1] at hk
    rw [pieceAt_replacement hbehind (by omega) (by omega), if_neg (by omega)]
  rw [hn, List.range'_succ, List.flatMap_cons, hrest, List.append_nil,
    pieceAt_replacement hbehind (Nat.le_refl _) hlt, if_pos rfl]

end

/-- Edits that fit lie between the two offsets. -/
theorem Fits.bounds {offset stop : Nat} {es : List Edit} (h : Fits offset stop es) :
    ∀ e ∈ es, offset ≤ e.span.start ∧ e.span.start ≤ e.span.stop ∧ e.span.stop ≤ stop := by
  induction es generalizing offset with
  | nil => exact fun e he => absurd he List.not_mem_nil
  | cons d es ih =>
    refine List.forall_mem_cons.mpr ⟨⟨h.1, h.2.1, h.2.2.le⟩, fun e he => ?_⟩
    obtain ⟨hstart, hle, hstop⟩ := ih h.2.2 e he
    exact ⟨Nat.le_trans h.1 (Nat.le_trans h.2.1 hstart), hle, hstop⟩

/-- Edits that fit end before the later ones begin. -/
theorem Fits.pairwise {offset stop : Nat} {es : List Edit} (h : Fits offset stop es) :
    es.Pairwise fun a b => a.span.stop ≤ b.span.start := by
  induction es generalizing offset with
  | nil => exact .nil
  | cons d es ih => exact .cons (fun e he => (h.2.2.bounds e he).1) (ih h.2.2)

/-- An interval of offsets, cut at two places. -/
theorem range'_cut {offset start stop last : Nat} (hstart : offset ≤ start) (hstop : start ≤ stop)
    (hlast : stop ≤ last) : List.range' offset (last - offset) =
      List.range' offset (start - offset) ++
        (List.range' start (stop - start) ++ List.range' stop (last - stop)) := by
  have hbehind := @List.range'_append_1 start (stop - start) (last - stop)
  have hbefore := @List.range'_append_1 offset (start - offset) (last - start)
  rw [Nat.add_sub_cancel' hstop] at hbehind
  rw [Nat.add_sub_cancel' hstart] at hbefore
  rw [hbehind, show stop - start + (last - stop) = last - start by omega, hbefore,
    show start - offset + (last - start) = last - offset by omega]

/-- The splice from an offset on, read offset by offset. -/
theorem splice_eq_flatMap (source : Bytes) {offset : Nat} {es : List Edit}
    (h : Fits offset source.length es) :
    splice source offset source.length es =
      (List.range' offset (source.length + 1 - offset)).flatMap (pieceAt source es) := by
  induction es generalizing offset with
  | nil =>
    rw [splice, flatMap_pieceAt_of_lt fun k _ d hd => absurd hd List.not_mem_nil, Bytes.slice,
      List.take_of_length_le (Nat.le_of_eq List.length_drop),
      List.take_of_length_le (by rw [List.length_drop]; omega)]
  | cons e es ih =>
    obtain ⟨hoffset, hle, hrest⟩ := h
    have hstop := hrest.le
    have hbehind : ∀ d ∈ es, e.span.stop ≤ d.span.start := fun d hd => (hrest.bounds d hd).1
    have hbefore : (List.range' offset (e.span.start - offset)).flatMap (pieceAt source (e :: es)) =
        Bytes.slice source offset e.span.start := by
      refine flatMap_pieceAt_of_lt fun k hk => List.forall_mem_cons.mpr ⟨by omega, fun d hd => ?_⟩
      have := hbehind d hd
      omega
    -- The offsets before the edit, those of the edit, and those behind it.
    rw [splice, ih hrest, range'_cut hoffset hle (Nat.le_succ_of_le hstop), List.flatMap_append,
      List.flatMap_append, hbefore, List.append_assoc]
    congr 1
    rcases Nat.eq_or_lt_of_le hle with hempty | hlt
    · -- An insertion shares its place with what stands there.
      obtain ⟨n, hn⟩ : ∃ n, source.length + 1 - e.span.stop = n + 1 :=
        ⟨source.length - e.span.stop, by omega⟩
      rw [← hempty, Nat.sub_self, List.range'_zero, List.flatMap_nil, List.nil_append, hempty, hn,
        List.range'_succ, List.flatMap_cons, List.flatMap_cons, ← hempty,
        pieceAt_insertion hempty, List.append_assoc, flatMap_pieceAt_cons (by omega) (by omega)]
    · rw [flatMap_pieceAt_replacement hbehind hlt, flatMap_pieceAt_cons (Nat.le_refl _) hlt]

/-- **The splice of edits that fit is their simultaneous substitution.** -/
theorem splice_eq_substitute {source : Bytes} {es : List Edit} (h : Fits 0 source.length es) :
    splice source 0 source.length es = substitute source es := by
  rw [splice_eq_flatMap source h, substitute, List.range_eq_range', Nat.sub_zero]

/-! ### The choice -/

/-- The edits that are carried out below a limit, in ascending order, and those that are skipped,
of edits that are given from the end to the start. -/
def select (limit : Nat) : List Edit → List Edit × List Edit
  | [] => ([], [])
  | e :: rest =>
    if e.span.start ≤ e.span.stop && e.span.stop ≤ limit then
      let (chosen, skipped) := select e.span.start rest
      (chosen ++ [e], skipped)
    else
      let (chosen, skipped) := select limit rest
      (chosen, e :: skipped)

/-- The edits that are carried out in a source, in ascending order, and those that are skipped. -/
def selectAll (source : Bytes) (edits : List Edit) : List Edit × List Edit :=
  select source.length (sortBy after edits)

section

variable {limit : Nat} {e : Edit} {es : List Edit}

theorem select_of_fits (h : e.span.start ≤ e.span.stop ∧ e.span.stop ≤ limit) :
    select limit (e :: es) =
      ((select e.span.start es).1 ++ [e], (select e.span.start es).2) := by
  rw [select, if_pos (by simpa using h)]

theorem select_of_not_fits (h : ¬ (e.span.start ≤ e.span.stop ∧ e.span.stop ≤ limit)) :
    select limit (e :: es) = ((select limit es).1, e :: (select limit es).2) := by
  rw [select, if_neg (by simpa using h)]

/-- Every edit is carried out or skipped. -/
theorem select_perm (limit : Nat) (es : List Edit) :
    ((select limit es).1 ++ (select limit es).2).Perm es := by
  induction es generalizing limit with
  | nil => exact .refl _
  | cons e es ih =>
    by_cases h : e.span.start ≤ e.span.stop ∧ e.span.stop ≤ limit
    · rw [select_of_fits h, List.append_assoc]
      exact List.perm_middle.trans ((ih e.span.start).cons e)
    · rw [select_of_not_fits h]
      exact List.perm_middle.trans ((ih limit).cons e)

/-- The edits that are carried out are some of the given ones, turned round. -/
theorem select_sublist (limit : Nat) (es : List Edit) :
    (select limit es).1.Sublist es.reverse := by
  induction es generalizing limit with
  | nil => exact .refl _
  | cons e es ih =>
    rw [List.reverse_cons]
    by_cases h : e.span.start ≤ e.span.stop ∧ e.span.stop ≤ limit
    · rw [select_of_fits h]
      exact (ih _).append (.refl _)
    · rw [select_of_not_fits h]
      exact (ih _).trans (List.sublist_append_left _ _)

/-- **The edits that are carried out fit.** -/
theorem fits_select (limit : Nat) (es : List Edit) : Fits 0 limit (select limit es).1 := by
  induction es generalizing limit with
  | nil => exact Nat.zero_le _
  | cons e es ih =>
    by_cases h : e.span.start ≤ e.span.stop ∧ e.span.stop ≤ limit
    · rw [select_of_fits h, fits_concat]
      exact ⟨ih _, h⟩
    · rw [select_of_not_fits h]
      exact ih _

/-- **Edits of any kind are carried out as the splice of those that are chosen.** -/
theorem applyBelow_eq_select (source : Bytes) (es : List Edit) (limit : Nat) (tail : Bytes) :
    applyBelow source es limit tail =
      (splice source 0 limit (select limit es).1 ++ tail, (select limit es).1.length) := by
  induction es generalizing limit tail with
  | nil => simp [applyBelow, select, splice, Bytes.slice]
  | cons e es ih =>
    by_cases h : e.span.start ≤ e.span.stop ∧ e.span.stop ≤ limit
    · rw [applyBelow, if_pos (by simpa using h), ih, select_of_fits h, splice_concat,
        List.length_append]
      simp only [List.append_assoc, List.length_singleton]
    · rw [applyBelow, if_neg (by simpa using h), ih, select_of_not_fits h]

/-- An edit that reaches past the start of one before it in the order overlaps that one. -/
theorem overlaps_of_reaches {d : Edit} (hd : d.span.start ≤ d.span.stop)
    (he : e.span.start ≤ e.span.stop) (hafter : d.after e = true)
    (hreach : d.span.start < e.span.stop) : e.span.overlaps d.span = true := by
  by_contra hover
  rw [Bool.not_eq_true, Span.overlaps_comm] at hover
  exact absurd (stop_le_of_after hd he hafter hover) (Nat.not_le.mpr hreach)

/-- **Why an edit is skipped.**  It is reversed, or it reaches past the limit, or into one that is
carried out; here `P` stands for what the last two cases have in common. -/
theorem skipped_cases {P : Edit → Prop} (hsorted : es.Pairwise fun a b => a.after b = true)
    (hlimit : ∀ e ∈ es, e.span.start ≤ e.span.stop → limit < e.span.stop → P e)
    (hover : ∀ d ∈ (select limit es).1, ∀ e ∈ es, e.span.overlaps d.span = true → P e) :
    ∀ e ∈ (select limit es).2, e.span.stop < e.span.start ∨ P e := by
  induction es generalizing limit with
  | nil => exact fun e he => absurd he List.not_mem_nil
  | cons d es ih =>
    rw [List.pairwise_cons] at hsorted
    by_cases h : d.span.start ≤ d.span.stop ∧ d.span.stop ≤ limit
    · rw [select_of_fits h] at hover ⊢
      refine ih hsorted.2 (fun e he hle hreach => ?_) fun c hc e he =>
        hover c (List.mem_append_left _ hc) e (.tail _ he)
      -- Once `d` is carried out, its start is the limit.
      exact hover d (List.mem_append_right _ (.head _)) e (.tail _ he)
        (overlaps_of_reaches h.1 hle (hsorted.1 e he) hreach)
    · rw [select_of_not_fits h] at hover ⊢
      refine List.forall_mem_cons.mpr ⟨?_, ih hsorted.2 (fun e he => hlimit e (.tail _ he))
        fun c hc e he => hover c hc e (.tail _ he)⟩
      rcases Nat.lt_or_ge d.span.stop d.span.start with hreversed | hle
      · exact .inl hreversed
      · exact .inr (hlimit d (.head _) hle (by omega))

end

/-! ### In a buffer -/

/-- A buffer in which an edit is carried out. -/
def replaceIn (buffer : Bytes) (e : Edit) : Bytes :=
  buffer.take e.span.start ++ Utf8.encode e.replacement ++ buffer.drop e.span.stop

/-- A buffer in which edits are carried out one by one, and how many were.  `last?` is the start of
the one before; an edit is skipped that reaches past it, is reversed, or leaves the source, which
has `length` bytes. -/
def replaceAll (length : Nat) : List Edit → (last? : Option Nat) → (buffer : Bytes) →
    (applied : Nat) → Bytes × Nat
  | [], _, buffer, applied => (buffer, applied)
  | e :: rest, last?, buffer, applied =>
    if last?.any (· < e.span.stop) || e.span.stop < e.span.start || length < e.span.stop then
      replaceAll length rest last? buffer applied
    else replaceAll length rest (some e.span.start) (replaceIn buffer e) (applied + 1)

theorem replaceIn_append {source tail : Bytes} {e : Edit} {limit : Nat}
    (hle : e.span.start ≤ e.span.stop) (hstop : e.span.stop ≤ limit)
    (hlimit : limit ≤ source.length) :
    replaceIn (source.take limit ++ tail) e = source.take e.span.start ++
      (Utf8.encode e.replacement ++ Bytes.slice source e.span.stop limit ++ tail) := by
  have hlength : (source.take limit).length = limit := List.length_take_of_le hlimit
  rw [replaceIn, List.take_append_of_le_length (by omega), List.drop_append_of_le_length (by omega),
    List.take_take, Nat.min_eq_left (by omega), List.drop_take, Bytes.slice]
  simp only [List.append_assoc]

/-- **The buffer holds the same.**  Before its last edit it is the source still, so that neither the
texts put in nor those taken out move anything that is to be replaced. -/
theorem replaceAll_eq_applyBelow (source : Bytes) (es : List Edit) (limit : Nat)
    (last? : Option Nat) (tail : Bytes) (applied : Nat) (hlast : last?.getD source.length = limit)
    (hlimit : limit ≤ source.length) :
    replaceAll source.length es last? (source.take limit ++ tail) applied =
      ((applyBelow source es limit tail).1, applied + (applyBelow source es limit tail).2) := by
  induction es generalizing limit last? tail applied with
  | nil => rfl
  | cons e es ih =>
    have hreach : (last?.any (· < e.span.stop) || source.length < e.span.stop) =
        decide (limit < e.span.stop) := by
      cases last? with
      | none =>
        rw [← hlast]
        rfl
      | some last =>
        rw [Option.getD_some] at hlast
        rw [Option.any_some, hlast, ← Bool.decide_or]
        exact decide_eq_decide.mpr ⟨fun h => by omega, .inl⟩
    rw [replaceAll, applyBelow, Bool.or_right_comm, hreach]
    by_cases h : e.span.start ≤ e.span.stop ∧ e.span.stop ≤ limit
    · rw [if_neg (by simpa using ⟨h.2, h.1⟩), if_pos (by simpa using h),
        replaceIn_append h.1 h.2 hlimit, ih e.span.start (some e.span.start) _ _ rfl (by omega)]
      dsimp only
      rw [Nat.add_assoc, Nat.add_comm 1]
    · rw [if_pos (by simp; omega), if_neg (by simpa using h),
        ih limit last? tail applied hlast hlimit]

/-! ### All edits -/

/-- Edits that neither overlap nor leave the source are all chosen. -/
theorem skipped_eq_nil {source : Bytes} {edits : List Edit}
    (hspan : ∀ e ∈ edits, e.span.start ≤ e.span.stop ∧ e.span.stop ≤ source.length)
    (hdisjoint : edits.Pairwise fun a b => a.span.overlaps b.span = false) :
    (selectAll source edits).2 = [] := by
  have hfits := fits_of_pairwise hdisjoint (fun e he => (hspan e he).1) fun e he => (hspan e he).2
  have hcount := (applyAll_snd_eq_length_iff source edits).mpr hfits
  rw [applyAll, applyBelow_eq_select] at hcount
  have hperm := ((select_perm source.length (sortBy after edits)).trans
    (sortBy_perm after edits)).length_eq
  rw [List.length_append] at hperm
  refine List.eq_nil_of_length_eq_zero ?_
  rw [selectAll]
  dsimp only at hcount
  omega

/-- **Edits are substituted simultaneously.**  Some of the edits are chosen and the others skipped.
The chosen ones lie within the source, can all be replaced, and come in ascending order; the result
is the source with all of them substituted at once, and their number.  It is the same when they are
carried out one by one in a buffer.  An edit is skipped only if it leaves the source, is reversed,
or overlaps one that is chosen.  Edits that do none of this are all chosen, and the order in which they
are given does not matter. -/
theorem applyAll_eq_substitute (source : Bytes) (edits : List Edit) :
    let chosen := (selectAll source edits).1
    let skipped := (selectAll source edits).2
    (chosen ++ skipped).Perm edits ∧
      (∀ e ∈ chosen, e.span.start ≤ e.span.stop ∧ e.span.stop ≤ source.length) ∧
      chosen.Pairwise (fun a b => a.span.Apart b.span ∧ a.before b = true) ∧
      applyAll source edits = (substitute source chosen, chosen.length) ∧
      replaceAll source.length (sortBy after edits) none source 0 = applyAll source edits ∧
      (∀ e ∈ skipped, source.length < e.span.stop ∨ e.span.stop < e.span.start ∨
        ∃ d ∈ chosen, e.span.overlaps d.span = true) ∧
      ((∀ e ∈ edits, e.span.start ≤ e.span.stop ∧ e.span.stop ≤ source.length) →
        edits.Pairwise (fun a b => a.span.overlaps b.span = false) →
          skipped = [] ∧ ∀ edits', edits'.Perm edits →
            applyAll source edits' = applyAll source edits) := by
  intro chosen skipped
  have hfits : Fits 0 source.length chosen := fits_select source.length (sortBy after edits)
  have happly : applyAll source edits = (substitute source chosen, chosen.length) := by
    rw [applyAll, applyBelow_eq_select, List.append_nil, ← splice_eq_substitute hfits]
    rfl
  have hsorted : (sortBy after edits).Pairwise fun a b => a.after b = true :=
    pairwise_sortBy after_trans after_total edits
  have hbounds : ∀ e ∈ chosen, e.span.start ≤ e.span.stop ∧ e.span.stop ≤ source.length :=
    fun e he => (hfits.bounds e he).2
  refine ⟨(select_perm _ _).trans (sortBy_perm after edits), hbounds, ?_, happly, ?_, ?_, ?_⟩
  · have hascending : chosen.Pairwise fun a b => b.after a = true :=
      (List.pairwise_reverse.mpr hsorted).sublist (select_sublist _ _)
    refine (hfits.pairwise.and hascending).imp_of_mem fun {a b} ha hb h => ?_
    obtain ⟨hab, hafter⟩ := h
    exact ⟨Span.apart_of_le (hbounds a ha).1 hab, hafter⟩
  · have hbuffer := replaceAll_eq_applyBelow source (sortBy after edits) source.length none [] 0
      rfl (Nat.le_refl source.length)
    rw [List.take_length, List.append_nil, Nat.zero_add] at hbuffer
    exact hbuffer
  · intro e he
    rcases skipped_cases hsorted (P := fun e => source.length < e.span.stop ∨
      ∃ d ∈ chosen, e.span.overlaps d.span = true) (fun e _ _ hreach => .inl hreach)
      (fun d hd e _ hover => .inr ⟨d, hd, hover⟩) e he with h | h | h
    · exact .inr (.inl h)
    · exact .inl h
    · exact .inr (.inr h)
  · intro hspan hdisjoint
    refine ⟨skipped_eq_nil hspan hdisjoint, fun edits' hperm => ?_⟩
    have hfitsAll := fits_of_pairwise hdisjoint (fun e he => (hspan e he).1)
      fun e he => (hspan e he).2
    have hsame : inOrder edits = inOrder edits' :=
      inOrder_eq_of_perm hperm.symm hdisjoint fun e he => (hspan e he).1
    refine Prod.ext ?_ ?_
    · rw [applyAll_fst hfitsAll, applyAll_fst (hsame ▸ hfitsAll), hsame]
    · rw [(applyAll_snd_eq_length_iff source edits).mpr hfitsAll,
        (applyAll_snd_eq_length_iff source edits').mpr (hsame ▸ hfitsAll), hperm.length_eq]

end Edit

namespace Sample

/-- A source of six bytes. -/
def sixBytes : Bytes := Utf8.encode "abcdef"

/-- The replacement of a part of the six bytes. -/
def editing (start stop : Nat) (text : String) : Edit := ⟨.ofOffsets sixBytes start stop, text⟩

/-- Edits that overlap, share a place, are reversed, or leave the source. -/
def jumbled : List Edit :=
  [editing 1 3 "X", editing 3 3 "p", editing 5 4 "r", editing 3 5 "Y", editing 4 9 "o",
    editing 2 2 "i", editing 3 3 "q", editing 0 0 "s"]

/-- Those of them that are carried out. -/
def chosenOnes : List Edit :=
  [editing 0 0 "s", editing 2 2 "i", editing 3 3 "q", editing 3 3 "p", editing 3 5 "Y"]

/-- Edits that touch but do not overlap. -/
def touchingEdits : List Edit := [editing 3 5 "Y", editing 1 3 "X", editing 3 3 "p"]

end Sample

/-- One of the jumbled edits reaches over an insertion and is skipped.  Of the insertions at one
place, the one given last comes first.  Edits that only touch give the same result in another
order. -/
theorem sample_applyAll :
    (Edit.selectAll Sample.sixBytes Sample.jumbled).1 = Sample.chosenOnes ∧
      Edit.applyAll Sample.sixBytes Sample.jumbled = (Utf8.encode "sabicqpYf", 5) ∧
      (Sample.editing 3 3 "q").span.stop ≤ Sample.sixBytes.length ∧
      (Sample.sixBytes.length < 3 ∨ 3 < 1 ∨
        ∃ d ∈ Sample.chosenOnes, (Sample.editing 1 3 "X").span.overlaps d.span = true) ∧
      Edit.applyAll Sample.sixBytes Sample.touchingEdits.reverse =
        Edit.applyAll Sample.sixBytes Sample.touchingEdits := by
  have hchosen : (Edit.selectAll Sample.sixBytes Sample.jumbled).1 = Sample.chosenOnes := by
    decide +kernel
  obtain ⟨-, hbounds, -, happly, -, hskipped, -⟩ :=
    Edit.applyAll_eq_substitute Sample.sixBytes Sample.jumbled
  obtain ⟨-, -, -, -, -, -, horder⟩ :=
    Edit.applyAll_eq_substitute Sample.sixBytes Sample.touchingEdits
  rw [hchosen] at hbounds happly hskipped
  have hmember : Sample.editing 3 3 "q" ∈ Sample.chosenOnes := by decide +kernel
  have hreaching : Sample.editing 1 3 "X" ∈
      (Edit.selectAll Sample.sixBytes Sample.jumbled).2 := by decide +kernel
  refine ⟨hchosen, happly.trans (by decide +kernel), (hbounds _ hmember).2,
    hskipped _ hreaching, ?_⟩
  exact (horder (by decide +kernel) (by decide +kernel)).2 _ (List.reverse_perm _)

end Declutter
