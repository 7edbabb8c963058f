import Declutter.Finding.Withheld
import Mathlib.Data.List.Forall2
import Mathlib.Tactic.Common

/-!
# What attempts lead to

An attempt at a rewrite ends with a result, with a reason to withhold it, or with a defect.  The
predicate `Attempt.Yields` rules out the defect and says what holds of the result; each way to
build an attempt has its rule.

## Main definitions

* `Attempt.Yields` — whether an attempt is withheld or has a result with some property.

## Main results

* `Attempt.bind_eq_ok`, `Attempt.checkAll_eq_ok`, `Attempt.mapM_eq_ok` — how an attempt comes to a
  result.
-/

namespace Declutter.Attempt

variable {α β : Type} {P : α → Prop} {Q : β → Prop}

/-- Whether an attempt is withheld or has a result that satisfies `P`. -/
def Yields (P : α → Prop) : Attempt α → Prop
  | .ok a => P a
  | .error (.withheld _) => True
  | .error (.defect _) => False

theorem Yields.of_ok {a : α} {x : Attempt α} (h : x.Yields P) (hx : x = .ok a) : P a := by
  subst hx
  exact h

/-- An attempt without a result is withheld. -/
theorem Yields.of_error {x : Attempt α} {e : Failure} (h : x.Yields P) (hx : x = .error e) :
    ∃ why, e = .withheld why := by
  subst hx
  cases e with
  | withheld why => exact ⟨why, rfl⟩
  | defect d => exact h.elim

/-- What an attempt without a result leads to does not depend on the property. -/
theorem Yields.error {e : Failure} (h : Yields P (.error e)) : Yields Q (.error e) := by
  cases e with
  | withheld why => exact trivial
  | defect d => exact h.elim

theorem Yields.mono {P' : α → Prop} {x : Attempt α} (h : x.Yields P) (hP : ∀ a, P a → P' a) :
    x.Yields P' := by
  cases x with
  | ok a => exact hP a h
  | error e => exact h.error

theorem yields_ok {a : α} (h : P a) : Yields P (.ok a) := h

theorem yields_pure {a : α} (h : P a) : Yields P (pure a) := h

theorem yields_withhold (why : Withheld) : Yields P (withhold why) := trivial

theorem yields_fetch (d : Defect) {o : Option α} (h : ∃ a, o = some a ∧ P a) :
    Yields P (fetch d o) := by
  obtain ⟨a, rfl, ha⟩ := h
  exact ha

theorem yields_require (condition : Bool) (why : Withheld) :
    Yields (fun _ => condition = true) (require condition why) := by
  cases condition with
  | true => exact rfl
  | false => exact trivial

theorem yields_require_of {Q : Unit → Prop} {condition : Bool} {why : Withheld}
    (h : condition = true → Q ()) : Yields Q (require condition why) :=
  (yields_require condition why).mono fun _ hc => h hc

theorem Yields.bind {x : Attempt α} {f : α → Attempt β} (hx : x.Yields P)
    (hf : ∀ a, P a → (f a).Yields Q) : (x >>= f).Yields Q := by
  cases x with
  | ok a => exact hf a hx
  | error e => exact hx.error

theorem Yields.map {x : Attempt α} {f : α → β} (hx : x.Yields fun a => Q (f a)) :
    Yields Q (x.map f) := by
  cases x with
  | ok a => exact hx
  | error e => exact Yields.error (Q := Q) hx

/-- A check of each element ensures what it ensures of each. -/
theorem yields_checkAll {check : α → Attempt Unit} {l : List α}
    (h : ∀ a ∈ l, (check a).Yields fun _ => P a) :
    (checkAll check l).Yields fun _ => ∀ a ∈ l, P a := by
  induction l with
  | nil => exact fun a ha => nomatch ha
  | cons a l ih =>
    have ha := h a (.head _)
    rw [checkAll]
    cases hc : check a with
    | error e =>
      rw [hc] at ha
      exact ha.error
    | ok u =>
      rw [hc] at ha
      refine (ih fun b hb => h b (.tail _ hb)).mono fun _ hl b hb => ?_
      rcases List.mem_cons.mp hb with rfl | hb
      · exact ha
      · exact hl b hb

/-- The results for the elements of a list: as many, and each the result for some element. -/
theorem yields_mapM {f : α → Attempt β} {R : α → β → Prop} {l : List α}
    (h : ∀ a ∈ l, (f a).Yields (R a)) :
    (l.mapM f).Yields fun bs => bs.length = l.length ∧ ∀ b ∈ bs, ∃ a ∈ l, R a b := by
  induction l with
  | nil => exact ⟨rfl, fun b hb => nomatch hb⟩
  | cons a l ih =>
    rw [List.mapM_cons]
    refine (h a (.head _)).bind fun b hb => ?_
    refine (ih fun c hc => h c (.tail _ hc)).bind fun bs ⟨hlength, hbs⟩ => ?_
    refine yields_pure ⟨by rw [List.length_cons, hlength, List.length_cons], fun d hd => ?_⟩
    rcases List.mem_cons.mp hd with rfl | hd
    · exact ⟨a, .head _, hb⟩
    · obtain ⟨c, hc, hr⟩ := hbs d hd
      exact ⟨c, .tail _ hc, hr⟩

-- Unfolding the predicate would run the attempt.
attribute [irreducible] Yields

/-! ### Attempts that succeed

What says nothing of the failure holds of all computations that may fail. -/

variable {ε : Type}

theorem bind_eq_ok {x : Except ε α} {f : α → Except ε β} {b : β} :
    (x >>= f) = .ok b ↔ ∃ a, x = .ok a ∧ f a = .ok b := by
  cases x with
  | ok a => exact ⟨fun h => ⟨a, rfl, h⟩, fun ⟨_, ha, h⟩ => Except.ok.inj ha ▸ h⟩
  | error e => exact ⟨fun h => (nomatch h), fun ⟨_, ha, _⟩ => nomatch ha⟩

theorem map_eq_ok {x : Except ε α} {f : α → β} {b : β} :
    x.map f = .ok b ↔ ∃ a, x = .ok a ∧ f a = b := by
  cases x with
  | ok a => exact ⟨fun h => ⟨a, rfl, Except.ok.inj h⟩, fun ⟨_, ha, h⟩ =>
      Except.ok.inj ha ▸ congrArg Except.ok h⟩
  | error e => exact ⟨fun h => (nomatch h), fun ⟨_, ha, _⟩ => nomatch ha⟩

theorem pure_eq_ok {a b : α} : (pure a : Except ε α) = .ok b ↔ a = b :=
  ⟨Except.ok.inj, congrArg Except.ok⟩

theorem fetch_eq_ok {d : Defect} {o : Option α} {a : α} : fetch d o = .ok a ↔ o = some a := by
  cases o with
  | none => exact ⟨fun h => (nomatch h), fun h => nomatch h⟩
  | some b => exact ⟨fun h => congrArg some (Except.ok.inj h), fun h =>
      congrArg Except.ok (Option.some.inj h)⟩

theorem toOption_eq_some {x : Except ε α} {a : α} : x.toOption = some a ↔ x = .ok a := by
  cases x with
  | ok b => exact ⟨fun h => congrArg Except.ok (Option.some.inj h), fun h =>
      congrArg some (Except.ok.inj h)⟩
  | error e => exact ⟨fun h => (nomatch h), fun h => nomatch h⟩

theorem exists_of_toOption_map {x : Except ε α} {f : α → β} {b : β}
    (h : x.toOption.map f = some b) : ∃ a, x = .ok a ∧ f a = b := by
  obtain ⟨a, ha, hb⟩ := Option.map_eq_some_iff.mp h
  exact ⟨a, toOption_eq_some.mp ha, hb⟩

theorem withhold_ne_ok {why : Withheld} {a : α} : withhold why ≠ .ok a := fun h => nomatch h

theorem require_eq_ok {condition : Bool} {why : Withheld} {u : Unit} :
    require condition why = .ok u ↔ condition = true := by
  cases condition with
  | true => exact ⟨fun _ => rfl, fun _ => rfl⟩
  | false => exact ⟨fun h => (nomatch h), fun h => nomatch h⟩

/-- A check of each element succeeds iff all checks do. -/
theorem checkAll_eq_ok {check : α → Attempt Unit} {l : List α} {u : Unit} :
    checkAll check l = .ok u ↔ ∀ a ∈ l, check a = .ok () := by
  induction l with
  | nil => exact ⟨fun _ a ha => (nomatch ha), fun _ => rfl⟩
  | cons a l ih =>
    rw [checkAll]
    cases hc : check a with
    | error e =>
      refine ⟨fun h => (nomatch h), fun h => ?_⟩
      rw [h a (.head _)] at hc
      cases hc
    | ok v =>
      refine ih.trans ⟨fun h d hd => ?_, fun h d hd => h d (.tail _ hd)⟩
      rcases List.mem_cons.mp hd with rfl | hd
      · exact hc
      · exact h d hd

/-- The results for the elements of a list, one by one. -/
theorem mapM_eq_ok {f : α → Except ε β} {l : List α} {bs : List β} :
    l.mapM f = .ok bs ↔ List.Forall₂ (fun a b => f a = .ok b) l bs := by
  induction l generalizing bs with
  | nil =>
    rw [List.mapM_nil, pure_eq_ok, List.forall₂_nil_left_iff, eq_comm]
  | cons a l ih =>
    rw [List.mapM_cons, List.forall₂_cons_left_iff]
    constructor
    · intro h
      obtain ⟨b, hb, h⟩ := bind_eq_ok.mp h
      obtain ⟨bs', hbs, h⟩ := bind_eq_ok.mp h
      exact ⟨b, bs', hb, ih.mp hbs, (pure_eq_ok.mp h).symm⟩
    · rintro ⟨b, bs', hb, hbs, rfl⟩
      exact bind_eq_ok.mpr ⟨b, hb, bind_eq_ok.mpr ⟨bs', ih.mpr hbs, rfl⟩⟩

/-- Each element has its result. -/
theorem exists_of_mapM {f : α → Except ε β} {l : List α} {bs : List β} (h : l.mapM f = .ok bs)
    {a : α} (ha : a ∈ l) : ∃ b ∈ bs, f a = .ok b := by
  induction mapM_eq_ok.mp h with
  | nil => cases ha
  | cons hab hrest ih =>
    rcases List.mem_cons.mp ha with rfl | ha
    · exact ⟨_, .head _, hab⟩
    · obtain ⟨b, hb, hok⟩ := ih (mapM_eq_ok.mpr hrest) ha
      exact ⟨b, .tail _ hb, hok⟩

/-- The results are those for the elements. -/
theorem mem_of_mapM {f : α → Except ε β} {l : List α} {bs : List β} (h : l.mapM f = .ok bs)
    {b : β} : b ∈ bs ↔ ∃ a ∈ l, f a = .ok b := by
  induction mapM_eq_ok.mp h with
  | nil => simp
  | cons hab _ ih =>
    rw [List.mem_cons, ih (mapM_eq_ok.mpr ‹_›)]
    constructor
    · rintro (rfl | ⟨c, hc, hb⟩)
      · exact ⟨_, .head _, hab⟩
      · exact ⟨c, .tail _ hc, hb⟩
    · rintro ⟨c, hc, hb⟩
      rcases List.mem_cons.mp hc with rfl | hc
      · exact .inl (Except.ok.inj (hb.symm.trans hab))
      · exact .inr ⟨c, hc, hb⟩

end Declutter.Attempt
