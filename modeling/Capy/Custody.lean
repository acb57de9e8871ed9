import Mathlib.Data.List.Count
import Mathlib.Logic.Equiv.Basic

/-!
Resources that are created and released, and the slots that hold them. The log
of a run, newest event first, tells which resources are live; custody says that
every live resource sits in exactly one slot.
-/

namespace Capy.Custody

inductive Event (ρ : Type*) where
  | created (r : ρ)
  | released (r : ρ)
  deriving DecidableEq

variable {ρ σ : Type*}

/-- Created and not yet released. -/
def Live (log : List (Event ρ)) (r : ρ) : Prop := .created r ∈ log ∧ .released r ∉ log

/-- `needs r r'`: the resource `r` relies on `r'` for as long as it is live.
`excludes r r'`: `r` cannot be created while `r'` is live. -/
structure Rules (ρ : Type*) where
  needs : ρ → ρ → Prop
  excludes : ρ → ρ → Prop

/-- Every event of the log was in order when it came: a resource is created once,
next to what it needs and away from what it excludes, and is released while it is
live and nothing live needs it. -/
inductive Orderly (R : Rules ρ) : List (Event ρ) → Prop where
  | nil : Orderly R []
  | create {log : List (Event ρ)} {r : ρ} : Orderly R log → .created r ∉ log →
      (∀ r', R.needs r r' → Live log r') → (∀ r', R.excludes r r' → ¬Live log r') →
      Orderly R (.created r :: log)
  | release {log : List (Event ρ)} {r : ρ} : Orderly R log → Live log r →
      (∀ r', R.needs r' r → ¬Live log r') → Orderly R (.released r :: log)

namespace Orderly

variable {R : Rules ρ} {log pre post : List (Event ρ)} {r r' : ρ}

theorem created_of_released (h : Orderly R log) (hr : .released r ∈ log) : .created r ∈ log := by
  induction h with
  | nil => simp at hr
  | create _ _ _ _ ih =>
      rcases List.mem_cons.mp hr with heq | hr
      · cases heq
      · exact List.mem_cons_of_mem _ (ih hr)
  | release _ hlive _ ih =>
      rcases List.mem_cons.mp hr with heq | hr
      · cases heq
        exact List.mem_cons_of_mem _ hlive.1
      · exact List.mem_cons_of_mem _ (ih hr)

theorem created_of_needs (h : Orderly R log) (hr : .created r ∈ log) (hneeds : R.needs r r') :
    .created r' ∈ log := by
  induction h with
  | nil => simp at hr
  | create _ _ hlive _ ih =>
      rcases List.mem_cons.mp hr with heq | hr
      · cases heq
        exact List.mem_cons_of_mem _ (hlive r' hneeds).1
      · exact List.mem_cons_of_mem _ (ih hr)
  | release _ _ _ ih =>
      rcases List.mem_cons.mp hr with heq | hr
      · cases heq
      · exact List.mem_cons_of_mem _ (ih hr)

theorem of_append (h : Orderly R (post ++ pre)) : Orderly R pre := by
  induction post with
  | nil => exact h
  | cons e post ih =>
      apply ih
      cases h with
      | create h _ _ _ => exact h
      | release h _ _ => exact h

theorem live_create (h : Orderly R log) (hfresh : .created r ∉ log) :
    Live (.created r :: log) r' ↔ r' = r ∨ Live log r' := by
  have hnot : .released r ∉ log := fun hr => hfresh (h.created_of_released hr)
  constructor
  · rintro ⟨hcreated, hreleased⟩
    rcases List.mem_cons.mp hcreated with heq | hcreated
    · cases heq
      exact .inl rfl
    · exact .inr ⟨hcreated, fun hr => hreleased (List.mem_cons_of_mem _ hr)⟩
  · rintro (rfl | ⟨hcreated, hreleased⟩)
    · exact ⟨List.mem_cons_self, by simpa using hnot⟩
    · exact ⟨List.mem_cons_of_mem _ hcreated, by simpa using hreleased⟩

theorem count_le [DecidableEq ρ] (h : Orderly R log) (r : ρ) :
    log.count (.released r) ≤ log.count (.created r) ∧ log.count (.created r) ≤ 1 := by
  induction h with
  | nil => simp
  | @create log r' _ hfresh _ _ ih =>
      by_cases hr : r' = r
      · subst hr
        have hzero : log.count (.created r') = 0 := List.count_eq_zero.mpr hfresh
        simp only [List.count_cons, beq_self_eq_true, if_true]
        simp only [beq_iff_eq, reduceCtorEq, if_false]
        omega
      · simpa [List.count_cons, hr] using ih
  | @release log r' _ hlive _ ih =>
      by_cases hr : r' = r
      · subst hr
        have hzero : log.count (.released r') = 0 := List.count_eq_zero.mpr hlive.2
        have hone : 0 < log.count (.created r') := List.count_pos_iff.mpr hlive.1
        simp only [List.count_cons, beq_self_eq_true, if_true]
        simp only [beq_iff_eq, reduceCtorEq, if_false]
        omega
      · simpa [List.count_cons, hr] using ih

/-- What needs a resource is released before it, and is not created after that. -/
theorem needs_before (h : Orderly R (post ++ .released r :: pre)) (hneeds : R.needs r' r) :
    (.created r' ∈ pre → .released r' ∈ pre) ∧ .created r' ∉ post := by
  constructor
  · intro hcreated
    cases h.of_append with
    | release _ _ hfree =>
        by_contra hnot
        exact hfree r' hneeds ⟨hcreated, hnot⟩
  · intro hmem
    obtain ⟨post₁, post₂, rfl⟩ := List.append_of_mem hmem
    rw [List.append_assoc, List.cons_append] at h
    cases h.of_append with
    | create _ _ hlive _ =>
        refine (hlive r hneeds).2 ?_
        simp

/-- What a new resource excludes is released before it is created. -/
theorem excludes_before (h : Orderly R (post ++ .created r :: pre)) (hexcludes : R.excludes r r')
    (hcreated : .created r' ∈ pre) : .released r' ∈ pre := by
  cases h.of_append with
  | create _ _ _ hfree =>
      by_contra hnot
      exact hfree r' hexcludes ⟨hcreated, hnot⟩

end Orderly

theorem live_release {log : List (Event ρ)} {r r' : ρ} :
    Live (.released r :: log) r' ↔ r' ≠ r ∧ Live log r' := by
  simp only [Live, List.mem_cons, reduceCtorEq, false_or, Event.released.injEq, not_or]
  tauto

/-- The release of what a slot held. -/
def releases (o : Option ρ) : List (Event ρ) := o.toList.map .released

theorem created_mem_releases_append {o : Option ρ} {log : List (Event ρ)} {r : ρ} :
    .created r ∈ releases o ++ log ↔ .created r ∈ log := by
  simp [releases]

/-- The log is orderly, and exactly the live resources are in a slot, each in one. -/
structure Held (R : Rules ρ) (f : σ → Option ρ) (log : List (Event ρ)) : Prop where
  orderly : Orderly R log
  live_iff : ∀ r, Live log r ↔ ∃ q, f q = some r
  inj : ∀ {q q' r}, f q = some r → f q' = some r → q = q'

namespace Held

variable {R : Rules ρ} {f g : σ → Option ρ} {log : List (Event ρ)} {q : σ} {r : ρ}

theorem nil : Held R (fun _ : σ => none) [] where
  orderly := .nil
  live_iff := by simp [Live]
  inj := by simp

theorem rename (h : Held R f log) (e : σ ≃ σ) (hg : ∀ q, g q = f (e q)) : Held R g log where
  orderly := h.orderly
  live_iff r := by
    rw [h.live_iff]
    constructor
    · rintro ⟨q, hq⟩
      exact ⟨e.symm q, by rw [hg, e.apply_symm_apply, hq]⟩
    · rintro ⟨q, hq⟩
      exact ⟨e q, by rw [← hg, hq]⟩
  inj {q q' r} hq hq' := by
    rw [hg] at hq hq'
    exact e.injective (h.inj hq hq')

theorem created (h : Held R f log) (hq : f q = some r) : .created r ∈ log :=
  ((h.live_iff r).mpr ⟨q, hq⟩).1

variable [DecidableEq σ]

theorem create (h : Held R f log) (hq : f q = none) (hfresh : .created r ∉ log)
    (hneeds : ∀ r', R.needs r r' → ∃ q', f q' = some r')
    (hexcludes : ∀ r', R.excludes r r' → ∀ q', f q' ≠ some r') :
    Held R (Function.update f q (some r)) (.created r :: log) where
  orderly := by
    refine .create h.orderly hfresh (fun r' hr' => (h.live_iff r').mpr (hneeds r' hr')) ?_
    intro r' hr' hlive
    obtain ⟨q', hq'⟩ := (h.live_iff r').mp hlive
    exact hexcludes r' hr' q' hq'
  live_iff r' := by
    rw [h.orderly.live_create hfresh, h.live_iff]
    constructor
    · rintro (rfl | ⟨q', hq'⟩)
      · exact ⟨q, Function.update_self ..⟩
      · have hne : q' ≠ q := by
          rintro rfl
          simp [hq] at hq'
        exact ⟨q', by rw [Function.update_of_ne hne, hq']⟩
    · rintro ⟨q', hq'⟩
      by_cases hqq : q' = q
      · subst hqq
        rw [Function.update_self] at hq'
        exact .inl (Option.some.inj hq').symm
      · rw [Function.update_of_ne hqq] at hq'
        exact .inr ⟨q', hq'⟩
  inj {q₁ q₂ r'} h₁ h₂ := by
    have hnew : ∀ q', f q' ≠ some r := by
      intro q' hq'
      exact hfresh (h.created hq')
    simp only [Function.update_apply] at h₁ h₂
    split at h₁ <;> split at h₂
    · rename_i hq₁ hq₂
      rw [hq₁, hq₂]
    · cases h₁
      exact absurd h₂ (hnew q₂)
    · cases h₂
      exact absurd h₁ (hnew q₁)
    · exact h.inj h₁ h₂

theorem update_none_eq_some {q' : σ} :
    Function.update f q none q' = some r ↔ q' ≠ q ∧ f q' = some r := by
  by_cases hq : q' = q
  · simp [hq]
  · simp [hq]

theorem release (h : Held R f log) (hq : f q = some r)
    (hfree : ∀ q' r', f q' = some r' → ¬R.needs r' r) :
    Held R (Function.update f q none) (.released r :: log) where
  orderly := by
    refine .release h.orderly ((h.live_iff r).mpr ⟨q, hq⟩) fun r' hneeds hlive => ?_
    obtain ⟨q', hq'⟩ := (h.live_iff r').mp hlive
    exact hfree q' r' hq' hneeds
  live_iff r' := by
    rw [live_release, h.live_iff]
    constructor
    · rintro ⟨hne, q', hq'⟩
      have hqq : q' ≠ q := by
        rintro rfl
        exact hne (Option.some.inj (hq'.symm.trans hq))
      exact ⟨q', by rw [Function.update_of_ne hqq, hq']⟩
    · rintro ⟨q', hq'⟩
      obtain ⟨hqq, hq'⟩ := update_none_eq_some.mp hq'
      refine ⟨?_, q', hq'⟩
      rintro rfl
      exact hqq (h.inj hq' hq)
  inj h₁ h₂ := h.inj (update_none_eq_some.mp h₁).2 (update_none_eq_some.mp h₂).2

theorem releaseOption (h : Held R f log)
    (hfree : ∀ r q' r', f q = some r → f q' = some r' → ¬R.needs r' r) :
    Held R (Function.update f q none) (releases (f q) ++ log) := by
  cases hq : f q with
  | none =>
      have hsame : Function.update f q none = f := by rw [← hq, Function.update_eq_self]
      rw [hsame]
      exact h
  | some r => exact h.release hq fun q' r' hq' => hfree r q' r' hq hq'

end Held

end Capy.Custody
