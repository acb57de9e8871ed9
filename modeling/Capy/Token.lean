import Capy.CallStack

namespace Capy.Token

open Capy.CallStack

variable {K Pc : Type*} [DecidableEq K]

def heldBy (holder : Pc → Option K) (k : K) (pc : Pc) : Nat :=
  if holder pc = some k then 1 else 0

/-- Exactly `h` has the token: `holder` says for whom an activation has it, and
`state` how often the shared state has it for each holder. -/
def Located (holder : Pc → Option K) (state : K → Nat) (h : K) (fs : List (Frame Pc)) : Prop :=
  ∀ k, state k + total (heldBy holder k) fs = if k = h then 1 else 0

/-- The token is with `h` when only the state and the activation `q` can have it. -/
def Moved (holder : Pc → Option K) (state : K → Nat) (q : Option Pc) (h : K) : Prop :=
  ∀ k, state k + q.elim 0 (heldBy holder k) = if k = h then 1 else 0

variable {holder holder' : Pc → Option K} {state state' : K → Nat} {h k : K}
  {l r fs : List (Frame Pc)} {t : Nat} {pc : Pc} {q : Option Pc}

theorem heldBy_of_holder (hk : holder pc = some k) (j : K) :
    heldBy holder j pc = if j = k then 1 else 0 := by
  simp only [heldBy, hk, Option.some.injEq, eq_comm]

theorem moved_of_holder (hzero : ∀ j, state j = 0) (hk : holder pc = some k) :
    Moved holder state (some pc) k := by
  intro j
  rw [hzero, Nat.zero_add]
  exact heldBy_of_holder hk j

theorem moved_of_state (hk : state k = 1) (hother : ∀ j, j ≠ k → state j = 0)
    (hq : ∀ j, q.elim 0 (heldBy holder j) = 0) : Moved holder state q k := by
  intro j
  rw [hq, Nat.add_zero]
  split
  · rename_i heq
    rw [heq, hk]
  · exact hother j ‹_›

theorem total_congr {w w' : Pc → Nat} (h : ∀ f ∈ fs, w f.pc = w' f.pc) :
    total w fs = total w' fs := by
  unfold total
  rw [List.map_congr_left h]

theorem Located.state_eq_zero (hloc : Located holder state h fs) (hne : h ≠ k) :
    state k = 0 := by
  have hk := hloc k
  rw [if_neg (Ne.symm hne)] at hk
  omega

/-- An activation that has the token is the only place of it. -/
theorem Located.owner (hloc : Located holder state h (l ++ ⟨t, pc⟩ :: r))
    (hk : holder pc = some k) :
    h = k ∧ ∀ j, state j = 0 ∧ total (heldBy holder j) (l ++ r) = 0 := by
  have hall : ∀ j, state j + total (heldBy holder j) (l ++ r) + (if j = k then 1 else 0) =
      if j = h then 1 else 0 := by
    intro j
    have hj := hloc j
    rw [total_split, heldBy_of_holder hk] at hj
    omega
  have heq : h = k := by
    by_contra hne
    have hk := hall k
    rw [if_pos rfl, if_neg (Ne.symm hne)] at hk
    omega
  subst heq
  refine ⟨rfl, fun j => ?_⟩
  have hj := hall j
  split at hj <;> omega

theorem Located.of_state (hloc : Located holder state h fs) (hk : 0 < state k) :
    h = k ∧ ∀ j, total (heldBy holder j) fs = 0 := by
  have heq : h = k := by
    by_contra hne
    rw [hloc.state_eq_zero hne] at hk
    omega
  subst heq
  have hh := hloc h
  rw [if_pos rfl] at hh
  refine ⟨rfl, fun j => ?_⟩
  have hj := hloc j
  split at hj
  · subst_vars
    omega
  · omega

theorem Located.exists_frame (hloc : Located holder state h fs) (hstate : state h = 0) :
    ∃ f ∈ fs, holder f.pc = some h := by
  have hh := hloc h
  rw [hstate, Nat.zero_add, if_pos rfl] at hh
  obtain ⟨f, hf, hpos⟩ := total_pos_iff.mp (Nat.lt_of_lt_of_eq Nat.one_pos hh.symm)
  refine ⟨f, hf, ?_⟩
  by_contra hne
  simp [heldBy, hne] at hpos

theorem Located.of_nil (hloc : Located holder state h []) : state h = 1 := by
  simpa [total] using hloc h

theorem Located.replace (hrest : ∀ j, total (heldBy holder j) (l ++ r) = 0)
    (hmoved : Moved holder state q h) :
    Located holder state h (l ++ q.toList.map (Frame.mk t) ++ r) := by
  intro j
  rw [total_replace, hrest, Nat.zero_add]
  exact hmoved j

theorem Located.stay (hloc : Located holder state h (l ++ ⟨t, pc⟩ :: r)) (hpc : holder pc = none)
    (hrest : ∀ j, total (heldBy holder' j) (l ++ r) = total (heldBy holder j) (l ++ r))
    (hstate : state' = state) (hq : ∀ j, q.elim 0 (heldBy holder' j) = 0) :
    Located holder' state' h (l ++ q.toList.map (Frame.mk t) ++ r) := by
  intro j
  have hj := hloc j
  rw [total_split, heldBy, hpc] at hj
  rw [total_replace, hrest, hq, hstate]
  simpa using hj

theorem Located.enter (hrest : ∀ j, total (heldBy holder j) fs = 0)
    (hmoved : Moved holder state q h) :
    Located holder state h (q.toList.map (Frame.mk t) ++ fs) := by
  intro j
  rw [total_enter, hrest, Nat.zero_add]
  exact hmoved j

end Capy.Token
