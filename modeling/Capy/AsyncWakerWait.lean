import Capy.AsyncWaker

namespace Capy.AsyncWaker

open Capy.CallStack

/-- The history of one wait. -/
structure Trace where
  phase : Phase
  canceled : Bool
  published : Bool
  claimed : Bool
  claims : List Claimer
  posts : Nat
  consumed : Bool
  sawStop : Bool
  result : Option Bool

def trace (a : Awaiter) : Trace where
  phase := a.phase
  canceled := a.canceled
  published := a.published
  claimed := a.claimed
  claims := a.claims
  posts := a.posts
  consumed := a.consumed
  sawStop := a.sawStop
  result := a.result

inductive Life : Trace → Trace → Prop
  | start {x} : x.phase = .fresh → Life x { x with phase := .starting }
  | consume {x} : x.phase = .starting →
      Life x { x with consumed := true, phase := .settled }
  | seeStop {x} : x.phase = .starting ∨ x.phase = .arming →
      Life x { x with canceled := true, sawStop := true, phase := .settled }
  | setPublished {x published} : x.phase = .starting ∨ x.phase = .arming →
      Life x { x with published := published }
  | arm {x} : x.phase = .starting → Life x { x with phase := .arming }
  | publish {x} : x.phase = .arming → x.published = true →
      Life x { x with phase := .armed }
  | claim {x claimer} : x.phase = .armed →
      Life x { x with claims := x.claims ++ [claimer], phase := .claimed }
  | postWoken {x} : x.phase = .claimed → x.claims = [.wake] →
      Life x { x with claimed := true, posts := x.posts + 1, phase := .posted }
  | postCanceled {x} : x.phase = .claimed → x.claims = [.stop] ∨ x.claims = [.destructor] →
      Life x { x with
        canceled := true, claimed := true, posts := x.posts + 1, phase := .posted }
  | resume {x} : x.phase = .posted → Life x { x with phase := .resuming }
  | finish {x} : x.phase = .settled ∨ x.phase = .resuming →
      Life x { x with published := false, phase := .done, result := some !x.canceled }
  | destroy {x} : x.phase = .armed ∨ x.phase = .posted →
      Life x { x with phase := .destroyed }

/-- Nobody has claimed or settled the wait. -/
def Trace.Undecided (x : Trace) : Prop :=
  x.canceled = false ∧ x.sawStop = false ∧ x.consumed = false ∧ x.claims = [] ∧
    x.claimed = false ∧ x.posts = 0

/-- The wait did not suspend: it saw the stop request or consumed a token. -/
def Trace.Inline (x : Trace) : Prop :=
  x.claims = [] ∧ x.posts = 0 ∧ x.canceled = x.sawStop ∧ x.consumed = !x.sawStop

/-- The wait has been claimed and not posted. -/
def Trace.Claimed (x : Trace) : Prop :=
  x.sawStop = false ∧ x.consumed = false ∧ x.canceled = false ∧ x.posts = 0 ∧
    ∃ claimer, x.claims = [claimer]

/-- The wait has been claimed and posted, once. -/
def Trace.Posted (x : Trace) : Prop :=
  x.sawStop = false ∧ x.consumed = false ∧ x.posts = 1 ∧
    ∃ claimer, x.claims = [claimer] ∧ x.canceled = decide (claimer ≠ .wake)

/-- What holds of a wait in each phase. -/
def Sound (x : Trace) : Prop :=
  match x.phase with
  | .fresh | .starting | .arming => x.Undecided ∧ x.result = none
  | .armed => x.Undecided ∧ x.published = true ∧ x.result = none
  | .settled => x.Inline ∧ x.result = none
  | .claimed => x.Claimed ∧ x.result = none
  | .posted | .resuming => x.Posted ∧ x.result = none
  | .done => (x.Inline ∨ x.Posted) ∧ x.result = some !x.canceled
  | .destroyed => (x.Undecided ∨ x.Posted) ∧ x.result = none

theorem Sound.life {x x' : Trace} (h : Sound x) (hlife : Life x x') : Sound x' := by
  cases hlife with
  | start hp => simp_all [Sound, Trace.Undecided]
  | consume hp => simp_all [Sound, Trace.Undecided, Trace.Inline]
  | seeStop hp =>
      rcases hp with hp | hp <;> simp_all [Sound, Trace.Undecided, Trace.Inline]
  | setPublished hp => rcases hp with hp | hp <;> simp_all [Sound, Trace.Undecided]
  | arm hp => simp_all [Sound, Trace.Undecided]
  | publish hp _ => simp_all [Sound, Trace.Undecided]
  | claim hp => simp_all [Sound, Trace.Undecided, Trace.Claimed]
  | postWoken hp hk => simp_all [Sound, Trace.Claimed, Trace.Posted]
  | postCanceled hp hk =>
      rcases hk with hk | hk <;> simp_all [Sound, Trace.Claimed, Trace.Posted]
  | resume hp => simp_all [Sound, Trace.Posted]
  | finish hp => rcases hp with hp | hp <;> simp_all [Sound, Trace.Inline, Trace.Posted]
  | destroy hp => rcases hp with hp | hp <;> simp_all [Sound, Trace.Undecided, Trace.Posted]

section Consequences

variable {x : Trace}

theorem Sound.cases (h : Sound x) :
    x.Undecided ∧ x.result = none ∨
    x.Inline ∧ (x.phase = .settled ∧ x.result = none ∨ x.result = some !x.canceled) ∨
    x.Claimed ∧ x.phase = .claimed ∧ x.result = none ∨
    x.Posted ∧ x.phase ≠ .claimed ∧ (x.result = none ∨ x.result = some !x.canceled) := by
  cases hp : x.phase <;> simp only [Sound, hp] at h <;> grind

theorem Sound.posts (h : Sound x) :
    x.posts ≤ 1 ∧ (x.claims ≠ [] → x.posts = 1 ∨ x.phase = .claimed) ∧
      (x.posts = 1 → x.claims ≠ []) := by
  rcases h.cases with ⟨h, -⟩ | ⟨h, -⟩ | ⟨h, hp, -⟩ | ⟨h, -⟩
  · simp_all [Trace.Undecided]
  · simp_all [Trace.Inline]
  · simp_all [Trace.Claimed]
  · obtain ⟨-, -, hposts, claimer, hclaims, -⟩ := h
    simp [hposts, hclaims]

theorem Sound.canceled_iff (h : Sound x) {ok : Bool} (hok : x.result = some ok) :
    ok = false ↔ .stop ∈ x.claims ∨ .destructor ∈ x.claims ∨ x.sawStop = true := by
  rcases h.cases with ⟨-, hr⟩ | ⟨h, ⟨-, hr⟩ | hr⟩ | ⟨-, -, hr⟩ | ⟨h, -, hr | hr⟩
  · simp [hr] at hok
  · simp [hr] at hok
  · obtain ⟨hclaims, -, hcanceled, -⟩ := h
    simp_all
  · simp [hr] at hok
  · simp [hr] at hok
  · obtain ⟨hsaw, -, -, claimer, hclaims, hcanceled⟩ := h
    cases claimer <;> simp_all

theorem Sound.woken (h : Sound x) (hwake : .wake ∈ x.claims) {ok : Bool}
    (hok : x.result = some ok) : ok = true := by
  rcases h.cases with ⟨-, hr⟩ | ⟨h, -⟩ | ⟨-, -, hr⟩ | ⟨h, -, hr | hr⟩
  · simp [hr] at hok
  · simp [h.1] at hwake
  · simp [hr] at hok
  · simp [hr] at hok
  · obtain ⟨-, -, -, claimer, hclaims, hcanceled⟩ := h
    cases claimer <;> simp_all

theorem Sound.succeeds (h : Sound x) (hok : x.result = some true) :
    .wake ∈ x.claims ∨ x.consumed = true := by
  rcases h.cases with ⟨-, hr⟩ | ⟨h, ⟨-, hr⟩ | hr⟩ | ⟨-, -, hr⟩ | ⟨h, -, hr | hr⟩
  · simp [hr] at hok
  · simp [hr] at hok
  · obtain ⟨-, -, hcanceled, hconsumed⟩ := h
    simp_all
  · simp [hr] at hok
  · simp [hr] at hok
  · obtain ⟨-, -, -, claimer, hclaims, hcanceled⟩ := h
    cases claimer <;> simp_all

theorem Sound.consumed (h : Sound x) (hconsumed : x.consumed = true) :
    x.phase = .settled ∨ x.result = some true := by
  rcases h.cases with ⟨h, -⟩ | ⟨h, ⟨hp, -⟩ | hr⟩ | ⟨h, -⟩ | ⟨h, -⟩
  · simp [h.2.2.1] at hconsumed
  · exact .inl hp
  · obtain ⟨-, -, hcanceled, hsaw⟩ := h
    simp_all
  · simp [h.2.1] at hconsumed
  · simp [h.2.1] at hconsumed

end Consequences

/-- What holds of the waker when an activation stands at a point. -/
def PcOk (s : Waker) : Pc → Prop
  | .awaitReady w | .stopCheck w | .register w =>
      s.current = some w ∧ (s.awaiter w).phase = .starting
  | .arm w => s.current = some w ∧ (s.awaiter w).phase = .starting ∧
      s.waiter = some w ∧ (s.awaiter w).published = true
  | .cancelLoop w true =>
      s.current = some w ∧ (s.awaiter w).phase = .starting ∧ s.waiter = some w
  | .dropCallback w | .consume w =>
      s.current = some w ∧ (s.awaiter w).phase = .starting ∧ s.st = .token
  | .unarm w => s.current = some w ∧ (s.awaiter w).phase = .arming
  | .armStop w | .publish w => s.current = some w ∧ (s.awaiter w).phase = .arming ∧
      (s.awaiter w).published = true
  | .awaitResume w =>
      s.current = some w ∧
        ((s.awaiter w).phase = .settled ∨ (s.awaiter w).phase = .resuming)
  | .cancelLoop w false => s.current = some w ∧ (s.awaiter w).active = true
  | .cancelMark w inConstructor =>
      inConstructor = false ∧ s.current = some w ∧ (s.awaiter w).phase = .claimed ∧
        (s.awaiter w).claims = [.stop]
  | .cancelPosting _ inConstructor => inConstructor = false
  | .wakeDereg => ∃ w, s.waiter = some w ∧ s.current = some w ∧
      (s.awaiter w).phase = .claimed ∧ (s.awaiter w).claims = [.wake]
  | .wakeMark w => s.current = some w ∧ (s.awaiter w).phase = .claimed ∧
      (s.awaiter w).claims = [.wake]
  | .wakePosting w => .wake ∈ (s.awaiter w).claims
  | .destroyDereg => ∃ w, s.waiter = some w ∧ s.current = some w ∧
      (s.awaiter w).phase = .claimed ∧ (s.awaiter w).claims = [.destructor]
  | .destroyMark w => s.current = some w ∧ (s.awaiter w).phase = .claimed ∧
      (s.awaiter w).claims = [.destructor]
  | .wakeLoad | .wakeLatch | .wakeClaim | .destroyLoop | .destroyPosting => True

def Lives (x x' : Trace) : Prop := x' = x ∨ Life x x'

theorem Sound.lives {x x' : Trace} (h : Sound x) (hlives : Lives x x') : Sound x' := by
  rcases hlives with rfl | hlife
  · exact h
  · exact h.life hlife

@[simp] theorem update_self (s : Waker) (w : Nat) (f : Awaiter → Awaiter) :
    s.update w f w = f (s.awaiter w) :=
  Function.update_self ..

@[simp] theorem update_of_ne (s : Waker) {v w : Nat} (f : Awaiter → Awaiter)
    (h : v ≠ w) : s.update w f v = s.awaiter v :=
  Function.update_of_ne h ..

theorem lives_update {s : Waker} {w : Nat} {f : Awaiter → Awaiter}
    (h : Lives (trace (s.awaiter w)) (trace (f (s.awaiter w)))) (v : Nat) :
    Lives (trace (s.awaiter v)) (trace (s.update w f v)) := by
  rcases eq_or_ne v w with rfl | hv
  · rwa [update_self]
  · rw [update_of_ne s f hv]
    exact .inl rfl

theorem claimWaiter_lives {s : Waker} {claimer : Claimer}
    (h : ∀ w, s.waiter = some w → (s.awaiter w).phase = .armed) (v : Nat) :
    Lives (trace (s.awaiter v)) (trace ((claimWaiter s claimer).awaiter v)) := by
  unfold claimWaiter
  split
  · rename_i w hw
    exact lives_update (.inr (.claim (h w hw))) v
  · exact .inl rfl

theorem callbackReturns_lives {s s' : Waker} {w : Nat} {inConstructor : Bool}
    {q : Option Pc} (h : callbackReturns s w inConstructor = (s', q))
    (hp : inConstructor = true → (s.awaiter w).phase = .starting) (v : Nat) :
    Lives (trace (s.awaiter v)) (trace (s'.awaiter v)) := by
  cases inConstructor
  · obtain ⟨rfl, rfl⟩ := Prod.mk.inj h
    exact .inl rfl
  · obtain ⟨rfl, rfl⟩ := Prod.mk.inj h
    exact lives_update (.inr (.setPublished (.inl (hp rfl)))) v

/-- Each step is a step in the life of each wait; `harmed` says who is armed. -/
theorem Step.lives {s s' : Waker} {fs : List (Frame Pc)} {t : Nat} {pc : Pc}
    {q : Option Pc} (hstep : Step s fs t pc s' q) (hpc : PcOk s pc)
    (harmed : s.st = .armed → ∃ w, s.current = some w ∧ s.waiter = some w ∧
      (s.awaiter w).phase = .armed) (v : Nat) :
    Lives (trace (s.awaiter v)) (trace (s'.awaiter v)) := by
  have hclaims : s.st = .armed → ∀ w, s.waiter = some w → (s.awaiter w).phase = .armed := by
    intro hst w hw
    obtain ⟨u, -, hu, hp⟩ := harmed hst
    rwa [Option.some.inj (hw.symm.trans hu)]
  cases hstep with
  | readyToken => exact lives_update (.inr (.consume hpc.2)) v
  | notReady => exact .inl rfl
  | stopSeen => exact lives_update (.inr (.seeStop (.inl hpc.2))) v
  | notStopped => exact .inl rfl
  | registerStopped => exact .inl rfl
  | register => exact lives_update (.inr (.setPublished (.inl hpc.2))) v
  | arm => exact lives_update (.inr (.arm hpc.2.1)) v
  | armLatched => exact lives_update (.inr (.setPublished (.inl hpc.2.1))) v
  | dropCallback => exact lives_update (.inl rfl) v
  | consume => exact lives_update (.inr (.consume hpc.2.1)) v
  | armStopped => exact lives_update (.inr (.setPublished (.inr hpc.2.1))) v
  | armStop => exact .inl rfl
  | unarm => exact lives_update (.inr (.seeStop (.inr hpc.2))) v
  | publish => exact lives_update (.inr (.publish hpc.2.1 hpc.2.2)) v
  | awaitResume => exact lives_update (.inr (.finish hpc.2)) v
  | cancelRetries => exact .inl rfl
  | @cancelClaims w inConstructor hst =>
      obtain ⟨u, hu, hw, hp⟩ := harmed hst
      have hcur : s.current = some w := by cases inConstructor <;> exact hpc.1
      obtain rfl : w = u := Option.some.inj (hcur.symm.trans hu)
      exact lives_update (.inr (.claim hp)) v
  | cancelLost h =>
      refine callbackReturns_lives h ?_ v
      rintro rfl
      exact hpc.2.1
  | cancelMark => exact lives_update (.inr (.postCanceled hpc.2.2.1 (.inl hpc.2.2.2))) v
  | cancelReturns h =>
      refine callbackReturns_lives h ?_ v
      rintro rfl
      exact nomatch hpc
  | wakeFinds => exact .inl rfl
  | wakeLoads => exact .inl rfl
  | wakeLatches => exact .inl rfl
  | wakeLatchRetries => exact .inl rfl
  | wakeClaims hst => exact claimWaiter_lives (hclaims hst) v
  | wakeClaimRetries => exact .inl rfl
  | wakeDereg => exact lives_update (.inl rfl) v
  | wakeMark => exact lives_update (.inr (.postWoken hpc.2.1 hpc.2.2)) v
  | wakeReturns => exact .inl rfl
  | destroyRetries => exact .inl rfl
  | destroyClaims hst => exact claimWaiter_lives (hclaims hst) v
  | destroyLost => exact .inl rfl
  | destroyDereg => exact lives_update (.inl rfl) v
  | destroyInactive => exact .inl rfl
  | destroyMark => exact lives_update (.inr (.postCanceled hpc.2.1 (.inr hpc.2.2))) v
  | destroyReturns => exact .inl rfl

theorem Entered.lives {s s' : Waker} {fs : List (Frame Pc)} {t : Nat} {e : Entry}
    {q : Option Pc} (henter : Entered s fs t e s' q) (v : Nat) :
    Lives (trace (s.awaiter v)) (trace (s'.awaiter v)) := by
  cases henter with
  | wait _ hp => exact lives_update (.inr (.start hp)) v
  | resume hp => exact lives_update (.inr (.resume hp)) v
  | destroy hp => exact lives_update (.inr (.destroy hp)) v
  | wake => exact .inl rfl
  | destroyWaker => exact .inl rfl
  | requestStop => exact lives_update (.inl rfl) v
  | stopCallback => exact lives_update (.inl rfl) v

end Capy.AsyncWaker
