import Capy.AsyncWakerWait

namespace Capy.AsyncWaker

open Capy.CallStack

/-- The wait has begun and not ended. -/
def Phase.busy : Phase → Bool
  | .fresh | .done | .destroyed => false
  | _ => true

/-- The waiting coroutine is running. -/
def Phase.waits : Phase → Bool
  | .starting | .settled | .arming | .resuming => true
  | _ => false

def Phase.isClaimed : Phase → Bool
  | .claimed => true
  | _ => false

/-- `waiter_` points to the awaiter. -/
def Phase.published : Phase → Bool
  | .arming | .armed | .claimed => true
  | _ => false

/-- The activation is one of the waiting coroutine. -/
def Pc.waits : Pc → Bool
  | .awaitReady _ | .stopCheck _ | .register _ | .arm _ | .dropCallback _ | .consume _ => true
  | .armStop _ | .unarm _ | .publish _ | .awaitResume _ | .cancelLoop _ true => true
  | _ => false

/-- The activation has claimed the waiter and not posted it. -/
def Pc.claims : Pc → Bool
  | .cancelMark _ _ | .wakeDereg | .wakeMark _ | .destroyDereg | .destroyMark _ => true
  | _ => false

def Waker.slot (s : Waker) : Option Phase := s.current.map fun w => (s.awaiter w).phase

/-- What `st_`, `waiter_` and the numbers of activations that wait and that
claim say of the wait in progress. -/
structure Slot (s : Waker) (waits claims : Nat) : Prop where
  busy : ∀ w, (s.awaiter w).phase.busy = true ↔ s.current = some w
  armed : s.st = .armed ↔ s.slot = some .armed
  arming : s.st = .arming ↔ s.slot = some .arming
  waiter : s.slot.elim false Phase.published = true → s.waiter = s.current
  waits : waits = (s.slot.elim false Phase.waits).toNat
  claims : claims = (s.slot.elim false Phase.isClaimed).toNat

theorem slot_eq {s : Waker} {w : Nat} {p : Phase} (hcurrent : s.current = some w)
    (hp : (s.awaiter w).phase = p) : s.slot = some p := by
  simp [Waker.slot, hcurrent, hp]

theorem Slot.armed_waiter {s : Waker} {n m : Nat} (h : Slot s n m) (hst : s.st = .armed) :
    ∃ w, s.current = some w ∧ s.waiter = some w ∧ (s.awaiter w).phase = .armed := by
  have hslot := h.armed.mp hst
  have hwaiter := h.waiter (by simp [hslot, Phase.published])
  obtain ⟨w, hw, hp⟩ := Option.map_eq_some_iff.mp hslot
  exact ⟨w, hw, hwaiter.trans hw, hp⟩

theorem Slot.move {s s' : Waker} {w n m : Nat} (p : Phase) (h : Slot s n m)
    (hcurrent : s.current = some w) (hcurrent' : s'.current = s.current)
    (hp : (s'.awaiter w).phase = p)
    (hother : ∀ v, v ≠ w → (s'.awaiter v).phase = (s.awaiter v).phase)
    (hbusy : p.busy = true) (harmed : s'.st = .armed ↔ p = .armed)
    (harming : s'.st = .arming ↔ p = .arming)
    (hwaiter : p.published = true → s'.waiter = some w) :
    Slot s' p.waits.toNat p.isClaimed.toNat := by
  have hslot : s'.slot = some p := slot_eq (hcurrent'.trans hcurrent) hp
  constructor
  · intro v
    rw [hcurrent']
    rcases eq_or_ne v w with rfl | hv
    · rw [hp]
      exact ⟨fun _ => hcurrent, fun _ => hbusy⟩
    · rw [hother v hv]
      exact h.busy v
  · simp [hslot, harmed]
  · simp [hslot, harming]
  · rw [hslot, hcurrent', hcurrent]
    exact hwaiter
  · simp [hslot]
  · simp [hslot]

theorem Slot.same {s s' : Waker} {n m : Nat} (h : Slot s n m) (hst : s'.st = s.st)
    (hcurrent : s'.current = s.current) (hwaiter : s'.waiter = s.waiter)
    (hphase : ∀ v, (s'.awaiter v).phase = (s.awaiter v).phase) : Slot s' n m := by
  have hslot : s'.slot = s.slot := by simp [Waker.slot, hcurrent, hphase]
  obtain ⟨h1, h2, h3, h4, h5, h6⟩ := h
  constructor <;> simp_all

theorem phase_update {s : Waker} {w : Nat} {f : Awaiter → Awaiter}
    (hf : (f (s.awaiter w)).phase = (s.awaiter w).phase) (v : Nat) :
    (s.update w f v).phase = (s.awaiter v).phase := by
  rcases eq_or_ne v w with rfl | hv
  · rw [update_self, hf]
  · rw [update_of_ne s f hv]

theorem Slot.latch {s : Waker} {n m : Nat} (h : Slot s n m) (hst : s.st = .empty) :
    Slot { s with st := .token } n m := by
  have harmed := h.armed
  have harming := h.arming
  exact { h with
    armed := by simpa [hst, Waker.slot] using harmed
    arming := by simpa [hst, Waker.slot] using harming }

theorem Slot.finish {s s' : Waker} {w n m : Nat} (h : Slot s n m)
    (hcurrent : s.current = some w) (hcurrent' : s'.current = none)
    (hp : (s'.awaiter w).phase.busy = false)
    (hother : ∀ v, v ≠ w → (s'.awaiter v).phase = (s.awaiter v).phase)
    (hst : s'.st ≠ .armed ∧ s'.st ≠ .arming) : Slot s' 0 0 := by
  have hslot : s'.slot = none := by simp [Waker.slot, hcurrent']
  constructor
  · intro v
    rw [hcurrent']
    rcases eq_or_ne v w with rfl | hv
    · simp [hp]
    · rw [hother v hv, h.busy v, hcurrent]
      simp [hv.symm]
  · simp [hslot, hst]
  · simp [hslot, hst]
  · simp [hslot]
  · simp [hslot]
  · simp [hslot]

theorem Slot.rest_zero {s : Waker} {pc : Pc} {p : Phase} {a b : Nat}
    (h : Slot s (a + pc.waits.toNat) (b + pc.claims.toNat)) (hslot : s.slot = some p)
    (hwaits : p.waits = true → pc.waits = true)
    (hclaims : p.isClaimed = true → pc.claims = true) : a = 0 ∧ b = 0 := by
  have hn := h.waits
  have hm := h.claims
  simp only [hslot, Option.elim] at hn hm
  cases hw : p.waits <;> cases hc : p.isClaimed <;> simp_all

theorem claimWaiter_eq {s : Waker} {w : Nat} (hw : s.waiter = some w) (claimer : Claimer) :
    claimWaiter s claimer =
      { s with
        st := .empty
        awaiter := s.update w fun a =>
          { a with claims := a.claims ++ [claimer], phase := .claimed } } := by
  simp [claimWaiter, hw]

theorem Slot.claim {s s' : Waker} {w n m : Nat} (h : Slot s n m)
    (hcurrent : s.current = some w) (hst : s.st = .armed)
    (hcurrent' : s'.current = s.current) (hwaiter : s'.waiter = s.waiter)
    (hp : (s'.awaiter w).phase = .claimed)
    (hother : ∀ v, v ≠ w → (s'.awaiter v).phase = (s.awaiter v).phase)
    (hempty : s'.st = .empty) : Slot s' 0 1 := by
  refine h.move .claimed hcurrent hcurrent' hp hother rfl (by simp [hempty])
    (by simp [hempty]) fun _ => ?_
  have hold := h.waiter (by simp [h.armed.mp hst, Phase.published])
  rw [hwaiter, hold, hcurrent]

theorem Slot.claimWaiter {s : Waker} {n m : Nat} (h : Slot s n m) (hst : s.st = .armed)
    (claimer : Claimer) : Slot (AsyncWaker.claimWaiter s claimer) 0 1 := by
  obtain ⟨w, hw, hwaiter, -⟩ := h.armed_waiter hst
  rw [claimWaiter_eq hwaiter]
  exact h.claim hw hst rfl rfl (by simp) (by simp +contextual) rfl

theorem Slot.post {s s' : Waker} {w n m : Nat} (h : Slot s n m)
    (hcurrent : s.current = some w) (hclaimed : (s.awaiter w).phase = .claimed)
    (hcurrent' : s'.current = s.current) (hp : (s'.awaiter w).phase = .posted)
    (hother : ∀ v, v ≠ w → (s'.awaiter v).phase = (s.awaiter v).phase)
    (hst : s'.st = s.st) : Slot s' 0 0 := by
  have hslot := slot_eq hcurrent hclaimed
  exact h.move .posted hcurrent hcurrent' hp hother rfl (by simp [hst, h.armed, hslot])
    (by simp [hst, h.arming, hslot]) nofun

theorem Slot.step {s s' : Waker} {fs : List (Frame Pc)} {t : Nat} {pc : Pc}
    {q : Option Pc} {a b : Nat} (hstep : Step s fs t pc s' q)
    (h : Slot s (a + pc.waits.toNat) (b + pc.claims.toNat)) (hpc : PcOk s pc) :
    Slot s' (a + (q.elim false Pc.waits).toNat) (b + (q.elim false Pc.claims).toNat) := by
  cases hstep with
  | readyToken hst =>
      obtain ⟨rfl, rfl⟩ := h.rest_zero (slot_eq hpc.1 hpc.2) (fun _ => rfl) nofun
      exact h.move .settled hpc.1 rfl (by simp) (by simp +contextual) rfl (by simp)
        (by simp) nofun
  | notReady => exact h
  | stopSeen =>
      obtain ⟨rfl, rfl⟩ := h.rest_zero (slot_eq hpc.1 hpc.2) (fun _ => rfl) nofun
      have hslot := slot_eq hpc.1 hpc.2
      exact h.move .settled hpc.1 rfl (by simp) (by simp +contextual) rfl
        (by simp [h.armed, hslot]) (by simp [h.arming, hslot]) nofun
  | notStopped => exact h
  | registerStopped =>
      obtain ⟨rfl, rfl⟩ := h.rest_zero (slot_eq hpc.1 hpc.2) (fun _ => rfl) nofun
      have hslot := slot_eq hpc.1 hpc.2
      exact h.move .starting hpc.1 rfl hpc.2 (by simp) rfl (by simp [h.armed, hslot])
        (by simp [h.arming, hslot]) nofun
  | register =>
      obtain ⟨rfl, rfl⟩ := h.rest_zero (slot_eq hpc.1 hpc.2) (fun _ => rfl) nofun
      have hslot := slot_eq hpc.1 hpc.2
      exact h.move .starting hpc.1 rfl (by simpa using hpc.2) (by simp +contextual) rfl
        (by simp [h.armed, hslot]) (by simp [h.arming, hslot]) nofun
  | arm hst =>
      obtain ⟨hcurrent, hp, hwaiter, -⟩ := hpc
      obtain ⟨rfl, rfl⟩ := h.rest_zero (slot_eq hcurrent hp) (fun _ => rfl) nofun
      exact h.move .arming hcurrent rfl (by simp) (by simp +contextual) rfl (by simp)
        (by simp) fun _ => hwaiter
  | armLatched => exact h.same rfl rfl rfl (phase_update rfl)
  | dropCallback => exact h.same rfl rfl rfl (phase_update rfl)
  | consume =>
      obtain ⟨hcurrent, hp, -⟩ := hpc
      obtain ⟨rfl, rfl⟩ := h.rest_zero (slot_eq hcurrent hp) (fun _ => rfl) nofun
      exact h.move .settled hcurrent rfl (by simp) (by simp +contextual) rfl (by simp)
        (by simp) nofun
  | armStopped => exact h.same rfl rfl rfl (phase_update rfl)
  | armStop => exact h
  | unarm =>
      obtain ⟨hcurrent, hp⟩ := hpc
      obtain ⟨rfl, rfl⟩ := h.rest_zero (slot_eq hcurrent hp) (fun _ => rfl) nofun
      exact h.move .settled hcurrent rfl (by simp) (by simp +contextual) rfl (by simp)
        (by simp) nofun
  | publish =>
      obtain ⟨hcurrent, hp, -⟩ := hpc
      have hslot := slot_eq hcurrent hp
      obtain ⟨rfl, rfl⟩ := h.rest_zero hslot (fun _ => rfl) nofun
      have hwaiter := h.waiter (by simp [hslot, Phase.published])
      exact h.move .armed hcurrent rfl (by simp) (by simp +contextual) rfl (by simp)
        (by simp) fun _ => hwaiter.trans hcurrent
  | awaitResume =>
      obtain ⟨hcurrent, hp⟩ := hpc
      have hslot : s.slot = some .settled ∨ s.slot = some .resuming :=
        hp.imp (slot_eq hcurrent) (slot_eq hcurrent)
      have hst : s.st ≠ .armed ∧ s.st ≠ .arming := by
        rw [Ne, h.armed, Ne, h.arming]
        rcases hslot with hslot | hslot <;> simp [hslot]
      have hzero : a = 0 ∧ b = 0 := by
        rcases hslot with hslot | hslot
        · exact h.rest_zero hslot (fun _ => rfl) nofun
        · exact h.rest_zero hslot (fun _ => rfl) nofun
      obtain ⟨rfl, rfl⟩ := hzero
      exact h.finish hcurrent rfl (by simp [Phase.busy]) (by simp +contextual) hst
  | cancelRetries => exact h
  | @cancelClaims w inConstructor hst =>
      obtain ⟨u, hu, -, hp⟩ := h.armed_waiter hst
      cases inConstructor with
      | true =>
          obtain rfl : w = u := Option.some.inj (hpc.1.symm.trans hu)
          simp [hpc.2.1] at hp
      | false =>
          obtain ⟨rfl, rfl⟩ := h.rest_zero (h.armed.mp hst) nofun nofun
          exact h.claim hpc.1 hst rfl rfl (by simp) (by simp +contextual) rfl
  | @cancelLost w inConstructor _ _ hret =>
      cases inConstructor with
      | true =>
          obtain ⟨rfl, rfl⟩ := Prod.mk.inj hret
          exact h.same rfl rfl rfl (phase_update rfl)
      | false =>
          obtain ⟨rfl, rfl⟩ := Prod.mk.inj hret
          exact h
  | cancelMark =>
      obtain ⟨-, hcurrent, hp, -⟩ := hpc
      obtain ⟨rfl, rfl⟩ := h.rest_zero (slot_eq hcurrent hp) nofun (fun _ => rfl)
      exact h.post hcurrent hp rfl (by simp) (by simp +contextual) rfl
  | cancelReturns hret =>
      obtain rfl := hpc
      obtain ⟨rfl, rfl⟩ := Prod.mk.inj hret
      exact h
  | wakeFinds => exact h
  | wakeLoads hnext => rcases hnext with rfl | rfl | rfl <;> exact h
  | wakeLatches hst => exact h.latch hst
  | wakeLatchRetries => exact h
  | wakeClaims hst =>
      obtain ⟨rfl, rfl⟩ := h.rest_zero (h.armed.mp hst) nofun nofun
      exact h.claimWaiter hst _
  | wakeClaimRetries => exact h
  | wakeDereg => exact h.same rfl rfl rfl (phase_update rfl)
  | wakeMark =>
      obtain ⟨hcurrent, hp, -⟩ := hpc
      obtain ⟨rfl, rfl⟩ := h.rest_zero (slot_eq hcurrent hp) nofun (fun _ => rfl)
      exact h.post hcurrent hp rfl (by simp) (by simp +contextual) rfl
  | wakeReturns => exact h
  | destroyRetries => exact h
  | destroyClaims hst =>
      obtain ⟨rfl, rfl⟩ := h.rest_zero (h.armed.mp hst) nofun nofun
      exact h.claimWaiter hst _
  | destroyLost => exact h
  | destroyDereg => exact h.same rfl rfl rfl (phase_update rfl)
  | destroyInactive => exact h
  | destroyMark =>
      obtain ⟨hcurrent, hp, -⟩ := hpc
      obtain ⟨rfl, rfl⟩ := h.rest_zero (slot_eq hcurrent hp) nofun (fun _ => rfl)
      exact h.post hcurrent hp rfl (by simp) (by simp +contextual) rfl
  | destroyReturns => exact h

theorem Step.next_ok {s s' : Waker} {fs : List (Frame Pc)} {t : Nat} {pc pc' : Pc}
    {n m : Nat} (hstep : Step s fs t pc s' (some pc')) (hpc : PcOk s pc) (h : Slot s n m)
    (hsound : ∀ w, Sound (trace (s.awaiter w))) : PcOk s' pc' := by
  cases hstep with
  | readyToken => exact ⟨hpc.1, .inl (by simp)⟩
  | notReady => exact hpc
  | stopSeen => exact ⟨hpc.1, .inl (by simp)⟩
  | notStopped => exact hpc
  | registerStopped => exact ⟨hpc.1, hpc.2, rfl⟩
  | register => exact ⟨hpc.1, by simpa using hpc.2, rfl, by simp⟩
  | arm => exact ⟨hpc.1, by simp, by simpa using hpc.2.2.2⟩
  | armLatched hst =>
      obtain ⟨hcurrent, hp, -⟩ := hpc
      have hslot := slot_eq hcurrent hp
      have htoken : s.st = .token := by
        have harmed := h.armed
        have harming := h.arming
        cases hs : s.st <;> simp_all
      exact ⟨hcurrent, by simpa using hp, htoken⟩
  | dropCallback => exact ⟨hpc.1, by simpa using hpc.2.1, hpc.2.2⟩
  | consume => exact ⟨hpc.1, .inl (by simp)⟩
  | armStopped => exact ⟨hpc.1, by simpa using hpc.2.1⟩
  | armStop => exact hpc
  | unarm => exact ⟨hpc.1, .inl (by simp)⟩
  | cancelRetries => exact hpc
  | @cancelClaims w inConstructor hst =>
      obtain ⟨u, hu, -, hp⟩ := h.armed_waiter hst
      cases inConstructor with
      | true =>
          obtain rfl : w = u := Option.some.inj (hpc.1.symm.trans hu)
          simp [hpc.2.1] at hp
      | false =>
          obtain rfl : w = u := Option.some.inj (hpc.1.symm.trans hu)
          have hw := hsound w
          simp_all [PcOk, Sound, trace, Trace.Undecided]
  | @cancelLost w inConstructor _ _ hret =>
      cases inConstructor with
      | true =>
          obtain ⟨rfl, hq⟩ := Prod.mk.inj hret
          obtain rfl := Option.some.inj hq
          exact ⟨hpc.1, by simpa using hpc.2.1, hpc.2.2, by simp⟩
      | false => simp [callbackReturns] at hret
  | cancelMark => exact hpc.1
  | cancelReturns hret =>
      obtain rfl := hpc
      simp [callbackReturns] at hret
  | wakeLoads hnext => rcases hnext with rfl | rfl | rfl <;> trivial
  | wakeLatchRetries => trivial
  | wakeClaims hst =>
      obtain ⟨w, hw, hwaiter, hp⟩ := h.armed_waiter hst
      have hsw := hsound w
      rw [claimWaiter_eq hwaiter]
      exact ⟨w, hwaiter, hw, by simp_all [Sound, trace, Trace.Undecided]⟩
  | wakeClaimRetries => trivial
  | @wakeDereg w hw =>
      obtain ⟨u, hu, hcurrent, hp, hk⟩ := hpc
      obtain rfl : w = u := Option.some.inj (hw.symm.trans hu)
      exact ⟨hcurrent, by simpa using hp, by simpa using hk⟩
  | wakeMark => simp [PcOk, hpc.2.2]
  | destroyRetries => trivial
  | destroyClaims hst =>
      obtain ⟨w, hw, hwaiter, hp⟩ := h.armed_waiter hst
      have hsw := hsound w
      rw [claimWaiter_eq hwaiter]
      exact ⟨w, hwaiter, hw, by simp_all [Sound, trace, Trace.Undecided]⟩
  | @destroyDereg w hw =>
      obtain ⟨u, hu, hcurrent, hp, hk⟩ := hpc
      obtain rfl : w = u := Option.some.inj (hw.symm.trans hu)
      exact ⟨hcurrent, by simpa using hp, by simpa using hk⟩
  | @destroyInactive w hw =>
      obtain ⟨u, hu, hrest⟩ := hpc
      obtain rfl : w = u := Option.some.inj (hw.symm.trans hu)
      exact hrest
  | destroyMark => trivial

theorem active_update {s : Waker} {v w : Nat} {f : Awaiter → Awaiter}
    (hv : (s.awaiter v).active = true)
    (hf : v = w → (f (s.awaiter v)).active = true) :
    (s.update w f v).active = true := by
  rcases eq_or_ne v w with rfl | hne
  · rw [update_self]
    exact hf rfl
  · rwa [update_of_ne s f hne]

theorem Step.keeps_callback {s s' : Waker} {fs : List (Frame Pc)} {t v : Nat} {pc : Pc}
    {q : Option Pc} (hstep : Step s fs t pc s' q) (hpc : PcOk s pc)
    (hcurrent : s.current = some v) (hactive : (s.awaiter v).active = true)
    (hrunning : callbackRunning fs t v = true) :
    s'.current = some v ∧ (s'.awaiter v).active = true := by
  have hdrop : ∀ {w}, callbackRunning fs t w = false → v ≠ w := by
    rintro w hw rfl
    simp [hrunning] at hw
  cases hstep with
  | registerStopped => exact ⟨hcurrent, hactive⟩
  | register => exact ⟨hcurrent, active_update hactive fun _ => rfl⟩
  | dropCallback hw => exact ⟨hcurrent, active_update hactive fun hv => absurd hv (hdrop hw)⟩
  | wakeDereg _ hw => exact ⟨hcurrent, active_update hactive fun hv => absurd hv (hdrop hw)⟩
  | destroyDereg _ hw =>
      exact ⟨hcurrent, active_update hactive fun hv => absurd hv (hdrop hw)⟩
  | @awaitResume w hblocked =>
      obtain rfl : v = w := Option.some.inj (hcurrent.symm.trans hpc.1)
      simp [hblocked hactive] at hrunning
  | @cancelLost w inConstructor _ _ hret =>
      cases inConstructor <;> obtain ⟨rfl, rfl⟩ := Prod.mk.inj hret
      · exact ⟨hcurrent, hactive⟩
      · exact ⟨hcurrent, active_update hactive fun _ => rfl⟩
  | @cancelReturns w inConstructor _ _ hret =>
      cases inConstructor <;> obtain ⟨rfl, rfl⟩ := Prod.mk.inj hret
      · exact ⟨hcurrent, hactive⟩
      · exact ⟨hcurrent, active_update hactive fun _ => rfl⟩
  | wakeClaims =>
      unfold claimWaiter
      split
      · exact ⟨hcurrent, active_update hactive fun _ => hactive⟩
      · exact ⟨hcurrent, hactive⟩
  | destroyClaims =>
      unfold claimWaiter
      split
      · exact ⟨hcurrent, active_update hactive fun _ => hactive⟩
      · exact ⟨hcurrent, hactive⟩
  | wakeLatches => exact ⟨hcurrent, hactive⟩
  | _ => first
    | exact ⟨hcurrent, hactive⟩
    | exact ⟨hcurrent, active_update hactive fun _ => hactive⟩

theorem Life.claims {x x' : Trace} (h : Life x x') : x.claims ⊆ x'.claims := by
  cases h <;> simp

theorem Lives.claims {x x' : Trace} (h : Lives x x') : x.claims ⊆ x'.claims := by
  rcases h with rfl | h
  · exact List.Subset.refl _
  · exact h.claims

theorem Step.not_held {s s' : Waker} {fs : List (Frame Pc)} {t : Nat} {pc : Pc}
    {q : Option Pc} (hstep : Step s fs t pc s' q) (hpc : PcOk s pc)
    (hwaits : pc.waits = false) (hclaims : pc.claims = false) :
    s' = s ∨ (s.st = .empty ∧ s' = { s with st := .token }) ∨ s.st = .armed := by
  cases hstep with
  | @cancelLost w inConstructor _ _ hret =>
      cases inConstructor with
      | true => simp [Pc.waits] at hwaits
      | false => exact .inl (Prod.mk.inj hret).1.symm
  | cancelReturns hret =>
      obtain rfl := hpc
      exact .inl (Prod.mk.inj hret).1.symm
  | _ => simp_all [Pc.waits, Pc.claims]

theorem PcOk.latch {s : Waker} {pc : Pc} (h : PcOk s pc) (hst : s.st = .empty) :
    PcOk { s with st := .token } pc := by
  cases pc with
  | dropCallback w => simp [PcOk, hst] at h
  | consume w => simp [PcOk, hst] at h
  | cancelLoop w inConstructor => cases inConstructor <;> exact h
  | _ => exact h

theorem PcOk.of_not_held {s s' : Waker} {pc : Pc} (h : PcOk s pc)
    (hwaits : pc.waits = false) (hclaims : pc.claims = false)
    (hcallback : ∀ v, pc = .cancelLoop v false → s.current = some v →
      (s.awaiter v).active = true → s'.current = some v ∧ (s'.awaiter v).active = true)
    (hsub : ∀ v, (s.awaiter v).claims ⊆ (s'.awaiter v).claims) : PcOk s' pc := by
  cases pc with
  | cancelLoop w inConstructor =>
      cases inConstructor with
      | true => simp [Pc.waits] at hwaits
      | false => exact hcallback w rfl h.1 h.2
  | cancelPosting => exact h
  | wakePosting w => exact hsub w h
  | wakeLoad => trivial
  | wakeLatch => trivial
  | wakeClaim => trivial
  | destroyLoop => trivial
  | destroyPosting => trivial
  | _ => simp_all [Pc.waits, Pc.claims]

/-- A registered stop callback belongs to the wait in progress. -/
def Callbacks (s : Waker) : Prop :=
  ∀ w, (s.awaiter w).registered = true →
    s.current = some w ∧ (s.awaiter w).active = true

theorem Callbacks.update {s : Waker} (h : Callbacks s) {w : Nat} {f : Awaiter → Awaiter}
    (hf : (f (s.awaiter w)).registered = true → s.current = some w ∧
      (f (s.awaiter w)).active = true) (v : Nat)
    (hv : (s.update w f v).registered = true) :
    s.current = some v ∧ (s.update w f v).active = true := by
  rcases eq_or_ne v w with rfl | hne
  · rw [update_self] at hv ⊢
    exact hf hv
  · rw [update_of_ne s f hne] at hv ⊢
    exact h v hv

theorem Callbacks.none_left {s : Waker} (h : Callbacks s) {w : Nat}
    {f : Awaiter → Awaiter} (hcurrent : s.current = some w)
    (hf : (f (s.awaiter w)).registered =
      ((s.awaiter w).registered && !(s.awaiter w).active)) (v : Nat) :
    (s.update w f v).registered = false := by
  rcases eq_or_ne v w with rfl | hne
  · rw [update_self, hf]
    cases hr : (s.awaiter v).registered
    · rfl
    · simp [(h v hr).2]
  · rw [update_of_ne s f hne]
    by_contra hr
    have hv := (h v (by simpa using hr)).1
    exact hne (Option.some.inj (hv.symm.trans hcurrent))

theorem Callbacks.step {s s' : Waker} {fs : List (Frame Pc)} {t : Nat} {pc : Pc}
    {q : Option Pc} (hstep : Step s fs t pc s' q) (h : Callbacks s) (hpc : PcOk s pc) :
    Callbacks s' := by
  cases hstep with
  | register => exact h.update fun _ => ⟨hpc.1, rfl⟩
  | dropCallback => exact h.update nofun
  | wakeDereg => exact h.update nofun
  | destroyDereg => exact h.update nofun
  | awaitResume =>
      intro v hv
      exact absurd hv (by simpa using h.none_left hpc.1 rfl v)
  | @cancelLost w inConstructor _ _ hret =>
      cases inConstructor <;> obtain ⟨rfl, rfl⟩ := Prod.mk.inj hret
      · exact h
      · exact h.update fun hr => ⟨(h w hr).1, rfl⟩
  | @cancelReturns w inConstructor _ _ hret =>
      cases inConstructor <;> obtain ⟨rfl, rfl⟩ := Prod.mk.inj hret
      · exact h
      · exact h.update fun hr => ⟨(h w hr).1, rfl⟩
  | wakeClaims =>
      unfold claimWaiter
      split
      · exact h.update (h _)
      · exact h
  | destroyClaims =>
      unfold claimWaiter
      split
      · exact h.update (h _)
      · exact h
  | _ => first
    | exact h
    | exact h.update (h _)

/-- What every run of a waker keeps. -/
structure Invariant (s : Waker) (fs : List (Frame Pc)) : Prop where
  pcs : ∀ f ∈ fs, PcOk s f.pc
  sound : ∀ w, Sound (trace (s.awaiter w))
  slot : Slot s (fs.countP fun f => f.pc.waits) (fs.countP fun f => f.pc.claims)
  callbacks : Callbacks s

theorem callbackRunning_of_mem {fs : List (Frame Pc)} {t v : Nat} {f : Frame Pc}
    (hf : f ∈ fs) (hpc : f.pc.runsCallback v = true) (ht : f.thread ≠ t) :
    callbackRunning fs t v = true :=
  List.any_eq_true.mpr ⟨f, hf, by simp [hpc, ht]⟩

/-- At most one activation holds the wait, and none does while it is armed. -/
theorem Slot.alone {s : Waker} {a b : Nat} {pc : Pc}
    (h : Slot s (a + pc.waits.toNat) (b + pc.claims.toNat))
    (hheld : pc.waits = true ∨ pc.claims = true ∨ s.st = .armed) : a = 0 ∧ b = 0 := by
  have hn := h.waits
  have hm := h.claims
  have harmed := h.armed
  cases hslot : s.slot with
  | none => simp_all
  | some p => cases p <;> simp_all [Phase.waits, Phase.isClaimed]

theorem Invariant.exec {s s' : Waker} {t : Nat} {pc : Pc} {q : Option Pc}
    {l r : List (Frame Pc)} (h : Invariant s (l ++ ⟨t, pc⟩ :: r))
    (hst : machine.Stacked (l ++ ⟨t, pc⟩ :: r)) (hl : ∀ g ∈ l, g.thread ≠ t)
    (hstep : Step s (l ++ ⟨t, pc⟩ :: r) t pc s' q) :
    Invariant s' (l ++ q.toList.map (Frame.mk t) ++ r) := by
  obtain ⟨hpcs, hsound, hslot, hcallbacks⟩ := h
  obtain ⟨hrest, hpc⟩ := forall_split.mp hpcs
  have hlives := hstep.lives hpc hslot.armed_waiter
  have hnotHeld : ∀ f ∈ l ++ r, f.pc.waits = false → f.pc.claims = false →
      PcOk s' f.pc := by
    intro f hf hwaits hclaims
    refine (hrest f hf).of_not_held hwaits hclaims ?_ fun v => (hlives v).claims
    intro v hv hcurrent hactive
    have ht : f.thread ≠ t := by
      intro ht
      have hforeign := hst.rest_foreign hl hf ht
      rw [hv] at hforeign
      simp [machine, Machine.ofSteps, Pc.foreign] at hforeign
    have hmem : f ∈ l ++ ⟨t, pc⟩ :: r := mem_split.mpr (.inl hf)
    exact hstep.keeps_callback hpc hcurrent hactive
      (callbackRunning_of_mem hmem (by simp [hv, Pc.runsCallback]) ht)
  rw [countP_split, countP_split] at hslot
  constructor
  · refine forall_replace.mpr ⟨?_, ?_⟩
    · intro f hf
      have halone : pc.waits = true ∨ pc.claims = true ∨ s.st = .armed →
          PcOk s' f.pc := by
        intro hheld
        obtain ⟨hw, hc⟩ := hslot.alone hheld
        refine hnotHeld f hf ?_ ?_
        · simpa using List.countP_eq_zero.mp hw f hf
        · simpa using List.countP_eq_zero.mp hc f hf
      cases hw : pc.waits with
      | true => exact halone (.inl hw)
      | false =>
          cases hc : pc.claims with
          | true => exact halone (.inr (.inl hc))
          | false =>
              rcases hstep.not_held hpc hw hc with rfl | ⟨hempty, rfl⟩ | harmed
              · exact hrest f hf
              · exact (hrest f hf).latch hempty
              · exact halone (.inr (.inr harmed))
    · rintro pc' rfl
      exact hstep.next_ok hpc hslot hsound
  · exact fun w => (hsound w).lives (hlives w)
  · rw [countP_replace, countP_replace]
    exact hslot.step hstep hpc
  · exact hcallbacks.step hstep hpc

theorem PcOk.same {s s' : Waker} {pc : Pc} (h : PcOk s pc) (hst : s'.st = s.st)
    (hcurrent : s'.current = s.current) (hwaiter : s'.waiter = s.waiter)
    (hphase : ∀ v, (s'.awaiter v).phase = (s.awaiter v).phase)
    (hclaims : ∀ v, (s'.awaiter v).claims = (s.awaiter v).claims)
    (hpublished : ∀ v, (s'.awaiter v).published = (s.awaiter v).published)
    (hactive : ∀ v, (s'.awaiter v).active = (s.awaiter v).active) : PcOk s' pc := by
  cases pc with
  | cancelLoop w inConstructor =>
      cases inConstructor <;> simpa [PcOk, hst, hcurrent, hwaiter, hphase, hactive] using h
  | wakeDereg =>
      obtain ⟨w, hw⟩ := h
      exact ⟨w, by simpa [hcurrent, hwaiter, hphase, hclaims] using hw⟩
  | destroyDereg =>
      obtain ⟨w, hw⟩ := h
      exact ⟨w, by simpa [hcurrent, hwaiter, hphase, hclaims] using hw⟩
  | _ => simp_all [PcOk]

theorem Slot.start {s s' : Waker} {w n m : Nat} (h : Slot s n m)
    (hcurrent : s.current = none) (hcurrent' : s'.current = some w)
    (hp : (s'.awaiter w).phase = .starting)
    (hother : ∀ v, v ≠ w → (s'.awaiter v).phase = (s.awaiter v).phase)
    (hst : s'.st = s.st) : Slot s' 1 0 := by
  have hold : s.slot = none := by simp [Waker.slot, hcurrent]
  have hslot : s'.slot = some .starting := slot_eq hcurrent' hp
  have harmed := h.armed
  have harming := h.arming
  constructor
  · intro v
    rw [hcurrent']
    rcases eq_or_ne v w with rfl | hv
    · simp [hp, Phase.busy]
    · rw [hother v hv, h.busy v, hcurrent]
      simp [hv.symm]
  · simp [hst, harmed, hold, hslot]
  · simp [hst, harming, hold, hslot]
  · simp [hslot, Phase.published]
  · simp [hslot, Phase.waits]
  · simp [hslot, Phase.isClaimed]

theorem Slot.enter {s s' : Waker} {fs : List (Frame Pc)} {t : Nat} {e : Entry}
    {q : Option Pc} {a b : Nat} (henter : Entered s fs t e s' q) (h : Slot s a b)
    (hsound : ∀ w, Sound (trace (s.awaiter w))) :
    Slot s' (a + (q.elim false Pc.waits).toNat) (b + (q.elim false Pc.claims).toNat) := by
  cases henter with
  | wait hcurrent hp =>
      have hold : s.slot = none := by simp [Waker.slot, hcurrent]
      have ha := h.waits
      have hb := h.claims
      simp only [hold, Option.elim, Bool.toNat_false] at ha hb
      subst ha hb
      exact h.start hcurrent rfl (by simp) (by simp +contextual) rfl
  | @resume w hp =>
      have hcurrent := (h.busy w).mp (by simp [hp, Phase.busy])
      have hslot := slot_eq hcurrent hp
      have ha := h.waits
      have hb := h.claims
      simp only [hslot, Option.elim, Phase.waits, Phase.isClaimed, Bool.toNat_false] at ha hb
      subst ha hb
      exact h.move .resuming hcurrent rfl (by simp) (by simp +contextual) rfl
        (by simp [h.armed, hslot]) (by simp [h.arming, hslot]) nofun
  | @destroy w hp =>
      have hcurrent := (h.busy w).mp (by rcases hp with hp | hp <;> simp [hp, Phase.busy])
      have hst : (destroyAwaiter s w).st ≠ .armed ∧ (destroyAwaiter s w).st ≠ .arming := by
        have harmed := h.armed
        have harming := h.arming
        rcases hp with hp | hp
        · have hw := hsound w
          have hslot := slot_eq hcurrent hp
          simp_all [destroyAwaiter, Sound, trace, Trace.Undecided]
        · have hslot := slot_eq hcurrent hp
          simp_all [destroyAwaiter]
      have hzero : a = 0 ∧ b = 0 := by
        have ha := h.waits
        have hb := h.claims
        rcases hp with hp | hp <;>
          simpa [slot_eq hcurrent hp, Phase.waits, Phase.isClaimed] using And.intro ha hb
      obtain ⟨rfl, rfl⟩ := hzero
      refine h.finish hcurrent rfl ?_ ?_ hst
      · simp [destroyAwaiter, Phase.busy]
      · simp +contextual [destroyAwaiter]
  | wake => exact h
  | destroyWaker => exact h.same rfl rfl rfl fun _ => rfl
  | requestStop => exact h.same rfl rfl rfl (phase_update rfl)
  | stopCallback => exact h.same rfl rfl rfl (phase_update rfl)

theorem Callbacks.enter {s s' : Waker} {fs : List (Frame Pc)} {t : Nat} {e : Entry}
    {q : Option Pc} (henter : Entered s fs t e s' q) (h : Callbacks s)
    (hbusy : ∀ w, (s.awaiter w).phase.busy = true → s.current = some w) : Callbacks s' := by
  cases henter with
  | @wait w hcurrent =>
      intro v hv
      have hnone : (s.awaiter v).registered = false := by
        by_contra hr
        have := (h v (by simpa using hr)).1
        simp [hcurrent] at this
      rcases eq_or_ne v w with rfl | hne <;> simp_all
  | resume => exact h.update (h _)
  | @destroy w hp =>
      have hcurrent := hbusy w (by rcases hp with hp | hp <;> simp [hp, Phase.busy])
      intro v hv
      exact absurd hv (by simpa [destroyAwaiter] using h.none_left hcurrent rfl v)
  | wake => exact h
  | destroyWaker => exact h
  | requestStop => exact h.update (h _)
  | stopCallback => exact h.update nofun

theorem Entered.next_ok {s s' : Waker} {fs : List (Frame Pc)} {t : Nat} {e : Entry}
    {pc : Pc} {n m : Nat} (henter : Entered s fs t e s' (some pc)) (h : Slot s n m)
    (hcallbacks : Callbacks s) : PcOk s' pc := by
  cases henter with
  | wait => exact ⟨rfl, by simp⟩
  | @resume w hp => exact ⟨(h.busy w).mp (by simp [hp, Phase.busy]), .inr (by simp)⟩
  | wake => trivial
  | destroyWaker => trivial
  | @stopCallback w hr =>
      obtain ⟨hcurrent, hactive⟩ := hcallbacks w hr
      exact ⟨hcurrent, by simpa using hactive⟩

theorem Slot.none_held {s : Waker} {fs : List (Frame Pc)}
    (h : Slot s (fs.countP fun f => f.pc.waits) (fs.countP fun f => f.pc.claims))
    (hslot : s.slot = none ∨ s.slot = some .armed ∨ s.slot = some .posted) :
    ∀ f ∈ fs, f.pc.waits = false ∧ f.pc.claims = false := by
  have hn := h.waits
  have hm := h.claims
  have hzero : (fs.countP fun f => f.pc.waits) = 0 ∧ (fs.countP fun f => f.pc.claims) = 0 := by
    rcases hslot with hslot | hslot | hslot <;>
      simpa [hslot, Phase.waits, Phase.isClaimed] using And.intro hn hm
  intro f hf
  refine ⟨?_, ?_⟩
  · simpa using List.countP_eq_zero.mp hzero.1 f hf
  · simpa using List.countP_eq_zero.mp hzero.2 f hf

theorem Invariant.others_ok {s s' : Waker} {fs : List (Frame Pc)} {t : Nat} {e : Entry}
    {q : Option Pc} (h : Invariant s fs)
    (hfree : ∀ f ∈ fs, f.thread = t → f.pc.foreign = true)
    (henter : Entered s fs t e s' q) : ∀ f ∈ fs, PcOk s' f.pc := by
  intro f hf
  have hpc := h.pcs f hf
  have hclaims := fun v => (henter.lives v).claims
  cases henter with
  | wait hcurrent =>
      have hslot : s.slot = none := by simp [Waker.slot, hcurrent]
      obtain ⟨hw, hc⟩ := h.slot.none_held (.inl hslot) f hf
      refine hpc.of_not_held hw hc ?_ hclaims
      intro v _ hv
      simp [hcurrent] at hv
  | @resume w hp =>
      have hcurrent := (h.slot.busy w).mp (by simp [hp, Phase.busy])
      obtain ⟨hw, hc⟩ := h.slot.none_held (.inr (.inr (slot_eq hcurrent hp))) f hf
      refine hpc.of_not_held hw hc ?_ hclaims
      intro v _ hv hactive
      exact ⟨hv, active_update hactive fun _ => hactive⟩
  | @destroy w hp hblocked =>
      have hcurrent := (h.slot.busy w).mp (by rcases hp with hp | hp <;> simp [hp, Phase.busy])
      have hslot := hp.imp (slot_eq hcurrent) (slot_eq hcurrent)
      obtain ⟨hw, hc⟩ := h.slot.none_held (.inr hslot) f hf
      refine hpc.of_not_held hw hc ?_ hclaims
      -- A callback in progress would have been waited for.
      intro v hv hcur hactive
      obtain rfl : v = w := Option.some.inj (hcur.symm.trans hcurrent)
      have ht : f.thread ≠ t := by
        intro ht
        have hforeign := hfree f hf ht
        simp [hv, Pc.foreign] at hforeign
      have hrunning := callbackRunning_of_mem (t := t) hf
        (show f.pc.runsCallback v = true by simp [hv, Pc.runsCallback]) ht
      simp [hblocked hactive] at hrunning
  | wake => exact hpc
  | destroyWaker =>
      exact hpc.same rfl rfl rfl (fun _ => rfl) (fun _ => rfl) (fun _ => rfl)
        fun _ => rfl
  | @requestStop w =>
      refine hpc.same rfl rfl rfl ?_ ?_ ?_ ?_ <;>
        (intro v; rcases eq_or_ne v w with rfl | hne <;> simp [*])
  | @stopCallback w =>
      refine hpc.same rfl rfl rfl ?_ ?_ ?_ ?_ <;>
        (intro v; rcases eq_or_ne v w with rfl | hne <;> simp [*])

theorem Invariant.enter {s s' : Waker} {fs : List (Frame Pc)} {t : Nat} {e : Entry}
    {q : Option Pc} (h : Invariant s fs)
    (hfree : ∀ f ∈ fs, f.thread = t → f.pc.foreign = true)
    (henter : Entered s fs t e s' q) :
    Invariant s' (q.toList.map (Frame.mk t) ++ fs) := by
  constructor
  · refine forall_enter.mpr ⟨h.others_ok hfree henter, ?_⟩
    rintro pc rfl
    exact henter.next_ok h.slot h.callbacks
  · exact fun w => (h.sound w).lives (henter.lives w)
  · rw [countP_enter, countP_enter]
    exact h.slot.enter henter h.sound
  · exact h.callbacks.enter henter fun w => (h.slot.busy w).mp

theorem invariant_reachable {s : State Waker Pc} (h : Reachable s) :
    Invariant s.shared s.frames := by
  have hpreserves : machine.Preserves (fun _ _ => true) Invariant := by
    apply Machine.Preserves.ofSteps
    · intro s l t pc r c s' q hI hst hl _ hexec
      exact hI.exec hst hl (exec_step hexec)
    · intro s fs t a s' q hI _ hfree _ henter
      exact hI.enter hfree (enter_entered henter)
  refine hpreserves.reachable initial_frames ?_ h
  rintro _ rfl
  refine ⟨by simp, ?_, ?_, ?_⟩
  · intro w
    simp [Sound, trace, Trace.Undecided]
  · constructor <;> simp [Waker.slot, Phase.busy]
  · intro w hw
    simp at hw

end Capy.AsyncWaker
