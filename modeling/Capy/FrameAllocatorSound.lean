import Capy.FrameAllocatorWindow

namespace Capy.FrameAllocator

open Capy.CallStack

/-- The coroutine that an event resumes. -/
def resumed (s : State Shared Pc) : Event Action Entry → Option Nat
  | .run _ (.transfer d) | .enter _ (.safeResume d) | .enter _ (.resume d) => some d
  | .run t .finish =>
      match topPc t s.frames with
      | some (.body _ c _) => (s.shared.coros c).bind Coro.continuation
      | _ => none
  | _ => none

def thread : Event Action Entry → Nat
  | .run t _ | .enter t _ => t

/-- A `write_now` operation that starts has the allocator of its context in the slot. -/
def startsInWindow (s : Shared) (t d : Nat) : Bool :=
  (s.coros d).all fun x =>
    x.kind ≠ .writeNow || x.point ≠ .initial || x.env = some (s.slots t)

/-- The coroutine a statement of which runs on the thread: it is in its body, or in
plain code that the statement calls. -/
def statementOf : List Pc → Option Nat
  | .body _ c [] :: _ => some c
  | .plain [] :: pcs => statementOf pcs
  | _ => none

/-- The statement that runs on the thread relies on the slot. -/
def relied (s : Shared) (pcs : List Pc) : Bool :=
  (statementOf pcs).any fun c => (s.coros c).any fun x => x.kind.guarded

/-- Destroying the coroutine leaves alone a slot that a body relies on. -/
def tearsDownOutsideWindow (s : State Shared Pc) (t d : Nat) : Bool :=
  (s.shared.coros d).all fun x =>
    !relied s.shared (stackOf t s.frames) ||
      unwind (s.shared.slots t) x.launches = s.shared.slots t

/-- The steps at which no missed point leaves a wrong slot to a body. -/
def keepsWindow (s : State Shared Pc) (e : Event Action Entry) : Bool :=
  ((resumed s e).all fun d => startsInWindow s.shared (thread e) d) &&
    match e with
    | .enter t (.destroy d) => tearsDownOutsideWindow s t d
    | _ => true

theorem startsInWindow_env {s : Shared} {t d : Nat} (h : startsInWindow s t d = true) {x : Coro}
    (hx : s.coros d = some x) (hkind : x.kind = .writeNow) (hpoint : x.point = .initial) :
    x.env = some (s.slots t) := by
  simpa [startsInWindow, hx, hkind, hpoint] using h

theorem Shared.Fits.of_not_relied {s : Shared} {v v' : Option Slot} {pcs : List Pc}
    (h : s.Fits v pcs) (hrelied : relied s pcs = false) : s.Fits v' pcs := by
  induction pcs with
  | nil => trivial
  | cons pc pcs ih =>
      obtain ⟨hholds, hrest⟩ := h
      cases pc with
      | body how c ls =>
          refine ⟨?_, hrest⟩
          obtain ⟨x, hx, hguarded⟩ := hholds
          refine ⟨x, hx, fun hg => ?_⟩
          cases ls with
          | nil => simp [relied, statementOf, hx, hg] at hrelied
          | cons l ls => exact hguarded hg
      | plain ls =>
          refine ⟨trivial, ?_⟩
          cases ls with
          | nil => exact ih hrest hrelied
          | cons l ls => exact hrest
      | suspending how c => exact ⟨trivial, hrest⟩

section Step

variable {t : Nat} {s s' : Shared} {pc : Pc} {q : Option Pc} {l r fs : List (Frame Pc)}

theorem awaitReady_sound (h : Sound s (l ++ ⟨t, pc⟩ :: r)) (hl : ∀ g ∈ l, g.thread ≠ t)
    (hexec : exec s t pc .awaitReady = some (s', q)) :
    Sound s' (l ++ q.toList.map (Frame.mk t) ++ r) := by
  cases pc with
  | body how c ls =>
      obtain ⟨x, hx, hguarded⟩ := (h.top hl).1
      simp only [exec, hx] at hexec
      split at hexec
      · obtain ⟨rfl, rfl⟩ := Prod.mk.inj (Option.some.inj hexec)
        refine h.become hl (Shared.evolves_setSlot ..) ⟨x, hx, fun hg => ?_⟩ rfl
        obtain ⟨e, he, hsettled⟩ := hguarded hg
        have hset : x.kind.setsSlot .awaiting = true := by
          revert hg
          cases x.kind <;> simp [Kind.setsSlot, Kind.guarded]
        refine ⟨e, he, ?_⟩
        simpa [Coro.resumeSlot, hset, he] using settled_of_settled hsettled
      · simp at hexec
  | plain ls => simp [exec] at hexec
  | suspending how c => simp [exec] at hexec

theorem evolves_suspend {s₁ : Shared} {how : How} {c : Nat} {ls : List Launch} {x : Coro}
    {v : Option Slot} (hholds : s.Holds v (.body how c ls)) (hx : s.coros c = some x)
    (hx₁ : s₁.coros c = some x) (hrunning : x.point = .running) :
    Shared.Evolves t s₁ (s₁.setCoro c { x with point := .awaiting, launches := ls }) := by
  refine Shared.evolves_setCoro hx₁ rfl (fun _ he => he) (fun _ => ?_) (by simp [hrunning])
    (by simp)
  obtain ⟨y, hy, hguarded⟩ := hholds
  obtain rfl : x = y := Option.some.inj (hx.symm.trans hy)
  refine ⟨fun hg e he => ?_, by simp⟩
  obtain ⟨e', he', hsettled⟩ := hguarded hg
  obtain rfl : e = e' := Option.some.inj (he.symm.trans he')
  exact settled_of_settled hsettled

theorem suspend_sound (h : Sound s (l ++ ⟨t, pc⟩ :: r)) (hl : ∀ g ∈ l, g.thread ≠ t)
    (hexec : exec s t pc .suspend = some (s', q)) :
    Sound s' (l ++ q.toList.map (Frame.mk t) ++ r) := by
  cases pc with
  | body how c ls =>
      have hholds := (h.top hl).1
      obtain ⟨x, hx, -⟩ := id hholds
      simp only [exec, hx] at hexec
      split at hexec
      · rename_i hrunning
        simp only [Bool.and_eq_true, decide_eq_true_eq] at hrunning
        obtain ⟨rfl, rfl⟩ := Prod.mk.inj (Option.some.inj hexec)
        exact h.become hl (evolves_suspend hholds hx hx hrunning.2) trivial rfl
      · simp at hexec
  | plain ls => simp [exec] at hexec
  | suspending how c => simp [exec] at hexec

theorem evolves_setEnv {d : Nat} {y y' : Coro} (hy : s.coros d = some y)
    (hinitial : y.point = .initial) (hnone : y.env = none) (hkind : y'.kind = y.kind)
    (hpoint : y'.point = y.point) (hlaunches : y'.launches = y.launches) :
    Shared.Evolves t s (s.setCoro d y') := by
  refine Shared.evolves_setCoro hy hkind (by simp [hnone]) (fun hparked => ?_)
    (by simp [hinitial]) (by simp [hpoint, hinitial])
  have hnil : y'.launches = [] := hlaunches.trans (hparked.2 hinitial)
  refine ⟨fun _ e _ => ?_, fun _ => hnil⟩
  rw [hnil]
  rfl

theorem lend_sound (h : Sound s (l ++ ⟨t, pc⟩ :: r)) (hl : ∀ g ∈ l, g.thread ≠ t)
    {d : Nat} {k : Option Nat} (hexec : exec s t pc (.lend d k) = some (s', q)) :
    Sound s' (l ++ q.toList.map (Frame.mk t) ++ r) := by
  cases pc with
  | body how c ls =>
      have hholds := (h.top hl).1
      simp only [exec] at hexec
      split at hexec
      · rename_i x y hx hy
        split at hexec
        · rename_i e he
          split at hexec
          · rename_i hcond
            simp only [Bool.and_eq_true, decide_eq_true_eq, Option.isNone_iff_eq_none,
              Option.all_eq_true] at hcond
            obtain ⟨⟨⟨⟨⟨-, hrunning⟩, -⟩, hinitial⟩, hnone⟩, hnew⟩ := hcond
            obtain ⟨rfl, rfl⟩ := Prod.mk.inj (Option.some.inj hexec)
            have hdc : d ≠ c := by
              rintro rfl
              obtain rfl : x = y := Option.some.inj (hx.symm.trans hy)
              simp [hrunning] at hinitial
            have hlend : ∀ s₁ : Shared, s₁.coros c = some x → s₁.coros d = some y →
                Shared.Evolves t s₁
                  ((s₁.setCoro c { x with point := .awaiting, launches := ls }).setCoro d
                    { y with
                      env := some (y.given.getD e)
                      continuation := some (k.getD c) }) := by
              intro s₁ hx₁ hy₁
              exact (evolves_suspend hholds hx hx₁ hrunning).trans (evolves_setEnv
                ((Shared.setCoro_coros_of_ne hdc).trans hy₁) hinitial hnone rfl rfl rfl)
            refine h.become hl ?_ trivial rfl
            cases k with
            | none => exact hlend s hx hy
            | some k =>
                have hnewk : s.coros k = none := hnew k rfl
                have hck : c ≠ k := by
                  rintro rfl
                  simp [hx] at hnewk
                have hdk : d ≠ k := by
                  rintro rfl
                  simp [hy] at hnewk
                refine (Shared.evolves_setCoro_new hnewk ?_ (by simp)).trans (hlend _ ?_ ?_)
                · exact ⟨fun _ _ _ => rfl, fun _ => rfl⟩
                · exact (Shared.setCoro_coros_of_ne hck).trans hx
                · exact (Shared.setCoro_coros_of_ne hdk).trans hy
          · simp at hexec
        · simp at hexec
      · simp at hexec
  | plain ls => simp [exec] at hexec
  | suspending how c => simp [exec] at hexec

theorem create_sound (h : Sound s (l ++ ⟨t, pc⟩ :: r)) (hl : ∀ g ∈ l, g.thread ≠ t)
    {kind : Kind} {size k : Nat} (hexec : exec s t pc (.create kind size k) = some (s', q)) :
    Sound s' (l ++ q.toList.map (Frame.mk t) ++ r) := by
  simp only [exec] at hexec
  split at hexec
  · rename_i hcond
    simp only [Bool.and_eq_true, Option.isNone_iff_eq_none] at hcond
    obtain ⟨rfl, rfl⟩ := Prod.mk.inj (Option.some.inj hexec)
    have hev := Shared.evolves_setCoro_new (t := t) hcond.2 (x := {
      kind := kind
      block := if kind = .writeNow then none
        else some (operatorNew (s.slots t) s.defaultResource size) })
      ⟨fun _ _ _ => rfl, fun _ => rfl⟩ (by simp)
    exact h.become hl hev ((h.top hl).1.mono hev.coros) rfl
  · simp at hexec

theorem Sound.launch (h : Sound s (l ++ ⟨t, pc⟩ :: r)) (hl : ∀ g ∈ l, g.thread ≠ t)
    {s₁ : Shared} (hev : Shared.Evolves t s s₁) (trampoline : Option Nat) (mr : Slot) :
    Sound (s₁.setSlot t mr) (l ++ (some (pc.withLaunches
      (⟨trampoline, mr, .enter (s.slots t), .argument⟩ :: pc.launches))).toList.map
        (Frame.mk t) ++ r) :=
  h.relaunch hl (hev.trans (Shared.evolves_setSlot ..)) rfl

theorem Sound.leave (h : Sound s (l ++ ⟨t, pc⟩ :: r)) (hl : ∀ g ∈ l, g.thread ≠ t)
    {s₁ : Shared} (hev : Shared.Evolves t s s₁) {launch : Launch} {ls : List Launch}
    (hls : pc.launches = launch :: ls) :
    Sound (s₁.leave t launch.scope)
      (l ++ (some (pc.withLaunches ls)).toList.map (Frame.mk t) ++ r) := by
  refine h.relaunch hl (hev.trans (Shared.evolves_leave ..)) ?_
  rw [hls, Shared.leave_slots_self]
  rfl

theorem runAsync_sound (h : Sound s (l ++ ⟨t, pc⟩ :: r)) (hl : ∀ g ∈ l, g.thread ≠ t)
    {mr : Slot} {k : Nat} (hexec : exec s t pc (.runAsync mr k) = some (s', q)) :
    Sound s' (l ++ q.toList.map (Frame.mk t) ++ r) := by
  simp only [exec] at hexec
  split at hexec
  · rename_i hcond
    simp only [Bool.and_eq_true, Option.isNone_iff_eq_none] at hcond
    obtain ⟨rfl, rfl⟩ := Prod.mk.inj (Option.some.inj hexec)
    refine h.launch hl (Shared.evolves_setCoro_new hcond.2 ?_ (by simp)) (some k) mr
    exact ⟨fun _ _ _ => rfl, fun _ => rfl⟩
  · simp at hexec

theorem argumentThrows_sound (h : Sound s (l ++ ⟨t, pc⟩ :: r)) (hl : ∀ g ∈ l, g.thread ≠ t)
    (hexec : exec s t pc .argumentThrows = some (s', q)) :
    Sound s' (l ++ q.toList.map (Frame.mk t) ++ r) := by
  simp only [exec] at hexec
  split at hexec
  · rename_i launch ls hls
    split at hexec
    · split at hexec
      · obtain ⟨s₁, hs₁, heq⟩ := Option.map_eq_some_iff.mp hexec
        obtain ⟨rfl, rfl⟩ := Prod.mk.inj heq
        exact h.leave hl (Shared.evolves_destroyUnstarted hs₁) hls
      · obtain ⟨rfl, rfl⟩ := Prod.mk.inj (Option.some.inj hexec)
        exact h.leave hl (.refl t s) hls
    · simp at hexec
  · simp at hexec

theorem startTask_sound (h : Sound s (l ++ ⟨t, pc⟩ :: r)) (hl : ∀ g ∈ l, g.thread ≠ t)
    {d : Nat} (hexec : exec s t pc (.startTask d) = some (s', q)) :
    Sound s' (l ++ q.toList.map (Frame.mk t) ++ r) := by
  simp only [exec] at hexec
  split at hexec
  · rename_i launch ls x hls hx
    split at hexec
    · rename_i hcond
      simp only [Bool.and_eq_true, decide_eq_true_eq, Option.isNone_iff_eq_none] at hcond
      obtain ⟨rfl, rfl⟩ := Prod.mk.inj (Option.some.inj hexec)
      have hev : Shared.Evolves t s (s.setCoro d
          { x with env := some launch.resource, continuation := launch.trampoline }) :=
        evolves_setEnv hx hcond.1.2 hcond.2 rfl rfl rfl
      refine h.relaunch hl hev ?_
      rw [hls]
      rfl
    · simp at hexec
  · simp at hexec

theorem dispatchThrows_sound (h : Sound s (l ++ ⟨t, pc⟩ :: r)) (hl : ∀ g ∈ l, g.thread ≠ t)
    (hexec : exec s t pc .dispatchThrows = some (s', q)) :
    Sound s' (l ++ q.toList.map (Frame.mk t) ++ r) := by
  simp only [exec] at hexec
  split at hexec
  · rename_i launch ls hls
    split at hexec
    · obtain ⟨s₁, hs₁, hexec⟩ := Option.bind_eq_some_iff.mp hexec
      obtain ⟨s₂, hs₂, heq⟩ := Option.map_eq_some_iff.mp hexec
      obtain ⟨rfl, rfl⟩ := Prod.mk.inj heq
      exact h.leave hl ((Shared.evolves_destroyUnstarted hs₁).trans
        (Shared.evolves_destroyUnstarted hs₂)) hls
    · simp at hexec
  · simp at hexec

theorem dispatchReturns_sound (h : Sound s (l ++ ⟨t, pc⟩ :: r)) (hl : ∀ g ∈ l, g.thread ≠ t)
    (hexec : exec s t pc .dispatchReturns = some (s', q)) :
    Sound s' (l ++ q.toList.map (Frame.mk t) ++ r) := by
  simp only [exec] at hexec
  split at hexec
  · rename_i launch ls hls
    split at hexec
    · obtain ⟨rfl, rfl⟩ := Prod.mk.inj (Option.some.inj hexec)
      refine h.relaunch hl (.refl t s) ?_
      rw [hls]
      rfl
    · simp at hexec
  · simp at hexec

theorem leaveRunAsync_sound (h : Sound s (l ++ ⟨t, pc⟩ :: r)) (hl : ∀ g ∈ l, g.thread ≠ t)
    (hexec : exec s t pc .leaveRunAsync = some (s', q)) :
    Sound s' (l ++ q.toList.map (Frame.mk t) ++ r) := by
  simp only [exec] at hexec
  split at hexec
  · rename_i launch ls hls
    split at hexec
    · obtain ⟨rfl, rfl⟩ := Prod.mk.inj (Option.some.inj hexec)
      exact h.leave hl (.refl t s) hls
    · simp at hexec
  · simp at hexec

theorem makeAwaitable_sound (h : Sound s (l ++ ⟨t, pc⟩ :: r)) (hl : ∀ g ∈ l, g.thread ≠ t)
    {d : Nat} {own : Slot} (hexec : exec s t pc (.makeAwaitable d own) = some (s', q)) :
    Sound s' (l ++ q.toList.map (Frame.mk t) ++ r) := by
  simp only [exec] at hexec
  split at hexec
  · rename_i launch ls x hls hx
    split at hexec
    · rename_i hcond
      simp only [Bool.and_eq_true, decide_eq_true_eq, Option.isNone_iff_eq_none] at hcond
      obtain ⟨rfl, rfl⟩ := Prod.mk.inj (Option.some.inj hexec)
      have hev : Shared.Evolves t s (s.setCoro d { x with given := some own }) :=
        evolves_setEnv hx hcond.1.2 hcond.2 rfl rfl rfl
      exact h.leave hl hev hls
    · simp at hexec
  · simp at hexec

theorem makeRunner_sound (h : Sound s (l ++ ⟨t, pc⟩ :: r)) (hl : ∀ g ∈ l, g.thread ≠ t)
    {k : Nat} (hexec : exec s t pc (.makeRunner k) = some (s', q)) :
    Sound s' (l ++ q.toList.map (Frame.mk t) ++ r) := by
  cases pc with
  | body how c ls => simp [exec] at hexec
  | plain ls => simp [exec] at hexec
  | suspending how c =>
      simp only [exec] at hexec
      split at hexec
      · split at hexec
        · rename_i hcond
          simp only [Bool.and_eq_true, Option.isNone_iff_eq_none] at hcond
          obtain ⟨rfl, rfl⟩ := Prod.mk.inj (Option.some.inj hexec)
          refine h.become hl (Shared.evolves_setCoro_new hcond.2 ?_ (by simp)) trivial rfl
          exact ⟨fun _ _ _ => rfl, fun _ => rfl⟩
        · simp at hexec
      · simp at hexec

theorem Sound.transfer (h : Sound s (l ++ ⟨t, pc⟩ :: r)) (hl : ∀ g ∈ l, g.thread ≠ t)
    {s₁ : Shared} (hev : Shared.Evolves t s s₁) {how : How} {d : Nat}
    (hleaves : pc.leaves (some (s.slots t)) = how.restores)
    (hstart : startsInWindow s₁ t d = true) (hresume : s₁.resume t how d = some (s', q)) :
    Sound s' (l ++ q.toList.map (Frame.mk t) ++ r) := by
  obtain ⟨x, hx, rfl, hev', hholds⟩ := Shared.resume_cases (hev.kept h.kept) hresume
  exact h.become hl (hev.trans hev') (hholds (startsInWindow_env hstart hx)) hleaves.symm

theorem evolves_finish {c : Nat} {x : Coro} (hx : s.coros c = some x)
    (hrunning : x.point = .running) :
    Shared.Evolves t s (s.setCoro c { x with point := .final }) :=
  Shared.evolves_setCoro hx rfl (fun _ he => he) (fun hparked => ⟨hparked.1, by simp⟩)
    (by simp [hrunning]) (by simp)

theorem finish_sound (h : Sound s (l ++ ⟨t, pc⟩ :: r)) (hl : ∀ g ∈ l, g.thread ≠ t)
    (hstart : ∀ d, resumed ⟨s, l ++ ⟨t, pc⟩ :: r⟩ (.run t .finish) = some d →
      startsInWindow s t d = true)
    (hexec : exec s t pc .finish = some (s', q)) :
    Sound s' (l ++ q.toList.map (Frame.mk t) ++ r) := by
  cases pc with
  | body how c ls =>
      cases ls with
      | cons launch ls => simp [exec] at hexec
      | nil =>
          simp only [exec] at hexec
          split at hexec
          · rename_i x hx
            split at hexec
            · rename_i hrunning
              have hev := evolves_finish (t := t) hx hrunning
              split at hexec
              · rename_i a ha
                have hstart' := hstart a (by simp [resumed, topPc_append hl, hx, ha])
                refine h.transfer hl hev rfl ?_ hexec
                rcases eq_or_ne a c with rfl | hne
                · simp [startsInWindow]
                · rw [startsInWindow, Shared.setCoro_coros_of_ne hne]
                  exact hstart'
              · obtain ⟨rfl, rfl⟩ := Prod.mk.inj (Option.some.inj hexec)
                exact h.become hl hev trivial rfl
            · simp at hexec
          · simp at hexec
  | plain ls => simp [exec] at hexec
  | suspending how c => simp [exec] at hexec

theorem ret_sound (h : Sound s (l ++ ⟨t, pc⟩ :: r)) (hl : ∀ g ∈ l, g.thread ≠ t)
    (hexec : exec s t pc .ret = some (s', q)) :
    Sound s' (l ++ q.toList.map (Frame.mk t) ++ r) := by
  obtain ⟨-, hrest⟩ := h.top hl
  simp only [exec] at hexec
  split at hexec
  · obtain ⟨rfl, rfl⟩ := Prod.mk.inj (Option.some.inj hexec)
    exact h.replace hl (.refl t s) hrest
  · rename_i scope c
    obtain ⟨rfl, rfl⟩ := Prod.mk.inj (Option.some.inj hexec)
    refine h.replace hl (Shared.evolves_leave ..) ?_
    rw [Shared.leave_slots_self]
    exact hrest.mono (Shared.evolves_leave t s scope).coros
  · obtain ⟨rfl, rfl⟩ := Prod.mk.inj (Option.some.inj hexec)
    exact h.replace hl (.refl t s) (hrest.of_none _)
  · simp at hexec

theorem exec_sound (h : Sound s (l ++ ⟨t, pc⟩ :: r)) (hl : ∀ g ∈ l, g.thread ≠ t) {a : Action}
    (hok : keepsWindow ⟨s, l ++ ⟨t, pc⟩ :: r⟩ (.run t a) = true)
    (hexec : exec s t pc a = some (s', q)) :
    Sound s' (l ++ q.toList.map (Frame.mk t) ++ r) := by
  have hstart : ∀ d, resumed ⟨s, l ++ ⟨t, pc⟩ :: r⟩ (.run t a) = some d →
      startsInWindow s t d = true := by
    intro d hd
    simpa [keepsWindow, hd, thread] using hok
  cases a with
  | create kind size k => exact create_sound h hl hexec
  | runAsync mr k => exact runAsync_sound h hl hexec
  | run mr =>
      simp only [exec] at hexec
      split at hexec
      · obtain ⟨rfl, rfl⟩ := Prod.mk.inj (Option.some.inj hexec)
        exact h.launch hl (.refl t s) none mr
      · simp at hexec
  | argumentThrows => exact argumentThrows_sound h hl hexec
  | startTask d => exact startTask_sound h hl hexec
  | dispatchThrows => exact dispatchThrows_sound h hl hexec
  | dispatchReturns => exact dispatchReturns_sound h hl hexec
  | leaveRunAsync => exact leaveRunAsync_sound h hl hexec
  | makeAwaitable d own => exact makeAwaitable_sound h hl hexec
  | awaitReady => exact awaitReady_sound h hl hexec
  | suspend => exact suspend_sound h hl hexec
  | lend d k => exact lend_sound h hl hexec
  | makeRunner k => exact makeRunner_sound h hl hexec
  | transfer d =>
      cases pc with
      | body how c ls => simp [exec] at hexec
      | plain ls => simp [exec] at hexec
      | suspending how c => exact h.transfer hl (.refl t s) rfl (hstart d rfl) hexec
  | finish => exact finish_sound h hl hstart hexec
  | ret => exact ret_sound h hl hexec

theorem Shared.Fits.of_resumesDirectly {v : Option Slot} {pcs : List Pc} (h : s.Fits v pcs)
    (hdirect : pcs.head?.any Pc.resumesDirectly = true) : s.Fits none pcs := by
  refine h.of_not_relied ?_
  cases pcs with
  | nil => rfl
  | cons pc pcs =>
      rcases pc with ⟨how, c, _ | ⟨launch, ls⟩⟩ | ⟨_ | ⟨launch, ls⟩⟩ | ⟨how, c⟩
      · simp [Pc.resumesDirectly] at hdirect
      · rfl
      · simp [Pc.resumesDirectly] at hdirect
      · rfl
      · rfl

theorem enter_sound (h : Sound s fs) {a : Entry} (hok : keepsWindow ⟨s, fs⟩ (.enter t a) = true)
    (henter : enter s fs t a = some (s', q)) : Sound s' (q.toList.map (Frame.mk t) ++ fs) := by
  have hstart : ∀ d, resumed ⟨s, fs⟩ (.enter t a) = some d → startsInWindow s t d = true := by
    intro d hd
    simp only [keepsWindow, hd, thread, Option.all_some, Bool.and_eq_true] at hok
    exact hok.1
  have hfits := h.windows t
  cases a with
  | call =>
      obtain ⟨rfl, rfl⟩ := Prod.mk.inj (Option.some.inj henter)
      exact h.enter (.refl t s) ⟨trivial, hfits⟩
  | safeResume d =>
      obtain ⟨x, hx, rfl, hev, hholds⟩ := Shared.resume_cases h.kept henter
      exact h.enter hev ⟨hholds (startsInWindow_env (hstart d rfl) hx), hfits.mono hev.coros⟩
  | resume d =>
      simp only [FrameAllocator.enter] at henter
      split at henter
      · rename_i hdirect
        rw [topPc_eq_head] at hdirect
        obtain ⟨x, hx, rfl, hev, hholds⟩ := Shared.resume_cases h.kept henter
        exact h.enter hev ⟨hholds (startsInWindow_env (hstart d rfl) hx),
          (hfits.of_resumesDirectly hdirect).mono hev.coros⟩
      · simp at henter
  | destroy d =>
      simp only [FrameAllocator.enter] at henter
      split at henter
      · rename_i x hx
        split at henter
        · rename_i hpoint
          obtain ⟨rfl, rfl⟩ := Prod.mk.inj (Option.some.inj henter)
          have hev : Shared.Evolves t s (s.destroy t d) := by
            refine Shared.evolves_destroy hx ?_
            simp only [Bool.or_eq_true, decide_eq_true_eq] at hpoint
            rcases hpoint with (hpoint | hpoint) | hpoint <;> simp [hpoint]
          have houtside : relied s (stackOf t fs) = false ∨
              unwind (s.slots t) x.launches = s.slots t := by
            simpa [keepsWindow, resumed, tearsDownOutsideWindow, hx] using hok
          refine h.enter hev (Shared.Fits.mono ?_ hev.coros)
          rw [Shared.destroy_slots_self hx]
          rcases houtside with hrelied | hsame
          · exact hfits.of_not_relied hrelied
          · rw [hsame]
            exact hfits
        · simp at henter
      · simp at henter
  | setDefaultResource r =>
      obtain ⟨rfl, rfl⟩ := Prod.mk.inj (Option.some.inj henter)
      have hev : Shared.Evolves t s { s with defaultResource := r } :=
        ⟨fun _ _ => rfl, .refl s, fun hk => ⟨hk.parked, hk.exits, hk.returned⟩⟩
      exact h.enter hev (hfits.mono hev.coros)

end Step

theorem sound_preserved : machine.Preserves keepsWindow Sound :=
  .ofSteps (fun h _ hl hok hexec => exec_sound h hl hok hexec)
    (fun h _ _ hok henter => enter_sound h hok henter)

theorem sound_reachable {s : State Shared Pc}
    (h : machine.ReachableWhen keepsWindow Initial s) : Sound s.shared s.frames := by
  refine sound_preserved.reachableWhen (fun _ hi => hi.1) ?_ h
  rintro s ⟨-, r, hs⟩
  rw [hs]
  refine ⟨fun _ => trivial, ?_, ?_, fun _ => rfl⟩
  · intro c x hx
    simp at hx
  · intro e he
    simp at he

end Capy.FrameAllocator
