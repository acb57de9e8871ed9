import Capy.RunAsync
import Capy.Token

namespace Capy.RunAsync

open Capy.CallStack
open Capy.Token

/-- Who destroys the trampoline in the end, or is on the way to it. `task` is the
party that has the segment, and `wrapper` is the destructor of a wrapper that
still has its trampoline. -/
inductive Holder where
  | nobody
  | argument
  | invoke
  | wrapper
  | task
  | post
  | posted
  | trampoline
  | handler
  | unwound
  | destroy
  | gone
  | terminated
  deriving DecidableEq

def frameHolder (tr : Bool) : Pc → Option Holder
  | .argument => some .argument
  | .invoke => some .invoke
  | .dispatch | .clear true | .resume true | .task _ => some .task
  | .destructor => if tr then some .wrapper else none
  | .trampoline _ => some .trampoline
  | .handler _ | .guard _ _ => some .handler
  | .unwound _ _ | .finish _ => some .unwound
  | .destroy => some .destroy
  | .post => some .post
  | _ => none

/-- The holders that are not activations. -/
def inState (s : Launch) : Holder → Nat
  | .nobody => (!s.launched).toNat
  | .task => if s.segment = .none then 0 else 1
  | .posted => s.posted.toNat
  | .gone => s.trampolineDestroyed
  | .terminated => s.terminated.toNat
  | _ => 0

/-- Nothing has been completed or abandoned. -/
structure Fresh (s : Launch) : Prop where
  abandoned : s.abandoned = false
  completed : s.completed = none
  handled : s.handled = []
  posts : s.posts = 0
  unwinds : s.unwinds = false

/-- Every handler that is to be invoked has been. -/
structure Closed (s : Launch) : Prop where
  handled : s.handled = s.completed.toList
  posts : s.posts = s.abandoned.toNat
  abandoned : s.abandoned = true → s.completed = none ∧ s.unwinds = true

structure TaskIs (s : Launch) (created destroyed : Nat) (h : Bool) : Prop where
  created : s.taskCreated = created
  destroyed : s.taskDestroyed = destroyed
  taskH : s.taskH = h

/-- What is so while `h` holds the trampoline. -/
def Holds (s : Launch) : Holder → Prop
  | .nobody | .argument => Fresh s ∧ TaskIs s 0 0 false
  | .invoke => Fresh s ∧ TaskIs s 1 0 false
  | .wrapper => Fresh s ∧ TaskIs s s.taskH.toNat 0 s.taskH
  | .task => Fresh s ∧ TaskIs s 1 0 true
  | .post | .posted =>
      TaskIs s 1 0 true ∧ s.abandoned = true ∧ s.completed = none ∧ s.handled = [] ∧
        s.unwinds = false ∧ s.posts = s.posted.toNat
  | .trampoline =>
      TaskIs s 1 0 true ∧ s.handled = [] ∧ s.posts = s.abandoned.toNat ∧
        (s.abandoned = true → s.completed = none ∧ s.unwinds = true) ∧
        (s.abandoned = false → s.completed.isSome = true)
  | .handler => TaskIs s 1 0 true ∧ Closed s
  | .destroy => TaskIs s s.taskH.toNat 0 s.taskH ∧ s.completed = none ∧ Closed s
  | .unwound | .gone | .terminated => s.taskDestroyed = s.taskCreated ∧ s.taskCreated ≤ 1 ∧ Closed s

/-- The activation is of the wrapper's full expression. -/
def ofWrapper : Pc → Bool
  | .argument | .invoke | .dispatch | .dispatched | .clear _ | .resume _ | .destructor => true
  | .task .wrapper | .trampoline .wrapper | .handler .wrapper | .guard .wrapper _ => true
  | .unwound .wrapper _ | .finish .wrapper => true
  | _ => false

/-- The value of `tr_.h_` that the activation relies on. -/
def expects : Pc → Option Bool
  | .argument | .invoke | .dispatch | .dispatched | .clear _ => some true
  | .resume _ | .task .wrapper | .trampoline .wrapper | .handler .wrapper => some false
  | .guard .wrapper _ | .unwound .wrapper _ | .finish .wrapper => some false
  | _ => none

/-- What every run keeps. -/
structure Owned (s : Launch) (fs : List (Frame Pc)) : Prop where
  held : ∃ h, Located (frameHolder s.tr) (inState s) h fs ∧ Holds s h
  one : fs.countP (fun f => ofWrapper f.pc) ≤ s.launched.toNat
  relies : ∀ f ∈ fs, ∀ b, expects f.pc = some b → s.tr = b
  started : s.workStarted = s.launched.toNat
  finished : s.workFinished = s.trampolineDestroyed
  sound : s.fault = false

/-- Only an activation holds the trampoline. -/
structure Idle (s : Launch) : Prop where
  launched : s.launched = true
  segment : s.segment = .none
  posted : s.posted = false
  trampolineDestroyed : s.trampolineDestroyed = 0
  terminated : s.terminated = false

theorem idle_of_inState {s : Launch} (h : ∀ j, inState s j = 0) : Idle s := by
  constructor
  · simpa [inState] using h .nobody
  · simpa [inState] using h .task
  · simpa [inState] using h .posted
  · exact h .gone
  · simpa [inState] using h .terminated

theorem Idle.inState_eq_zero {s : Launch} (h : Idle s) (j : Holder) : inState s j = 0 := by
  cases j <;> simp [inState, h.launched, h.segment, h.posted, h.trampolineDestroyed,
    h.terminated]

theorem Idle.moved {s : Launch} (h : Idle s) {pc : Pc} {k : Holder}
    (hk : frameHolder s.tr pc = some k) : Moved (frameHolder s.tr) (inState s) (some pc) k :=
  moved_of_holder h.inState_eq_zero hk

theorem Caller.next_heldBy {tr : Bool} {caller : Caller} (h : caller = .wrapper → tr = false)
    (j : Holder) : (Caller.next caller).elim 0 (heldBy (frameHolder tr) j) = 0 := by
  cases caller with
  | executor => rfl
  | wrapper => simp [Caller.next, heldBy, frameHolder, h rfl]

theorem expects_wrapper {tr : Bool} {caller : Caller} {pc : Caller → Pc}
    (hpc : expects (pc .wrapper) = some false) (h : ∀ b, expects (pc caller) = some b → tr = b)
    (heq : caller = .wrapper) : tr = false := by
  subst heq
  exact h false hpc

@[simp] theorem touch_of_alive {s : Launch} (h : s.trampolineDestroyed = 0) : s.touch = s := by
  cases s
  simp_all [Launch.touch]

theorem touchTask_of_alive {s : Launch} {b : Bool} (h : TaskIs s 1 0 b) : s.touchTask = s := by
  obtain ⟨hcreated, hdestroyed, -⟩ := h
  cases s
  simp_all [Launch.touchTask]

theorem destroyTask_of_alive {s : Launch} (h : s.taskH = true) :
    s.destroyTask = { s with taskDestroyed := s.taskDestroyed + 1 } := by
  cases s
  simp_all [Launch.destroyTask]

/-- The trampoline is with a holder after a step of the activation that had it. -/
def Handed (s' : Launch) (q : Option Pc) : Prop :=
  ∃ h, Holds s' h ∧ Moved (frameHolder s'.tr) (inState s') q h ∧ s'.fault = false

section Handed

variable {s s' : Launch} {q : Option Pc} {caller : Caller} (hidle : Idle s)
  (hsound : s.fault = false)

include hidle hsound

theorem handed_argument (hstep : Step s .argument s' q) (hholds : Holds s .argument)
    (htr : s.tr = true) : Handed s' q := by
  obtain ⟨hfresh, htask⟩ := hholds
  cases hstep with
  | argumentThrows =>
      refine ⟨.wrapper, ⟨hfresh, ?_⟩, hidle.moved ?_, hsound⟩
      · rw [htask.taskH]
        exact htask
      · rw [htr]
        rfl
  | argument =>
      refine ⟨.invoke, ⟨⟨hfresh.1, hfresh.2, hfresh.3, hfresh.4, hfresh.5⟩, ?_⟩,
        Idle.moved ⟨hidle.1, hidle.2, hidle.3, hidle.4, hidle.5⟩ rfl, hsound⟩
      exact ⟨by simp [htask.created], htask.destroyed, htask.taskH⟩

theorem handed_invoke (hstep : Step s .invoke s' q) (hholds : Holds s .invoke) : Handed s' q := by
  obtain ⟨hfresh, htask⟩ := hholds
  cases hstep
  rw [touch_of_alive hidle.trampolineDestroyed]
  exact ⟨.task, ⟨⟨hfresh.1, hfresh.2, hfresh.3, hfresh.4, hfresh.5⟩,
    ⟨htask.created, htask.destroyed, rfl⟩⟩,
    Idle.moved ⟨hidle.1, hidle.2, hidle.3, hidle.4, hidle.5⟩ rfl, hsound⟩

theorem handed_dispatch (hstep : Step s .dispatch s' q) (hholds : Holds s .task)
    (htr : s.tr = true) : Handed s' q := by
  obtain ⟨hfresh, htask⟩ := hholds
  have halive := hidle.trampolineDestroyed
  cases hstep with
  | dispatchThrows =>
      rw [touch_of_alive halive]
      refine ⟨.wrapper, ⟨hfresh, ?_⟩, hidle.moved ?_, hsound⟩
      · rw [htask.taskH]
        exact htask
      · rw [htr]
        rfl
  | dispatchHandle =>
      rw [touch_of_alive halive]
      exact ⟨.task, ⟨hfresh, htask⟩, hidle.moved rfl, hsound⟩
  | dispatchQueue =>
      rw [touch_of_alive halive]
      refine ⟨.task, ⟨⟨hfresh.1, hfresh.2, hfresh.3, hfresh.4, hfresh.5⟩,
        ⟨htask.1, htask.2, htask.3⟩⟩, moved_of_state rfl (fun j hj => ?_) fun _ => rfl, hsound⟩
      cases j <;> simp [inState, hidle.1, hidle.3, hidle.4, hidle.5] at hj ⊢

theorem handed_clear (hstep : Step s (.clear true) s' q) (hholds : Holds s .task) :
    Handed s' q := by
  obtain ⟨hfresh, htask⟩ := hholds
  cases hstep
  refine ⟨.task, ⟨⟨hfresh.1, hfresh.2, hfresh.3, hfresh.4, hfresh.5⟩,
    ⟨htask.1, htask.2, htask.3⟩⟩, Idle.moved ?_ rfl, hsound⟩
  exact ⟨hidle.1, hidle.2, hidle.3, hidle.4, hidle.5⟩

theorem handed_resume (hstep : Step s (.resume true) s' q) (hholds : Holds s .task) :
    Handed s' q := by
  cases hstep
  rw [touchTask_of_alive hholds.2]
  exact ⟨.task, hholds, hidle.moved rfl, hsound⟩

theorem handed_destructor (hstep : Step s .destructor s' q) (hholds : Holds s .wrapper)
    (htr : s.tr = true) : Handed s' q := by
  obtain ⟨hfresh, htask⟩ := hholds
  cases hstep with
  | destructor =>
      rw [touch_of_alive hidle.trampolineDestroyed]
      refine ⟨.destroy, ⟨htask, hfresh.completed, ?_, ?_, ?_⟩, hidle.moved rfl, hsound⟩
      · rw [hfresh.handled, hfresh.completed]
        rfl
      · rw [hfresh.posts, hfresh.abandoned]
        rfl
      · simp [hfresh.abandoned]
  | destructorNull hnull => simp [htr] at hnull

theorem handed_task (hstep : Step s (.task caller) s' q) (hholds : Holds s .task)
    (htr : caller = .wrapper → s.tr = false) : Handed s' q := by
  obtain ⟨hfresh, htask⟩ := hholds
  cases hstep with
  | suspend =>
      refine ⟨.task, ⟨⟨hfresh.1, hfresh.2, hfresh.3, hfresh.4, hfresh.5⟩,
        ⟨htask.1, htask.2, htask.3⟩⟩, moved_of_state rfl (fun j hj => ?_)
        (Caller.next_heldBy htr), hsound⟩
      cases j <;> simp [inState, hidle.1, hidle.3, hidle.4, hidle.5] at hj ⊢
  | complete =>
      refine ⟨.trampoline, ⟨⟨htask.1, htask.2, htask.3⟩, hfresh.handled, ?_, ?_, fun _ => rfl⟩,
        Idle.moved ⟨hidle.1, hidle.2, hidle.3, hidle.4, hidle.5⟩ rfl, hsound⟩
      · simp [hfresh.posts, hfresh.abandoned]
      · simp [hfresh.abandoned]

theorem handed_trampoline (hstep : Step s (.trampoline caller) s' q)
    (hholds : Holds s .trampoline) : Handed s' q := by
  obtain ⟨htask, hhandled, hposts, hnone, hsome⟩ := hholds
  have halive := hidle.trampolineDestroyed
  cases hstep with
  | abandoned habandoned =>
      rw [touch_of_alive halive]
      refine ⟨.handler, ⟨htask, ?_, hposts, hnone⟩, hidle.moved rfl, hsound⟩
      rw [hhandled, (hnone habandoned).1]
      rfl
  | handle habandoned =>
      obtain ⟨o, ho⟩ := Option.isSome_iff_exists.mp (hsome habandoned)
      rw [touch_of_alive halive, invokeImpl, ho]
      simp only [touchTask_of_alive htask]
      refine ⟨.handler, ⟨⟨htask.1, htask.2, htask.3⟩, ?_, hposts, ?_⟩,
        Idle.moved ⟨hidle.1, hidle.2, hidle.3, hidle.4, hidle.5⟩ rfl, hsound⟩
      · simp [hhandled, ho]
      · simp [habandoned]

theorem handed_handler (hstep : Step s (.handler caller) s' q) (hholds : Holds s .handler) :
    Handed s' q := by
  obtain ⟨htask, hclosed⟩ := hholds
  cases hstep with
  | handled => exact ⟨.handler, ⟨htask, hclosed⟩, hidle.moved rfl, hsound⟩
  | handlerThrows =>
      exact ⟨.handler, ⟨⟨htask.1, htask.2, htask.3⟩, hclosed.1, hclosed.2, hclosed.3⟩,
        Idle.moved ⟨hidle.1, hidle.2, hidle.3, hidle.4, hidle.5⟩ rfl, hsound⟩

theorem handed_guard {throws : Bool} (hstep : Step s (.guard caller throws) s' q)
    (hholds : Holds s .handler) : Handed s' q := by
  obtain ⟨htask, hclosed⟩ := hholds
  cases hstep
  rw [touch_of_alive hidle.trampolineDestroyed, destroyTask_of_alive htask.taskH]
  refine ⟨.unwound, ⟨?_, ?_, hclosed.1, hclosed.2, hclosed.3⟩,
    Idle.moved ⟨hidle.1, hidle.2, hidle.3, hidle.4, hidle.5⟩ rfl, hsound⟩
  · simp [htask.created, htask.destroyed]
  · simp [htask.created]

theorem handed_unwound {throws : Bool} (hstep : Step s (.unwound caller throws) s' q)
    (hholds : Holds s .unwound) : Handed s' q := by
  obtain ⟨htask, hle, hclosed⟩ := hholds
  cases hstep with
  | terminate =>
      refine ⟨.terminated, ⟨htask, hle, hclosed.1, hclosed.2, hclosed.3⟩,
        moved_of_state rfl (fun j hj => ?_) fun _ => rfl, hsound⟩
      cases j <;> simp [inState, hidle.1, hidle.2, hidle.3, hidle.4] at hj ⊢
  | unwound => exact ⟨.unwound, ⟨htask, hle, hclosed⟩, hidle.moved rfl, hsound⟩

theorem handed_finish (hstep : Step s (.finish caller) s' q) (hholds : Holds s .unwound)
    (htr : caller = .wrapper → s.tr = false) : Handed s' q := by
  obtain ⟨htask, hle, hclosed⟩ := hholds
  have halive := hidle.trampolineDestroyed
  cases hstep
  rw [touch_of_alive halive]
  refine ⟨.gone, ⟨htask, hle, hclosed.1, hclosed.2, hclosed.3⟩,
    moved_of_state (by simp [inState, halive]) (fun j hj => ?_) (Caller.next_heldBy htr), hsound⟩
  cases j <;> simp [inState, hidle.1, hidle.2, hidle.3, hidle.5] at hj ⊢

theorem handed_destroy (hstep : Step s .destroy s' q) (hholds : Holds s .destroy) :
    Handed s' q := by
  obtain ⟨htask, hnone, hclosed⟩ := hholds
  have halive := hidle.trampolineDestroyed
  cases hstep with
  | destroy htaskH =>
      rw [touch_of_alive halive, destroyTask_of_alive htaskH]
      refine ⟨.unwound, ⟨?_, ?_, hclosed.1, hclosed.2, hclosed.3⟩,
        Idle.moved ⟨hidle.1, hidle.2, hidle.3, hidle.4, hidle.5⟩ rfl, hsound⟩
      · simp [htask.created, htask.destroyed, htaskH]
      · simp [htask.created, htaskH]
  | destroyNull htaskH =>
      rw [touch_of_alive halive]
      refine ⟨.unwound, ⟨?_, ?_, hclosed⟩, hidle.moved rfl, hsound⟩
      · simp [htask.created, htask.destroyed, htaskH]
      · simp [htask.created, htaskH]

theorem handed_post (hstep : Step s .post s' q) (hholds : Holds s .post) : Handed s' q := by
  obtain ⟨htask, habandoned, hnone, hhandled, hunwinds, hposts⟩ := hholds
  cases hstep
  rw [touch_of_alive hidle.trampolineDestroyed]
  refine ⟨.posted, ⟨⟨htask.1, htask.2, htask.3⟩, habandoned, hnone, hhandled, hunwinds, ?_⟩,
    moved_of_state rfl (fun j hj => ?_) fun j => ?_, hsound⟩
  · simp [hposts, hidle.posted]
  · cases j <;> simp [inState, hidle.1, hidle.2, hidle.4, hidle.5] at hj ⊢
  · simp [heldBy, frameHolder]

theorem Step.handed {pc : Pc} {k : Holder} (hstep : Step s pc s' q)
    (hk : frameHolder s.tr pc = some k) (hholds : Holds s k)
    (hexpects : ∀ b, expects pc = some b → s.tr = b) : Handed s' q := by
  cases pc with
  | argument =>
      obtain rfl := Option.some.inj hk
      exact handed_argument hidle hsound hstep hholds (hexpects true rfl)
  | invoke =>
      obtain rfl := Option.some.inj hk
      exact handed_invoke hidle hsound hstep hholds
  | dispatch =>
      obtain rfl := Option.some.inj hk
      exact handed_dispatch hidle hsound hstep hholds (hexpects true rfl)
  | clear next =>
      cases next with
      | false => simp [frameHolder] at hk
      | true =>
          obtain rfl := Option.some.inj hk
          exact handed_clear hidle hsound hstep hholds
  | resume next =>
      cases next with
      | false => simp [frameHolder] at hk
      | true =>
          obtain rfl := Option.some.inj hk
          exact handed_resume hidle hsound hstep hholds
  | destructor =>
      cases htr : s.tr with
      | false => simp [frameHolder, htr] at hk
      | true =>
          obtain rfl : Holder.wrapper = k := by simpa [frameHolder, htr] using hk
          exact handed_destructor hidle hsound hstep hholds htr
  | task caller =>
      obtain rfl := Option.some.inj hk
      exact handed_task hidle hsound hstep hholds (expects_wrapper rfl hexpects)
  | trampoline caller =>
      obtain rfl := Option.some.inj hk
      exact handed_trampoline hidle hsound hstep hholds
  | handler caller =>
      obtain rfl := Option.some.inj hk
      exact handed_handler hidle hsound hstep hholds
  | guard caller throws =>
      obtain rfl := Option.some.inj hk
      exact handed_guard hidle hsound hstep hholds
  | unwound caller throws =>
      obtain rfl := Option.some.inj hk
      exact handed_unwound hidle hsound hstep hholds
  | finish caller =>
      obtain rfl := Option.some.inj hk
      exact handed_finish hidle hsound hstep hholds (expects_wrapper rfl hexpects)
  | destroy =>
      obtain rfl := Option.some.inj hk
      exact handed_destroy hidle hsound hstep hholds
  | post =>
      obtain rfl := Option.some.inj hk
      exact handed_post hidle hsound hstep hholds
  | dispatched | posting => simp [frameHolder] at hk

end Handed

section Step

variable {s s' : Launch} {pc : Pc} {q : Option Pc} (hstep : Step s pc s' q)

include hstep

theorem Step.stays (hk : frameHolder s.tr pc = none)
    (hexpects : ∀ b, expects pc = some b → s.tr = b) :
    s' = { s with tr := s'.tr } ∧ ∀ j, q.elim 0 (heldBy (frameHolder s'.tr) j) = 0 := by
  cases hstep with
  | @clear next =>
      cases next with
      | false => exact ⟨rfl, fun j => rfl⟩
      | true => simp [frameHolder] at hk
  | dispatched => exact ⟨rfl, fun j => by simp [heldBy, frameHolder]⟩
  | resumeNoop =>
      have htr : s.tr = false := hexpects false rfl
      exact ⟨rfl, fun j => by simp [heldBy, frameHolder, htr]⟩
  | destructorNull | posting => exact ⟨rfl, fun j => rfl⟩
  | destructor htr => simp [frameHolder, htr] at hk
  | _ => simp [frameHolder] at hk

theorem Step.of_wrapper {pc' : Pc} (hq : q = some pc') (hpc' : ofWrapper pc' = true) :
    ofWrapper pc = true := by
  cases hstep with
  | @suspend caller | @finish caller =>
      cases caller with
      | executor => simp [Caller.next] at hq
      | wrapper => rfl
  | @complete caller | @abandoned caller | @handle caller | @handled caller
  | @handlerThrows caller | @guard caller | @unwound caller =>
      obtain rfl := Option.some.inj hq
      cases caller <;> first | rfl | simp [ofWrapper] at hpc'
  | destroy | destroyNull | post =>
      obtain rfl := Option.some.inj hq
      simp [ofWrapper] at hpc'
  | terminate | posting => simp at hq
  | _ => rfl

theorem Step.tr_frame : (s'.tr = s.tr ∨ ofWrapper pc = true) ∧ s'.launched = s.launched ∧
    s'.workStarted = s.workStarted ∧
    (s.workFinished = s.trampolineDestroyed → s'.workFinished = s'.trampolineDestroyed) := by
  cases hstep with
  | clear => exact ⟨.inr rfl, rfl, rfl, id⟩
  | handle =>
      refine ⟨.inl ?_, ?_, ?_, fun h => ?_⟩ <;> unfold invokeImpl <;> split <;>
        first | rfl | exact h
  | finish => exact ⟨.inl rfl, rfl, rfl, fun h => congrArg (· + 1) h⟩
  | _ => exact ⟨.inl rfl, rfl, rfl, id⟩

theorem Step.relies (hexpects : ∀ b, expects pc = some b → s.tr = b) {pc' : Pc}
    (hq : q = some pc') {b : Bool} (hb : expects pc' = some b) : s'.tr = b := by
  cases hstep with
  | argument | invoke | dispatchHandle | dispatchQueue | dispatched =>
      obtain rfl := Option.some.inj hq
      exact hexpects b hb
  | clear =>
      obtain rfl := Option.some.inj hq
      exact Option.some.inj hb
  | resume =>
      obtain rfl := Option.some.inj hq
      exact hexpects b hb
  | @complete caller | @abandoned caller | @handled caller | @handlerThrows caller
  | @guard caller | @unwound caller =>
      obtain rfl := Option.some.inj hq
      cases caller <;> exact hexpects b hb
  | @handle caller =>
      obtain rfl := Option.some.inj hq
      have htr : s.tr = b := by cases caller <;> exact hexpects b hb
      unfold invokeImpl
      split <;> exact htr
  | @suspend caller | @finish caller =>
      cases caller <;> simp [Caller.next] at hq
      subst hq
      simp [expects] at hb
  | argumentThrows | dispatchThrows | resumeNoop | destructor | destroy | destroyNull | post =>
      obtain rfl := Option.some.inj hq
      simp [expects] at hb
  | destructorNull | terminate | posting => simp at hq

end Step

theorem ofWrapper_of_expects {pc : Pc} {b : Bool} (h : expects pc = some b) :
    ofWrapper pc = true := by
  cases pc with
  | task caller | trampoline caller | handler caller | finish caller | guard caller
  | unwound caller =>
      cases caller with
      | executor => simp [expects] at h
      | wrapper => rfl
  | destructor | destroy | post | posting => simp [expects] at h
  | _ => rfl

theorem heldBy_congr {pc : Pc} (h : ofWrapper pc = false) (b b' : Bool) (j : Holder) :
    heldBy (frameHolder b) j pc = heldBy (frameHolder b') j pc := by
  cases pc <;> simp [ofWrapper] at h <;> rfl

theorem Holds.set_tr {s : Launch} {k : Holder} (h : Holds s k) (b : Bool) :
    Holds { s with tr := b } k := by
  have hfresh : Fresh s → Fresh { s with tr := b } := fun h => ⟨h.1, h.2, h.3, h.4, h.5⟩
  have hclosed : Closed s → Closed { s with tr := b } := fun h => ⟨h.1, h.2, h.3⟩
  have htask : ∀ {c d taskH}, TaskIs s c d taskH → TaskIs { s with tr := b } c d taskH :=
    fun h => ⟨h.1, h.2, h.3⟩
  cases k with
  | nobody | argument | invoke | wrapper | task => exact ⟨hfresh h.1, htask h.2⟩
  | post | posted | trampoline => exact ⟨htask h.1, h.2⟩
  | handler => exact ⟨htask h.1, hclosed h.2⟩
  | destroy => exact ⟨htask h.1, h.2.1, hclosed h.2.2⟩
  | unwound | gone | terminated => exact ⟨h.1, h.2.1, hclosed h.2.2⟩

theorem Owned.exec {s s' : Launch} {l r : List (Frame Pc)} {t : Nat} {pc : Pc} {q : Option Pc}
    (h : Owned s (l ++ ⟨t, pc⟩ :: r)) (hstep : Step s pc s' q) :
    Owned s' (l ++ q.toList.map (Frame.mk t) ++ r) := by
  obtain ⟨⟨k, hloc, hholds⟩, hone, hrelies, hstarted, hfinished, hsound⟩ := h
  obtain ⟨hreliesRest, hreliesPc⟩ := forall_split.mp hrelies
  obtain ⟨htr, hlaunched, hwork, hdone⟩ := hstep.tr_frame
  -- when `tr_.h_` changes no other activation is of the wrapper
  have hrest : s'.tr = s.tr ∨ ∀ f ∈ l ++ r, ofWrapper f.pc = false := by
    refine htr.imp_right fun hpc => ?_
    exact rest_of_countP_le_one (Nat.le_trans hone (Bool.toNat_le _)) hpc
  have htotal : ∀ j, total (heldBy (frameHolder s'.tr) j) (l ++ r) =
      total (heldBy (frameHolder s.tr) j) (l ++ r) := by
    intro j
    rcases hrest with hsame | hnone
    · rw [hsame]
    · exact total_congr fun f hf => heldBy_congr (hnone f hf) _ _ _
  have hheld : (∃ h, Located (frameHolder s'.tr) (inState s') h
      (l ++ q.toList.map (Frame.mk t) ++ r) ∧ Holds s' h) ∧ s'.fault = false := by
    cases hk : frameHolder s.tr pc with
    | some j =>
        obtain ⟨rfl, hzero⟩ := hloc.owner hk
        obtain ⟨h, hholds', hmoved, hsound'⟩ :=
          hstep.handed (idle_of_inState fun j => (hzero j).1) hsound hk hholds hreliesPc
        have hnone : ∀ j, total (heldBy (frameHolder s'.tr) j) (l ++ r) = 0 :=
          fun j => (htotal j).trans (hzero j).2
        exact ⟨⟨h, Located.replace hnone hmoved, hholds'⟩, hsound'⟩
    | none =>
        obtain ⟨hs', hq⟩ := hstep.stays hk hreliesPc
        have hstate : inState s' = inState s := by
          rw [hs']
          rfl
        refine ⟨⟨k, hloc.stay hk htotal hstate hq, ?_⟩, ?_⟩
        · rw [hs']
          exact hholds.set_tr _
        · rw [hs']
          exact hsound
  refine ⟨hheld.1, ?_, forall_replace.mpr ⟨?_, ?_⟩, ?_, hdone hfinished, hheld.2⟩
  · rw [countP_split] at hone
    rw [countP_replace, hlaunched]
    refine Nat.le_trans (Nat.add_le_add_left ?_ _) hone
    cases q with
    | none => exact Nat.zero_le _
    | some pc' =>
        cases hpc' : ofWrapper pc' with
        | false => simp [hpc']
        | true => simp [hpc', hstep.of_wrapper rfl hpc']
  · intro f hf b hb
    rcases hrest with hsame | hnone
    · rw [hsame]
      exact hreliesRest f hf b hb
    · have hpc := hnone f hf
      rw [ofWrapper_of_expects hb] at hpc
      simp at hpc
  · exact fun pc' hq b hb => hstep.relies hreliesPc hq hb
  · rw [hwork, hlaunched, hstarted]

theorem Holds.abandonedAgain {s : Launch} {h : Holder} (hholds : Holds s h)
    (habandoned : s.abandoned = true) (hheld : s.unwinds = false) :
    h = .post ∨ h = .posted := by
  have hfresh : ¬Fresh s := fun hfresh => by simp [hfresh.abandoned] at habandoned
  have hclosed : ¬Closed s := fun hclosed => by
    simp [(hclosed.abandoned habandoned).2] at hheld
  cases h with
  | nobody | argument | invoke | wrapper | task => exact absurd hholds.1 hfresh
  | post => exact .inl rfl
  | posted => exact .inr rfl
  | trampoline =>
      obtain ⟨-, -, -, hunwinds, -⟩ := hholds
      simp [(hunwinds habandoned).2] at hheld
  | handler => exact absurd hholds.2 hclosed
  | destroy | unwound | gone | terminated => exact absurd hholds.2.2 hclosed

theorem rest_of_located {s : Launch} {fs : List (Frame Pc)} {h : Holder}
    (hloc : Located (frameHolder s.tr) (inState s) h fs) :
    (h ≠ .nobody → s.launched = true) ∧ (h ≠ .task → s.segment = .none) ∧
      (h ≠ .posted → s.posted = false) ∧ (h ≠ .gone → s.trampolineDestroyed = 0) ∧
      (h ≠ .terminated → s.terminated = false) := by
  refine ⟨fun hne => ?_, fun hne => ?_, fun hne => ?_, hloc.state_eq_zero, fun hne => ?_⟩
  · simpa [inState] using hloc.state_eq_zero hne
  · simpa [inState] using hloc.state_eq_zero hne
  · simpa [inState] using hloc.state_eq_zero hne
  · simpa [inState] using hloc.state_eq_zero hne

theorem Entered.held {s s' : Launch} {q : Option Pc} {fs : List (Frame Pc)} {h : Holder}
    {t : Nat} (henter : Entered s s' q)
    (hloc : Located (frameHolder s.tr) (inState s) h fs) (hholds : Holds s h)
    (hsound : s.fault = false) (hone : fs.countP (fun f => ofWrapper f.pc) ≤ s.launched.toNat) :
    (∃ k, Located (frameHolder s'.tr) (inState s') k (q.toList.map (Frame.mk t) ++ fs) ∧
      Holds s' k) ∧ s'.fault = false := by
  obtain ⟨hlaunched, hsegment, hposted, halive, hrunning⟩ := rest_of_located hloc
  cases henter with
  | launch hnew =>
      have hstate : 0 < inState s .nobody := by simp [inState, hnew]
      obtain ⟨rfl, hframes⟩ := hloc.of_state hstate
      obtain ⟨hfresh, htask⟩ := hholds
      rw [hnew, Bool.toNat_false] at hone
      have hnone : ∀ f ∈ fs, ofWrapper f.pc = false := by
        intro f hf
        simpa using List.countP_eq_zero.mp (Nat.le_zero.mp hone) f hf
      have hframes' : ∀ j, total (heldBy (frameHolder true) j) fs = 0 := by
        intro j
        rw [total_congr fun f hf => heldBy_congr (hnone f hf) true s.tr j]
        exact hframes j
      refine ⟨⟨.argument, Located.enter hframes' (Idle.moved ?_ rfl),
        ⟨hfresh.1, hfresh.2, hfresh.3, hfresh.4, hfresh.5⟩, htask.1, htask.2, htask.3⟩, hsound⟩
      exact ⟨rfl, hsegment nofun, hposted nofun, halive nofun, hrunning nofun⟩
  | resumeTask hsuspended =>
      have hstate : 0 < inState s .task := by simp [inState, hsuspended]
      obtain ⟨rfl, hframes⟩ := hloc.of_state hstate
      obtain ⟨hfresh, htask⟩ := hholds
      rw [touchTask_of_alive htask]
      refine ⟨⟨.task, Located.enter hframes (Idle.moved ?_ rfl),
        ⟨hfresh.1, hfresh.2, hfresh.3, hfresh.4, hfresh.5⟩, htask.1, htask.2, htask.3⟩, hsound⟩
      exact ⟨hlaunched nofun, rfl, hposted nofun, halive nofun, hrunning nofun⟩
  | abandon hsuspended =>
      have hstate : 0 < inState s .task := by simp [inState, hsuspended]
      obtain ⟨rfl, hframes⟩ := hloc.of_state hstate
      obtain ⟨hfresh, htask⟩ := hholds
      rw [touch_of_alive (halive nofun)]
      refine ⟨⟨.post, Located.enter hframes (Idle.moved ?_ rfl), ⟨htask.1, htask.2, htask.3⟩, rfl,
        hfresh.completed, hfresh.handled, hfresh.unwinds, ?_⟩, hsound⟩
      · exact ⟨hlaunched nofun, rfl, hposted nofun, halive nofun, hrunning nofun⟩
      · simp [hfresh.posts, hposted nofun]
  | abandonAgain hheld habandoned =>
      have hnone : s.segment = .none := by
        by_contra hsuspended
        have hstate : 0 < inState s .task := by simp [inState, hsuspended]
        obtain ⟨rfl, hframes⟩ := hloc.of_state hstate
        simp [hholds.1.abandoned] at habandoned
      have hpost := hholds.abandonedAgain habandoned (hheld.resolve_left (not_not.mpr hnone))
      have hsame : { s.touch with segment := .none, abandoned := true } = s := by
        rw [touch_of_alive (halive (by rcases hpost with rfl | rfl <;> nofun)), ← hnone,
          ← habandoned]
      rw [hsame]
      exact ⟨⟨h, hloc, hholds⟩, hsound⟩
  | resumePosted hqueued =>
      have hstate : 0 < inState s .posted := by simp [inState, hqueued]
      obtain ⟨rfl, hframes⟩ := hloc.of_state hstate
      obtain ⟨htask, habandoned, hnone, hhandled, -, hposts⟩ := hholds
      rw [touch_of_alive (halive nofun)]
      refine ⟨⟨.trampoline, Located.enter hframes (Idle.moved ?_ rfl),
        ⟨htask.1, htask.2, htask.3⟩, hhandled, ?_, fun _ => ⟨hnone, rfl⟩, ?_⟩, hsound⟩
      · exact ⟨hlaunched nofun, hsegment nofun, rfl, halive nofun, hrunning nofun⟩
      · simp [hposts, hqueued, habandoned]
      · simp [habandoned]
  | destroyPosted hqueued =>
      have hstate : 0 < inState s .posted := by simp [inState, hqueued]
      obtain ⟨rfl, hframes⟩ := hloc.of_state hstate
      obtain ⟨htask, habandoned, hnone, hhandled, -, hposts⟩ := hholds
      rw [touch_of_alive (halive nofun)]
      refine ⟨⟨.destroy, Located.enter hframes (Idle.moved ?_ rfl), ⟨?_, htask.2, rfl⟩, hnone,
        ?_, ?_, fun _ => ⟨hnone, rfl⟩⟩, hsound⟩
      · exact ⟨hlaunched nofun, hsegment nofun, rfl, halive nofun, hrunning nofun⟩
      · simp [htask.taskH, htask.created]
      · simp [hhandled, hnone]
      · simp [hposts, hqueued, habandoned]

theorem Owned.enter {s s' : Launch} {fs : List (Frame Pc)} {t : Nat} {q : Option Pc}
    (h : Owned s fs) (henter : Entered s s' q) :
    Owned s' (q.toList.map (Frame.mk t) ++ fs) := by
  obtain ⟨⟨k, hloc, hholds⟩, hone, hrelies, hstarted, hfinished, hsound⟩ := h
  obtain ⟨hheld, hsound'⟩ := henter.held (t := t) hloc hholds hsound hone
  cases henter with
  | launch hnew =>
      rw [hnew, Bool.toNat_false] at hone hstarted
      have hnone : ∀ f ∈ fs, ofWrapper f.pc = false := by
        intro f hf
        simpa using List.countP_eq_zero.mp (Nat.le_zero.mp hone) f hf
      refine ⟨hheld, ?_, forall_enter.mpr ⟨fun f hf b hb => ?_, ?_⟩, ?_, hfinished, hsound'⟩
      · rw [countP_enter, Nat.le_zero.mp hone]
        exact Nat.le_refl 1
      · have hpc := hnone f hf
        rw [ofWrapper_of_expects hb] at hpc
        simp at hpc
      · rintro pc ⟨⟩ b hb
        exact Option.some.inj hb
      · simp [hstarted]
  | resumeTask | abandon | resumePosted | destroyPosted =>
      refine ⟨hheld, ?_, forall_enter.mpr ⟨hrelies, ?_⟩, hstarted, hfinished, hsound'⟩
      · rw [countP_enter]
        exact hone
      · rintro pc ⟨⟩ b hb
        simp [expects] at hb
  | abandonAgain => exact ⟨hheld, hone, hrelies, hstarted, hfinished, hsound'⟩

/-- The activation unwinds what a handler threw. -/
def throws : Pc → Bool
  | .guard _ throws | .unwound _ throws => throws
  | _ => false

def inHandler : Pc → Bool
  | .handler _ => true
  | pc => throws pc

/-- A handler that runs or threw has been invoked, and nothing else terminates. -/
structure Threw (s : Launch) (fs : List (Frame Pc)) : Prop where
  invoked : ∀ f ∈ fs, inHandler f.pc = true → s.handled ≠ []
  threw : ∀ f ∈ fs, throws f.pc = true → s.handlerThrew = true
  terminated : s.terminated = true → s.handled ≠ [] ∧ s.handlerThrew = true

theorem Owned.completed {s : Launch} {fs : List (Frame Pc)} (h : Owned s fs) {t : Nat}
    {caller : Caller} (hf : ⟨t, .trampoline caller⟩ ∈ fs) (habandoned : s.abandoned = false) :
    s.completed.isSome = true := by
  obtain ⟨l, r, rfl⟩ := List.append_of_mem hf
  obtain ⟨⟨k, hloc, hholds⟩, -⟩ := h
  obtain ⟨rfl, -⟩ := hloc.owner rfl
  exact hholds.2.2.2.2 habandoned

theorem Step.threw {s s' : Launch} {pc : Pc} {q : Option Pc} (hstep : Step s pc s' q)
    (hcompleted : ∀ caller, pc = .trampoline caller → s.abandoned = false →
      s.completed.isSome = true)
    (hinvoked : inHandler pc = true → s.handled ≠ []) :
    (s.handled ≠ [] → s'.handled ≠ []) ∧
      (s'.handlerThrew = s.handlerThrew ∨ s'.handlerThrew = true) ∧
      (s'.terminated = true → s.terminated = true ∨ throws pc = true) ∧
      ∀ pc', q = some pc' → (inHandler pc' = true → s'.handled ≠ []) ∧
        (throws pc' = true → throws pc = true ∨ s'.handlerThrew = true) := by
  cases hstep with
  | @handle caller habandoned =>
      obtain ⟨o, ho⟩ := Option.isSome_iff_exists.mp (hcompleted caller rfl habandoned)
      rw [invokeImpl, show s.touch.completed = some o from ho]
      refine ⟨fun _ => by simp, .inl rfl, .inl, ?_⟩
      rintro _ ⟨⟩
      exact ⟨fun _ => by simp, nofun⟩
  | handlerThrows =>
      refine ⟨id, .inr rfl, .inl, ?_⟩
      rintro _ ⟨⟩
      exact ⟨fun _ => hinvoked rfl, fun _ => .inr rfl⟩
  | @guard caller throws =>
      refine ⟨id, .inl rfl, .inl, ?_⟩
      rintro _ ⟨⟩
      exact ⟨hinvoked, .inl⟩
  | terminate => exact ⟨id, .inl rfl, fun _ => .inr rfl, nofun⟩
  | @suspend caller | @finish caller =>
      refine ⟨id, .inl rfl, .inl, fun pc' hq => ?_⟩
      cases caller <;> simp [Caller.next] at hq
      subst hq
      exact ⟨nofun, nofun⟩
  | destructorNull | posting => exact ⟨id, .inl rfl, .inl, nofun⟩
  | _ =>
      refine ⟨id, .inl rfl, .inl, ?_⟩
      rintro _ ⟨⟩
      exact ⟨nofun, nofun⟩

theorem Threw.exec {s s' : Launch} {l r : List (Frame Pc)} {t : Nat} {pc : Pc} {q : Option Pc}
    (h : Threw s (l ++ ⟨t, pc⟩ :: r)) (howned : Owned s (l ++ ⟨t, pc⟩ :: r))
    (hstep : Step s pc s' q) : Threw s' (l ++ q.toList.map (Frame.mk t) ++ r) := by
  obtain ⟨hinvoked, hinvokedPc⟩ := forall_split.mp h.invoked
  obtain ⟨hthrew, hthrewPc⟩ := forall_split.mp h.threw
  have hcompleted (caller : Caller) (hpc : pc = .trampoline caller) :
      s.abandoned = false → s.completed.isSome = true :=
    howned.completed (mem_split.mpr (.inr (congrArg (Frame.mk t) hpc.symm)))
  obtain ⟨hhandled, hkept, hterminated, hnext⟩ := hstep.threw hcompleted hinvokedPc
  have hkeeps : s.handlerThrew = true → s'.handlerThrew = true := fun hs =>
    hkept.elim (fun heq => heq.trans hs) id
  constructor
  · exact forall_replace.mpr ⟨fun f hf hpc => hhandled (hinvoked f hf hpc),
      fun pc' hq hpc' => (hnext pc' hq).1 hpc'⟩
  · refine forall_replace.mpr ⟨fun f hf hpc => hkeeps (hthrew f hf hpc), fun pc' hq hpc' => ?_⟩
    rcases (hnext pc' hq).2 hpc' with hpc | hs
    · exact hkeeps (hthrewPc hpc)
    · exact hs
  · intro hs
    rcases hterminated hs with hs | hpc
    · exact (h.terminated hs).imp hhandled hkeeps
    · refine ⟨hhandled (hinvokedPc ?_), hkeeps (hthrewPc hpc)⟩
      cases pc <;> first | exact hpc | rfl

theorem Threw.enter {s s' : Launch} {fs : List (Frame Pc)} {t : Nat} {q : Option Pc}
    (h : Threw s fs) (henter : Entered s s' q) :
    Threw s' (q.toList.map (Frame.mk t) ++ fs) := by
  obtain ⟨hinvoked, hthrew, hterminated⟩ := h
  cases henter with
  | abandonAgain => exact ⟨hinvoked, hthrew, hterminated⟩
  | _ =>
      refine ⟨forall_enter.mpr ⟨hinvoked, ?_⟩, forall_enter.mpr ⟨hthrew, ?_⟩, hterminated⟩
      · rintro _ ⟨⟩
        exact nofun
      · rintro _ ⟨⟩
        exact nofun

theorem owned_reachable {s : State Launch Pc} (h : Reachable s) :
    Owned s.shared s.frames ∧ Threw s.shared s.frames := by
  have hpreserves : machine.Preserves (fun _ _ => true)
      (fun s fs => Owned s fs ∧ Threw s fs) := by
    apply Machine.Preserves.ofSteps
    · intro s l t pc r c s' q hI _ _ _ hexec
      have hstep := exec_step (Option.ite_none_left_eq_some.mp hexec).2
      exact ⟨hI.1.exec hstep, hI.2.exec hI.1 hstep⟩
    · intro s fs t a s' q hI _ _ _ henter
      have hentered := enter_entered (Option.ite_none_left_eq_some.mp henter).2
      exact ⟨hI.1.enter hentered, hI.2.enter hentered⟩
  refine hpreserves.reachable (by rintro _ rfl; rfl) ?_ h
  rintro _ rfl
  refine ⟨⟨⟨.nobody, fun j => ?_, ⟨rfl, rfl, rfl, rfl, rfl⟩, rfl, rfl, rfl⟩, Nat.le_refl _,
    by simp, rfl, rfl, rfl⟩, by simp, by simp, nofun⟩
  cases j <;> rfl

/-- Whoever holds the trampoline, nothing is handled, posted or destroyed twice, and
an abandoned task has not completed. -/
theorem Holds.bounds {s : Launch} {h : Holder} (hholds : Holds s h) :
    (s.handled = [] ∨ s.handled = s.completed.toList) ∧
      (s.abandoned = true → s.completed = none) ∧ s.taskCreated ≤ 1 ∧
      s.taskDestroyed ≤ s.taskCreated ∧ s.posts ≤ 1 := by
  have hclosed : Closed s → (s.handled = [] ∨ s.handled = s.completed.toList) ∧
      (s.abandoned = true → s.completed = none) ∧ s.posts ≤ 1 := fun hclosed =>
    ⟨.inr hclosed.handled, fun h => (hclosed.abandoned h).1, hclosed.posts ▸ Bool.toNat_le _⟩
  have htask : ∀ {created : Nat} {b : Bool}, TaskIs s created 0 b → created ≤ 1 →
      s.taskCreated ≤ 1 ∧ s.taskDestroyed ≤ s.taskCreated := by
    intro created b htask hle
    have hcreated := htask.created
    have hdestroyed := htask.destroyed
    omega
  cases h with
  | nobody | argument | invoke | wrapper | task =>
      obtain ⟨hfresh, his⟩ := hholds
      obtain ⟨hle, hdestroyed⟩ := htask his (by simp [Bool.toNat_le])
      exact ⟨.inl hfresh.handled, fun _ => hfresh.completed, hle, hdestroyed,
        hfresh.posts ▸ Nat.zero_le 1⟩
  | post | posted =>
      obtain ⟨his, -, hnone, hhandled, -, hposts⟩ := hholds
      obtain ⟨hle, hdestroyed⟩ := htask his (Nat.le_refl 1)
      exact ⟨.inl hhandled, fun _ => hnone, hle, hdestroyed, hposts ▸ Bool.toNat_le _⟩
  | trampoline =>
      obtain ⟨his, hhandled, hposts, hnone, -⟩ := hholds
      obtain ⟨hle, hdestroyed⟩ := htask his (Nat.le_refl 1)
      exact ⟨.inl hhandled, fun h => (hnone h).1, hle, hdestroyed, hposts ▸ Bool.toNat_le _⟩
  | handler =>
      obtain ⟨hle, hdestroyed⟩ := htask hholds.1 (Nat.le_refl 1)
      obtain ⟨hhandled, hnone, hposts⟩ := hclosed hholds.2
      exact ⟨hhandled, hnone, hle, hdestroyed, hposts⟩
  | destroy =>
      obtain ⟨hle, hdestroyed⟩ := htask hholds.1 (Bool.toNat_le _)
      obtain ⟨hhandled, hnone, hposts⟩ := hclosed hholds.2.2
      exact ⟨hhandled, hnone, hle, hdestroyed, hposts⟩
  | unwound | gone | terminated =>
      obtain ⟨hdestroyed, hle, hc⟩ := hholds
      obtain ⟨hhandled, hnone, hposts⟩ := hclosed hc
      exact ⟨hhandled, hnone, hle, Nat.le_of_eq hdestroyed, hposts⟩

theorem exec_enabled (s : Launch) (pc : Pc) : ∃ c, (exec s pc c).isSome = true := by
  cases pc with
  | dispatch => exact ⟨.handle, rfl⟩
  | task => exact ⟨.suspend, rfl⟩
  | resume | destructor | trampoline | unwound | destroy =>
      refine ⟨.proceed, ?_⟩
      simp only [exec]
      split <;> rfl
  | _ => exact ⟨.proceed, rfl⟩

theorem reachable_of_runEvents (es : List (Event Choice Entry)) {s : State Launch Pc}
    (h : machine.runEvents ⟨newLaunch, []⟩ es = some s) : Reachable s := by
  have hinit : Reachable ⟨newLaunch, []⟩ := .init rfl
  exact hinit.runWhen es h

end Capy.RunAsync
