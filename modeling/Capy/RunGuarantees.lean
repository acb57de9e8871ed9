import Capy.Run
import Capy.Token

namespace Capy.Run

open Capy.CallStack
open Capy.Token

/-- Who is to have the awaitable destroyed in the end, or is on the way to it.
`start` is `await_suspend` from the making of the trampoline on, `inner` the party
that has the inner segment, `closing` the destructor after its check, and `refused`
the end in the `noexcept` of the parent. -/
inductive Holder where
  | nobody
  | awaitSuspend
  | start
  | rethrow
  | inner
  | postSelf
  | posted
  | finalSuspend
  | postParent
  | destroy
  | unwind (dtor : Bool)
  | unwound (dtor : Bool)
  | queued
  | given
  | resume
  | destructor
  | closing
  | gone
  | terminated
  | refused
  deriving DecidableEq

def frameHolder : Pc → Option Holder
  | .awaitSuspend => some .awaitSuspend
  | .post | .caught => some .start
  | .rethrow => some .rethrow
  | .task => some .inner
  | .postSelf => some .postSelf
  | .finalSuspend => some .finalSuspend
  | .postParent => some .postParent
  | .destroy => some .destroy
  | .unwind dtor => some (.unwind dtor)
  | .unwound dtor => some (.unwound dtor)
  | .awaitResume => some .resume
  | .destructor => some .destructor
  | .innerGone => some .closing
  | _ => none

/-- The holders that are not activations. -/
def inState (s : Await) : Holder → Nat
  | .nobody => (!s.started).toNat
  | .inner => if s.segment = .none then 0 else 1
  | .posted => s.posted.toNat
  | .queued => s.parentQueued.toNat
  | .given => s.parentGiven.toNat
  | .gone => s.awaitableDestroyed
  | .terminated => s.terminated.toNat
  | .refused => s.refused.toNat
  | _ => 0

/-- The activation destroys the trampoline's frame before it returns. -/
def frees : Pc → Nat
  | .unwind true | .unwound true | .abandoning true | .destroyed => 1
  | _ => 0

/-- The trampoline's frame is destroyed, or the awaitable's handle or an
activation will have it destroyed. -/
def Freed (s : Await) (n : Nat) : Prop :=
  s.trampolineCreated =
    s.trampolineDestroyed + (if s.awaitableDestroyed = 0 then s.trH.toNat else 0) + n

/-- The operation is in progress, with the given `tr_.h_`, `owner_` and `inner_`. -/
structure Live (s : Await) (trH owner inner : Bool) : Prop where
  trH : s.trH = trH
  owner : s.owner = owner
  inner : s.inner = inner
  innerDestroyed : s.innerDestroyed = (!s.inner).toNat
  innerCont : s.innerCont = true
  holdsWork : s.holdsWork = true
  threw : s.threw = false
  created : s.trampolineCreated = 1
  started : s.workStarted = 1
  finished : s.workFinished = 0

/-- What became of the inner task, and of the parent. -/
structure Fate (s : Await) (completed abandoned unwinds : Bool)
    (posts parentPosts parentAbandons : Nat) : Prop where
  completed : s.completed = completed
  abandoned : s.abandoned = abandoned
  unwinds : s.unwinds = unwinds
  posts : s.posts = posts
  parentPosts : s.parentPosts = parentPosts
  parentAbandons : s.parentAbandons = parentAbandons

/-- The post of the task threw, and the parent has got as many exceptions. -/
structure Threw (s : Await) (raised : Nat) : Prop where
  threw : s.threw = true
  innerCont : s.innerCont = false
  innerRan : s.innerRan = false
  raised : s.parentRaised = raised
  fate : Fate s false false false 0 0 0

/-- The three ways in which the operation ends: the post of the task threw, the
parent was posted, or the parent was abandoned. -/
inductive Ended (s : Await) : Prop where
  | threw : s.noexceptParent = false → Threw s 1 → Ended s
  | delivered : s.threw = false → Fate s true false false 0 1 0 → Ended s
  | unwound : s.threw = false → Fate s false true true 1 0 1 → Ended s

/-- Nothing is lent any more. -/
def Left (s : Await) : Prop :=
  s.owner = false ∧ s.innerDestroyed + s.inner.toNat = 1 ∧ s.trampolineCreated = 1 ∧
    s.workStarted = 1 ∧ s.workFinished + s.holdsWork.toNat = 1 ∧
    (s.abandoned = true → s.innerDestroyed = 1)

/-- What is so while `h` holds the operation. -/
def Holds (s : Await) : Holder → Prop
  | .nobody | .awaitSuspend =>
      (s.trH = false ∧ s.inner = true ∧ s.innerDestroyed = 0 ∧ s.innerRan = false ∧
        s.threw = false ∧ s.trampolineCreated = 0 ∧ s.workStarted = 0 ∧ s.workFinished = 0) ∧
        Fate s false false false 0 0 0
  | .start => Live s true true true ∧ s.innerRan = false ∧ Fate s false false false 0 0 0
  | .inner => Live s true true true ∧ Fate s false false false 0 0 0
  | .postSelf => Live s true true true ∧ Fate s false true false 0 0 0
  | .posted => Live s true true true ∧ Fate s false true false 1 0 0
  | .finalSuspend =>
      Live s true true true ∧
        (Fate s true false false 0 0 0 ∨ Fate s false true true 1 0 0)
  | .destroy => Live s true true true ∧ Fate s false true true 1 0 0
  | .postParent => Live s true false true ∧ Fate s true false false 0 0 0
  | .unwind dtor => Live s (!dtor) true true ∧ Fate s false true true 1 0 0
  | .unwound dtor => Live s (!dtor) true false ∧ Fate s false true true 1 0 0
  | .queued | .resume => Live s true false true ∧ Fate s true false false 0 1 0
  | .given => (∃ trH, Live s trH false false) ∧ Fate s false true true 1 0 1
  | .rethrow => Left s ∧ Threw s 0
  | .refused => Left s ∧ s.noexceptParent = true ∧ Threw s 0
  | .destructor => Left s ∧ Ended s
  | .closing | .gone =>
      (s.owner = false ∧ s.innerDestroyed = 1 ∧ s.trampolineCreated = 1 ∧ s.workStarted = 1 ∧
        s.workFinished = 1) ∧ Ended s
  | .terminated => False

/-- What every run keeps. -/
structure Owned (s : Await) (fs : List (Frame Pc)) : Prop where
  held : ∃ h, Located frameHolder (inState s) h fs ∧ Holds s h
  freed : Freed s (total frees fs)
  sound : s.fault = false
  raised : s.threw = false → s.parentRaised = 0 ∧ s.refused = false

/-- Only an activation holds the operation. -/
structure Idle (s : Await) : Prop where
  started : s.started = true
  segment : s.segment = .none
  posted : s.posted = false
  parentQueued : s.parentQueued = false
  parentGiven : s.parentGiven = false
  awaitableDestroyed : s.awaitableDestroyed = 0
  terminated : s.terminated = false
  refused : s.refused = false

theorem idle_of_inState {s : Await} (h : ∀ j, inState s j = 0) : Idle s := by
  constructor
  · simpa [inState] using h .nobody
  · simpa [inState] using h .inner
  · simpa [inState] using h .posted
  · simpa [inState] using h .queued
  · simpa [inState] using h .given
  · exact h .gone
  · simpa [inState] using h .terminated
  · simpa [inState] using h .refused

theorem Idle.inState_eq_zero {s : Await} (h : Idle s) (j : Holder) : inState s j = 0 := by
  cases j <;> simp [inState, h.started, h.segment, h.posted, h.parentQueued, h.parentGiven,
    h.awaitableDestroyed, h.terminated, h.refused]

theorem Idle.moved {s : Await} (h : Idle s) {pc : Pc} {k : Holder}
    (hk : frameHolder pc = some k) : Moved frameHolder (inState s) (some pc) k :=
  moved_of_holder h.inState_eq_zero hk

theorem touch_of_alive {s : Await} (hcreated : s.trampolineCreated = 1)
    (hdestroyed : s.trampolineDestroyed = 0) : s.touch = s := by
  cases s
  simp_all [Await.touch]

theorem touchAwaitable_of_alive {s : Await} (h : s.awaitableDestroyed = 0) :
    s.touchAwaitable = s := by
  cases s
  simp_all [Await.touchAwaitable]

theorem touchInner_of_alive {s : Await} (h : s.innerDestroyed = 0) : s.touchInner = s := by
  cases s
  simp_all [Await.touchInner]

theorem Live.inner_alive {s : Await} {trH owner : Bool} (h : Live s trH owner true) :
    s.innerDestroyed = 0 := by
  rw [h.innerDestroyed, h.inner]
  rfl

/-- The trampoline's frame is alive while the awaitable has its handle or an
activation is to free it. -/
theorem Freed.alive {s : Await} {n : Nat} (h : Freed s n) (hawaitable : s.awaitableDestroyed = 0)
    (hcreated : s.trampolineCreated = 1) (hheld : s.trH = true ∨ 0 < n) :
    s.trampolineDestroyed = 0 := by
  unfold Freed at h
  rw [if_pos hawaitable] at h
  rcases hheld with htrH | hpos
  · rw [htrH, Bool.toNat_true] at h
    omega
  · omega

theorem Ended.frame {s : Await} (h : Ended s) (work inner trampoline awaitable : Nat)
    (owner : Bool) :
    Ended { s with
      workFinished := work
      innerDestroyed := inner
      trampolineDestroyed := trampoline
      awaitableDestroyed := awaitable
      owner := owner } := by
  cases h with
  | threw h1 h2 =>
      obtain ⟨h2, h3, h4, h5, h6⟩ := h2
      exact .threw h1 ⟨h2, h3, h4, h5, h6.1, h6.2, h6.3, h6.4, h6.5, h6.6⟩
  | delivered h1 h2 => exact .delivered h1 ⟨h2.1, h2.2, h2.3, h2.4, h2.5, h2.6⟩
  | unwound h1 h2 => exact .unwound h1 ⟨h2.1, h2.2, h2.3, h2.4, h2.5, h2.6⟩

/-- What an activation that holds the operation hands on. -/
def Handed (s : Await) (q : Option Pc) (n : Nat) : Prop :=
  ∃ h, Holds s h ∧ Moved frameHolder (inState s) q h ∧ Freed s (n + q.elim 0 frees) ∧
    s.fault = false

section Handed

variable {s s' : Await} {q : Option Pc} {n : Nat} (hidle : Idle s) (hsound : s.fault = false)

include hidle hsound

theorem handed_awaitSuspend (hstep : Step s .awaitSuspend s' q) (hholds : Holds s .awaitSuspend)
    (hfreed : Freed s (n + frees .awaitSuspend)) : Handed s' q n := by
  cases hstep
  obtain ⟨⟨htrH, hinner, hdestroyed, hran, hthrew, hcreated, hstarted, hfinished⟩, hfate⟩ := hholds
  rw [touchAwaitable_of_alive hidle.awaitableDestroyed, touchInner_of_alive hdestroyed]
  refine ⟨.start, ⟨⟨rfl, rfl, hinner, ?_, rfl, rfl, hthrew, ?_, ?_, hfinished⟩, hran,
    hfate.1, hfate.2, hfate.3, hfate.4, hfate.5, hfate.6⟩, Idle.moved ?_ rfl, ?_, hsound⟩
  · simp [hdestroyed, hinner]
  · simp [hcreated]
  · simp [hstarted]
  · exact ⟨hidle.1, hidle.2, hidle.3, hidle.4, hidle.5, hidle.6, hidle.7, hidle.8⟩
  · simp only [Freed, htrH, hidle.awaitableDestroyed, if_true, Bool.toNat_false, Bool.toNat_true,
      Option.elim, frees] at hfreed ⊢
    omega

theorem handed_post (hstep : Step s .post s' q) (hholds : Holds s .start)
    (hfreed : Freed s (n + frees .post)) : Handed s' q n := by
  obtain ⟨hlive, hran, hfate⟩ := hholds
  cases hstep with
  | postThrows =>
      rw [touchAwaitable_of_alive hidle.awaitableDestroyed]
      exact ⟨.start, ⟨hlive, hran, hfate⟩, hidle.moved rfl, hfreed, hsound⟩
  | post =>
      rw [touchAwaitable_of_alive hidle.awaitableDestroyed]
      refine ⟨.inner, ⟨⟨hlive.1, hlive.2, hlive.3, hlive.4, hlive.5, hlive.6, hlive.7, hlive.8,
        hlive.9, hlive.10⟩, hfate.1, hfate.2, hfate.3, hfate.4, hfate.5, hfate.6⟩,
        moved_of_state rfl (fun j hj => ?_) fun j => rfl, hfreed, hsound⟩
      cases j <;> simp [inState, hidle.1, hidle.3, hidle.4, hidle.5, hidle.6, hidle.7, hidle.8]
        at hj ⊢

theorem handed_caught (hstep : Step s .caught s' q) (hholds : Holds s .start)
    (hfreed : Freed s (n + frees .caught))
    (hraised : s.threw = false → s.parentRaised = 0 ∧ s.refused = false) : Handed s' q n := by
  obtain ⟨hlive, hran, hfate⟩ := hholds
  cases hstep
  have halive := hfreed.alive hidle.awaitableDestroyed hlive.created (.inl hlive.trH)
  rw [touchAwaitable_of_alive hidle.awaitableDestroyed, touchInner_of_alive hlive.inner_alive,
    touch_of_alive hlive.created halive]
  refine ⟨.rethrow, ⟨⟨rfl, ?_, hlive.created, hlive.started, ?_, ?_⟩, rfl, rfl, hran,
    (hraised hlive.threw).1, hfate.1, hfate.2, hfate.3, hfate.4, hfate.5, hfate.6⟩,
    Idle.moved ?_ rfl, ?_, hsound⟩
  · simp [hlive.inner_alive, hlive.inner]
  · simp [hlive.finished]
  · simp [hfate.abandoned]
  · exact ⟨hidle.1, hidle.2, hidle.3, hidle.4, hidle.5, hidle.6, hidle.7, hidle.8⟩
  · simp only [Freed, hlive.trH, hidle.awaitableDestroyed, if_true, Bool.toNat_false,
      Bool.toNat_true, Option.elim, frees] at hfreed ⊢
    omega

theorem handed_rethrow (hstep : Step s .rethrow s' q) (hholds : Holds s .rethrow)
    (hfreed : Freed s (n + frees .rethrow)) : Handed s' q n := by
  obtain ⟨hleft, hthrew, hcont, hran, hraised, hfate⟩ := hholds
  cases hstep with
  | refuse hnoexcept =>
      refine ⟨.refused, ⟨hleft, hnoexcept, hthrew, hcont, hran, hraised, hfate.1, hfate.2, hfate.3,
        hfate.4, hfate.5, hfate.6⟩, moved_of_state rfl (fun j hj => ?_) fun j => rfl, hfreed,
        hsound⟩
      cases j <;> simp [inState, hidle.1, hidle.2, hidle.3, hidle.4, hidle.5, hidle.6, hidle.7]
        at hj ⊢
  | raise hlet =>
      refine ⟨.destructor, ⟨hleft, .threw hlet ⟨hthrew, hcont, hran, ?_, hfate.1, hfate.2, hfate.3,
        hfate.4, hfate.5, hfate.6⟩⟩, Idle.moved ?_ rfl, hfreed, hsound⟩
      · simp [hraised]
      · exact ⟨hidle.1, hidle.2, hidle.3, hidle.4, hidle.5, hidle.6, hidle.7, hidle.8⟩

theorem handed_task (hstep : Step s .task s' q) (hholds : Holds s .inner)
    (hfreed : Freed s (n + frees .task)) : Handed s' q n := by
  obtain ⟨hlive, hfate⟩ := hholds
  have hlive' : ∀ g c, Live { s with segment := g, completed := c } true true true := fun _ _ =>
    ⟨hlive.1, hlive.2, hlive.3, hlive.4, hlive.5, hlive.6, hlive.7, hlive.8, hlive.9, hlive.10⟩
  cases hstep with
  | suspend =>
      refine ⟨.inner, ⟨hlive' _ _, hfate.1, hfate.2, hfate.3, hfate.4, hfate.5, hfate.6⟩,
        moved_of_state rfl (fun j hj => ?_) fun j => rfl, hfreed, hsound⟩
      cases j <;> simp [inState, hidle.1, hidle.3, hidle.4, hidle.5, hidle.6, hidle.7, hidle.8]
        at hj ⊢
  | complete =>
      have hq : (if s.innerCont then some Pc.finalSuspend else none) = some .finalSuspend :=
        if_pos hlive.innerCont
      rw [hq]
      refine ⟨.finalSuspend, ⟨hlive' _ _, .inl ⟨rfl, hfate.2, hfate.3, hfate.4, hfate.5, hfate.6⟩⟩,
        Idle.moved ?_ rfl, hfreed, hsound⟩
      exact ⟨hidle.1, hidle.2, hidle.3, hidle.4, hidle.5, hidle.6, hidle.7, hidle.8⟩

theorem handed_postSelf (hstep : Step s .postSelf s' q) (hholds : Holds s .postSelf)
    (hfreed : Freed s (n + frees .postSelf)) : Handed s' q n := by
  obtain ⟨hlive, hfate⟩ := hholds
  cases hstep
  have halive := hfreed.alive hidle.awaitableDestroyed hlive.created (.inl hlive.trH)
  rw [touch_of_alive hlive.created halive, touchAwaitable_of_alive hidle.awaitableDestroyed]
  refine ⟨.posted, ⟨⟨hlive.1, hlive.2, hlive.3, hlive.4, hlive.5, hlive.6, hlive.7, hlive.8,
    hlive.9, hlive.10⟩, hfate.1, hfate.2, hfate.3, ?_, hfate.5, hfate.6⟩,
    moved_of_state rfl (fun j hj => ?_) fun j => rfl, hfreed, hsound⟩
  · simp [hfate.posts]
  · cases j <;> simp [inState, hidle.1, hidle.2, hidle.4, hidle.5, hidle.6, hidle.7, hidle.8]
      at hj ⊢

theorem handed_finalSuspend (hstep : Step s .finalSuspend s' q) (hholds : Holds s .finalSuspend)
    (hfreed : Freed s (n + frees .finalSuspend)) : Handed s' q n := by
  obtain ⟨hlive, hfate⟩ := hholds
  have halive := hfreed.alive hidle.awaitableDestroyed hlive.created (.inl hlive.trH)
  cases hstep with
  | abandoned habandoned =>
      rw [touch_of_alive hlive.created halive]
      rcases hfate with hfate | hfate
      · simp [hfate.abandoned] at habandoned
      · exact ⟨.unwind false, ⟨hlive, hfate⟩, hidle.moved rfl, hfreed, hsound⟩
  | deliver hlet =>
      rw [touch_of_alive hlive.created halive]
      rcases hfate with hfate | hfate
      · refine ⟨.postParent, ⟨⟨hlive.1, rfl, hlive.3, hlive.4, hlive.5, hlive.6, hlive.7,
          hlive.8, hlive.9, hlive.10⟩, hfate.1, hfate.2, hfate.3, hfate.4, hfate.5, hfate.6⟩,
          Idle.moved ?_ rfl, hfreed, hsound⟩
        exact ⟨hidle.1, hidle.2, hidle.3, hidle.4, hidle.5, hidle.6, hidle.7, hidle.8⟩
      · simp [hfate.abandoned] at hlet

theorem handed_postParent (hstep : Step s .postParent s' q) (hholds : Holds s .postParent)
    (hfreed : Freed s (n + frees .postParent)) : Handed s' q n := by
  obtain ⟨hlive, hfate⟩ := hholds
  cases hstep
  have halive := hfreed.alive hidle.awaitableDestroyed hlive.created (.inl hlive.trH)
  rw [touch_of_alive hlive.created halive]
  refine ⟨.queued, ⟨⟨hlive.1, hlive.2, hlive.3, hlive.4, hlive.5, hlive.6, hlive.7, hlive.8,
    hlive.9, hlive.10⟩, hfate.1, hfate.2, hfate.3, hfate.4, ?_, hfate.6⟩,
    moved_of_state rfl (fun j hj => ?_) fun j => rfl, hfreed, hsound⟩
  · simp [hfate.parentPosts]
  · cases j <;> simp [inState, hidle.1, hidle.2, hidle.3, hidle.5, hidle.6, hidle.7, hidle.8]
      at hj ⊢

theorem handed_destroy (hstep : Step s .destroy s' q) (hholds : Holds s .destroy)
    (hfreed : Freed s (n + frees .destroy)) : Handed s' q n := by
  obtain ⟨hlive, hfate⟩ := hholds
  have halive := hfreed.alive hidle.awaitableDestroyed hlive.created (.inl hlive.trH)
  cases hstep with
  | destroyLinked =>
      rw [touch_of_alive hlive.created halive, touchAwaitable_of_alive hidle.awaitableDestroyed]
      refine ⟨.unwind true, ⟨⟨rfl, hlive.2, hlive.3, hlive.4, hlive.5, hlive.6, hlive.7, hlive.8,
        hlive.9, hlive.10⟩, hfate.1, hfate.2, hfate.3, hfate.4, hfate.5, hfate.6⟩,
        Idle.moved ?_ rfl, ?_, hsound⟩
      · exact ⟨hidle.1, hidle.2, hidle.3, hidle.4, hidle.5, hidle.6, hidle.7, hidle.8⟩
      · simp only [Freed, hlive.trH, hidle.awaitableDestroyed, if_true, Bool.toNat_false,
          Bool.toNat_true, Option.elim, frees] at hfreed ⊢
        omega
  | destroyUnlinked hnull => simp [hlive.owner] at hnull

theorem handed_unwind {dtor : Bool} (hstep : Step s (.unwind dtor) s' q)
    (hholds : Holds s (.unwind dtor)) (hfreed : Freed s (n + frees (.unwind dtor))) :
    Handed s' q n := by
  obtain ⟨hlive, hfate⟩ := hholds
  cases hstep
  have hheld : s.trH = true ∨ 0 < n + frees (.unwind dtor) := by
    cases dtor
    · exact .inl hlive.trH
    · exact .inr (Nat.succ_pos n)
  have halive := hfreed.alive hidle.awaitableDestroyed hlive.created hheld
  rw [touch_of_alive hlive.created halive, touchAwaitable_of_alive hidle.awaitableDestroyed]
  refine ⟨.unwound dtor, ⟨⟨hlive.1, hlive.2, rfl, ?_, hlive.5, hlive.6, hlive.7, hlive.8, hlive.9,
    hlive.10⟩, hfate.1, hfate.2, hfate.3, hfate.4, hfate.5, hfate.6⟩, Idle.moved ?_ rfl, ?_, ?_⟩
  · simp [hlive.inner_alive]
  · exact ⟨hidle.1, hidle.2, hidle.3, hidle.4, hidle.5, hidle.6, hidle.7, hidle.8⟩
  · cases dtor <;> exact hfreed
  · simp [hsound, hlive.inner]

theorem handed_unwound {dtor : Bool} (hstep : Step s (.unwound dtor) s' q)
    (hholds : Holds s (.unwound dtor)) (hfreed : Freed s (n + frees (.unwound dtor))) :
    Handed s' q n := by
  obtain ⟨hlive, hfate⟩ := hholds
  cases hstep
  have hheld : s.trH = true ∨ 0 < n + frees (.unwound dtor) := by
    cases dtor
    · exact .inl hlive.trH
    · exact .inr (Nat.succ_pos n)
  have halive := hfreed.alive hidle.awaitableDestroyed hlive.created hheld
  rw [touch_of_alive hlive.created halive]
  refine ⟨.given, ⟨⟨_, hlive.1, rfl, hlive.3, hlive.4, hlive.5, hlive.6, hlive.7, hlive.8,
    hlive.9, hlive.10⟩, hfate.1, hfate.2, hfate.3, hfate.4, hfate.5, ?_⟩,
    moved_of_state rfl (fun j hj => ?_) fun j => rfl, ?_, hsound⟩
  · simp [hfate.parentAbandons]
  · cases j <;> simp [inState, hidle.1, hidle.2, hidle.3, hidle.4, hidle.6, hidle.7, hidle.8]
      at hj ⊢
  · cases dtor <;> exact hfreed

theorem handed_awaitResume (hstep : Step s .awaitResume s' q) (hholds : Holds s .resume)
    (hfreed : Freed s (n + frees .awaitResume)) : Handed s' q n := by
  obtain ⟨hlive, hfate⟩ := hholds
  cases hstep
  rw [touchAwaitable_of_alive hidle.awaitableDestroyed, touchInner_of_alive hlive.inner_alive]
  refine ⟨.destructor, ⟨⟨hlive.owner, ?_, hlive.created, hlive.started, ?_, ?_⟩,
    .delivered hlive.threw ⟨hfate.1, hfate.2, hfate.3, hfate.4, hfate.5, hfate.6⟩⟩,
    Idle.moved ?_ rfl, hfreed, hsound⟩
  · simp [hlive.inner_alive, hlive.inner]
  · simp [hlive.finished, hlive.holdsWork]
  · simp [hfate.abandoned]
  · exact ⟨hidle.1, hidle.2, hidle.3, hidle.4, hidle.5, hidle.6, hidle.7, hidle.8⟩

theorem handed_destructor (hstep : Step s .destructor s' q) (hholds : Holds s .destructor)
    (hfreed : Freed s (n + frees .destructor)) : Handed s' q n := by
  obtain ⟨⟨howner, hinner, hcreated, hstarted, hfinished, -⟩, hended⟩ := hholds
  cases hstep with
  | terminate _ hlinked => simp [howner] at hlinked
  | destructor =>
      have htouch : (if s.trH then s.touchAwaitable.touch else s.touchAwaitable) = s := by
        rw [touchAwaitable_of_alive hidle.awaitableDestroyed]
        split
        · rename_i htrH
          exact touch_of_alive hcreated
            (hfreed.alive hidle.awaitableDestroyed hcreated (.inl htrH))
        · rfl
      rw [htouch]
      refine ⟨.closing, ⟨⟨howner, hinner, hcreated, hstarted, hfinished⟩,
        hended.frame _ _ _ _ _⟩, Idle.moved ?_ rfl, hfreed, hsound⟩
      exact ⟨hidle.1, hidle.2, hidle.3, hidle.4, hidle.5, hidle.6, hidle.7, hidle.8⟩

theorem handed_innerGone (hstep : Step s .innerGone s' q) (hholds : Holds s .closing)
    (hfreed : Freed s (n + frees .innerGone)) : Handed s' q n := by
  obtain ⟨⟨howner, hinner, hcreated, hstarted, hfinished⟩, hended⟩ := hholds
  have hawaitable := hidle.awaitableDestroyed
  cases hstep with
  | endLinked htrH =>
      rw [touchAwaitable_of_alive hawaitable,
        touch_of_alive hcreated (hfreed.alive hawaitable hcreated (.inl htrH))]
      refine ⟨.gone, ⟨⟨rfl, hinner, hcreated, hstarted, hfinished⟩, hended.frame _ _ _ _ _⟩,
        moved_of_state ?_ (fun j hj => ?_) fun j => rfl, ?_, hsound⟩
      · simp [inState, hawaitable]
      · cases j <;> simp [inState, hidle.1, hidle.2, hidle.3, hidle.4, hidle.5, hidle.7, hidle.8]
          at hj ⊢
      · simp only [Freed, htrH, hawaitable, if_true, Bool.toNat_true, Option.elim, frees]
          at hfreed ⊢
        simp only [Nat.zero_add, Nat.one_ne_zero, if_false]
        omega
  | endUnlinked htrH =>
      rw [touchAwaitable_of_alive hawaitable]
      refine ⟨.gone, ⟨⟨howner, hinner, hcreated, hstarted, hfinished⟩, hended.frame _ _ _ _ _⟩,
        moved_of_state ?_ (fun j hj => ?_) fun j => rfl, ?_, hsound⟩
      · simp [inState, hawaitable]
      · cases j <;> simp [inState, hidle.1, hidle.2, hidle.3, hidle.4, hidle.5, hidle.7, hidle.8]
          at hj ⊢
      · simp only [Freed, htrH, hawaitable, if_true, Bool.toNat_false, Option.elim, frees]
          at hfreed ⊢
        simp only [Nat.zero_add, Nat.one_ne_zero, if_false]
        omega

theorem Step.handed {pc : Pc} {k : Holder} (hstep : Step s pc s' q) (hk : frameHolder pc = some k)
    (hholds : Holds s k) (hfreed : Freed s (n + frees pc))
    (hraised : s.threw = false → s.parentRaised = 0 ∧ s.refused = false) : Handed s' q n := by
  cases pc with
  | awaitSuspend =>
      obtain rfl := Option.some.inj hk
      exact handed_awaitSuspend hidle hsound hstep hholds hfreed
  | post =>
      obtain rfl := Option.some.inj hk
      exact handed_post hidle hsound hstep hholds hfreed
  | caught =>
      obtain rfl := Option.some.inj hk
      exact handed_caught hidle hsound hstep hholds hfreed hraised
  | rethrow =>
      obtain rfl := Option.some.inj hk
      exact handed_rethrow hidle hsound hstep hholds hfreed
  | task =>
      obtain rfl := Option.some.inj hk
      exact handed_task hidle hsound hstep hholds hfreed
  | postSelf =>
      obtain rfl := Option.some.inj hk
      exact handed_postSelf hidle hsound hstep hholds hfreed
  | finalSuspend =>
      obtain rfl := Option.some.inj hk
      exact handed_finalSuspend hidle hsound hstep hholds hfreed
  | postParent =>
      obtain rfl := Option.some.inj hk
      exact handed_postParent hidle hsound hstep hholds hfreed
  | destroy =>
      obtain rfl := Option.some.inj hk
      exact handed_destroy hidle hsound hstep hholds hfreed
  | unwind =>
      obtain rfl := Option.some.inj hk
      exact handed_unwind hidle hsound hstep hholds hfreed
  | unwound =>
      obtain rfl := Option.some.inj hk
      exact handed_unwound hidle hsound hstep hholds hfreed
  | awaitResume =>
      obtain rfl := Option.some.inj hk
      exact handed_awaitResume hidle hsound hstep hholds hfreed
  | destructor =>
      obtain rfl := Option.some.inj hk
      exact handed_destructor hidle hsound hstep hholds hfreed
  | innerGone =>
      obtain rfl := Option.some.inj hk
      exact handed_innerGone hidle hsound hstep hholds hfreed
  | posted | posting | abandoning | destroyed | postingSelf => simp [frameHolder] at hk

end Handed

theorem Holds.created_le {s : Await} {k : Holder} (h : Holds s k) : s.trampolineCreated ≤ 1 := by
  cases k with
  | nobody | awaitSuspend =>
      obtain ⟨⟨-, -, -, -, -, hcreated, -⟩, -⟩ := h
      omega
  | rethrow | refused | destructor | closing | gone =>
      obtain ⟨⟨-, -, hcreated, -⟩, -⟩ := h
      omega
  | given =>
      obtain ⟨⟨_, hlive⟩, -⟩ := h
      exact Nat.le_of_eq hlive.created
  | terminated => exact h.elim
  | _ => exact Nat.le_of_eq h.1.created

theorem Holds.set_trampolineDestroyed {s : Await} {k : Holder} (h : Holds s k) (n : Nat) :
    Holds { s with trampolineDestroyed := n } k := by
  have hfate : ∀ {c a u p pp pa}, Fate s c a u p pp pa →
      Fate { s with trampolineDestroyed := n } c a u p pp pa :=
    fun h => ⟨h.1, h.2, h.3, h.4, h.5, h.6⟩
  have hlive : ∀ {a b c}, Live s a b c → Live { s with trampolineDestroyed := n } a b c :=
    fun h => ⟨h.1, h.2, h.3, h.4, h.5, h.6, h.7, h.8, h.9, h.10⟩
  have hthrew : ∀ {raised}, Threw s raised → Threw { s with trampolineDestroyed := n } raised :=
    fun h => ⟨h.1, h.2, h.3, h.4, hfate h.5⟩
  cases k with
  | nobody | awaitSuspend => exact ⟨h.1, hfate h.2⟩
  | inner | postSelf | posted | destroy | postParent | unwind | unwound | queued | resume =>
      exact ⟨hlive h.1, hfate h.2⟩
  | start => exact ⟨hlive h.1, h.2.1, hfate h.2.2⟩
  | rethrow => exact ⟨h.1, hthrew h.2⟩
  | refused => exact ⟨h.1, h.2.1, hthrew h.2.2⟩
  | finalSuspend => exact ⟨hlive h.1, h.2.imp hfate hfate⟩
  | given =>
      obtain ⟨⟨_, hl⟩, hf⟩ := h
      exact ⟨⟨_, hlive hl⟩, hfate hf⟩
  | destructor | closing | gone => exact ⟨h.1, h.2.frame _ _ _ _ _⟩
  | terminated => exact h.elim

theorem Step.stays {s s' : Await} {pc : Pc} {q : Option Pc} (hstep : Step s pc s' q)
    (hk : frameHolder pc = none) :
    (∀ j, q.elim 0 (heldBy frameHolder j) = 0) ∧
      (s' = s ∧ q.elim 0 frees = frees pc ∨
        pc = .destroyed ∧ q = none ∧
          s' = { s.touch with trampolineDestroyed := s.trampolineDestroyed + 1 }) := by
  cases hstep with
  | posted | posting | postingSelf => exact ⟨fun j => rfl, .inl ⟨rfl, rfl⟩⟩
  | @abandoning dtor => cases dtor <;> exact ⟨fun j => rfl, .inl ⟨rfl, rfl⟩⟩
  | destroyed => exact ⟨fun j => rfl, .inr ⟨rfl, rfl, rfl⟩⟩
  | _ => simp [frameHolder] at hk

theorem Step.raised {s s' : Await} {pc : Pc} {q : Option Pc} (hstep : Step s pc s' q)
    (hthrew : pc = .rethrow → s.threw = true)
    (h : s.threw = false → s.parentRaised = 0 ∧ s.refused = false) :
    s'.threw = false → s'.parentRaised = 0 ∧ s'.refused = false := by
  cases hstep with
  | caught => exact nofun
  | refuse | raise =>
      intro hnot
      simp [hthrew rfl] at hnot
  | destructor => split <;> exact h
  | _ => exact h

theorem Owned.exec {s s' : Await} {l r : List (Frame Pc)} {t : Nat} {pc : Pc} {q : Option Pc}
    (h : Owned s (l ++ ⟨t, pc⟩ :: r)) (hstep : Step s pc s' q) :
    Owned s' (l ++ q.toList.map (Frame.mk t) ++ r) := by
  obtain ⟨⟨k, hloc, hholds⟩, hfreed, hsound, hraised⟩ := h
  have hraised' : s'.threw = false → s'.parentRaised = 0 ∧ s'.refused = false := by
    refine hstep.raised (fun hpc => ?_) hraised
    subst hpc
    obtain ⟨rfl, -⟩ := hloc.owner rfl
    exact hholds.2.threw
  rw [total_split] at hfreed
  cases hk : frameHolder pc with
  | some j =>
      obtain ⟨rfl, hzero⟩ := hloc.owner hk
      obtain ⟨h, hholds', hmoved, hfreed', hsound'⟩ :=
        hstep.handed (idle_of_inState fun j => (hzero j).1) hsound hk hholds hfreed hraised
      refine ⟨⟨h, Located.replace (fun j => (hzero j).2) hmoved, hholds'⟩, ?_, hsound', hraised'⟩
      rw [total_replace]
      exact hfreed'
  | none =>
      obtain ⟨hq, ⟨rfl, hfrees⟩ | ⟨rfl, rfl, hs'⟩⟩ := hstep.stays hk
      · refine ⟨⟨k, hloc.stay hk (fun _ => rfl) rfl hq, hholds⟩, ?_, hsound, hraised'⟩
        rw [total_replace, hfrees]
        exact hfreed
      · have hcreated := hholds.created_le
        have hdestroyed : s.trampolineDestroyed = 0 ∧ s.trampolineCreated = 1 := by
          simp only [Freed, frees] at hfreed
          omega
        rw [touch_of_alive hdestroyed.2 hdestroyed.1] at hs'
        subst hs'
        refine ⟨⟨k, hloc.stay hk (fun _ => rfl) rfl hq, hholds.set_trampolineDestroyed _⟩, ?_,
          hsound, hraised'⟩
        rw [total_replace]
        simp only [Freed, frees, Option.elim] at hfreed ⊢
        omega

theorem rest_of_located {s : Await} {fs : List (Frame Pc)} {h : Holder}
    (hloc : Located frameHolder (inState s) h fs) :
    (h ≠ .nobody → s.started = true) ∧ (h ≠ .inner → s.segment = .none) ∧
      (h ≠ .posted → s.posted = false) ∧ (h ≠ .queued → s.parentQueued = false) ∧
      (h ≠ .given → s.parentGiven = false) ∧ (h ≠ .gone → s.awaitableDestroyed = 0) ∧
      (h ≠ .terminated → s.terminated = false) ∧ (h ≠ .refused → s.refused = false) := by
  refine ⟨fun hne => ?_, fun hne => ?_, fun hne => ?_, fun hne => ?_, fun hne => ?_,
    hloc.state_eq_zero, fun hne => ?_, fun hne => ?_⟩
  · simpa [inState] using hloc.state_eq_zero hne
  · simpa [inState] using hloc.state_eq_zero hne
  · simpa [inState] using hloc.state_eq_zero hne
  · simpa [inState] using hloc.state_eq_zero hne
  · simpa [inState] using hloc.state_eq_zero hne
  · simpa [inState] using hloc.state_eq_zero hne
  · simpa [inState] using hloc.state_eq_zero hne

theorem Holds.abandonedAgain {s : Await} {h : Holder} (hholds : Holds s h)
    (habandoned : s.abandoned = true) (hheld : s.unwinds = false) :
    Live s true true true ∧ h ≠ .gone := by
  have hended : ¬Ended s := by
    rintro (⟨-, -, -, -, -, hfate⟩ | ⟨-, hfate⟩ | ⟨-, hfate⟩)
    · simp [hfate.abandoned] at habandoned
    · simp [hfate.abandoned] at habandoned
    · simp [hfate.unwinds] at hheld
  cases h with
  | postSelf | posted => exact ⟨hholds.1, nofun⟩
  | start =>
      obtain ⟨-, -, hfate⟩ := hholds
      simp [hfate.abandoned] at habandoned
  | nobody | awaitSuspend | inner | postParent | queued | resume =>
      obtain ⟨-, hfate⟩ := hholds
      simp [hfate.abandoned] at habandoned
  | finalSuspend =>
      obtain ⟨-, hfate | hfate⟩ := hholds
      · simp [hfate.abandoned] at habandoned
      · simp [hfate.unwinds] at hheld
  | destroy | unwind | unwound | given =>
      obtain ⟨-, hfate⟩ := hholds
      simp [hfate.unwinds] at hheld
  | rethrow => simp [hholds.2.fate.abandoned] at habandoned
  | refused => simp [hholds.2.2.fate.abandoned] at habandoned
  | destructor | closing | gone => exact absurd hholds.2 hended
  | terminated => exact hholds.elim

theorem Entered.held {s s' : Await} {q : Option Pc} {fs : List (Frame Pc)} {h : Holder} {t n : Nat}
    (henter : Entered s s' q) (hloc : Located frameHolder (inState s) h fs) (hholds : Holds s h)
    (hfreed : Freed s n) (hsound : s.fault = false) :
    (∃ k, Located frameHolder (inState s') k (q.toList.map (Frame.mk t) ++ fs) ∧ Holds s' k) ∧
      Freed s' (n + q.elim 0 frees) ∧ s'.fault = false := by
  obtain ⟨hstarted, hsegment, hposted, hqueued, hgiven, halive, hrunning, hlet⟩ :=
    rest_of_located hloc
  cases henter with
  | await hnew =>
      have hstate : 0 < inState s .nobody := by simp [inState, hnew]
      obtain ⟨rfl, hframes⟩ := hloc.of_state hstate
      obtain ⟨hfields, hfate⟩ := hholds
      refine ⟨⟨.awaitSuspend, Located.enter hframes (Idle.moved ?_ rfl), hfields,
        hfate.1, hfate.2, hfate.3, hfate.4, hfate.5, hfate.6⟩, hfreed, hsound⟩
      exact ⟨rfl, hsegment nofun, hposted nofun, hqueued nofun, hgiven nofun, halive nofun,
        hrunning nofun, hlet nofun⟩
  | resumeTask hsuspended =>
      have hstate : 0 < inState s .inner := by simp [inState, hsuspended]
      obtain ⟨rfl, hframes⟩ := hloc.of_state hstate
      obtain ⟨hlive, hfate⟩ := hholds
      rw [touchInner_of_alive hlive.inner_alive, touchAwaitable_of_alive (halive nofun)]
      refine ⟨⟨.inner, Located.enter hframes (Idle.moved ?_ rfl), ⟨hlive.1, hlive.2, hlive.3,
        hlive.4, hlive.5, hlive.6, hlive.7, hlive.8, hlive.9, hlive.10⟩, hfate.1, hfate.2,
        hfate.3, hfate.4, hfate.5, hfate.6⟩, hfreed, hsound⟩
      exact ⟨hstarted nofun, rfl, hposted nofun, hqueued nofun, hgiven nofun, halive nofun,
        hrunning nofun, hlet nofun⟩
  | abandon hsuspended =>
      have hstate : 0 < inState s .inner := by simp [inState, hsuspended]
      obtain ⟨rfl, hframes⟩ := hloc.of_state hstate
      obtain ⟨hlive, hfate⟩ := hholds
      rw [touch_of_alive hlive.created (hfreed.alive (halive nofun) hlive.created (.inl hlive.trH))]
      refine ⟨⟨.postSelf, Located.enter hframes (Idle.moved ?_ rfl), ⟨hlive.1, hlive.2, hlive.3,
        hlive.4, hlive.5, hlive.6, hlive.7, hlive.8, hlive.9, hlive.10⟩, hfate.1, rfl,
        hfate.3, hfate.4, hfate.5, hfate.6⟩, hfreed, hsound⟩
      exact ⟨hstarted nofun, rfl, hposted nofun, hqueued nofun, hgiven nofun, halive nofun,
        hrunning nofun, hlet nofun⟩
  | abandonAgain hheld habandoned =>
      have hnone : s.segment = .none := by
        by_contra hsuspended
        have hstate : 0 < inState s .inner := by simp [inState, hsuspended]
        obtain ⟨rfl, -⟩ := hloc.of_state hstate
        simp [hholds.2.abandoned] at habandoned
      obtain ⟨hlive, hne⟩ := hholds.abandonedAgain habandoned
        (hheld.resolve_left (not_not.mpr hnone))
      have hsame : { s.touch with segment := .none, abandoned := true } = s := by
        rw [touch_of_alive hlive.created (hfreed.alive (halive hne) hlive.created
          (.inl hlive.trH)), ← hnone, ← habandoned]
      rw [hsame]
      exact ⟨⟨h, hloc, hholds⟩, hfreed, hsound⟩
  | resumePosted hwaits =>
      have hstate : 0 < inState s .posted := by simp [inState, hwaits]
      obtain ⟨rfl, hframes⟩ := hloc.of_state hstate
      obtain ⟨hlive, hfate⟩ := hholds
      rw [touch_of_alive hlive.created (hfreed.alive (halive nofun) hlive.created (.inl hlive.trH))]
      refine ⟨⟨.finalSuspend, Located.enter hframes (Idle.moved ?_ rfl), ⟨hlive.1, hlive.2,
        hlive.3, hlive.4, hlive.5, hlive.6, hlive.7, hlive.8, hlive.9, hlive.10⟩, .inr ⟨hfate.1,
        hfate.2, rfl, hfate.4, hfate.5, hfate.6⟩⟩, hfreed, hsound⟩
      exact ⟨hstarted nofun, hsegment nofun, rfl, hqueued nofun, hgiven nofun, halive nofun,
        hrunning nofun, hlet nofun⟩
  | destroyPosted hwaits =>
      have hstate : 0 < inState s .posted := by simp [inState, hwaits]
      obtain ⟨rfl, hframes⟩ := hloc.of_state hstate
      obtain ⟨hlive, hfate⟩ := hholds
      rw [touch_of_alive hlive.created (hfreed.alive (halive nofun) hlive.created (.inl hlive.trH))]
      refine ⟨⟨.destroy, Located.enter hframes (Idle.moved ?_ rfl), ⟨hlive.1, hlive.2,
        hlive.3, hlive.4, hlive.5, hlive.6, hlive.7, hlive.8, hlive.9, hlive.10⟩, hfate.1,
        hfate.2, rfl, hfate.4, hfate.5, hfate.6⟩, hfreed, hsound⟩
      exact ⟨hstarted nofun, hsegment nofun, rfl, hqueued nofun, hgiven nofun, halive nofun,
        hrunning nofun, hlet nofun⟩
  | resumeParent hwaits =>
      have hstate : 0 < inState s .queued := by simp [inState, hwaits]
      obtain ⟨rfl, hframes⟩ := hloc.of_state hstate
      obtain ⟨hlive, hfate⟩ := hholds
      refine ⟨⟨.resume, Located.enter hframes (Idle.moved ?_ rfl), ⟨hlive.1, hlive.2, hlive.3,
        hlive.4, hlive.5, hlive.6, hlive.7, hlive.8, hlive.9, hlive.10⟩, hfate.1, hfate.2,
        hfate.3, hfate.4, hfate.5, hfate.6⟩, hfreed, hsound⟩
      exact ⟨hstarted nofun, hsegment nofun, hposted nofun, rfl, hgiven nofun, halive nofun,
        hrunning nofun, hlet nofun⟩
  | unwindParent hwaits =>
      -- the executor gives up the parent it was to resume, or its owner unwinds it
      rcases hwaits with hwaits | hwaits
      · have hstate : 0 < inState s .queued := by simp [inState, hwaits]
        obtain ⟨rfl, hframes⟩ := hloc.of_state hstate
        obtain ⟨hlive, hfate⟩ := hholds
        refine ⟨⟨.destructor, Located.enter hframes (Idle.moved ?_ rfl), ⟨hlive.owner, ?_,
          hlive.created, hlive.started, ?_, ?_⟩, .delivered hlive.threw ⟨hfate.1, hfate.2, hfate.3,
          hfate.4, hfate.5, hfate.6⟩⟩, hfreed, hsound⟩
        · exact ⟨hstarted nofun, hsegment nofun, hposted nofun, rfl, rfl, halive nofun,
            hrunning nofun, hlet nofun⟩
        · simp [hlive.inner_alive, hlive.inner]
        · simp [hlive.finished, hlive.holdsWork]
        · simp [hfate.abandoned]
      · have hstate : 0 < inState s .given := by simp [inState, hwaits]
        obtain ⟨rfl, hframes⟩ := hloc.of_state hstate
        obtain ⟨⟨_, hlive⟩, hfate⟩ := hholds
        refine ⟨⟨.destructor, Located.enter hframes (Idle.moved ?_ rfl), ⟨hlive.owner, ?_,
          hlive.created, hlive.started, ?_, fun _ => ?_⟩,
          .unwound hlive.threw ⟨hfate.1, hfate.2, hfate.3, hfate.4, hfate.5, hfate.6⟩⟩, hfreed,
          hsound⟩
        · exact ⟨hstarted nofun, hsegment nofun, hposted nofun, rfl, rfl, halive nofun,
            hrunning nofun, hlet nofun⟩
        · simp [hlive.innerDestroyed, hlive.inner]
        · simp [hlive.finished, hlive.holdsWork]
        · simp [hlive.innerDestroyed, hlive.inner]

theorem Entered.raised {s s' : Await} {q : Option Pc} (henter : Entered s s' q)
    (h : s.threw = false → s.parentRaised = 0 ∧ s.refused = false) :
    s'.threw = false → s'.parentRaised = 0 ∧ s'.refused = false := by
  cases henter <;> exact h

theorem owned_reachable {s : State Await Pc} (h : Reachable s) : Owned s.shared s.frames := by
  have hpreserves : machine.Preserves (fun _ _ => true) Owned := by
    apply Machine.Preserves.ofSteps
    · intro s l t pc r c s' q hI _ _ _ hexec
      exact hI.exec (exec_step (Option.ite_none_left_eq_some.mp hexec).2)
    · intro s fs t a s' q hI _ _ _ henter
      obtain ⟨⟨k, hloc, hholds⟩, hfreed, hsound, hraised⟩ := hI
      have hentered := enter_entered (Option.ite_none_left_eq_some.mp henter).2
      obtain ⟨hheld, hfreed', hsound'⟩ := hentered.held (t := t) hloc hholds hfreed hsound
      refine ⟨hheld, ?_, hsound', hentered.raised hraised⟩
      rw [total_enter]
      exact hfreed'
  refine hpreserves.reachable (by rintro _ ⟨_, rfl⟩; rfl) ?_ h
  rintro _ ⟨noexceptParent, rfl⟩
  refine ⟨⟨.nobody, fun j => ?_, ⟨rfl, rfl, rfl, rfl, rfl, rfl, rfl, rfl⟩, rfl, rfl, rfl, rfl, rfl,
    rfl⟩, rfl, rfl, fun _ => ⟨rfl, rfl⟩⟩
  cases j <;> rfl

/-- What has become of the parent: nothing yet, it was posted once, or it was
abandoned once, after the inner task was destroyed. -/
inductive Parent (s : Await) : Prop where
  | waits : s.parentPosts = 0 → s.parentAbandons = 0 → Parent s
  | posted : s.parentPosts = 1 → s.parentAbandons = 0 → s.completed = true →
      s.abandoned = false → Parent s
  | abandoned : s.parentPosts = 0 → s.parentAbandons = 1 → s.completed = false →
      s.abandoned = true → s.innerDestroyed = 1 → Parent s

theorem Fate.waits {s : Await} {c a u : Bool} {p : Nat} (h : Fate s c a u p 0 0) : Parent s :=
  .waits h.parentPosts h.parentAbandons

theorem Fate.posted {s : Await} {u : Bool} {p : Nat} (h : Fate s true false u p 1 0) : Parent s :=
  .posted h.parentPosts h.parentAbandons h.completed h.abandoned

theorem Ended.parent {s : Await} (h : Ended s)
    (hgone : s.abandoned = true → s.innerDestroyed = 1) : Parent s := by
  cases h with
  | threw _ hthrew => exact hthrew.fate.waits
  | delivered _ hfate => exact hfate.posted
  | unwound _ hfate =>
      exact .abandoned hfate.parentPosts hfate.parentAbandons hfate.completed hfate.abandoned
        (hgone hfate.abandoned)

theorem Holds.parent {s : Await} {h : Holder} (hholds : Holds s h) : Parent s := by
  cases h with
  | start => exact hholds.2.2.waits
  | nobody | awaitSuspend | inner | postSelf | posted | destroy | postParent | unwind | unwound =>
      exact hholds.2.waits
  | finalSuspend =>
      obtain ⟨-, hfate | hfate⟩ := hholds
      · exact hfate.waits
      · exact hfate.waits
  | rethrow => exact hholds.2.fate.waits
  | refused => exact hholds.2.2.fate.waits
  | queued | resume => exact hholds.2.posted
  | given =>
      obtain ⟨⟨_, hlive⟩, hfate⟩ := hholds
      refine .abandoned hfate.parentPosts hfate.parentAbandons hfate.completed hfate.abandoned ?_
      rw [hlive.innerDestroyed, hlive.inner]
      rfl
  | destructor =>
      obtain ⟨⟨-, -, -, -, -, hgone⟩, hended⟩ := hholds
      exact hended.parent hgone
  | closing | gone =>
      obtain ⟨⟨-, hinner, -⟩, hended⟩ := hholds
      exact hended.parent fun _ => hinner
  | terminated => exact hholds.elim

theorem Live.bounds {s : Await} {trH owner inner : Bool} (h : Live s trH owner inner) :
    s.innerDestroyed ≤ 1 ∧ s.workFinished ≤ s.workStarted ∧ s.workStarted ≤ 1 := by
  refine ⟨h.innerDestroyed ▸ Bool.toNat_le _, ?_, Nat.le_of_eq h.started⟩
  rw [h.finished]
  exact Nat.zero_le _

theorem Holds.bounds {s : Await} {h : Holder} (hholds : Holds s h) :
    s.innerDestroyed ≤ 1 ∧ s.workFinished ≤ s.workStarted ∧ s.workStarted ≤ 1 := by
  cases h with
  | nobody | awaitSuspend =>
      obtain ⟨⟨-, -, hinner, -, -, -, hstarted, hfinished⟩, -⟩ := hholds
      exact ⟨by omega, by omega, by omega⟩
  | given =>
      obtain ⟨⟨_, hl⟩, -⟩ := hholds
      exact hl.bounds
  | rethrow | refused | destructor =>
      obtain ⟨⟨-, hinner, -, hstarted, hfinished, -⟩, -⟩ := hholds
      exact ⟨by omega, by omega, by omega⟩
  | closing | gone =>
      obtain ⟨⟨-, hinner, -, hstarted, hfinished⟩, -⟩ := hholds
      exact ⟨by omega, by omega, by omega⟩
  | terminated => exact hholds.elim
  | _ => exact hholds.1.bounds

/-- The exception is on its way out of `await_suspend`, ended in the `noexcept` of the
parent, or reached the parent. -/
theorem Holds.threw {s : Await} {h : Holder} (hholds : Holds s h) (hthrew : s.threw = true) :
    h = .rethrow ∧ Threw s 0 ∨ h = .refused ∧ s.noexceptParent = true ∧ Threw s 0 ∨
      h ≠ .refused ∧ s.noexceptParent = false ∧ Threw s 1 := by
  have hended : Ended s → s.noexceptParent = false ∧ Threw s 1 := by
    rintro (⟨hlet, hthrew⟩ | ⟨hnot, -⟩ | ⟨hnot, -⟩)
    · exact ⟨hlet, hthrew⟩
    · simp [hnot] at hthrew
    · simp [hnot] at hthrew
  cases h with
  | nobody | awaitSuspend =>
      obtain ⟨⟨-, -, -, -, hnot, -⟩, -⟩ := hholds
      simp [hnot] at hthrew
  | given =>
      obtain ⟨⟨_, hlive⟩, -⟩ := hholds
      simp [hlive.threw] at hthrew
  | rethrow => exact .inl ⟨rfl, hholds.2⟩
  | refused => exact .inr (.inl ⟨rfl, hholds.2⟩)
  | destructor | closing | gone => exact .inr (.inr ⟨nofun, hended hholds.2⟩)
  | terminated => exact hholds.elim
  | _ => simp [hholds.1.threw] at hthrew

/-- The trampoline is to post the parent of an inner task that completed. -/
def delivers : Pc → Bool
  | .finalSuspend | .postParent => true
  | _ => false

/-- The activation is to have the parent of an abandoned segment abandoned. -/
def givesUp : Pc → Bool
  | .postSelf | .finalSuspend | .destroy | .unwind _ | .unwound _ => true
  | _ => false

theorem Ended.delivered_of_completed {s : Await} (h : Ended s) (hcompleted : s.completed = true) :
    s.parentPosts = 1 := by
  cases h with
  | threw _ hthrew => simp [hthrew.fate.completed] at hcompleted
  | delivered _ hfate => exact hfate.parentPosts
  | unwound _ hfate => simp [hfate.completed] at hcompleted

theorem Ended.given_of_abandoned {s : Await} (h : Ended s) (habandoned : s.abandoned = true) :
    s.parentAbandons = 1 := by
  cases h with
  | threw _ hthrew => simp [hthrew.fate.abandoned] at habandoned
  | delivered _ hfate => simp [hfate.abandoned] at habandoned
  | unwound _ hfate => exact hfate.parentAbandons

theorem Holds.delivers {s : Await} {h : Holder} (hholds : Holds s h)
    (hcompleted : s.completed = true) :
    s.parentPosts = 1 ∨ h = .finalSuspend ∨ h = .postParent := by
  cases h with
  | finalSuspend => exact .inr (.inl rfl)
  | postParent => exact .inr (.inr rfl)
  | queued | resume => exact .inl hholds.2.parentPosts
  | destructor | closing | gone => exact .inl (hholds.2.delivered_of_completed hcompleted)
  | start => simp [hholds.2.2.completed] at hcompleted
  | rethrow => simp [hholds.2.fate.completed] at hcompleted
  | refused => simp [hholds.2.2.fate.completed] at hcompleted
  | terminated => exact hholds.elim
  | _ => simp [hholds.2.completed] at hcompleted

theorem Holds.givesUp {s : Await} {h : Holder} (hholds : Holds s h)
    (habandoned : s.abandoned = true) :
    s.parentAbandons = 1 ∨ h = .posted ∨
      inState s h = 0 ∧ ∀ pc, frameHolder pc = some h → givesUp pc = true := by
  cases h with
  | posted => exact .inr (.inl rfl)
  | postSelf | finalSuspend | destroy | unwind | unwound =>
      refine .inr (.inr ⟨rfl, fun pc hpc => ?_⟩)
      cases pc <;> first | rfl | simp [frameHolder] at hpc
  | given => exact .inl hholds.2.parentAbandons
  | destructor | closing | gone => exact .inl (hholds.2.given_of_abandoned habandoned)
  | start => simp [hholds.2.2.abandoned] at habandoned
  | rethrow => simp [hholds.2.fate.abandoned] at habandoned
  | refused => simp [hholds.2.2.fate.abandoned] at habandoned
  | terminated => exact hholds.elim
  | _ => simp [hholds.2.abandoned] at habandoned

theorem exec_enabled (s : Await) (pc : Pc) : ∃ c, (exec s pc c).isSome = true := by
  cases pc with
  | task => exact ⟨.suspend, rfl⟩
  | rethrow | finalSuspend | destroy | destructor | innerGone =>
      refine ⟨.proceed, ?_⟩
      simp only [exec]
      split <;> rfl
  | _ => exact ⟨.proceed, rfl⟩

section Reachable

variable {s : State Await Pc}

theorem threw_reachable (h : Reachable s) (hthrows : s.shared.threw = true) :
    Threw s.shared s.shared.parentRaised ∧
      ((∃ f ∈ s.frames, f.pc = .rethrow) ∧ s.shared.parentRaised = 0 ∨
        s.shared.noexceptParent = true ∧ s.shared.refused = true ∧ s.shared.parentRaised = 0 ∨
        s.shared.noexceptParent = false ∧ s.shared.refused = false ∧
          s.shared.parentRaised = 1) := by
  obtain ⟨⟨k, hloc, hholds⟩, -⟩ := owned_reachable h
  rcases hholds.threw hthrows with ⟨rfl, hthrew⟩ | ⟨rfl, hnoexcept, hthrew⟩ | ⟨hne, hlet, hthrew⟩
  · obtain ⟨⟨u, pc⟩, hf, hpc⟩ := hloc.exists_frame rfl
    refine ⟨hthrew.raised ▸ hthrew, .inl ⟨⟨⟨u, pc⟩, hf, ?_⟩, hthrew.raised⟩⟩
    cases pc <;> simp [frameHolder] at hpc ⊢
  · refine ⟨hthrew.raised ▸ hthrew, .inr (.inl ⟨hnoexcept, ?_, hthrew.raised⟩)⟩
    by_contra hrefused
    obtain ⟨⟨u, pc⟩, -, hpc⟩ := hloc.exists_frame (by simpa [inState] using hrefused)
    cases pc <;> simp [frameHolder] at hpc
  · exact ⟨hthrew.raised ▸ hthrew,
      .inr (.inr ⟨hlet, (rest_of_located hloc).2.2.2.2.2.2.2 hne, hthrew.raised⟩)⟩

theorem delivers_reachable (h : Reachable s) (hcompleted : s.shared.completed = true) :
    s.shared.parentPosts = 1 ∨ ∃ f ∈ s.frames, delivers f.pc = true := by
  obtain ⟨⟨k, hloc, hholds⟩, -⟩ := owned_reachable h
  refine (hholds.delivers hcompleted).imp_right fun hk => ?_
  have hstate : inState s.shared k = 0 := by rcases hk with rfl | rfl <;> rfl
  obtain ⟨⟨u, pc⟩, hf, hpc⟩ := hloc.exists_frame hstate
  refine ⟨⟨u, pc⟩, hf, ?_⟩
  rcases hk with rfl | rfl <;> cases pc <;> simp [frameHolder] at hpc <;> rfl

theorem givesUp_reachable (h : Reachable s) (habandoned : s.shared.abandoned = true) :
    s.shared.parentAbandons = 1 ∨ s.shared.posted = true ∨
      ∃ f ∈ s.frames, givesUp f.pc = true := by
  obtain ⟨⟨k, hloc, hholds⟩, -⟩ := owned_reachable h
  refine (hholds.givesUp habandoned).imp_right fun hk => ?_
  rcases hk with rfl | ⟨hstate, hgives⟩
  · refine .inl ?_
    by_contra hposted
    obtain ⟨⟨u, pc⟩, -, hpc⟩ := hloc.exists_frame (by simpa [inState] using hposted)
    cases pc <;> simp [frameHolder] at hpc
  · obtain ⟨f, hf, hpc⟩ := hloc.exists_frame hstate
    exact .inr ⟨f, hf, hgives f.pc hpc⟩

end Reachable

/-- In every state that any order of events of a `co_await run(ex)(t)` leads to: the
parent waits, was posted once because the inner task completed with its segment
not abandoned, or was abandoned once because the segment was abandoned, with the
inner task destroyed before, and as long as that has not happened somebody is to do it;
when the post of the task threw neither happens, the task never ran and does not
continue into the trampoline, and the exception reaches the parent, once, unless its
`await_suspend` is `noexcept`, which ends the program; no frame is destroyed
twice and no destroyed one is accessed; the destructor does not terminate, work is
finished at most once, and no activation is stuck. When the awaitable is gone the
inner task is destroyed, the work is finished and the operation ended in one of
the three ways; and when no activation is left and nobody holds the inner segment,
the posted trampoline or the parent, the awaitable and the trampoline are gone. -/
theorem run_crosses_exactly_once {s : State Await Pc} (h : Reachable s) :
    Parent s.shared ∧
    (s.shared.completed = true →
      s.shared.parentPosts = 1 ∨ ∃ f ∈ s.frames, delivers f.pc = true) ∧
    (s.shared.abandoned = true → s.shared.parentAbandons = 1 ∨ s.shared.posted = true ∨
      ∃ f ∈ s.frames, givesUp f.pc = true) ∧
    (s.shared.threw = true → s.shared.parentPosts = 0 ∧ s.shared.parentAbandons = 0 ∧
      s.shared.innerRan = false ∧ s.shared.innerCont = false ∧
      ((∃ f ∈ s.frames, f.pc = .rethrow) ∧ s.shared.parentRaised = 0 ∨
        s.shared.noexceptParent = true ∧ s.shared.refused = true ∧ s.shared.parentRaised = 0 ∨
        s.shared.noexceptParent = false ∧ s.shared.refused = false ∧
          s.shared.parentRaised = 1)) ∧
    (s.shared.threw = false → s.shared.parentRaised = 0 ∧ s.shared.refused = false) ∧
    s.shared.innerDestroyed ≤ 1 ∧
    s.shared.trampolineDestroyed ≤ s.shared.trampolineCreated ∧
    s.shared.trampolineCreated ≤ 1 ∧
    s.shared.workFinished ≤ s.shared.workStarted ∧ s.shared.workStarted ≤ 1 ∧
    s.shared.terminated = false ∧ s.shared.fault = false ∧
    (s.shared.refused = false → ∀ t pc, topPc t s.frames = some pc →
      ∃ c, (machine.step s (.run t c)).isSome = true) ∧
    (0 < s.shared.awaitableDestroyed →
      s.shared.innerDestroyed = 1 ∧ s.shared.workStarted = 1 ∧ s.shared.workFinished = 1 ∧
      s.shared.parentPosts = s.shared.completed.toNat ∧
      s.shared.parentAbandons = s.shared.abandoned.toNat ∧
      s.shared.parentRaised = s.shared.threw.toNat ∧
      (s.shared.threw = true ∨ s.shared.completed = true ∨ s.shared.abandoned = true)) ∧
    (s.shared.started = true → s.shared.refused = false → s.frames = [] →
      s.shared.segment = .none → s.shared.posted = false → s.shared.parentQueued = false →
      s.shared.parentGiven = false →
      s.shared.awaitableDestroyed = 1 ∧ s.shared.trampolineDestroyed = 1) := by
  obtain ⟨⟨k, hloc, hholds⟩, hfreed, hsound, hraised⟩ := owned_reachable h
  obtain ⟨hinner, hfinished, hstarted⟩ := hholds.bounds
  have hrunning : s.shared.terminated = false := by
    refine (rest_of_located hloc).2.2.2.2.2.2.1 ?_
    rintro rfl
    exact hholds
  refine ⟨hholds.parent, delivers_reachable h, givesUp_reachable h, fun hthrows => ?_, hraised,
    hinner, ?_, hholds.created_le, hfinished, hstarted, hrunning, hsound, ?_, ?_, ?_⟩
  · obtain ⟨hthrew, hreaches⟩ := threw_reachable h hthrows
    exact ⟨hthrew.fate.parentPosts, hthrew.fate.parentAbandons, hthrew.innerRan, hthrew.innerCont,
      hreaches⟩
  · rw [hfreed]
    omega
  · intro hlet t pc htop
    obtain ⟨c, hc⟩ := exec_enabled s.shared pc
    refine ⟨c, Machine.ofSteps_step_enabled htop ?_⟩
    simpa [hrunning, hlet] using hc
  · intro hgone
    have hstate : 0 < inState s.shared .gone := hgone
    obtain ⟨rfl, -⟩ := hloc.of_state hstate
    obtain ⟨⟨-, hinner, -, hstarted, hfinished⟩, hended⟩ := hholds
    refine ⟨hinner, hstarted, hfinished, ?_⟩
    cases hended with
    | threw _ hthrew =>
        obtain ⟨hthrows, -, -, hreached, hfate⟩ := hthrew
        rw [hfate.parentPosts, hfate.parentAbandons, hfate.completed, hfate.abandoned, hthrows,
          hreached]
        exact ⟨rfl, rfl, rfl, .inl rfl⟩
    | delivered hnot hfate =>
        rw [hfate.parentPosts, hfate.parentAbandons, hfate.completed, hfate.abandoned, hnot,
          (hraised hnot).1]
        exact ⟨rfl, rfl, rfl, .inr (.inl rfl)⟩
    | unwound hnot hfate =>
        rw [hfate.parentPosts, hfate.parentAbandons, hfate.completed, hfate.abandoned, hnot,
          (hraised hnot).1]
        exact ⟨rfl, rfl, rfl, .inr (.inr rfl)⟩
  · intro hbegun hlet hframes hsegment hposted hqueued hgiven
    rw [hframes] at hloc hfreed
    have hk := hloc.of_nil
    have hgone : s.shared.awaitableDestroyed = 1 ∧ s.shared.trampolineCreated = 1 := by
      cases k with
      | gone => exact ⟨hk, hholds.1.2.2.1⟩
      | _ => simp [inState, hbegun, hsegment, hposted, hqueued, hgiven, hrunning, hlet] at hk
    refine ⟨hgone.1, ?_⟩
    simp only [Freed, hgone.1, hgone.2, total, List.map_nil, List.sum_nil] at hfreed
    simpa using hfreed.symm

theorem reachable_of_runEvents {noexceptParent : Bool} (es : List (Event Choice Entry))
    {s : State Await Pc} (h : machine.runEvents ⟨newAwait noexceptParent, []⟩ es = some s) :
    Reachable s := by
  have hinit : Reachable ⟨newAwait noexceptParent, []⟩ := .init ⟨noexceptParent, rfl⟩
  exact hinit.runWhen es h

/-- The inner executor abandons the task inside the post and destroys the posted
trampoline at once, and the parent is unwound inside the `abandon` that its
destructor makes. -/
def closedExecutorRun : List (Event Choice Entry) :=
  [.enter 0 .await, .run 0 .proceed, .run 0 .proceed, .enter 0 .abandon, .run 0 .proceed,
    .enter 0 .destroyPosted, .run 0 .proceed, .run 0 .proceed, .run 0 .proceed,
    .enter 0 .unwindParent] ++ List.replicate 6 (.run 0 .proceed)

theorem run_crosses_exactly_once_closedExecutor :
    ∃ s, machine.runEvents ⟨newAwait true, []⟩ closedExecutorRun = some s ∧
      s.shared.parentAbandons = 1 ∧ s.shared.innerDestroyed = 1 ∧ s.frames = [] ∧
      s.shared.awaitableDestroyed = 1 ∧ s.shared.trampolineDestroyed = 1 :=
  ⟨_, rfl, rfl, rfl, rfl, (run_crosses_exactly_once (reachable_of_runEvents closedExecutorRun
    rfl)).2.2.2.2.2.2.2.2.2.2.2.2.2.2 rfl rfl rfl rfl rfl rfl rfl⟩

/-- In a task the exception of the post does not reach the parent: it ends in the
`noexcept` of the `await_suspend` that the task's promise wraps around every
`co_await`, and nothing happens any more. -/
theorem throwing_post_terminates :
    ∃ s, machine.runEvents ⟨newAwait true, []⟩
        [.enter 0 .await, .run 0 .proceed, .run 0 .throws, .run 0 .proceed, .run 0 .proceed] =
          some s ∧ s.shared.threw = true ∧ s.shared.parentRaised = 0 ∧
      ∀ e, machine.step s e = none := by
  refine ⟨_, rfl, rfl, rfl, ?_⟩
  rintro (⟨t, c⟩ | ⟨t, e⟩)
  · rfl
  · rfl

end Capy.Run
