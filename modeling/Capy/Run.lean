import Capy.RunAsync

/-!
One `co_await run(ex)(t)`: the awaitable in the parent's frame, the boundary
trampoline, the inner task, and the two executors. The frames and the awaitable
count how often they are destroyed, and an access to a destroyed one is recorded
as a fault. The inner task, the parent, its owner and the executors are code of
others; the parent's promise wraps each `co_await` in an `await_suspend` of its own,
which is `noexcept` in a task and a quitter.
-/

namespace Capy.Run

open Capy.CallStack
open Capy.RunAsync (Segment)

/-- The awaitable: `tr_.h_`, `holds_work_`, whether `inner_` owns the task's frame
and whether the task continues into the trampoline. The trampoline's promise:
`owner_` and the flag of its `chain_owner`. Then what others hold: the inner
segment, the trampoline posted for the unwind, with whether it was taken, and the
parent, posted to its executor or given to `abandon`. Then what happened so far;
`refused` tells that an exception got to the `noexcept` of the parent. -/
structure Await where
  noexceptParent : Bool
  trH : Bool
  holdsWork : Bool
  inner : Bool
  innerCont : Bool
  owner : Bool
  abandoned : Bool
  segment : Segment
  posted : Bool
  unwinds : Bool
  parentQueued : Bool
  parentGiven : Bool
  started : Bool
  innerRan : Bool
  completed : Bool
  threw : Bool
  trampolineCreated : Nat
  trampolineDestroyed : Nat
  innerDestroyed : Nat
  awaitableDestroyed : Nat
  posts : Nat
  parentPosts : Nat
  parentAbandons : Nat
  parentRaised : Nat
  workStarted : Nat
  workFinished : Nat
  fault : Bool
  terminated : Bool
  refused : Bool

def newAwait (noexceptParent : Bool) : Await :=
  ⟨noexceptParent, false, false, true, false, false, false, .none, false, false, false, false,
    false, false, false, false, 0, 0, 0, 0, 0, 0, 0, 0, 0, 0, false, false, false⟩

/-- An access to the trampoline's frame. -/
def Await.touch (s : Await) : Await :=
  { s with fault := s.fault || decide (s.trampolineDestroyed ≠ 0) ||
      decide (s.trampolineCreated = 0) }

/-- An access to the awaitable. -/
def Await.touchAwaitable (s : Await) : Await :=
  { s with fault := s.fault || decide (s.awaitableDestroyed ≠ 0) }

/-- An access to the inner task's frame. -/
def Await.touchInner (s : Await) : Await :=
  { s with fault := s.fault || decide (s.innerDestroyed ≠ 0) }

/-- In an unwind, `dtor` says whether the trampoline is being destroyed. -/
inductive Pc where
  | awaitSuspend
  | post
  | posted
  | caught
  | rethrow
  | task
  | finalSuspend
  | postParent
  | posting
  | unwind (dtor : Bool)
  | unwound (dtor : Bool)
  | abandoning (dtor : Bool)
  | destroyed
  | destroy
  | postSelf
  | postingSelf
  | awaitResume
  | destructor
  | innerGone
  deriving DecidableEq

inductive Choice where
  | proceed
  | throws
  | suspend
  | complete
  deriving DecidableEq

/-- One step of an activation. -/
def exec (s : Await) : Pc → Choice → Option (Await × Option Pc)
  -- run_awaitable_ex::await_suspend
  | .awaitSuspend, .proceed =>
      some ({ s.touchAwaitable.touchInner with
        trampolineCreated := s.trampolineCreated + 1
        trH := true
        owner := true
        workStarted := s.workStarted + 1
        holdsWork := true
        innerCont := true }, some .post)
  | .post, .throws => some (s.touchAwaitable, some .caught)
  | .post, .proceed => some ({ s.touchAwaitable with segment := .queued }, some .posted)
  | .posted, .proceed => some (s, none)
  | .caught, .proceed =>
      some ({ s.touchAwaitable.touchInner.touch with
        innerCont := false
        owner := false
        trampolineDestroyed := s.trampolineDestroyed + s.trH.toNat
        trH := false
        holdsWork := false
        workFinished := s.workFinished + 1
        threw := true }, some .rethrow)
  -- the await_suspend of the parent's promise
  | .rethrow, .proceed =>
      if s.noexceptParent then some ({ s with refused := true }, none)
      else some ({ s with parentRaised := s.parentRaised + 1 }, some .destructor)
  -- the inner task
  | .task, .suspend => some ({ s with segment := .suspended }, none)
  | .task, .complete =>
      some ({ s with completed := true }, if s.innerCont then some .finalSuspend else none)
  -- boundary_trampoline::promise_type::final_suspend
  | .finalSuspend, .proceed =>
      if s.abandoned then some (s.touch, some (.unwind false))
      else some ({ s.touch with owner := false }, some .postParent)
  | .postParent, .proceed =>
      some ({ s.touch with parentQueued := true, parentPosts := s.parentPosts + 1 },
        some .posting)
  | .posting, .proceed => some (s, none)
  -- unwind
  | .unwind dtor, .proceed =>
      some ({ s.touch.touchAwaitable with
        inner := false
        innerDestroyed := s.innerDestroyed + 1
        fault := s.touch.touchAwaitable.fault || !s.inner }, some (.unwound dtor))
  | .unwound dtor, .proceed =>
      some ({ s.touch with
        owner := false
        parentGiven := true
        parentAbandons := s.parentAbandons + 1 }, some (.abandoning dtor))
  | .abandoning dtor, .proceed => some (s, if dtor then some .destroyed else none)
  -- ~promise_type
  | .destroy, .proceed =>
      if s.owner then
        some ({ s.touch.touchAwaitable with trH := false }, some (.unwind true))
      else some (s.touch, some .destroyed)
  | .destroyed, .proceed =>
      some ({ s.touch with trampolineDestroyed := s.trampolineDestroyed + 1 }, none)
  -- chain_owner::abandon of the inner segment
  | .postSelf, .proceed =>
      some ({ s.touch.touchAwaitable with posted := true, posts := s.posts + 1 },
        some .postingSelf)
  | .postingSelf, .proceed => some (s, none)
  -- run_awaitable_ex::await_resume
  | .awaitResume, .proceed =>
      some ({ s.touchAwaitable.touchInner with
        holdsWork := false
        workFinished := s.workFinished + s.holdsWork.toNat }, some .destructor)
  -- ~run_awaitable_ex, then ~Task of inner_, then ~boundary_trampoline of tr_
  | .destructor, .proceed =>
      if s.trH = true ∧ s.owner = true then
        some ({ s.touchAwaitable.touch with terminated := true }, none)
      else
        some ({ (if s.trH then s.touchAwaitable.touch else s.touchAwaitable) with
          workFinished := s.workFinished + s.holdsWork.toNat
          innerDestroyed := s.innerDestroyed + s.inner.toNat }, some .innerGone)
  | .innerGone, .proceed =>
      if s.trH then
        some ({ s.touchAwaitable.touch with
          owner := false
          trampolineDestroyed := s.trampolineDestroyed + 1
          awaitableDestroyed := s.awaitableDestroyed + 1 }, none)
      else
        some ({ s.touchAwaitable with awaitableDestroyed := s.awaitableDestroyed + 1 }, none)
  | _, _ => none

def foreign : Pc → Bool
  | .posted | .task | .posting | .unwound _ | .abandoning _ | .postingSelf | .innerGone => true
  | _ => false

inductive Entry where
  | await
  | resumeTask
  | abandon
  | resumePosted
  | destroyPosted
  | resumeParent
  | unwindParent
  deriving DecidableEq

/-- The party that holds the inner segment resumes it or abandons it, and may
abandon it again until the posted trampoline is taken. The caller's executor
resumes the parent or gives it up to its owner, which unwinds it as it does after
`abandon`. -/
def enter (s : Await) : Entry → Option (Await × Option Pc)
  | .await => if s.started then none else some ({ s with started := true }, some .awaitSuspend)
  | .resumeTask =>
      if s.segment = .none then none
      else
        some ({ s.touchInner.touchAwaitable with segment := .none, innerRan := true },
          some .task)
  | .abandon =>
      if s.segment ≠ .none ∨ s.abandoned = true ∧ s.unwinds = false then
        some ({ s.touch with segment := .none, abandoned := true },
          if s.abandoned then none else some .postSelf)
      else none
  | .resumePosted =>
      if s.posted then
        some ({ s.touch with posted := false, unwinds := true }, some .finalSuspend)
      else none
  | .destroyPosted =>
      if s.posted then some ({ s.touch with posted := false, unwinds := true }, some .destroy)
      else none
  | .resumeParent =>
      if s.parentQueued then some ({ s with parentQueued := false }, some .awaitResume) else none
  | .unwindParent =>
      if s.parentQueued = true ∨ s.parentGiven = true then
        some ({ s with parentQueued := false, parentGiven := false }, some .destructor)
      else none

/-- The step system of one `co_await`. Nothing runs after `std::terminate`. -/
def machine : Machine Await Pc Choice Entry :=
  Machine.ofSteps foreign
    (fun s _ _ pc c => if s.terminated = true ∨ s.refused = true then none else exec s pc c)
    (fun s _ _ e => if s.terminated = true ∨ s.refused = true then none else enter s e)

def Initial (s : State Await Pc) : Prop := ∃ noexceptParent, s = ⟨newAwait noexceptParent, []⟩

def Reachable : State Await Pc → Prop := machine.Reachable Initial

inductive Step (s : Await) : Pc → Await → Option Pc → Prop
  | awaitSuspend :
      Step s .awaitSuspend
        { s.touchAwaitable.touchInner with
          trampolineCreated := s.trampolineCreated + 1
          trH := true
          owner := true
          workStarted := s.workStarted + 1
          holdsWork := true
          innerCont := true } (some .post)
  | postThrows : Step s .post s.touchAwaitable (some .caught)
  | post : Step s .post { s.touchAwaitable with segment := .queued } (some .posted)
  | posted : Step s .posted s none
  | caught :
      Step s .caught
        { s.touchAwaitable.touchInner.touch with
          innerCont := false
          owner := false
          trampolineDestroyed := s.trampolineDestroyed + s.trH.toNat
          trH := false
          holdsWork := false
          workFinished := s.workFinished + 1
          threw := true } (some .rethrow)
  | refuse : s.noexceptParent = true → Step s .rethrow { s with refused := true } none
  | raise : s.noexceptParent = false →
      Step s .rethrow { s with parentRaised := s.parentRaised + 1 } (some .destructor)
  | suspend : Step s .task { s with segment := .suspended } none
  | complete :
      Step s .task { s with completed := true }
        (if s.innerCont then some .finalSuspend else none)
  | abandoned : s.abandoned = true → Step s .finalSuspend s.touch (some (.unwind false))
  | deliver : s.abandoned = false →
      Step s .finalSuspend { s.touch with owner := false } (some .postParent)
  | postParent :
      Step s .postParent
        { s.touch with parentQueued := true, parentPosts := s.parentPosts + 1 } (some .posting)
  | posting : Step s .posting s none
  | unwind {dtor} :
      Step s (.unwind dtor)
        { s.touch.touchAwaitable with
          inner := false
          innerDestroyed := s.innerDestroyed + 1
          fault := s.touch.touchAwaitable.fault || !s.inner } (some (.unwound dtor))
  | unwound {dtor} :
      Step s (.unwound dtor)
        { s.touch with
          owner := false
          parentGiven := true
          parentAbandons := s.parentAbandons + 1 } (some (.abandoning dtor))
  | abandoning {dtor} : Step s (.abandoning dtor) s (if dtor then some .destroyed else none)
  | destroyLinked : s.owner = true →
      Step s .destroy { s.touch.touchAwaitable with trH := false } (some (.unwind true))
  | destroyUnlinked : s.owner = false → Step s .destroy s.touch (some .destroyed)
  | destroyed :
      Step s .destroyed { s.touch with trampolineDestroyed := s.trampolineDestroyed + 1 } none
  | postSelf :
      Step s .postSelf { s.touch.touchAwaitable with posted := true, posts := s.posts + 1 }
        (some .postingSelf)
  | postingSelf : Step s .postingSelf s none
  | awaitResume :
      Step s .awaitResume
        { s.touchAwaitable.touchInner with
          holdsWork := false
          workFinished := s.workFinished + s.holdsWork.toNat } (some .destructor)
  | terminate : s.trH = true → s.owner = true →
      Step s .destructor { s.touchAwaitable.touch with terminated := true } none
  | destructor : ¬(s.trH = true ∧ s.owner = true) →
      Step s .destructor
        { (if s.trH then s.touchAwaitable.touch else s.touchAwaitable) with
          workFinished := s.workFinished + s.holdsWork.toNat
          innerDestroyed := s.innerDestroyed + s.inner.toNat } (some .innerGone)
  | endLinked : s.trH = true →
      Step s .innerGone
        { s.touchAwaitable.touch with
          owner := false
          trampolineDestroyed := s.trampolineDestroyed + 1
          awaitableDestroyed := s.awaitableDestroyed + 1 } none
  | endUnlinked : s.trH = false →
      Step s .innerGone
        { s.touchAwaitable with awaitableDestroyed := s.awaitableDestroyed + 1 } none

theorem exec_step {s s' : Await} {pc : Pc} {c : Choice} {q : Option Pc}
    (h : exec s pc c = some (s', q)) : Step s pc s' q := by
  cases pc <;> cases c <;> simp only [exec, reduceCtorEq] at h
  case rethrow.proceed =>
    split at h <;> simp only [Option.some.injEq, Prod.mk.injEq] at h <;> obtain ⟨rfl, rfl⟩ := h
    · exact .refuse ‹_›
    · exact .raise (eq_false_of_ne_true ‹_›)
  case finalSuspend.proceed =>
    split at h <;> simp only [Option.some.injEq, Prod.mk.injEq] at h <;> obtain ⟨rfl, rfl⟩ := h
    · exact .abandoned ‹_›
    · exact .deliver (eq_false_of_ne_true ‹_›)
  case destroy.proceed =>
    split at h <;> simp only [Option.some.injEq, Prod.mk.injEq] at h <;> obtain ⟨rfl, rfl⟩ := h
    · exact .destroyLinked ‹_›
    · exact .destroyUnlinked (eq_false_of_ne_true ‹_›)
  case destructor.proceed =>
    split at h <;> simp only [Option.some.injEq, Prod.mk.injEq] at h <;> obtain ⟨rfl, rfl⟩ := h
    · rename_i hlinked
      exact .terminate hlinked.1 hlinked.2
    · exact .destructor ‹_›
  case innerGone.proceed =>
    split at h <;> simp only [Option.some.injEq, Prod.mk.injEq] at h <;> obtain ⟨rfl, rfl⟩ := h
    · exact .endLinked ‹_›
    · exact .endUnlinked (eq_false_of_ne_true ‹_›)
  all_goals
    simp only [Option.some.injEq, Prod.mk.injEq] at h
    obtain ⟨rfl, rfl⟩ := h
    constructor

inductive Entered (s : Await) : Await → Option Pc → Prop
  | await : s.started = false → Entered s { s with started := true } (some .awaitSuspend)
  | resumeTask : s.segment ≠ .none →
      Entered s { s.touchInner.touchAwaitable with segment := .none, innerRan := true }
        (some .task)
  | abandon : s.segment ≠ .none → s.abandoned = false →
      Entered s { s.touch with segment := .none, abandoned := true } (some .postSelf)
  | abandonAgain : s.segment ≠ .none ∨ s.unwinds = false → s.abandoned = true →
      Entered s { s.touch with segment := .none, abandoned := true } none
  | resumePosted : s.posted = true →
      Entered s { s.touch with posted := false, unwinds := true } (some .finalSuspend)
  | destroyPosted : s.posted = true →
      Entered s { s.touch with posted := false, unwinds := true } (some .destroy)
  | resumeParent : s.parentQueued = true →
      Entered s { s with parentQueued := false } (some .awaitResume)
  | unwindParent : s.parentQueued = true ∨ s.parentGiven = true →
      Entered s { s with parentQueued := false, parentGiven := false } (some .destructor)

theorem enter_entered {s s' : Await} {e : Entry} {q : Option Pc}
    (h : enter s e = some (s', q)) : Entered s s' q := by
  cases e with
  | await =>
      simp only [enter, Option.ite_none_left_eq_some, Bool.not_eq_true, Option.some.injEq,
        Prod.mk.injEq] at h
      obtain ⟨hnew, rfl, rfl⟩ := h
      exact .await hnew
  | resumeTask =>
      simp only [enter, Option.ite_none_left_eq_some, Option.some.injEq, Prod.mk.injEq] at h
      obtain ⟨hsegment, rfl, rfl⟩ := h
      exact .resumeTask hsegment
  | abandon =>
      simp only [enter, Option.ite_none_right_eq_some, Option.some.injEq, Prod.mk.injEq] at h
      obtain ⟨hheld, rfl, rfl⟩ := h
      cases habandoned : s.abandoned with
      | true => exact .abandonAgain (hheld.imp_right And.right) habandoned
      | false =>
          refine .abandon (hheld.resolve_right ?_) habandoned
          simp [habandoned]
  | resumePosted =>
      simp only [enter, Option.ite_none_right_eq_some, Option.some.injEq, Prod.mk.injEq] at h
      obtain ⟨hposted, rfl, rfl⟩ := h
      exact .resumePosted hposted
  | destroyPosted =>
      simp only [enter, Option.ite_none_right_eq_some, Option.some.injEq, Prod.mk.injEq] at h
      obtain ⟨hposted, rfl, rfl⟩ := h
      exact .destroyPosted hposted
  | resumeParent =>
      simp only [enter, Option.ite_none_right_eq_some, Option.some.injEq, Prod.mk.injEq] at h
      obtain ⟨hqueued, rfl, rfl⟩ := h
      exact .resumeParent hqueued
  | unwindParent =>
      simp only [enter, Option.ite_none_right_eq_some, Option.some.injEq, Prod.mk.injEq] at h
      obtain ⟨hheld, rfl, rfl⟩ := h
      exact .unwindParent hheld

end Capy.Run
