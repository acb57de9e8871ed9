import Capy.CallStack

/-!
One `run_async(ex, ...)(t)`: the wrapper, the trampoline coroutine that it makes,
the task, and the executor. The task's frame and the trampoline's frame count how
often they are destroyed, and an access to a destroyed one is recorded as a
fault. What the task, the handlers and the executor do is code of others.
-/

namespace Capy.RunAsync

open Capy.CallStack

/-- How a task ends. -/
inductive Outcome where
  | value
  | exception
  deriving DecidableEq

/-- Where the task waits when it is not running: with the executor, or with the
party that it suspended to. -/
inductive Segment where
  | none
  | queued
  | suspended
  deriving DecidableEq

/-- The wrapper's `tr_.h_`, and of the trampoline's promise `task_h_` and the flag
of its `chain_owner`. Then what the executor and other parties hold: the segment
and the posted trampoline, with whether it was taken to unwind the task. Then
what happened so far. -/
structure Launch where
  tr : Bool
  taskH : Bool
  abandoned : Bool
  segment : Segment
  posted : Bool
  unwinds : Bool
  launched : Bool
  taskCreated : Nat
  taskDestroyed : Nat
  trampolineDestroyed : Nat
  completed : Option Outcome
  handled : List Outcome
  posts : Nat
  workStarted : Nat
  workFinished : Nat
  handlerThrew : Bool
  fault : Bool
  terminated : Bool

def newLaunch : Launch :=
  ⟨false, false, false, .none, false, false, false, 0, 0, 0, none, [], 0, 0, 0, false, false,
    false⟩

/-- An access to the trampoline's frame. -/
def Launch.touch (s : Launch) : Launch :=
  { s with fault := s.fault || decide (0 < s.trampolineDestroyed) }

/-- An access to the task's frame. -/
def Launch.touchTask (s : Launch) : Launch :=
  { s with fault := s.fault || decide (0 < s.taskDestroyed) || decide (s.taskCreated = 0) }

/-- Who called `resume()` on the coroutine that runs. -/
inductive Caller where
  | executor
  | wrapper
  deriving DecidableEq

inductive Pc where
  | argument
  | invoke
  | dispatch
  | dispatched
  | clear (next : Bool)
  | resume (next : Bool)
  | destructor
  | task (caller : Caller)
  | trampoline (caller : Caller)
  | handler (caller : Caller)
  | guard (caller : Caller) (throws : Bool)
  | unwound (caller : Caller) (throws : Bool)
  | finish (caller : Caller)
  | destroy
  | post
  | posting
  deriving DecidableEq

/-- After `next.resume()` the wrapper is destroyed. -/
def Caller.next : Caller → Option Pc
  | .executor => none
  | .wrapper => some .destructor

inductive Choice where
  | proceed
  | throws
  | handle
  | queue
  | suspend
  | complete (o : Outcome)
  deriving DecidableEq

/-- `invoke_impl` reads the task's promise and calls the handler. -/
def invokeImpl (s : Launch) : Launch :=
  match s.completed with
  | some o => { s.touchTask with handled := s.handled ++ [o] }
  | none => { s.touchTask with fault := true }

/-- The task's frame is destroyed through `task_h_`. -/
def Launch.destroyTask (s : Launch) : Launch :=
  { s with taskDestroyed := s.taskDestroyed + 1, fault := s.fault || !s.taskH }

/-- One step of an activation. -/
def exec (s : Launch) : Pc → Choice → Option (Launch × Option Pc)
  -- the full expression run_async(ex, ...)(t)
  | .argument, .throws => some (s, some .destructor)
  | .argument, .proceed => some ({ s with taskCreated := s.taskCreated + 1 }, some .invoke)
  | .invoke, .proceed => some ({ s.touch with taskH := true }, some .dispatch)
  | .dispatch, .throws => some (s.touch, some .destructor)
  | .dispatch, .handle => some (s.touch, some (.clear true))
  | .dispatch, .queue => some ({ s.touch with segment := .queued }, some .dispatched)
  | .dispatched, .proceed => some (s, some (.clear false))
  | .clear next, .proceed => some ({ s with tr := false }, some (.resume next))
  | .resume next, .proceed =>
      if next then some (s.touchTask, some (.task .wrapper)) else some (s, some .destructor)
  | .destructor, .proceed => if s.tr then some (s.touch, some .destroy) else some (s, none)
  -- the task
  | .task caller, .suspend => some ({ s with segment := .suspended }, caller.next)
  | .task caller, .complete o =>
      some ({ s with completed := some o }, some (.trampoline caller))
  -- make_trampoline
  | .trampoline caller, .proceed =>
      if s.abandoned then some (s.touch, some (.guard caller false))
      else some (invokeImpl s.touch, some (.handler caller))
  | .handler caller, .proceed => some (s, some (.guard caller false))
  | .handler caller, .throws => some ({ s with handlerThrew := true }, some (.guard caller true))
  | .guard caller throws, .proceed =>
      some ({ s.touch.destroyTask with taskH := false }, some (.unwound caller throws))
  | .unwound caller throws, .proceed =>
      if throws then some ({ s with terminated := true }, none)
      else some (s, some (.finish caller))
  | .finish caller, .proceed =>
      some ({ s.touch with
        trampolineDestroyed := s.trampolineDestroyed + 1
        workFinished := s.workFinished + 1 }, caller.next)
  -- ~promise_type of a trampoline that is destroyed
  | .destroy, .proceed =>
      if s.taskH then some (s.touch.destroyTask, some (.unwound .executor false))
      else some (s.touch, some (.finish .executor))
  -- chain_owner::abandon
  | .post, .proceed => some ({ s.touch with posted := true, posts := s.posts + 1 }, some .posting)
  | .posting, .proceed => some (s, none)
  | _, _ => none

def foreign : Pc → Bool
  | .argument | .dispatched | .task _ | .handler _ | .unwound _ _ | .posting => true
  | _ => false

inductive Entry where
  | launch
  | resumeTask
  | abandon
  | resumePosted
  | destroyPosted
  deriving DecidableEq

/-- The party that holds the waiting segment resumes it or abandons it, and may
abandon it again until the posted trampoline is taken. -/
def enter (s : Launch) : Entry → Option (Launch × Option Pc)
  | .launch =>
      if s.launched then none
      else
        some ({ s with launched := true, tr := true, workStarted := s.workStarted + 1 },
          some .argument)
  | .resumeTask =>
      if s.segment = .none then none
      else some ({ s.touchTask with segment := .none }, some (.task .executor))
  | .abandon =>
      if s.segment ≠ .none ∨ s.abandoned = true ∧ s.unwinds = false then
        some ({ s.touch with segment := .none, abandoned := true },
          if s.abandoned then none else some .post)
      else none
  | .resumePosted =>
      if s.posted then
        some ({ s.touch with posted := false, unwinds := true }, some (.trampoline .executor))
      else none
  | .destroyPosted =>
      if s.posted then
        some ({ s.touch with posted := false, unwinds := true }, some .destroy)
      else none

/-- The step system of one launch. Nothing runs after `std::terminate`. -/
def machine : Machine Launch Pc Choice Entry :=
  Machine.ofSteps foreign (fun s _ _ pc c => if s.terminated then none else exec s pc c)
    (fun s _ _ e => if s.terminated then none else enter s e)

def Initial (s : State Launch Pc) : Prop := s = ⟨newLaunch, []⟩

def Reachable : State Launch Pc → Prop := machine.Reachable Initial

inductive Step (s : Launch) : Pc → Launch → Option Pc → Prop
  | argumentThrows : Step s .argument s (some .destructor)
  | argument :
      Step s .argument { s with taskCreated := s.taskCreated + 1 } (some .invoke)
  | invoke : Step s .invoke { s.touch with taskH := true } (some .dispatch)
  | dispatchThrows : Step s .dispatch s.touch (some .destructor)
  | dispatchHandle : Step s .dispatch s.touch (some (.clear true))
  | dispatchQueue :
      Step s .dispatch { s.touch with segment := .queued } (some .dispatched)
  | dispatched : Step s .dispatched s (some (.clear false))
  | clear {next} : Step s (.clear next) { s with tr := false } (some (.resume next))
  | resume : Step s (.resume true) s.touchTask (some (.task .wrapper))
  | resumeNoop : Step s (.resume false) s (some .destructor)
  | destructor : s.tr = true → Step s .destructor s.touch (some .destroy)
  | destructorNull : s.tr = false → Step s .destructor s none
  | suspend {caller} :
      Step s (.task caller) { s with segment := .suspended } (Caller.next caller)
  | complete {caller o} :
      Step s (.task caller) { s with completed := some o } (some (.trampoline caller))
  | abandoned {caller} : s.abandoned = true →
      Step s (.trampoline caller) s.touch (some (.guard caller false))
  | handle {caller} : s.abandoned = false →
      Step s (.trampoline caller) (invokeImpl s.touch) (some (.handler caller))
  | handled {caller} : Step s (.handler caller) s (some (.guard caller false))
  | handlerThrows {caller} :
      Step s (.handler caller) { s with handlerThrew := true } (some (.guard caller true))
  | guard {caller throws} :
      Step s (.guard caller throws) { s.touch.destroyTask with taskH := false }
        (some (.unwound caller throws))
  | terminate {caller} : Step s (.unwound caller true) { s with terminated := true } none
  | unwound {caller} : Step s (.unwound caller false) s (some (.finish caller))
  | finish {caller} :
      Step s (.finish caller)
        { s.touch with
          trampolineDestroyed := s.trampolineDestroyed + 1
          workFinished := s.workFinished + 1 } (Caller.next caller)
  | destroy : s.taskH = true →
      Step s .destroy s.touch.destroyTask (some (.unwound .executor false))
  | destroyNull : s.taskH = false → Step s .destroy s.touch (some (.finish .executor))
  | post : Step s .post { s.touch with posted := true, posts := s.posts + 1 } (some .posting)
  | posting : Step s .posting s none

theorem exec_step {s s' : Launch} {pc : Pc} {c : Choice} {q : Option Pc}
    (h : exec s pc c = some (s', q)) : Step s pc s' q := by
  cases pc <;> cases c <;> simp only [exec, reduceCtorEq] at h
  case resume.proceed next =>
    cases next <;> simp only [Bool.false_eq_true, if_true, if_false, Option.some.injEq,
      Prod.mk.injEq] at h <;> obtain ⟨rfl, rfl⟩ := h <;> constructor
  case destructor.proceed =>
    split at h <;> simp only [Option.some.injEq, Prod.mk.injEq] at h <;> obtain ⟨rfl, rfl⟩ := h
    · exact .destructor ‹_›
    · exact .destructorNull (eq_false_of_ne_true ‹_›)
  case trampoline.proceed =>
    split at h <;> simp only [Option.some.injEq, Prod.mk.injEq] at h <;> obtain ⟨rfl, rfl⟩ := h
    · exact .abandoned ‹_›
    · exact .handle (eq_false_of_ne_true ‹_›)
  case unwound.proceed caller throws =>
    cases throws <;> simp only [Bool.false_eq_true, if_true, if_false, Option.some.injEq,
      Prod.mk.injEq] at h <;> obtain ⟨rfl, rfl⟩ := h <;> constructor
  case destroy.proceed =>
    split at h <;> simp only [Option.some.injEq, Prod.mk.injEq] at h <;> obtain ⟨rfl, rfl⟩ := h
    · exact .destroy ‹_›
    · exact .destroyNull (eq_false_of_ne_true ‹_›)
  all_goals
    simp only [Option.some.injEq, Prod.mk.injEq] at h
    obtain ⟨rfl, rfl⟩ := h
    constructor

inductive Entered (s : Launch) : Launch → Option Pc → Prop
  | launch : s.launched = false →
      Entered s { s with launched := true, tr := true, workStarted := s.workStarted + 1 }
        (some .argument)
  | resumeTask : s.segment ≠ .none →
      Entered s { s.touchTask with segment := .none } (some (.task .executor))
  | abandon : s.segment ≠ .none → s.abandoned = false →
      Entered s { s.touch with segment := .none, abandoned := true } (some .post)
  | abandonAgain : s.segment ≠ .none ∨ s.unwinds = false → s.abandoned = true →
      Entered s { s.touch with segment := .none, abandoned := true } none
  | resumePosted : s.posted = true →
      Entered s { s.touch with posted := false, unwinds := true }
        (some (.trampoline .executor))
  | destroyPosted : s.posted = true →
      Entered s { s.touch with posted := false, unwinds := true } (some .destroy)

theorem enter_entered {s s' : Launch} {e : Entry} {q : Option Pc}
    (h : enter s e = some (s', q)) : Entered s s' q := by
  cases e with
  | launch =>
      simp only [enter, Option.ite_none_left_eq_some, Bool.not_eq_true, Option.some.injEq,
        Prod.mk.injEq] at h
      obtain ⟨hnew, rfl, rfl⟩ := h
      exact .launch hnew
  | resumeTask =>
      simp only [enter, Option.ite_none_left_eq_some, Option.some.injEq, Prod.mk.injEq] at h
      obtain ⟨hsegment, rfl, rfl⟩ := h
      exact .resumeTask hsegment
  | abandon =>
      simp only [enter, Option.ite_none_right_eq_some, Option.some.injEq, Prod.mk.injEq] at h
      obtain ⟨hheld, rfl, rfl⟩ := h
      cases habandoned : s.abandoned with
      | true => exact .abandonAgain (hheld.imp_right And.right) habandoned
      | false =>
          refine .abandon (hheld.resolve_right ?_) habandoned
          simp [habandoned]
  | resumePosted =>
      simp only [enter, Option.ite_none_right_eq_some, Option.some.injEq, Prod.mk.injEq] at h
      obtain ⟨hposted, rfl, rfl⟩ := h
      exact .resumePosted hposted
  | destroyPosted =>
      simp only [enter, Option.ite_none_right_eq_some, Option.some.injEq, Prod.mk.injEq] at h
      obtain ⟨hposted, rfl, rfl⟩ := h
      exact .destroyPosted hposted

end Capy.RunAsync
