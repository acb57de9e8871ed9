import Mathlib.Logic.Function.Basic
import Capy.CallStack

/-!
`run_blocking` and the `blocking_context` of `test/run_blocking.cpp`: any number
of calls, nested on one thread or on many threads, whose tasks post and dispatch
to any of the contexts. A critical section is one step, and `running_` is a
variable of each thread.
-/

namespace Capy.RunBlocking

open Capy.CallStack

/-- What became of the task of a call: its handlers returned or threw an
exception, or the handlers were destroyed without being invoked. -/
inductive Outcome where
  | returned
  | threw (e : Nat)
  | canceled
  deriving DecidableEq

/-- The `blocking_handler_wrapper` of a call: its `ctx_` is null once it is spent. -/
inductive Wrapper where
  | waiting
  | invoked
  | spent
  deriving DecidableEq

/-- `blocking_context::impl` and the wrapper of the call. Then what became of the
task, how `run()` ended and, oldest first, the continuations that were queued,
resumed and given up. -/
structure BlockingContext where
  queue : List Nat
  ep : Option Nat
  done : Bool
  abandoned : Bool
  /-- The thread in `run()` sleeps in `cv`. -/
  sleeping : Bool
  wrapper : Wrapper
  signalled : Option Outcome
  ran : Option Outcome
  enqueued : List Nat
  resumed : List Nat
  given : List Nat
  destroyed : Bool

def newContext : BlockingContext where
  queue := []
  ep := none
  done := false
  abandoned := false
  sleeping := false
  wrapper := .waiting
  signalled := none
  ran := none
  enqueued := []
  resumed := []
  given := []
  destroyed := false

/-- The contexts, of which `created` have been constructed, and the `running_` of
every thread. -/
structure System where
  contexts : Nat → BlockingContext
  created : Nat
  running : Nat → Option Nat

def newSystem : System where
  contexts _ := newContext
  created := 0
  running _ := none

def System.setContext (s : System) (k : Nat) (x : BlockingContext) : System :=
  { s with contexts := Function.update s.contexts k x }

def System.setRunning (s : System) (t : Nat) (running : Option Nat) : System :=
  { s with running := Function.update s.running t running }

/-- Where an activation stands. `prev` is the `running_` that `scoped_running`
saved, and the flag of a drain tells that it is the second one. -/
inductive Place where
  | start
  | run
  | wait (prev : Option Nat)
  | resume (prev : Option Nat) (c : Nat)
  | resuming (prev : Option Nat)
  | runEnd (prev : Option Nat)
  | shutdown
  | drain (last : Bool)
  | drainAbandon (c : Nat) (last : Bool)
  | abandoning (last : Bool)
  | destroy
  | enqueue (c : Nat)
  | handlers
  | signalDone (ep : Option Nat)
  | signalAbandoned
  deriving DecidableEq

/-- An activation, with the context that it is about. -/
structure Pc where
  ctx : Nat
  place : Place
  deriving DecidableEq

/-- `throws e` makes foreign code throw, or the queue when it grows; `wake` is a
spurious wakeup. -/
inductive Choice where
  | proceed
  | throws (e : Nat)
  | wake
  deriving DecidableEq

/-- How `run()` ends. -/
def result (x : BlockingContext) : Outcome :=
  match x.ep with
  | some e => .threw e
  | none => if x.abandoned then .canceled else .returned

/-- One step of an activation that leaves `running_` alone. -/
def execContext (x : BlockingContext) : Place → Choice → Option (BlockingContext × Option Place)
  -- run_blocking_wrapper::operator()
  | .start, .throws _ =>
      -- run_async has destroyed the handlers when it throws
      if x.done then some (x, some .shutdown) else none
  | .start, _ => some (x, some .run)
  -- run
  | .wait prev, choice =>
      if x.sleeping then
        if choice = .wake then some ({ x with sleeping := false }, some (.wait prev)) else none
      else
        match x.queue with
        | [] =>
            if x.done then some (x, some (.runEnd prev))
            else some ({ x with sleeping := true }, some (.wait prev))
        | c :: queue => some ({ x with queue := queue }, some (.resume prev c))
  | .resume prev c, _ => some ({ x with resumed := x.resumed ++ [c] }, some (.resuming prev))
  | .resuming prev, _ => some (x, some (.wait prev))
  -- ~blocking_context
  | .shutdown, _ => some (x, some (.drain false))
  | .drain last, _ =>
      match x.queue with
      | [] => if last then some ({ x with destroyed := true }, none) else some (x, some .destroy)
      | c :: queue => some ({ x with queue := queue }, some (.drainAbandon c last))
  | .drainAbandon c last, _ =>
      some ({ x with given := x.given ++ [c] }, some (.abandoning last))
  | .abandoning last, _ => some (x, some (.drain last))
  | .destroy, _ => some (x, some (.drain true))
  -- enqueue; nobody may use a destroyed context
  | .enqueue c, choice =>
      if x.destroyed then none
      else
        match choice with
        | .throws _ => some (x, none)
        | _ =>
            some ({ x with
              queue := x.queue ++ [c]
              enqueued := x.enqueued ++ [c]
              sleeping := false }, none)
  -- blocking_handler_wrapper::operator()
  | .handlers, .throws e =>
      some ({ x with wrapper := .spent, signalled := some (.threw e) },
        some (.signalDone (some e)))
  | .handlers, _ =>
      some ({ x with wrapper := .spent, signalled := some .returned }, some (.signalDone none))
  | .signalDone none, _ => some ({ x with done := true, sleeping := false }, none)
  | .signalDone (some e), _ =>
      some ({ x with ep := some e, done := true, sleeping := false }, none)
  | .signalAbandoned, _ =>
      some ({ x with abandoned := true, done := true, sleeping := false }, none)
  | .run, _ | .runEnd _, _ => none

def exec (s : System) (t : Nat) (pc : Pc) (choice : Choice) : Option (System × Option Pc) :=
  match pc.place with
  -- scoped_running
  | .run => some (s.setRunning t (some pc.ctx), some ⟨pc.ctx, .wait (s.running t)⟩)
  | .runEnd prev =>
      some ((s.setContext pc.ctx
        { s.contexts pc.ctx with ran := some (result (s.contexts pc.ctx)) }).setRunning t prev,
        some ⟨pc.ctx, .shutdown⟩)
  | place =>
      (execContext (s.contexts pc.ctx) place choice).map fun p =>
        (s.setContext pc.ctx p.1, p.2.map (Pc.mk pc.ctx))

/-- The start of the task, resumed and abandoned coroutines, the services that the
destructor shuts down and destroys, and the handlers run code of others. -/
def foreign (pc : Pc) : Bool :=
  match pc.place with
  | .start | .resuming _ | .shutdown | .abandoning _ | .destroy | .handlers => true
  | _ => false

/-- What is called from outside. A wrapper that was moved from or invoked does
nothing when it is destroyed. -/
inductive Entry where
  | runBlocking
  | post (k c : Nat)
  | dispatch (k c : Nat)
  | invoke (k : Nat)
  | destroyWrapper (k : Nat)
  deriving DecidableEq

/-- The context may be used. -/
def System.usable (s : System) (k : Nat) : Bool :=
  k < s.created ∧ (s.contexts k).destroyed = false

/-- The wrapper of the call has neither been invoked nor destroyed. -/
def System.armed (s : System) (k : Nat) : Bool :=
  k < s.created ∧ (s.contexts k).wrapper = .waiting

def enter (s : System) (t : Nat) : Entry → Option (System × Option Pc)
  | .runBlocking => some ({ s with created := s.created + 1 }, some ⟨s.created, .start⟩)
  | .post k c => if s.usable k then some (s, some ⟨k, .enqueue c⟩) else none
  | .dispatch k c =>
      if s.usable k then
        if s.running t = some k then some (s, none) else some (s, some ⟨k, .enqueue c⟩)
      else none
  | .invoke k =>
      if s.armed k then
        some (s.setContext k { s.contexts k with wrapper := .invoked }, some ⟨k, .handlers⟩)
      else none
  | .destroyWrapper k =>
      if s.armed k then
        some (s.setContext k
          { s.contexts k with wrapper := .spent, signalled := some .canceled },
          some ⟨k, .signalAbandoned⟩)
      else none

def machine : Machine System Pc Choice Entry :=
  Machine.ofSteps foreign (fun s _ => exec s) fun s _ => enter s

def Initial (s : State System Pc) : Prop := s = ⟨newSystem, []⟩

def Reachable : State System Pc → Prop := machine.Reachable Initial

/-- The steps of an activation on a thread whose `running_` is `running`, as far as
they concern its own context. -/
inductive Step (running : Option Nat) (x : BlockingContext) :
    Place → BlockingContext → Option Place → Prop
  | started : Step running x .start x (some .run)
  | startThrows : x.done = true → Step running x .start x (some .shutdown)
  | run : Step running x .run x (some (.wait running))
  | wake {prev} : x.sleeping = true →
      Step running x (.wait prev) { x with sleeping := false } (some (.wait prev))
  | finish {prev} : x.sleeping = false → x.queue = [] → x.done = true →
      Step running x (.wait prev) x (some (.runEnd prev))
  | sleep {prev} : x.sleeping = false → x.queue = [] → x.done = false →
      Step running x (.wait prev) { x with sleeping := true } (some (.wait prev))
  | take {prev c queue} : x.sleeping = false → x.queue = c :: queue →
      Step running x (.wait prev) { x with queue := queue } (some (.resume prev c))
  | resume {prev c} :
      Step running x (.resume prev c) { x with resumed := x.resumed ++ [c] }
        (some (.resuming prev))
  | resumed {prev} : Step running x (.resuming prev) x (some (.wait prev))
  | runEnd {prev} :
      Step running x (.runEnd prev) { x with ran := some (result x) } (some .shutdown)
  | shutdown : Step running x .shutdown x (some (.drain false))
  | drained : x.queue = [] → Step running x (.drain false) x (some .destroy)
  | destroyed : x.queue = [] → Step running x (.drain true) { x with destroyed := true } none
  | drainTake {c queue last} : x.queue = c :: queue →
      Step running x (.drain last) { x with queue := queue } (some (.drainAbandon c last))
  | abandon {c last} :
      Step running x (.drainAbandon c last) { x with given := x.given ++ [c] }
        (some (.abandoning last))
  | abandoned {last} : Step running x (.abandoning last) x (some (.drain last))
  | destroy : Step running x .destroy x (some (.drain true))
  | enqueue {c} : x.destroyed = false →
      Step running x (.enqueue c)
        { x with
          queue := x.queue ++ [c]
          enqueued := x.enqueued ++ [c]
          sleeping := false } none
  | enqueueThrows {c} : x.destroyed = false → Step running x (.enqueue c) x none
  | handlersReturn :
      Step running x .handlers { x with wrapper := .spent, signalled := some .returned }
        (some (.signalDone none))
  | handlersThrow {e} :
      Step running x .handlers { x with wrapper := .spent, signalled := some (.threw e) }
        (some (.signalDone (some e)))
  | signalDone :
      Step running x (.signalDone none) { x with done := true, sleeping := false } none
  | signalThrown {e} :
      Step running x (.signalDone (some e))
        { x with ep := some e, done := true, sleeping := false } none
  | signalAbandoned :
      Step running x .signalAbandoned
        { x with abandoned := true, done := true, sleeping := false } none

theorem wait_step {running prev : Option Nat} {x x' : BlockingContext} {choice : Choice}
    {q : Option Place} (h : execContext x (.wait prev) choice = some (x', q)) :
    Step running x (.wait prev) x' q := by
  simp only [execContext] at h
  cases hsleeping : x.sleeping with
  | true =>
      simp only [hsleeping, if_true, Option.ite_none_right_eq_some, Option.some.injEq,
        Prod.mk.injEq] at h
      obtain ⟨-, rfl, rfl⟩ := h
      exact .wake hsleeping
  | false =>
      rw [if_neg (by simp [hsleeping])] at h
      split at h
      · rename_i hqueue
        split_ifs at h with hdone <;> obtain ⟨rfl, rfl⟩ := by
          simpa only [Option.some.injEq, Prod.mk.injEq] using h
        · exact .finish hsleeping hqueue hdone
        · exact .sleep hsleeping hqueue (by simpa using hdone)
      · rename_i c queue hqueue
        obtain ⟨rfl, rfl⟩ := by simpa only [Option.some.injEq, Prod.mk.injEq] using h
        exact .take hsleeping hqueue

theorem execContext_step {running : Option Nat} {x x' : BlockingContext} {p : Place}
    {choice : Choice} {q : Option Place} (h : execContext x p choice = some (x', q)) :
    Step running x p x' q := by
  cases p with
  | wait prev => exact wait_step h
  | start =>
      cases choice <;> simp only [execContext, Option.ite_none_right_eq_some, Option.some.injEq,
        Prod.mk.injEq] at h
      case throws =>
        obtain ⟨hdone, rfl, rfl⟩ := h
        exact .startThrows hdone
      all_goals
        obtain ⟨rfl, rfl⟩ := h
        exact .started
  | drain last =>
      simp only [execContext] at h
      split at h
      · rename_i hqueue
        cases last <;> simp only [Bool.false_eq_true, if_true, if_false, Option.some.injEq,
          Prod.mk.injEq] at h <;> obtain ⟨rfl, rfl⟩ := h
        · exact .drained hqueue
        · exact .destroyed hqueue
      · rename_i c queue hqueue
        obtain ⟨rfl, rfl⟩ := by simpa only [Option.some.injEq, Prod.mk.injEq] using h
        exact .drainTake hqueue
  | enqueue c =>
      cases choice <;> simp only [execContext, Option.ite_none_left_eq_some, Option.some.injEq,
        Prod.mk.injEq, Bool.not_eq_true] at h <;> obtain ⟨hlive, rfl, rfl⟩ := h
      case throws => exact .enqueueThrows hlive
      all_goals exact .enqueue hlive
  | signalDone ep =>
      cases ep <;> obtain ⟨rfl, rfl⟩ := by
        simpa only [execContext, Option.some.injEq, Prod.mk.injEq] using h
      · exact .signalDone
      · exact .signalThrown
  | handlers =>
      cases choice <;> obtain ⟨rfl, rfl⟩ := by
        simpa only [execContext, Option.some.injEq, Prod.mk.injEq] using h
      case throws => exact .handlersThrow
      all_goals exact .handlersReturn
  | run | runEnd => simp [execContext] at h
  | _ =>
      obtain ⟨rfl, rfl⟩ := by simpa only [execContext, Option.some.injEq, Prod.mk.injEq] using h
      constructor

/-- The `running_` of a thread after a step of its activation. -/
def Pc.runningAfter (pc : Pc) (running : Option Nat) : Option Nat :=
  match pc.place with
  | .run => some pc.ctx
  | .runEnd prev => prev
  | _ => running

theorem exec_step {s s' : System} {t : Nat} {pc : Pc} {choice : Choice} {q : Option Pc}
    (h : exec s t pc choice = some (s', q)) :
    ∃ x p, Step (s.running t) (s.contexts pc.ctx) pc.place x p ∧ q = p.map (Pc.mk pc.ctx) ∧
      s'.contexts = Function.update s.contexts pc.ctx x ∧ s'.created = s.created ∧
      s'.running = Function.update s.running t (pc.runningAfter (s.running t)) := by
  obtain ⟨k, p⟩ := pc
  have hlocal (h : (execContext (s.contexts k) p choice).map (fun r =>
      (s.setContext k r.1, r.2.map (Pc.mk k))) = some (s', q)) :
      ∃ x p', Step (s.running t) (s.contexts k) p x p' ∧ q = p'.map (Pc.mk k) ∧
        s' = s.setContext k x := by
    obtain ⟨⟨x, p'⟩, hexec, heq⟩ := Option.map_eq_some_iff.mp h
    obtain ⟨rfl, rfl⟩ := Prod.mk.inj heq
    exact ⟨x, p', execContext_step hexec, rfl, rfl⟩
  cases p with
  | run =>
      obtain ⟨rfl, rfl⟩ := by simpa only [exec, Option.some.injEq, Prod.mk.injEq] using h
      exact ⟨_, _, .run, rfl, by simp [System.setRunning], rfl, rfl⟩
  | runEnd prev =>
      obtain ⟨rfl, rfl⟩ := by simpa only [exec, Option.some.injEq, Prod.mk.injEq] using h
      exact ⟨_, _, .runEnd, rfl, rfl, rfl, rfl⟩
  | _ =>
      obtain ⟨x, p', hstep, rfl, rfl⟩ := hlocal h
      exact ⟨x, p', hstep, rfl, rfl, rfl, by simp [System.setContext, Pc.runningAfter]⟩

/-- The calls that `enter` starts, with the context that they change. -/
inductive Entered (s : System) (running : Option Nat) : Nat → BlockingContext → Option Pc → Prop
  | post {k c} : k < s.created → (s.contexts k).destroyed = false →
      Entered s running k (s.contexts k) (some ⟨k, .enqueue c⟩)
  | inline {k} : k < s.created → (s.contexts k).destroyed = false → running = some k →
      Entered s running k (s.contexts k) none
  | invoke {k} : k < s.created → (s.contexts k).wrapper = .waiting →
      Entered s running k { s.contexts k with wrapper := .invoked } (some ⟨k, .handlers⟩)
  | destroyWrapper {k} : k < s.created → (s.contexts k).wrapper = .waiting →
      Entered s running k
        { s.contexts k with wrapper := .spent, signalled := some .canceled }
        (some ⟨k, .signalAbandoned⟩)

theorem enter_entered {s s' : System} {t : Nat} {e : Entry} {q : Option Pc}
    (h : enter s t e = some (s', q)) :
    s'.running = s.running ∧
      (s'.contexts = s.contexts ∧ s'.created = s.created + 1 ∧ q = some ⟨s.created, .start⟩ ∨
        s'.created = s.created ∧ ∃ k x, Entered s (s.running t) k x q ∧
          s'.contexts = Function.update s.contexts k x) := by
  cases e with
  | runBlocking =>
      obtain ⟨rfl, rfl⟩ := by simpa only [enter, Option.some.injEq, Prod.mk.injEq] using h
      exact ⟨rfl, .inl ⟨rfl, rfl, rfl⟩⟩
  | post k c =>
      simp only [enter, System.usable, decide_eq_true_eq, Option.ite_none_right_eq_some,
        Option.some.injEq, Prod.mk.injEq] at h
      obtain ⟨⟨hk, hlive⟩, rfl, rfl⟩ := h
      exact ⟨rfl, .inr ⟨rfl, k, _, .post hk hlive, by simp⟩⟩
  | dispatch k c =>
      simp only [enter, System.usable, decide_eq_true_eq, Option.ite_none_right_eq_some] at h
      obtain ⟨⟨hk, hlive⟩, h⟩ := h
      split_ifs at h with hrunning <;>
        obtain ⟨rfl, rfl⟩ := by simpa only [Option.some.injEq, Prod.mk.injEq] using h
      · exact ⟨rfl, .inr ⟨rfl, k, _, .inline hk hlive hrunning, by simp⟩⟩
      · exact ⟨rfl, .inr ⟨rfl, k, _, .post hk hlive, by simp⟩⟩
  | invoke k =>
      simp only [enter, System.armed, decide_eq_true_eq, Option.ite_none_right_eq_some,
        Option.some.injEq, Prod.mk.injEq] at h
      obtain ⟨⟨hk, hwaiting⟩, rfl, rfl⟩ := h
      exact ⟨rfl, .inr ⟨rfl, k, _, .invoke hk hwaiting, rfl⟩⟩
  | destroyWrapper k =>
      simp only [enter, System.armed, decide_eq_true_eq, Option.ite_none_right_eq_some,
        Option.some.injEq, Prod.mk.injEq] at h
      obtain ⟨⟨hk, hwaiting⟩, rfl, rfl⟩ := h
      exact ⟨rfl, .inr ⟨rfl, k, _, .destroyWrapper hk hwaiting, rfl⟩⟩

end Capy.RunBlocking
