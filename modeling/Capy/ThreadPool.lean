import Capy.IntrusiveQueue
import Capy.ThreadPoolWork

/-!
The queue, the workers and the destructor of `thread_pool.cpp`. A critical
section that does nothing else than its own reads and writes is one step, which
needs `mutex_` free; the longer ones of `join()` and `on_work_finished` are the
steps of `ThreadPoolWork`.
-/

namespace Capy.ThreadPool

open Capy.CallStack
open Capy.IntrusiveQueue

/-- The fields of `thread_pool::impl`; those of work counting are in `work` and
`threads` is the length of `threads_`. Then how many of these threads have begun
and have left `run`, how far the destructor is, and, oldest first, the
continuations passed to `post`, those whose post threw, those pushed, those
taken by workers, those resumed, those popped by `drain_abandoned`, and which of
the last were abandoned and which skipped. -/
structure Pool where
  work : ThreadPoolWork.Pool
  queue : Queue Nat
  numThreads : Nat
  threads : Nat
  started : Bool
  begun : Nat
  exited : Nat
  closing : Bool
  destroyed : Bool
  submitted : List Nat
  thrown : List Nat
  posted : List Nat
  taken : List Nat
  resumed : List Nat
  drained : List Nat
  abandoned : List Nat
  skipped : List Nat

/-- The constructor, with the value of `hardware_concurrency()`. -/
def newPool (numThreads hardwareConcurrency : Nat) : Pool where
  work := ThreadPoolWork.newPool
  queue := .empty
  numThreads := if numThreads = 0 then max hardwareConcurrency 1 else numThreads
  threads := 0
  started := false
  begun := 0
  exited := 0
  closing := false
  destroyed := false
  submitted := []
  thrown := []
  posted := []
  taken := []
  resumed := []
  drained := []
  abandoned := []
  skipped := []

def Pool.push (s : Pool) (c : Nat) : Pool :=
  { s with queue := s.queue.push c, posted := s.posted ++ [c] }

/-- Who makes a call of work counting: the user, or the destructor its
`join()`. -/
inductive Caller where
  | user
  | destructor
  deriving DecidableEq

/-- The flag of a drain tells that it is the second one of the destructor. -/
inductive Pc where
  | work (pc : ThreadPoolWork.Pc) (caller : Caller)
  | post (c : Nat)
  | postStopped (c : Nat)
  | ensureStarted (c : Nat)
  | postPush (c : Nat)
  | run
  | runResume (c : Nat)
  | resuming (c : Nat)
  | stop
  | shutdown
  | drain (last : Bool)
  | drainAbandon (c : Nat) (last : Bool)
  | abandoning (c : Nat) (last : Bool)
  | destroy
  deriving DecidableEq

/-- Where the caller goes on after the call. -/
def Caller.next : Caller → Option Pc
  | .user => none
  | .destructor => some .shutdown

/-- `spurious` makes a weak compare-exchange fail, and `throws k` makes
`ensure_started` throw after it started `k` threads; they mean nothing to the
other steps. -/
inductive Choice where
  | proceed
  | spurious
  | throws (k : Nat)
  deriving DecidableEq

/-- One step of an activation. `idle c` tells that the handle of `c` is null or
the no-op coroutine. -/
def exec (idle : Nat → Bool) (s : Pool) : Pc → Choice → Option (Pool × Option Pc)
  | .work pc caller, choice =>
      -- std::thread::join returns when the thread has left run
      if pc = .joinThreads ∧ s.exited ≠ s.threads then none
      else
        (ThreadPoolWork.exec s.work pc (decide (choice = .spurious))).map fun p =>
          ({ s with work := p.1 }, p.2.elim caller.next fun pc' => some (.work pc' caller))
  -- post
  | .post c, _ => some (s, some (if s.started then .postPush c else .postStopped c))
  | .postStopped c, _ =>
      if s.work.mutex then none
      else if s.work.stop then some (s.push c, none)
      else some (s, some (.ensureStarted c))
  | .ensureStarted c, choice =>
      if s.work.mutex then none
      else if s.started ∨ s.work.stop then some (s, some (.postPush c))
      else
        match choice with
        | .throws k =>
            if s.threads + k < s.numThreads then
              some ({ s with threads := s.threads + k, thrown := s.thrown ++ [c] }, none)
            else none
        | _ =>
            some ({ s with
              threads := max s.threads s.numThreads
              started := true }, some (.postPush c))
  | .postPush c, _ => if s.work.mutex then none else some (s.push c, none)
  -- run
  | .run, _ =>
      if s.work.mutex then none
      else if s.work.stop then some ({ s with exited := s.exited + 1 }, none)
      else
        match s.queue.pop with
        | (_, none) => none
        | (queue, some c) =>
            some ({ s with queue := queue, taken := s.taken ++ [c] }, some (.runResume c))
  | .runResume c, _ => some ({ s with resumed := s.resumed ++ [c] }, some (.resuming c))
  | .resuming _, _ => some (s, some .run)
  -- ~thread_pool
  | .stop, _ =>
      (ThreadPoolWork.exec s.work .stopLock false).map fun p =>
        ({ s with work := p.1 }, some (.work .joinLock .destructor))
  | .shutdown, _ => some (s, some (.drain false))
  | .drain last, _ =>
      if s.work.mutex then none
      else
        match s.queue.pop with
        | (_, none) =>
            if last then some ({ s with destroyed := true }, none)
            else some (s, some .destroy)
        | (queue, some c) =>
            some ({ s with queue := queue, drained := s.drained ++ [c] },
              some (.drainAbandon c last))
  | .drainAbandon c last, _ =>
      if idle c then some ({ s with skipped := s.skipped ++ [c] }, some (.drain last))
      else some ({ s with abandoned := s.abandoned ++ [c] }, some (.abandoning c last))
  | .abandoning _ last, _ => some (s, some (.drain last))
  | .destroy, _ => some (s, some (.drain true))

/-- Resumed and abandoned coroutines, and the services that the destructor shuts
down and destroys, run code of others. -/
def foreign : Pc → Bool
  | .resuming _ | .abandoning _ _ | .shutdown | .destroy => true
  | _ => false

/-- The thread is a worker of this pool: `current_` points to the pool. -/
def inWorker : Pc → Bool
  | .run | .runResume _ | .resuming _ => true
  | _ => false

def runningInThisThread (t : Nat) (fs : List (Frame Pc)) : Bool :=
  fs.any fun f => f.thread = t ∧ inWorker f.pc = true

/-- Every earlier post of the continuation has ended: it threw, or the
continuation has been resumed or given up. Posting it before that would link one
node twice. -/
def settled (s : Pool) (c : Nat) : Bool :=
  s.submitted.count c =
    s.thrown.count c + s.resumed.count c + s.abandoned.count c + s.skipped.count c

inductive Entry where
  | post (c : Nat)
  | dispatch (c : Nat)
  | startWorker
  | work (e : ThreadPoolWork.Entry)
  | destroy
  deriving DecidableEq

def enterPost (s : Pool) (c : Nat) : Option (Pool × Option Pc) :=
  if settled s c then some ({ s with submitted := s.submitted ++ [c] }, some (.post c))
  else none

def enter (s : Pool) (fs : List (Frame Pc)) (t : Nat) : Entry → Option (Pool × Option Pc)
  | .post c => enterPost s c
  | .dispatch c => if runningInThisThread t fs then some (s, none) else enterPost s c
  | .startWorker =>
      if s.begun < s.threads ∧ ∀ f ∈ fs, f.thread ≠ t then
        some ({ s with begun := s.begun + 1 }, some .run)
      else none
  | .work e =>
      (ThreadPoolWork.enter s.work e).map fun p =>
        ({ s with work := p.1 }, p.2.map fun pc => .work pc .user)
  | .destroy =>
      if s.closing then none
      else some ({ s with closing := true }, some .stop)

/-- The step system of a pool. Nothing uses the pool once it is destroyed. -/
def machine (idle : Nat → Bool) : Machine Pool Pc Choice Entry :=
  Machine.ofSteps foreign
    (fun s _ _ pc choice => if s.destroyed then none else exec idle s pc choice)
    (fun s fs t e => if s.destroyed then none else enter s fs t e)

def Initial (s : State Pool Pc) : Prop := ∃ n hardware, s = ⟨newPool n hardware, []⟩

def Reachable (idle : Nat → Bool) : State Pool Pc → Prop :=
  (machine idle).Reachable Initial

inductive Step (idle : Nat → Bool) (s : Pool) : Pc → Pool → Option Pc → Prop
  | work {pc caller w q} : (pc = .joinThreads → s.exited = s.threads) →
      ThreadPoolWork.Step s.work pc w q →
      Step idle s (.work pc caller) { s with work := w }
        (q.elim caller.next fun pc' => some (.work pc' caller))
  | postStarted {c} : s.started = true → Step idle s (.post c) s (some (.postPush c))
  | postUnstarted {c} : s.started = false → Step idle s (.post c) s (some (.postStopped c))
  | pushStopped {c} : s.work.stop = true → Step idle s (.postStopped c) (s.push c) none
  | notStopped {c} : s.work.stop = false →
      Step idle s (.postStopped c) s (some (.ensureStarted c))
  | startNone {c} : s.started = true ∨ s.work.stop = true →
      Step idle s (.ensureStarted c) s (some (.postPush c))
  | startThrows {c k} : s.started = false → s.threads + k < s.numThreads →
      Step idle s (.ensureStarted c)
        { s with threads := s.threads + k, thrown := s.thrown ++ [c] } none
  | startAll {c} : s.started = false →
      Step idle s (.ensureStarted c)
        { s with threads := max s.threads s.numThreads, started := true }
        (some (.postPush c))
  | push {c} : Step idle s (.postPush c) (s.push c) none
  | exit : s.work.stop = true → Step idle s .run { s with exited := s.exited + 1 } none
  | take {c queue} : s.work.stop = false → s.queue.pop = (queue, some c) →
      Step idle s .run { s with queue := queue, taken := s.taken ++ [c] }
        (some (.runResume c))
  | resume {c} :
      Step idle s (.runResume c) { s with resumed := s.resumed ++ [c] } (some (.resuming c))
  | resumed {c} : Step idle s (.resuming c) s (some .run)
  | stop {w q} : ThreadPoolWork.Step s.work .stopLock w q →
      Step idle s .stop { s with work := w } (some (.work .joinLock .destructor))
  | shutdown : Step idle s .shutdown s (some (.drain false))
  | drained {last} {q : Option Pc} : s.queue.pop.2 = none →
      q = (if last then none else some .destroy) →
      Step idle s (.drain last) { s with destroyed := last || s.destroyed } q
  | drainTake {c queue last} : s.queue.pop = (queue, some c) →
      Step idle s (.drain last) { s with queue := queue, drained := s.drained ++ [c] }
        (some (.drainAbandon c last))
  | skip {c last} : idle c = true →
      Step idle s (.drainAbandon c last) { s with skipped := s.skipped ++ [c] }
        (some (.drain last))
  | abandon {c last} : idle c = false →
      Step idle s (.drainAbandon c last) { s with abandoned := s.abandoned ++ [c] }
        (some (.abandoning c last))
  | abandoned {c last} : Step idle s (.abandoning c last) s (some (.drain last))
  | destroy : Step idle s .destroy s (some (.drain true))

theorem exec_step {idle : Nat → Bool} {s s' : Pool} {pc : Pc} {choice : Choice}
    {q : Option Pc} (h : exec idle s pc choice = some (s', q)) : Step idle s pc s' q := by
  cases pc with
  | work pc caller =>
      simp only [exec, Option.ite_none_left_eq_some, not_and, not_not] at h
      obtain ⟨hjoin, h⟩ := h
      obtain ⟨⟨w, q'⟩, hexec, heq⟩ := Option.map_eq_some_iff.mp h
      obtain ⟨rfl, rfl⟩ := Prod.mk.inj heq
      exact .work hjoin (ThreadPoolWork.exec_step hexec)
  | post c =>
      simp only [exec, Option.some.injEq, Prod.mk.injEq] at h
      obtain ⟨rfl, rfl⟩ := h
      cases hstarted : s.started
      · exact .postUnstarted hstarted
      · exact .postStarted hstarted
  | postStopped c =>
      simp only [exec, Option.ite_none_left_eq_some] at h
      obtain ⟨-, h⟩ := h
      split_ifs at h with hstop <;>
        (simp only [Option.some.injEq, Prod.mk.injEq] at h; obtain ⟨rfl, rfl⟩ := h)
      · exact .pushStopped hstop
      · exact .notStopped (by simpa using hstop)
  | ensureStarted c =>
      simp only [exec, Option.ite_none_left_eq_some] at h
      obtain ⟨-, h⟩ := h
      split_ifs at h with hskip
      · simp only [Option.some.injEq, Prod.mk.injEq] at h
        obtain ⟨rfl, rfl⟩ := h
        exact .startNone hskip
      · have hstarted : s.started = false := by
          simp only [not_or] at hskip
          simpa using hskip.1
        cases choice with
        | throws k =>
            simp only [Option.ite_none_right_eq_some, Option.some.injEq, Prod.mk.injEq] at h
            obtain ⟨hk, rfl, rfl⟩ := h
            exact .startThrows hstarted hk
        | _ =>
            simp only [Option.some.injEq, Prod.mk.injEq] at h
            obtain ⟨rfl, rfl⟩ := h
            exact .startAll hstarted
  | postPush c =>
      simp only [exec, Option.ite_none_left_eq_some, Option.some.injEq, Prod.mk.injEq] at h
      obtain ⟨-, rfl, rfl⟩ := h
      exact .push
  | run =>
      simp only [exec, Option.ite_none_left_eq_some] at h
      obtain ⟨-, h⟩ := h
      split_ifs at h with hstop
      · simp only [Option.some.injEq, Prod.mk.injEq] at h
        obtain ⟨rfl, rfl⟩ := h
        exact .exit hstop
      · split at h
        · simp at h
        · rename_i queue c hpop
          simp only [Option.some.injEq, Prod.mk.injEq] at h
          obtain ⟨rfl, rfl⟩ := h
          exact .take (by simpa using hstop) hpop
  | drain last =>
      simp only [exec, Option.ite_none_left_eq_some] at h
      obtain ⟨-, h⟩ := h
      split at h
      · rename_i queue hpop
        cases last <;>
          (simp only [if_true, Bool.false_eq_true, if_false, Option.some.injEq,
            Prod.mk.injEq] at h; obtain ⟨rfl, rfl⟩ := h)
        · exact .drained (by rw [hpop]) rfl
        · exact .drained (by rw [hpop]) rfl
      · rename_i queue c hpop
        simp only [Option.some.injEq, Prod.mk.injEq] at h
        obtain ⟨rfl, rfl⟩ := h
        exact .drainTake hpop
  | drainAbandon c last =>
      simp only [exec] at h
      split_ifs at h with hidle <;>
        (simp only [Option.some.injEq, Prod.mk.injEq] at h; obtain ⟨rfl, rfl⟩ := h)
      · exact .skip hidle
      · exact .abandon (by simpa using hidle)
  | stop =>
      obtain ⟨⟨w, q'⟩, hexec, heq⟩ := Option.map_eq_some_iff.mp h
      obtain ⟨rfl, rfl⟩ := Prod.mk.inj heq
      exact .stop (ThreadPoolWork.exec_step hexec)
  | runResume | resuming | shutdown | abandoning | destroy =>
      simp only [exec, Option.some.injEq, Prod.mk.injEq] at h
      obtain ⟨rfl, rfl⟩ := h
      constructor

inductive Entered (s : Pool) : Pool → Option Pc → Prop
  | post {c} : settled s c = true →
      Entered s { s with submitted := s.submitted ++ [c] } (some (.post c))
  | inWorker : Entered s s none
  | startWorker : s.begun < s.threads →
      Entered s { s with begun := s.begun + 1 } (some .run)
  | work {e w q} : ThreadPoolWork.enter s.work e = some (w, q) →
      Entered s { s with work := w } (q.map fun pc => .work pc .user)
  | destroy : s.closing = false →
      Entered s { s with closing := true } (some .stop)

theorem enterPost_entered {s s' : Pool} {c : Nat} {q : Option Pc}
    (h : enterPost s c = some (s', q)) : Entered s s' q := by
  simp only [enterPost, Option.ite_none_right_eq_some, Option.some.injEq,
    Prod.mk.injEq] at h
  obtain ⟨hsettled, rfl, rfl⟩ := h
  exact .post hsettled

theorem enter_entered {s s' : Pool} {fs : List (Frame Pc)} {t : Nat} {e : Entry}
    {q : Option Pc} (h : enter s fs t e = some (s', q)) : Entered s s' q := by
  cases e with
  | post c => exact enterPost_entered h
  | dispatch c =>
      simp only [enter] at h
      split_ifs at h
      · simp only [Option.some.injEq, Prod.mk.injEq] at h
        obtain ⟨rfl, rfl⟩ := h
        exact .inWorker
      · exact enterPost_entered h
  | startWorker =>
      simp only [enter, Option.ite_none_right_eq_some, Option.some.injEq,
        Prod.mk.injEq] at h
      obtain ⟨⟨hbegun, -⟩, rfl, rfl⟩ := h
      exact .startWorker hbegun
  | work e =>
      obtain ⟨⟨w, q'⟩, henter, heq⟩ := Option.map_eq_some_iff.mp h
      obtain ⟨rfl, rfl⟩ := Prod.mk.inj heq
      exact .work henter
  | destroy =>
      simp only [enter, Option.ite_none_left_eq_some, Option.some.injEq,
        Prod.mk.injEq] at h
      obtain ⟨hclosing, rfl, rfl⟩ := h
      exact .destroy (by simpa using hclosing)

end Capy.ThreadPool
