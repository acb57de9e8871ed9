import Capy.CallStack
import Mathlib.Logic.Function.Basic

/-!
`async_mutex` and its `lock_awaiter`, with the coroutines that await it. All
operations run on one executor thread, except stop callbacks, which run on any
thread. A call of `executor::post` is foreign code: before it returns the
executor may resume or destroy coroutines and destroy the mutex. What
`scoped_lock()` adds to `lock()` is the `unlock()` of its guard.
-/

namespace Capy.AsyncMutex

open Capy.CallStack

/-- The life of an awaiter: `starting` lasts until it is linked into the wait
queue, `done` begins when `await_resume` returns. -/
inductive Phase where
  | fresh | starting | suspended | done | destroyed
  deriving DecidableEq

/-- A `lock_awaiter`. `stop` is the `stop_requested()` of its coroutine's
token and `registered` tells that its stop callback is registered and has not
been called. `fast` records that its `await_ready` took the lock, `result`
what `await_resume` returned, `true` for success. -/
structure Awaiter where
  claimed : Bool := false
  canceled : Bool := false
  active : Bool := false
  granted : Bool := false
  inList : Bool := false
  stop : Bool := false
  registered : Bool := false
  fast : Bool := false
  phase : Phase := .fresh
  result : Option Bool := none
  deriving DecidableEq

structure UnlockScope where
  again : Bool
  gone : Bool
  deriving DecidableEq

/-- The members of the mutex and its awaiters. The last six fields are
history: who got the lock and has not called `unlock()`, the calls of `post`,
the awaiters queued, those the lock was handed to, those it was taken back
from by `~async_mutex`, and how many coroutines were unwound between taking
the lock in `await_ready` and their `await_resume`. -/
structure Mutex where
  alive : Bool := true
  locked : Bool := false
  waiters : List Nat := []
  grantedTo : Option Nat := none
  unlocking : Option UnlockScope := none
  awaiter : Nat → Awaiter := fun _ => {}
  holders : List Nat := []
  posts : List Nat := []
  enqueued : List Nat := []
  grants : List Nat := []
  revoked : List Nat := []
  leaked : Nat := 0

def Mutex.update (s : Mutex) (w : Nat) (f : Awaiter → Awaiter) : Nat → Awaiter :=
  Function.update s.awaiter w (f (s.awaiter w))

def executorThread : Nat := 0

/-- Where an activation stands. The flag of a stop callback tells that it is
called by the constructor of the `stop_callback`, in `await_suspend`. -/
inductive Pc where
  | awaitSuspend (w : Nat)
  | register (w : Nat)
  | cancel (w : Nat) (inConstructor : Bool)
  | cancelMark (w : Nat) (inConstructor : Bool)
  | cancelPosting (w : Nat) (inConstructor : Bool)
  | resume (w : Nat)
  | dtor (w : Nat)
  | unlock
  | grantNext
  | unlockPosting
  | destroyLoop
  | destroyPosting
  deriving DecidableEq

def Pc.foreign : Pc → Bool
  | .cancelPosting _ _ | .unlockPosting | .destroyPosting => true
  | _ => false

/-- The stop callback of `w` is being run by the activation. -/
def Pc.runsCallback (w : Nat) : Pc → Bool
  | .cancel v _ | .cancelMark v _ | .cancelPosting v _ => v = w
  | _ => false

/-- Destroying the stop callback of `w` waits for another thread that is
running it. -/
def callbackRunning (fs : List (Frame Pc)) (t w : Nat) : Bool :=
  fs.any fun f => f.pc.runsCallback w && f.thread != t

/-- The end of a stop callback; when it was called by the constructor of the
`stop_callback`, `await_suspend` goes on to set `active_`. -/
def callbackReturns (s : Mutex) (w : Nat) (inConstructor : Bool) : Mutex :=
  if inConstructor then
    { s with awaiter := s.update w fun a => { a with active := true } }
  else s

/-- `lock_awaiter::await_resume`, with the stop callback's destructor taken to
have returned. -/
def awaitResume (s : Mutex) (w : Nat) : Mutex :=
  { s with
    grantedTo := if (s.awaiter w).granted then none else s.grantedTo
    waiters :=
      if (s.awaiter w).active && (s.awaiter w).canceled && (s.awaiter w).inList then
        s.waiters.erase w
      else s.waiters
    holders :=
      if !(s.awaiter w).canceled && !(s.awaiter w).fast then s.holders ++ [w]
      else s.holders
    awaiter := s.update w fun a =>
      { a with
        granted := false
        registered := a.registered && !a.active
        inList := a.inList && !(a.active && a.canceled)
        active := false
        phase := .done
        result := some !a.canceled } }

/-- `lock_awaiter::~lock_awaiter` up to its call of `unlock()`. -/
def destroyAwaiter (s : Mutex) (w : Nat) : Mutex :=
  { s with
    waiters := if (s.awaiter w).inList then s.waiters.erase w else s.waiters
    grantedTo := if (s.awaiter w).granted then none else s.grantedTo
    awaiter := s.update w fun a =>
      { a with registered := a.registered && !a.active, phase := .destroyed } }

/-- `waiters_.pop_front()` with the claim of the popped awaiter. -/
abbrev popFront (s : Mutex) (w : Nat) (rest : List Nat) : Mutex :=
  { s with
    waiters := rest
    awaiter := s.update w fun a => { a with inList := false, claimed := true } }

/-- One step of an activation on thread `t`. `quitter w` tells that the
coroutine awaiting in `w` is a `quitter`, whose `transform_awaiter` throws the
stop sentinel in place of `await_resume` when stop has been requested. -/
def exec (quitter : Nat → Bool) (s : Mutex) (fs : List (Frame Pc)) (t : Nat) :
    Pc → Option (Mutex × Option Pc)
  | .awaitSuspend w =>
      if (s.awaiter w).stop then
        some ({ s with awaiter := s.update w fun a => { a with canceled := true } },
          some (.resume w))
      else
        some ({ s with
          waiters := s.waiters ++ [w]
          enqueued := s.enqueued ++ [w]
          awaiter := s.update w fun a => { a with inList := true, phase := .suspended } },
          some (.register w))
  | .register w =>
      if (s.awaiter w).stop then some (s, some (.cancel w true))
      else
        some ({ s with
          awaiter := s.update w fun a => { a with registered := true, active := true } },
          none)
  | .cancel w inConstructor =>
      if (s.awaiter w).claimed then some (callbackReturns s w inConstructor, none)
      else
        some ({ s with awaiter := s.update w fun a => { a with claimed := true } },
          some (.cancelMark w inConstructor))
  | .cancelMark w inConstructor =>
      some ({ s with
        posts := s.posts ++ [w]
        awaiter := s.update w fun a => { a with canceled := true } },
        some (.cancelPosting w inConstructor))
  | .cancelPosting w inConstructor => some (callbackReturns s w inConstructor, none)
  | .resume w =>
      if quitter w && (s.awaiter w).stop then
        if (s.awaiter w).fast then
          some ({ s with holders := s.holders.erase w, leaked := s.leaked + 1 },
            some (.dtor w))
        else some (s, some (.dtor w))
      else if (s.awaiter w).active && callbackRunning fs t w then none
      else some (awaitResume s w, none)
  | .dtor w =>
      if (s.awaiter w).active && callbackRunning fs t w then none
      else
        some (destroyAwaiter s w, if (s.awaiter w).granted then some .unlock else none)
  | .unlock =>
      match s.unlocking with
      | some scope =>
          some ({ s with unlocking := some { scope with again := true } }, none)
      | none => some ({ s with unlocking := some ⟨false, false⟩ }, some .grantNext)
  | .grantNext =>
      match s.waiters with
      | w :: rest =>
          if (s.awaiter w).claimed then some (popFront s w rest, some .grantNext)
          else
            some ({ popFront s w rest with
              awaiter := (popFront s w rest).update w fun a => { a with granted := true }
              grantedTo := some w
              grants := s.grants ++ [w]
              posts := s.posts ++ [w] }, some .unlockPosting)
      | [] => some ({ s with locked := false, unlocking := none }, none)
  | .unlockPosting =>
      match s.unlocking with
      | some scope =>
          if scope.gone then some (s, none)
          else if scope.again then
            some ({ s with unlocking := some { scope with again := false } },
              some .grantNext)
          else some ({ s with unlocking := none }, none)
      | none => none
  | .destroyLoop =>
      match s.waiters with
      | w :: rest =>
          if (s.awaiter w).claimed then some (popFront s w rest, some .destroyLoop)
          else
            some ({ popFront s w rest with
              awaiter := (popFront s w rest).update w fun a => { a with canceled := true }
              posts := s.posts ++ [w] }, some .destroyPosting)
      | [] => some (s, none)
  | .destroyPosting => some (s, some .destroyLoop)

/-- What coroutines, the executor and the owners of stop sources do to a
mutex: `co_await m.lock()`, the resumption of a posted coroutine, the
destruction of an awaiter whose coroutine is suspended or has been resumed,
`unlock()` by a coroutine that has the lock, the destruction of the mutex, a
stop request, and the stop callback it leads to. -/
inductive Entry where
  | lock (w : Nat)
  | resume (w : Nat)
  | destroy (w : Nat)
  | unlock (w : Nat)
  | destroyMutex
  | requestStop (w : Nat)
  | stopCallback (w : Nat)
  deriving DecidableEq

/-- `~async_mutex` up to its loop. -/
abbrev destroyMutex (s : Mutex) : Mutex :=
  { s with
    alive := false
    unlocking := s.unlocking.map fun scope => { scope with gone := true }
    revoked := s.revoked ++ s.grantedTo.toList
    awaiter :=
      match s.grantedTo with
      | some w => s.update w fun a => { a with granted := false, canceled := true }
      | none => s.awaiter }

def enter (s : Mutex) (t : Nat) : Entry → Option (Mutex × Option Pc)
  | .lock w =>
      if t = executorThread ∧ s.alive = true ∧ (s.awaiter w).phase = .fresh then
        if s.locked then
          some ({ s with awaiter := s.update w fun a => { a with phase := .starting } },
            some (.awaitSuspend w))
        else
          some ({ s with
            locked := true
            holders := s.holders ++ [w]
            awaiter := s.update w fun a => { a with fast := true, phase := .starting } },
            some (.resume w))
      else none
  | .resume w =>
      if t = executorThread ∧ (s.awaiter w).phase = .suspended ∧ w ∈ s.posts then
        some (s, some (.resume w))
      else none
  | .destroy w =>
      if t = executorThread ∧
          ((s.awaiter w).phase = .suspended ∨ (s.awaiter w).phase = .done) then
        some (s, some (.dtor w))
      else none
  | .unlock w =>
      if t = executorThread ∧ s.alive = true ∧ w ∈ s.holders then
        some ({ s with holders := s.holders.erase w }, some .unlock)
      else none
  | .destroyMutex =>
      if t = executorThread ∧ s.alive = true ∧ s.holders = [] then
        some (destroyMutex s, some .destroyLoop)
      else none
  | .requestStop w =>
      some ({ s with awaiter := s.update w fun a => { a with stop := true } }, none)
  | .stopCallback w =>
      if (s.awaiter w).stop ∧ (s.awaiter w).registered then
        some ({ s with awaiter := s.update w fun a => { a with registered := false } },
          some (.cancel w false))
      else none

def machine (quitter : Nat → Bool) : Machine Mutex Pc Unit Entry :=
  Machine.ofSteps Pc.foreign (fun s fs t pc _ => exec quitter s fs t pc)
    (fun s _ t e => enter s t e)

def Initial (s : State Mutex Pc) : Prop := s = ⟨{}, []⟩

def Reachable (quitter : Nat → Bool) : State Mutex Pc → Prop :=
  (machine quitter).Reachable Initial

theorem initial_frames (s : State Mutex Pc) (h : Initial s) : s.frames = [] := by
  rw [h]

inductive Step (quitter : Nat → Bool) (s : Mutex) : Pc → Mutex → Option Pc → Prop
  | suspendStopped {w} : (s.awaiter w).stop = true →
      Step quitter s (.awaitSuspend w)
        { s with awaiter := s.update w fun a => { a with canceled := true } }
        (some (.resume w))
  | suspendQueued {w} :
      Step quitter s (.awaitSuspend w)
        { s with
          waiters := s.waiters ++ [w]
          enqueued := s.enqueued ++ [w]
          awaiter := s.update w fun a => { a with inList := true, phase := .suspended } }
        (some (.register w))
  | registerStopped {w} : Step quitter s (.register w) s (some (.cancel w true))
  | register {w} :
      Step quitter s (.register w)
        { s with
          awaiter := s.update w fun a => { a with registered := true, active := true } }
        none
  | cancelLost {w b} : (s.awaiter w).claimed = true →
      Step quitter s (.cancel w b) (callbackReturns s w b) none
  | cancelClaims {w b} : (s.awaiter w).claimed = false →
      Step quitter s (.cancel w b)
        { s with awaiter := s.update w fun a => { a with claimed := true } }
        (some (.cancelMark w b))
  | cancelMark {w b} :
      Step quitter s (.cancelMark w b)
        { s with
          posts := s.posts ++ [w]
          awaiter := s.update w fun a => { a with canceled := true } }
        (some (.cancelPosting w b))
  | cancelReturns {w b} :
      Step quitter s (.cancelPosting w b) (callbackReturns s w b) none
  | resumeLeaks {w} : quitter w = true → (s.awaiter w).stop = true →
      (s.awaiter w).fast = true →
      Step quitter s (.resume w)
        { s with holders := s.holders.erase w, leaked := s.leaked + 1 } (some (.dtor w))
  | resumeUnwinds {w} : quitter w = true → (s.awaiter w).stop = true →
      (s.awaiter w).fast = false → Step quitter s (.resume w) s (some (.dtor w))
  | resume {w} : Step quitter s (.resume w) (awaitResume s w) none
  | dtorGranted {w} : (s.awaiter w).granted = true →
      Step quitter s (.dtor w) (destroyAwaiter s w) (some .unlock)
  | dtor {w} : (s.awaiter w).granted = false →
      Step quitter s (.dtor w) (destroyAwaiter s w) none
  | unlockAgain {scope} : s.unlocking = some scope →
      Step quitter s .unlock
        { s with unlocking := some { scope with again := true } } none
  | unlock : s.unlocking = none →
      Step quitter s .unlock { s with unlocking := some ⟨false, false⟩ }
        (some .grantNext)
  | grantSkips {w rest} : s.waiters = w :: rest → (s.awaiter w).claimed = true →
      Step quitter s .grantNext (popFront s w rest) (some .grantNext)
  | grants {w rest} : s.waiters = w :: rest → (s.awaiter w).claimed = false →
      Step quitter s .grantNext
        { popFront s w rest with
          awaiter := (popFront s w rest).update w fun a => { a with granted := true }
          grantedTo := some w
          grants := s.grants ++ [w]
          posts := s.posts ++ [w] }
        (some .unlockPosting)
  | releases : s.waiters = [] →
      Step quitter s .grantNext { s with locked := false, unlocking := none } none
  | postedGone {scope} : s.unlocking = some scope → scope.gone = true →
      Step quitter s .unlockPosting s none
  | postedAgain {scope} : s.unlocking = some scope → scope.gone = false →
      scope.again = true →
      Step quitter s .unlockPosting
        { s with unlocking := some { scope with again := false } } (some .grantNext)
  | posted {scope} : s.unlocking = some scope → scope.gone = false →
      scope.again = false →
      Step quitter s .unlockPosting { s with unlocking := none } none
  | destroySkips {w rest} : s.waiters = w :: rest → (s.awaiter w).claimed = true →
      Step quitter s .destroyLoop (popFront s w rest) (some .destroyLoop)
  | destroyCancels {w rest} : s.waiters = w :: rest → (s.awaiter w).claimed = false →
      Step quitter s .destroyLoop
        { popFront s w rest with
          awaiter := (popFront s w rest).update w fun a => { a with canceled := true }
          posts := s.posts ++ [w] }
        (some .destroyPosting)
  | destroyDone : s.waiters = [] → Step quitter s .destroyLoop s none
  | destroyPosted : Step quitter s .destroyPosting s (some .destroyLoop)

theorem exec_step {quitter : Nat → Bool} {s s' : Mutex} {fs : List (Frame Pc)}
    {t : Nat} {pc : Pc} {q : Option Pc} (h : exec quitter s fs t pc = some (s', q)) :
    Step quitter s pc s' q := by
  unfold exec at h
  split at h
  all_goals repeat' split at h
  all_goals first
    | simp only [Option.some.injEq, Prod.mk.injEq] at h
    | simp only [reduceCtorEq] at h
  all_goals
    obtain ⟨rfl, rfl⟩ := h
    constructor
  all_goals first
    | assumption
    | simp_all

inductive Entered (s : Mutex) : Nat → Entry → Mutex → Option Pc → Prop
  | lockBusy {w} : s.alive = true → (s.awaiter w).phase = .fresh → s.locked = true →
      Entered s executorThread (.lock w)
        { s with awaiter := s.update w fun a => { a with phase := .starting } }
        (some (.awaitSuspend w))
  | lockFree {w} : s.alive = true → (s.awaiter w).phase = .fresh → s.locked = false →
      Entered s executorThread (.lock w)
        { s with
          locked := true
          holders := s.holders ++ [w]
          awaiter := s.update w fun a => { a with fast := true, phase := .starting } }
        (some (.resume w))
  | resume {w} : (s.awaiter w).phase = .suspended → w ∈ s.posts →
      Entered s executorThread (.resume w) s (some (.resume w))
  | destroy {w} : (s.awaiter w).phase = .suspended ∨ (s.awaiter w).phase = .done →
      Entered s executorThread (.destroy w) s (some (.dtor w))
  | unlock {w} : s.alive = true → w ∈ s.holders →
      Entered s executorThread (.unlock w) { s with holders := s.holders.erase w }
        (some .unlock)
  | destroyMutex : s.alive = true → s.holders = [] →
      Entered s executorThread .destroyMutex (destroyMutex s) (some .destroyLoop)
  | requestStop {t w} :
      Entered s t (.requestStop w)
        { s with awaiter := s.update w fun a => { a with stop := true } } none
  | stopCallback {t w} : (s.awaiter w).registered = true →
      Entered s t (.stopCallback w)
        { s with awaiter := s.update w fun a => { a with registered := false } }
        (some (.cancel w false))

theorem enter_entered {s s' : Mutex} {t : Nat} {e : Entry} {q : Option Pc}
    (h : enter s t e = some (s', q)) : Entered s t e s' q := by
  unfold enter at h
  split at h
  all_goals repeat' split at h
  all_goals first
    | simp only [Option.some.injEq, Prod.mk.injEq] at h
    | simp only [reduceCtorEq] at h
  all_goals obtain ⟨rfl, rfl⟩ := h
  all_goals first
    | exact .requestStop
    | exact .stopCallback (And.right ‹_›)
    | obtain ⟨rfl, hguard⟩ := ‹t = executorThread ∧ _›
  all_goals constructor
  all_goals simp_all

end Capy.AsyncMutex
