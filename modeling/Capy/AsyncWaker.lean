import Capy.CallStack
import Mathlib.Logic.Function.Basic

/-!
`async_waker`. Every operation on the atomic `st_` is one step, calls of
`wake()` and stop callbacks run on any thread, and one coroutine waits at a
time. The stop callback is the only code of others that may have to be waited
for: destroying it blocks while another thread runs it.
-/

namespace Capy.AsyncWaker

open Capy.CallStack

inductive St where
  | empty | token | armed | arming
  deriving DecidableEq

/-- Who won the change of `st_` from armed to empty. -/
inductive Claimer where
  | wake | stop | destructor
  deriving DecidableEq

/-- How far a wait has got: `starting` until it arms, `settled` when it resumes
inline, `armed` while anyone may claim it, `claimed` until the winner posts it,
`posted` until the executor resumes it. -/
inductive Phase where
  | fresh | starting | settled | arming | armed | claimed | posted | resuming | done
  | destroyed
  deriving DecidableEq

/-- A `wait_awaiter`; the last six fields are history. -/
structure Awaiter where
  canceled : Bool := false
  active : Bool := false
  published : Bool := false
  claimed : Bool := false
  stop : Bool := false
  registered : Bool := false
  phase : Phase := .fresh
  claims : List Claimer := []
  posts : Nat := 0
  consumed : Bool := false
  sawStop : Bool := false
  result : Option Bool := none

/-- The members of the waker and its awaiters, and the wait in progress. -/
structure Waker where
  alive : Bool := true
  st : St := .empty
  waiter : Option Nat := none
  awaiter : Nat → Awaiter := fun _ => {}
  current : Option Nat := none

def Waker.update (s : Waker) (w : Nat) (f : Awaiter → Awaiter) : Nat → Awaiter :=
  Function.update s.awaiter w (f (s.awaiter w))

inductive Pc where
  | awaitReady (w : Nat)
  | stopCheck (w : Nat)
  | register (w : Nat)
  | arm (w : Nat)
  | dropCallback (w : Nat)
  | consume (w : Nat)
  | armStop (w : Nat)
  | unarm (w : Nat)
  | publish (w : Nat)
  | awaitResume (w : Nat)
  | cancelLoop (w : Nat) (inConstructor : Bool)
  | cancelMark (w : Nat) (inConstructor : Bool)
  | cancelPosting (w : Nat) (inConstructor : Bool)
  | wakeLoad
  | wakeLatch
  | wakeClaim
  | wakeDereg
  | wakeMark (w : Nat)
  | wakePosting (w : Nat)
  | destroyLoop
  | destroyDereg
  | destroyMark (w : Nat)
  | destroyPosting
  deriving DecidableEq

def Pc.foreign : Pc → Bool
  | .cancelPosting _ _ | .wakePosting _ | .destroyPosting => true
  | _ => false

def Pc.runsCallback (w : Nat) : Pc → Bool
  | .cancelLoop v _ | .cancelMark v _ | .cancelPosting v _ => v = w
  | _ => false

def Pc.inWake : Pc → Bool
  | .wakeLoad | .wakeLatch | .wakeClaim | .wakeDereg | .wakeMark _ | .wakePosting _ => true
  | _ => false

/-- Destroying the stop callback of `w` on thread `t` waits for another thread
that is running it. -/
def callbackRunning (fs : List (Frame Pc)) (t w : Nat) : Bool :=
  fs.any fun f => f.pc.runsCallback w && f.thread != t

/-- One turn of the loop of `claim_armed`: whether it returns and what. -/
def claimArmed (st : St) (spurious : Bool) : Option Bool :=
  match st with
  | .armed => if spurious then none else some true
  | .arming => none
  | .empty | .token => some false

/-- The armed waiter is claimed by `wake()` or the destructor. -/
def claimWaiter (s : Waker) (claimer : Claimer) : Waker :=
  match s.waiter with
  | some w =>
      { s with
        st := .empty
        awaiter := s.update w fun a =>
          { a with claims := a.claims ++ [claimer], phase := .claimed } }
  | none => { s with st := .empty }

/-- The destructor of the stop callback of `w`, once it can return. -/
abbrev dropCallback (s : Waker) (w : Nat) : Waker :=
  { s with awaiter := s.update w fun a => { a with registered := false, active := false } }

/-- The end of a stop callback; `await_suspend` goes on when its constructor
called it. -/
def callbackReturns (s : Waker) (w : Nat) (inConstructor : Bool) : Waker × Option Pc :=
  if inConstructor then
    ({ s with awaiter := s.update w fun a => { a with active := true, published := true } },
      some (.arm w))
  else (s, none)

/-- One step of an activation on thread `t`; the flag makes a weak
compare-exchange fail spuriously and is ignored elsewhere. -/
def exec (s : Waker) (fs : List (Frame Pc)) (t : Nat) (pc : Pc) (spurious : Bool) :
    Option (Waker × Option Pc) :=
  match pc with
  | .awaitReady w =>
      if s.st = .token then
        some ({ s with
          st := .empty
          awaiter := s.update w fun a => { a with consumed := true, phase := .settled } },
          some (.awaitResume w))
      else some (s, some (.stopCheck w))
  | .stopCheck w =>
      if (s.awaiter w).stop then
        some ({ s with
          awaiter := s.update w fun a =>
            { a with canceled := true, sawStop := true, phase := .settled } },
          some (.awaitResume w))
      else some (s, some (.register w))
  | .register w =>
      if (s.awaiter w).stop then
        some ({ s with waiter := some w }, some (.cancelLoop w true))
      else
        some ({ s with
          waiter := some w
          awaiter := s.update w fun a =>
            { a with registered := true, active := true, published := true } },
          some (.arm w))
  | .arm w =>
      if s.st = .empty then
        some ({ s with
          st := .arming
          awaiter := s.update w fun a => { a with phase := .arming } },
          some (.armStop w))
      else
        some ({ s with awaiter := s.update w fun a => { a with published := false } },
          some (.dropCallback w))
  | .dropCallback w =>
      if callbackRunning fs t w then none else some (dropCallback s w, some (.consume w))
  | .consume w =>
      some ({ s with
        st := .empty
        awaiter := s.update w fun a => { a with consumed := true, phase := .settled } },
        some (.awaitResume w))
  | .armStop w =>
      if (s.awaiter w).stop then
        some ({ s with awaiter := s.update w fun a => { a with published := false } },
          some (.unarm w))
      else some (s, some (.publish w))
  | .unarm w =>
      some ({ s with
        st := .empty
        awaiter := s.update w fun a =>
          { a with canceled := true, sawStop := true, phase := .settled } },
        some (.awaitResume w))
  | .publish w =>
      some ({ s with
        st := .armed
        awaiter := s.update w fun a => { a with phase := .armed } }, none)
  | .awaitResume w =>
      if (s.awaiter w).active && callbackRunning fs t w then none
      else
        some ({ s with
          current := none
          awaiter := s.update w fun a =>
            { a with
              registered := a.registered && !a.active
              active := false
              published := false
              phase := .done
              result := some !a.canceled } }, none)
  | .cancelLoop w inConstructor =>
      match claimArmed s.st spurious with
      | none => some (s, some (.cancelLoop w inConstructor))
      | some true =>
          some ({ s with
            st := .empty
            awaiter := s.update w fun a =>
              { a with claims := a.claims ++ [.stop], phase := .claimed } },
            some (.cancelMark w inConstructor))
      | some false => some (callbackReturns s w inConstructor)
  | .cancelMark w inConstructor =>
      some ({ s with
        awaiter := s.update w fun a =>
          { a with
            canceled := true
            claimed := true
            posts := a.posts + 1
            phase := .posted } },
        some (.cancelPosting w inConstructor))
  | .cancelPosting w inConstructor => some (callbackReturns s w inConstructor)
  | .wakeLoad =>
      match s.st with
      | .token => some (s, none)
      | .empty => some (s, some .wakeLatch)
      | .arming => some (s, some .wakeLoad)
      | .armed => some (s, some .wakeClaim)
  | .wakeLatch =>
      if s.st = .empty ∧ spurious = false then some ({ s with st := .token }, none)
      else some (s, some .wakeLoad)
  | .wakeClaim =>
      if s.st = .armed ∧ spurious = false then
        some (claimWaiter s .wake, some .wakeDereg)
      else some (s, some .wakeLoad)
  | .wakeDereg =>
      match s.waiter with
      | some w =>
          if callbackRunning fs t w then none
          else some (dropCallback s w, some (.wakeMark w))
      | none => none
  | .wakeMark w =>
      some ({ s with
        awaiter := s.update w fun a =>
          { a with claimed := true, posts := a.posts + 1, phase := .posted } },
        some (.wakePosting w))
  | .wakePosting _ => some (s, none)
  | .destroyLoop =>
      match claimArmed s.st spurious with
      | none => some (s, some .destroyLoop)
      | some true => some (claimWaiter s .destructor, some .destroyDereg)
      | some false => some (s, none)
  | .destroyDereg =>
      match s.waiter with
      | some w =>
          if (s.awaiter w).active then
            if callbackRunning fs t w then none
            else some (dropCallback s w, some (.destroyMark w))
          else some (s, some (.destroyMark w))
      | none => none
  | .destroyMark w =>
      some ({ s with
        awaiter := s.update w fun a =>
          { a with
            canceled := true
            claimed := true
            posts := a.posts + 1
            phase := .posted } },
        some .destroyPosting)
  | .destroyPosting => some (s, none)

/-- What coroutines, the executor, other threads and the owners of stop sources
do. A wait starts when the one before has ended; a suspended awaiter is
destroyed with no claim in progress and no callback of it running on another
thread; `~async_waker` runs with no `wake()` in progress. -/
inductive Entry where
  | wait (w : Nat)
  | resume (w : Nat)
  | destroy (w : Nat)
  | wake
  | destroyWaker
  | requestStop (w : Nat)
  | stopCallback (w : Nat)
  deriving DecidableEq

/-- `wait_awaiter::~wait_awaiter` of a suspended coroutine. -/
def destroyAwaiter (s : Waker) (w : Nat) : Waker :=
  { s with
    st :=
      if (s.awaiter w).published && !(s.awaiter w).claimed && s.st = .armed then .empty
      else s.st
    current := none
    awaiter := s.update w fun a =>
      { a with registered := a.registered && !a.active, phase := .destroyed } }

def enter (s : Waker) (fs : List (Frame Pc)) (t : Nat) :
    Entry → Option (Waker × Option Pc)
  | .wait w =>
      if s.alive = true ∧ s.current = none ∧ (s.awaiter w).phase = .fresh then
        some ({ s with
          current := some w
          awaiter := s.update w fun a => { a with phase := .starting } },
          some (.awaitReady w))
      else none
  | .resume w =>
      if (s.awaiter w).phase = .posted then
        some ({ s with awaiter := s.update w fun a => { a with phase := .resuming } },
          some (.awaitResume w))
      else none
  | .destroy w =>
      if ((s.awaiter w).phase = .armed ∨ (s.awaiter w).phase = .posted) ∧
          ((s.awaiter w).active && callbackRunning fs t w) = false then
        some (destroyAwaiter s w, none)
      else none
  | .wake => if s.alive then some (s, some .wakeLoad) else none
  | .destroyWaker =>
      if s.alive = true ∧ (fs.all fun f => !f.pc.inWake) = true then
        some ({ s with alive := false }, some .destroyLoop)
      else none
  | .requestStop w =>
      some ({ s with awaiter := s.update w fun a => { a with stop := true } }, none)
  | .stopCallback w =>
      if (s.awaiter w).stop ∧ (s.awaiter w).registered then
        some ({ s with awaiter := s.update w fun a => { a with registered := false } },
          some (.cancelLoop w false))
      else none

def machine : Machine Waker Pc Bool Entry :=
  Machine.ofSteps Pc.foreign exec enter

def Initial (s : State Waker Pc) : Prop := s = ⟨{}, []⟩

def Reachable : State Waker Pc → Prop := machine.Reachable Initial

theorem initial_frames (s : State Waker Pc) (h : Initial s) : s.frames = [] := by
  rw [h]

inductive Step (s : Waker) (fs : List (Frame Pc)) (t : Nat) :
    Pc → Waker → Option Pc → Prop
  | readyToken {w} : s.st = .token →
      Step s fs t (.awaitReady w)
        { s with
          st := .empty
          awaiter := s.update w fun a => { a with consumed := true, phase := .settled } }
        (some (.awaitResume w))
  | notReady {w} : Step s fs t (.awaitReady w) s (some (.stopCheck w))
  | stopSeen {w} : (s.awaiter w).stop = true →
      Step s fs t (.stopCheck w)
        { s with
          awaiter := s.update w fun a =>
            { a with canceled := true, sawStop := true, phase := .settled } }
        (some (.awaitResume w))
  | notStopped {w} : Step s fs t (.stopCheck w) s (some (.register w))
  | registerStopped {w} : (s.awaiter w).stop = true →
      Step s fs t (.register w) { s with waiter := some w } (some (.cancelLoop w true))
  | register {w} :
      Step s fs t (.register w)
        { s with
          waiter := some w
          awaiter := s.update w fun a =>
            { a with registered := true, active := true, published := true } }
        (some (.arm w))
  | arm {w} : s.st = .empty →
      Step s fs t (.arm w)
        { s with
          st := .arming
          awaiter := s.update w fun a => { a with phase := .arming } }
        (some (.armStop w))
  | armLatched {w} : s.st ≠ .empty →
      Step s fs t (.arm w)
        { s with awaiter := s.update w fun a => { a with published := false } }
        (some (.dropCallback w))
  | dropCallback {w} : callbackRunning fs t w = false →
      Step s fs t (.dropCallback w) (dropCallback s w) (some (.consume w))
  | consume {w} :
      Step s fs t (.consume w)
        { s with
          st := .empty
          awaiter := s.update w fun a => { a with consumed := true, phase := .settled } }
        (some (.awaitResume w))
  | armStopped {w} : (s.awaiter w).stop = true →
      Step s fs t (.armStop w)
        { s with awaiter := s.update w fun a => { a with published := false } }
        (some (.unarm w))
  | armStop {w} : Step s fs t (.armStop w) s (some (.publish w))
  | unarm {w} :
      Step s fs t (.unarm w)
        { s with
          st := .empty
          awaiter := s.update w fun a =>
            { a with canceled := true, sawStop := true, phase := .settled } }
        (some (.awaitResume w))
  | publish {w} :
      Step s fs t (.publish w)
        { s with
          st := .armed
          awaiter := s.update w fun a => { a with phase := .armed } } none
  | awaitResume {w} :
      ((s.awaiter w).active = true → callbackRunning fs t w = false) →
      Step s fs t (.awaitResume w)
        { s with
          current := none
          awaiter := s.update w fun a =>
            { a with
              registered := a.registered && !a.active
              active := false
              published := false
              phase := .done
              result := some !a.canceled } } none
  | cancelRetries {w b} : Step s fs t (.cancelLoop w b) s (some (.cancelLoop w b))
  | cancelClaims {w b} : s.st = .armed →
      Step s fs t (.cancelLoop w b)
        { s with
          st := .empty
          awaiter := s.update w fun a =>
            { a with claims := a.claims ++ [.stop], phase := .claimed } }
        (some (.cancelMark w b))
  | cancelLost {w b s' q} : callbackReturns s w b = (s', q) →
      Step s fs t (.cancelLoop w b) s' q
  | cancelMark {w b} :
      Step s fs t (.cancelMark w b)
        { s with
          awaiter := s.update w fun a =>
            { a with
              canceled := true
              claimed := true
              posts := a.posts + 1
              phase := .posted } }
        (some (.cancelPosting w b))
  | cancelReturns {w b s' q} : callbackReturns s w b = (s', q) →
      Step s fs t (.cancelPosting w b) s' q
  | wakeFinds : s.st = .token → Step s fs t .wakeLoad s none
  | wakeLoads {pc} : pc = .wakeLatch ∨ pc = .wakeLoad ∨ pc = .wakeClaim →
      Step s fs t .wakeLoad s (some pc)
  | wakeLatches : s.st = .empty → Step s fs t .wakeLatch { s with st := .token } none
  | wakeLatchRetries : Step s fs t .wakeLatch s (some .wakeLoad)
  | wakeClaims : s.st = .armed →
      Step s fs t .wakeClaim (claimWaiter s .wake) (some .wakeDereg)
  | wakeClaimRetries : Step s fs t .wakeClaim s (some .wakeLoad)
  | wakeDereg {w} : s.waiter = some w → callbackRunning fs t w = false →
      Step s fs t .wakeDereg (AsyncWaker.dropCallback s w) (some (.wakeMark w))
  | wakeMark {w} :
      Step s fs t (.wakeMark w)
        { s with
          awaiter := s.update w fun a =>
            { a with claimed := true, posts := a.posts + 1, phase := .posted } }
        (some (.wakePosting w))
  | wakeReturns {w} : Step s fs t (.wakePosting w) s none
  | destroyRetries : Step s fs t .destroyLoop s (some .destroyLoop)
  | destroyClaims : s.st = .armed →
      Step s fs t .destroyLoop (claimWaiter s .destructor) (some .destroyDereg)
  | destroyLost : Step s fs t .destroyLoop s none
  | destroyDereg {w} : s.waiter = some w → callbackRunning fs t w = false →
      Step s fs t .destroyDereg (AsyncWaker.dropCallback s w) (some (.destroyMark w))
  | destroyInactive {w} : s.waiter = some w → (s.awaiter w).active = false →
      Step s fs t .destroyDereg s (some (.destroyMark w))
  | destroyMark {w} :
      Step s fs t (.destroyMark w)
        { s with
          awaiter := s.update w fun a =>
            { a with
              canceled := true
              claimed := true
              posts := a.posts + 1
              phase := .posted } }
        (some .destroyPosting)
  | destroyReturns : Step s fs t .destroyPosting s none

theorem claimArmed_true {st : St} {spurious : Bool} (h : claimArmed st spurious = some true) :
    st = .armed := by
  cases st <;> simp_all [claimArmed]

theorem exec_step {s s' : Waker} {fs : List (Frame Pc)} {t : Nat} {pc : Pc}
    {spurious : Bool} {q : Option Pc} (h : exec s fs t pc spurious = some (s', q)) :
    Step s fs t pc s' q := by
  unfold exec at h
  split at h
  all_goals repeat' split at h
  all_goals first
    | simp only [Option.some.injEq, Prod.mk.injEq] at h
    | simp only [reduceCtorEq] at h
  all_goals first
    | exact .cancelLost h
    | exact .cancelReturns h
    | obtain ⟨rfl, rfl⟩ := h
  all_goals first
    | exact .wakeLoads (by simp)
    | constructor
  all_goals first
    | assumption
    | exact claimArmed_true ‹_›
    | simp_all

inductive Entered (s : Waker) (fs : List (Frame Pc)) (t : Nat) :
    Entry → Waker → Option Pc → Prop
  | wait {w} : s.current = none → (s.awaiter w).phase = .fresh →
      Entered s fs t (.wait w)
        { s with
          current := some w
          awaiter := s.update w fun a => { a with phase := .starting } }
        (some (.awaitReady w))
  | resume {w} : (s.awaiter w).phase = .posted →
      Entered s fs t (.resume w)
        { s with awaiter := s.update w fun a => { a with phase := .resuming } }
        (some (.awaitResume w))
  | destroy {w} : (s.awaiter w).phase = .armed ∨ (s.awaiter w).phase = .posted →
      ((s.awaiter w).active = true → callbackRunning fs t w = false) →
      Entered s fs t (.destroy w) (destroyAwaiter s w) none
  | wake : Entered s fs t .wake s (some .wakeLoad)
  | destroyWaker :
      Entered s fs t .destroyWaker { s with alive := false } (some .destroyLoop)
  | requestStop {w} :
      Entered s fs t (.requestStop w)
        { s with awaiter := s.update w fun a => { a with stop := true } } none
  | stopCallback {w} : (s.awaiter w).registered = true →
      Entered s fs t (.stopCallback w)
        { s with awaiter := s.update w fun a => { a with registered := false } }
        (some (.cancelLoop w false))

theorem enter_entered {s s' : Waker} {fs : List (Frame Pc)} {t : Nat} {e : Entry}
    {q : Option Pc} (h : enter s fs t e = some (s', q)) : Entered s fs t e s' q := by
  unfold enter at h
  split at h
  all_goals repeat' split at h
  all_goals first
    | simp only [Option.some.injEq, Prod.mk.injEq] at h
    | simp only [reduceCtorEq] at h
  all_goals
    obtain ⟨rfl, rfl⟩ := h
    constructor
  all_goals simp_all

end Capy.AsyncWaker
