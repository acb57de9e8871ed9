import Capy.CallStack
import Mathlib.Logic.Function.Basic

/-!
`async_event`. The event's operations run on one executor thread and stop
callbacks on any thread. A waiter is linked into the event's list, or into the
list that a call of `set()` keeps on its stack while it posts the waiters it
claimed. Calls of `executor::post` are foreign code, which may destroy waiters
and the event before it returns.
-/

namespace Capy.AsyncEvent

open Capy.CallStack

/-- The list an awaiter is linked into: the event's, or that of a call of
`set()`. -/
inductive Link where
  | event
  | set (k : Nat)
  deriving DecidableEq

inductive Claimer where
  | stop
  | set (k : Nat)
  | destructor
  deriving DecidableEq

inductive Phase where
  | fresh | starting | suspended | done | destroyed
  deriving DecidableEq

/-- A `wait_awaiter`. `stop` and `registered` describe its stop token and stop
callback; `ready` records that `set_` was true at `await_ready`, `queued` that
the awaiter was linked, `claims` who won the exchange of `claimed_`, and
`result` what `await_resume` returned, `true` for success. -/
structure Awaiter where
  claimed : Bool := false
  canceled : Bool := false
  active : Bool := false
  list : Option Link := none
  stop : Bool := false
  registered : Bool := false
  phase : Phase := .fresh
  ready : Bool := false
  queued : Bool := false
  claims : List Claimer := []
  posts : Nat := 0
  result : Option Bool := none
  deriving DecidableEq

/-- The members of the event, its awaiters in the order they suspended, and for
each call of `set()` its list of claimed waiters, the waiters linked when it
began and those it has posted. -/
structure Event where
  alive : Bool := true
  isSet : Bool := false
  waiters : List Nat := []
  awaiter : Nat → Awaiter := fun _ => {}
  suspended : List Nat := []
  calls : Nat := 0
  claimed : Nat → List Nat := fun _ => []
  linked : Nat → List Nat := fun _ => []
  posted : Nat → List Nat := fun _ => []

def Event.update (s : Event) (w : Nat) (f : Awaiter → Awaiter) : Nat → Awaiter :=
  Function.update s.awaiter w (f (s.awaiter w))

def executorThread : Nat := 0

inductive Pc where
  | awaitSuspend (w : Nat)
  | register (w : Nat)
  | cancel (w : Nat) (inConstructor : Bool)
  | cancelMark (w : Nat) (inConstructor : Bool)
  | cancelPosting (w : Nat) (inConstructor : Bool)
  | resume (w : Nat)
  | dtor (w : Nat)
  | claimAll (k : Nat)
  | setLoop (k : Nat)
  | setPosting (k : Nat)
  | destroyLoop
  | destroyPosting
  deriving DecidableEq

def Pc.foreign : Pc → Bool
  | .cancelPosting _ _ | .setPosting _ | .destroyPosting => true
  | _ => false

def Pc.runsCallback (w : Nat) : Pc → Bool
  | .cancel v _ | .cancelMark v _ | .cancelPosting v _ => v = w
  | _ => false

def callbackRunning (fs : List (Frame Pc)) (t w : Nat) : Bool :=
  fs.any fun f => f.pc.runsCallback w && f.thread != t

/-- `list_->remove(this)`, when `list_` is not null. -/
def unlink (s : Event) (w : Nat) : Event :=
  match (s.awaiter w).list with
  | some .event => { s with waiters := s.waiters.erase w }
  | some (.set k) =>
      { s with claimed := Function.update s.claimed k ((s.claimed k).erase w) }
  | none => s

def callbackReturns (s : Event) (w : Nat) (inConstructor : Bool) : Event :=
  if inConstructor then
    { s with awaiter := s.update w fun a => { a with active := true } }
  else s

/-- `wait_awaiter::await_resume`, with the stop callback's destructor taken to
have returned. -/
def awaitResume (s : Event) (w : Nat) : Event :=
  { (if (s.awaiter w).canceled then unlink s w else s) with
    awaiter := s.update w fun a =>
      { a with
        registered := a.registered && !a.active
        active := false
        list := if a.canceled then none else a.list
        phase := .done
        result := some !a.canceled } }

def destroyAwaiter (s : Event) (w : Nat) : Event :=
  { unlink s w with
    awaiter := s.update w fun a =>
      { a with registered := a.registered && !a.active, phase := .destroyed } }

/-- One step of an activation on thread `t`. -/
def exec (s : Event) (fs : List (Frame Pc)) (t : Nat) : Pc → Option (Event × Option Pc)
  | .awaitSuspend w =>
      if (s.awaiter w).stop then
        some ({ s with awaiter := s.update w fun a => { a with canceled := true } },
          some (.resume w))
      else
        some ({ s with
          waiters := s.waiters ++ [w]
          suspended := s.suspended ++ [w]
          awaiter := s.update w fun a =>
            { a with list := some .event, queued := true, phase := .suspended } },
          some (.register w))
  | .register w =>
      if (s.awaiter w).stop then some (s, some (.cancel w true))
      else
        some ({ s with
          awaiter := s.update w fun a => { a with registered := true, active := true } },
          none)
  | .cancel w inConstructor =>
      if (s.awaiter w).claimed then some (callbackReturns s w inConstructor, none)
      else
        some ({ s with
          awaiter := s.update w fun a =>
            { a with claimed := true, claims := a.claims ++ [.stop] } },
          some (.cancelMark w inConstructor))
  | .cancelMark w inConstructor =>
      some ({ s with
        awaiter := s.update w fun a => { a with canceled := true, posts := a.posts + 1 } },
        some (.cancelPosting w inConstructor))
  | .cancelPosting w inConstructor => some (callbackReturns s w inConstructor, none)
  | .resume w =>
      if (s.awaiter w).active && callbackRunning fs t w then none
      else some (awaitResume s w, none)
  | .dtor w =>
      if (s.awaiter w).active && callbackRunning fs t w then none
      else some (destroyAwaiter s w, none)
  | .claimAll k =>
      match s.waiters with
      | w :: rest =>
          if (s.awaiter w).claimed then
            some ({ s with
              waiters := rest
              awaiter := s.update w fun a => { a with list := none } },
              some (.claimAll k))
          else
            some ({ s with
              waiters := rest
              claimed := Function.update s.claimed k (s.claimed k ++ [w])
              awaiter := s.update w fun a =>
                { a with
                  claimed := true
                  claims := a.claims ++ [.set k]
                  list := some (.set k) } },
              some (.claimAll k))
      | [] => some (s, some (.setLoop k))
  | .setLoop k =>
      match s.claimed k with
      | w :: rest =>
          some ({ s with
            claimed := Function.update s.claimed k rest
            posted := Function.update s.posted k (s.posted k ++ [w])
            awaiter := s.update w fun a =>
              { a with list := none, posts := a.posts + 1 } },
            some (.setPosting k))
      | [] => some (s, none)
  | .setPosting k => some (s, some (.setLoop k))
  | .destroyLoop =>
      match s.waiters with
      | w :: rest =>
          if (s.awaiter w).claimed then
            some ({ s with
              waiters := rest
              awaiter := s.update w fun a => { a with list := none } },
              some .destroyLoop)
          else
            some ({ s with
              waiters := rest
              awaiter := s.update w fun a =>
                { a with
                  claimed := true
                  claims := a.claims ++ [.destructor]
                  canceled := true
                  list := none
                  posts := a.posts + 1 } },
              some .destroyPosting)
      | [] => some (s, none)
  | .destroyPosting => some (s, some .destroyLoop)

/-- What coroutines, the executor and the owners of stop sources do to an
event. -/
inductive Entry where
  | wait (w : Nat)
  | resume (w : Nat)
  | destroy (w : Nat)
  | set
  | clear
  | destroyEvent
  | requestStop (w : Nat)
  | stopCallback (w : Nat)
  deriving DecidableEq

def enter (s : Event) (t : Nat) : Entry → Option (Event × Option Pc)
  | .wait w =>
      if t = executorThread ∧ s.alive = true ∧ (s.awaiter w).phase = .fresh then
        if s.isSet then
          some ({ s with
            awaiter := s.update w fun a => { a with ready := true, phase := .starting } },
            some (.resume w))
        else
          some ({ s with awaiter := s.update w fun a => { a with phase := .starting } },
            some (.awaitSuspend w))
      else none
  | .resume w =>
      if t = executorThread ∧ (s.awaiter w).phase = .suspended ∧
          0 < (s.awaiter w).posts then
        some (s, some (.resume w))
      else none
  | .destroy w =>
      if t = executorThread ∧
          ((s.awaiter w).phase = .suspended ∨ (s.awaiter w).phase = .done) then
        some (s, some (.dtor w))
      else none
  | .set =>
      if t = executorThread ∧ s.alive = true then
        some ({ s with
          isSet := true
          calls := s.calls + 1
          linked := Function.update s.linked s.calls s.waiters },
          some (.claimAll s.calls))
      else none
  | .clear =>
      if t = executorThread ∧ s.alive = true then some ({ s with isSet := false }, none)
      else none
  | .destroyEvent =>
      if t = executorThread ∧ s.alive = true then
        some ({ s with alive := false }, some .destroyLoop)
      else none
  | .requestStop w =>
      some ({ s with awaiter := s.update w fun a => { a with stop := true } }, none)
  | .stopCallback w =>
      if (s.awaiter w).stop ∧ (s.awaiter w).registered then
        some ({ s with awaiter := s.update w fun a => { a with registered := false } },
          some (.cancel w false))
      else none

def machine : Machine Event Pc Unit Entry :=
  Machine.ofSteps Pc.foreign (fun s fs t pc _ => exec s fs t pc) (fun s _ t e => enter s t e)

def Initial (s : State Event Pc) : Prop := s = ⟨{}, []⟩

def Reachable : State Event Pc → Prop := machine.Reachable Initial

theorem initial_frames (s : State Event Pc) (h : Initial s) : s.frames = [] := by
  rw [h]

inductive Step (s : Event) : Pc → Event → Option Pc → Prop
  | suspendStopped {w} : (s.awaiter w).stop = true →
      Step s (.awaitSuspend w)
        { s with awaiter := s.update w fun a => { a with canceled := true } }
        (some (.resume w))
  | suspendQueued {w} :
      Step s (.awaitSuspend w)
        { s with
          waiters := s.waiters ++ [w]
          suspended := s.suspended ++ [w]
          awaiter := s.update w fun a =>
            { a with list := some .event, queued := true, phase := .suspended } }
        (some (.register w))
  | registerStopped {w} : Step s (.register w) s (some (.cancel w true))
  | register {w} :
      Step s (.register w)
        { s with
          awaiter := s.update w fun a => { a with registered := true, active := true } }
        none
  | cancelLost {w b} : Step s (.cancel w b) (callbackReturns s w b) none
  | cancelClaims {w b} : (s.awaiter w).claimed = false →
      Step s (.cancel w b)
        { s with
          awaiter := s.update w fun a =>
            { a with claimed := true, claims := a.claims ++ [.stop] } }
        (some (.cancelMark w b))
  | cancelMark {w b} :
      Step s (.cancelMark w b)
        { s with
          awaiter := s.update w fun a =>
            { a with canceled := true, posts := a.posts + 1 } }
        (some (.cancelPosting w b))
  | cancelReturns {w b} : Step s (.cancelPosting w b) (callbackReturns s w b) none
  | resume {w} : Step s (.resume w) (awaitResume s w) none
  | dtor {w} : Step s (.dtor w) (destroyAwaiter s w) none
  | claimSkips {k w rest} : s.waiters = w :: rest → (s.awaiter w).claimed = true →
      Step s (.claimAll k)
        { s with
          waiters := rest
          awaiter := s.update w fun a => { a with list := none } }
        (some (.claimAll k))
  | claims {k w rest} : s.waiters = w :: rest → (s.awaiter w).claimed = false →
      Step s (.claimAll k)
        { s with
          waiters := rest
          claimed := Function.update s.claimed k (s.claimed k ++ [w])
          awaiter := s.update w fun a =>
            { a with
              claimed := true
              claims := a.claims ++ [.set k]
              list := some (.set k) } }
        (some (.claimAll k))
  | claimed {k} : s.waiters = [] → Step s (.claimAll k) s (some (.setLoop k))
  | posts {k w rest} : s.claimed k = w :: rest →
      Step s (.setLoop k)
        { s with
          claimed := Function.update s.claimed k rest
          posted := Function.update s.posted k (s.posted k ++ [w])
          awaiter := s.update w fun a => { a with list := none, posts := a.posts + 1 } }
        (some (.setPosting k))
  | setDone {k} : s.claimed k = [] → Step s (.setLoop k) s none
  | posted {k} : Step s (.setPosting k) s (some (.setLoop k))
  | destroySkips {w rest} : s.waiters = w :: rest → (s.awaiter w).claimed = true →
      Step s .destroyLoop
        { s with
          waiters := rest
          awaiter := s.update w fun a => { a with list := none } }
        (some .destroyLoop)
  | destroyCancels {w rest} : s.waiters = w :: rest → (s.awaiter w).claimed = false →
      Step s .destroyLoop
        { s with
          waiters := rest
          awaiter := s.update w fun a =>
            { a with
              claimed := true
              claims := a.claims ++ [.destructor]
              canceled := true
              list := none
              posts := a.posts + 1 } }
        (some .destroyPosting)
  | destroyDone : s.waiters = [] → Step s .destroyLoop s none
  | destroyPosted : Step s .destroyPosting s (some .destroyLoop)

theorem exec_step {s s' : Event} {fs : List (Frame Pc)} {t : Nat} {pc : Pc}
    {q : Option Pc} (h : exec s fs t pc = some (s', q)) : Step s pc s' q := by
  unfold exec at h
  split at h
  all_goals repeat' split at h
  all_goals first
    | simp only [Option.some.injEq, Prod.mk.injEq] at h
    | simp only [reduceCtorEq] at h
  all_goals
    obtain ⟨rfl, rfl⟩ := h
    constructor
  all_goals first
    | assumption
    | simp_all

inductive Entered (s : Event) : Nat → Entry → Event → Option Pc → Prop
  | waitReady {w} : (s.awaiter w).phase = .fresh → s.isSet = true →
      Entered s executorThread (.wait w)
        { s with awaiter := s.update w fun a => { a with ready := true, phase := .starting } }
        (some (.resume w))
  | wait {w} : s.alive = true → (s.awaiter w).phase = .fresh → s.isSet = false →
      Entered s executorThread (.wait w)
        { s with awaiter := s.update w fun a => { a with phase := .starting } }
        (some (.awaitSuspend w))
  | resume {w} : (s.awaiter w).phase = .suspended → 0 < (s.awaiter w).posts →
      Entered s executorThread (.resume w) s (some (.resume w))
  | destroy {w} : (s.awaiter w).phase = .suspended ∨ (s.awaiter w).phase = .done →
      Entered s executorThread (.destroy w) s (some (.dtor w))
  | set : s.alive = true →
      Entered s executorThread .set
        { s with
          isSet := true
          calls := s.calls + 1
          linked := Function.update s.linked s.calls s.waiters }
        (some (.claimAll s.calls))
  | clear : Entered s executorThread .clear { s with isSet := false } none
  | destroyEvent : Entered s executorThread .destroyEvent { s with alive := false }
      (some .destroyLoop)
  | requestStop {t w} :
      Entered s t (.requestStop w)
        { s with awaiter := s.update w fun a => { a with stop := true } } none
  | stopCallback {t w} : (s.awaiter w).registered = true →
      Entered s t (.stopCallback w)
        { s with awaiter := s.update w fun a => { a with registered := false } }
        (some (.cancel w false))

theorem enter_entered {s s' : Event} {t : Nat} {e : Entry} {q : Option Pc}
    (h : enter s t e = some (s', q)) : Entered s t e s' q := by
  unfold enter at h
  split at h
  all_goals repeat' split at h
  all_goals first
    | simp only [Option.some.injEq, Prod.mk.injEq] at h
    | simp only [reduceCtorEq] at h
  all_goals obtain ⟨rfl, rfl⟩ := h
  all_goals first
    | exact .requestStop
    | exact .stopCallback (And.right ‹_›)
    | obtain ⟨rfl, hguard⟩ := ‹t = executorThread ∧ _›
  all_goals constructor
  all_goals simp_all

end Capy.AsyncEvent
