import Mathlib.Logic.Function.Basic
import Capy.DirectStyle

/-!
One segment of a chain of `task` and `quitter` coroutines: the frame its owner
started and the frames below it, each awaited by the one above. A frame is its
promise and the point it is suspended at; frames refer to one another by handle.
The body of a coroutine is any program that returns, throws, awaits an operation
or awaits a coroutine it has just called; `code` says what it does next.
-/

namespace Capy.Coroutine

open Capy.DirectStyle

inductive Kind where
  | task
  | quitter
  deriving DecidableEq

/-- An exception: the sentinel `stop_requested_exception`, or one of the program. -/
inductive Exc (E : Type*) where
  | stopRequested
  | user (e : E)
  deriving DecidableEq

abbrev Result (V E : Type*) := Except (Exc E) V

/-- `quitter`'s `completion`. -/
inductive Completion where
  | running
  | value
  | exception
  | stopped
  deriving DecidableEq

/-- A `std::coroutine_handle<>`: of a frame of the segment, of the owner that
started it, or the noop coroutine. -/
inductive Handle where
  | noop
  | owner
  | frame (f : Nat)
  deriving DecidableEq

/-- `promise_type` of `task` and of `quitter`. -/
structure Promise (V E : Type*) where
  kind : Kind
  result : Option V
  ep : Option (Exc E)
  /-- `has_ep_` of a task. -/
  hasEp : Bool
  /-- `state_` of a quitter. -/
  state : Completion
  cont : Handle
  environment : Option Nat

variable {S Op V E : Type*}

namespace Promise

def new (kind : Kind) : Promise V E where
  kind := kind
  result := none
  ep := none
  hasEp := false
  state := .running
  cont := .noop
  environment := none

def setContinuation (p : Promise V E) (h : Handle) : Promise V E := { p with cont := h }

def setEnvironment (p : Promise V E) (env : Option Nat) : Promise V E :=
  { p with environment := env }

/-- The stored continuation, and the promise that has given it away. -/
def continuation (p : Promise V E) : Handle × Promise V E := (p.cont, { p with cont := .noop })

def returnValue (p : Promise V E) (v : V) : Promise V E := { p with result := some v }

def unhandledException (p : Promise V E) (x : Exc E) : Promise V E :=
  match p.kind with
  | .task => { p with ep := some x, hasEp := true }
  | .quitter =>
      match x with
      | .stopRequested => { p with ep := some x, state := .stopped }
      | .user _ => { p with ep := some x, state := .exception }

/-- What `await_resume` of the task or quitter gives: `none` where it would
dereference an empty `result_`. -/
def awaitResume (p : Promise V E) : Option (Result V E) :=
  match p.kind with
  | .task => if p.hasEp then p.ep.map .error else p.result.map .ok
  | .quitter =>
      if p.state = .stopped then some (.error .stopRequested)
      else if p.state = .exception then p.ep.map .error
      else p.result.map .ok

end Promise

/-- Where a frame is suspended. Inside `co_await` of a child the frame holds the
`task` or `quitter` object with its `lent_`. -/
inductive Point (S V E : Type*) where
  | initial (s : S)
  | running
  | atOp (k : Result V E → S)
  | opDone (r : Result V E) (k : Result V E → S)
  | atChild (child : Nat) (lent : Bool) (k : Result V E → S)
  | unwinding
  | final

/-- `coroutine_handle::done`. -/
def Point.done : Point S V E → Bool
  | .final => true
  | _ => false

structure Frame (S V E : Type*) where
  promise : Promise V E
  point : Point S V E

/-- What the thread that runs the segment does next. -/
inductive Control (S V E : Type*) where
  | resume (h : Handle)
  | body (f : Nat) (s : S)
  | finalSuspend (f : Nat)
  /-- The `co_await` expression ends and destroys the awaited object; the body
  then goes on at `s`. -/
  | leave (f child : Nat) (lent : Bool) (s : S)
  /-- Frames being destroyed, innermost first, and the body that goes on after. -/
  | destroy (frames : List Nat) (after : Option (Nat × S))
  /-- Nothing runs; the operation that frame `f` awaits holds its handle. -/
  | suspended (f : Nat)
  | unwound
  | terminated
  | undefined

structure State (S Op V E : Type*) where
  heap : Nat → Option (Frame S V E)
  /-- The next frame to allocate. -/
  next : Nat
  control : Control S V E
  /-- The stop token of the segment's environment. -/
  stop : Bool
  /-- `chain_owner::abandoned`. -/
  abandoned : Bool
  log : List (Obs Op V (Exc E))
  /-- The frames that were freed, in order. -/
  freed : List Nat

namespace State

variable (σ : State S Op V E)

def goto (c : Control S V E) : State S Op V E := { σ with control := c }

def set (f : Nat) (fr : Frame S V E) : State S Op V E :=
  { σ with heap := Function.update σ.heap f (some fr) }

def observe (w : List (Obs Op V (Exc E))) : State S Op V E := { σ with log := σ.log ++ w }

def free (f : Nat) : State S Op V E :=
  { σ with
    heap := Function.update σ.heap f none
    freed := σ.freed ++ [f] }

/-- The part that `initial_suspend` and `transform_awaiter` share when they
resume: they read the environment, and a quitter looks at its stop token. -/
def checkStop (p : Promise V E) : Option (Bool × State S Op V E) :=
  match p.environment, p.kind with
  | none, _ => none
  | some _, .task => some (false, σ)
  | some _, .quitter => some (σ.stop, σ.observe [.check σ.stop])

/-- `await_resume` of `initial_suspend`'s awaiter. -/
def resumeInitial (f : Nat) (fr : Frame S V E) (s : S) : State S Op V E :=
  match σ.checkStop fr.promise with
  | none => σ.goto .undefined
  | some (true, σ') =>
      (σ'.set f ⟨fr.promise.unhandledException .stopRequested, .running⟩).goto (.finalSuspend f)
  | some (false, σ') => (σ'.set f ⟨fr.promise, .running⟩).goto (.body f s)

/-- `transform_awaiter::await_resume` over an operation. -/
def resumeOp (f : Nat) (fr : Frame S V E) (r : Result V E) (k : Result V E → S) :
    State S Op V E :=
  match σ.checkStop fr.promise with
  | none => σ.goto .undefined
  | some (true, σ') =>
      (σ'.set f ⟨fr.promise, .running⟩).goto (.body f (k (.error .stopRequested)))
  | some (false, σ') =>
      ((σ'.observe [.result r]).set f ⟨fr.promise, .running⟩).goto (.body f (k r))

/-- `transform_awaiter::await_resume` over a task or quitter. -/
def resumeChild (f : Nat) (fr : Frame S V E) (child : Nat) (lent : Bool)
    (k : Result V E → S) : State S Op V E :=
  match σ.checkStop fr.promise with
  | none => σ.goto .undefined
  | some (true, σ') =>
      (σ'.set f ⟨fr.promise, .running⟩).goto (.leave f child lent (k (.error .stopRequested)))
  | some (false, σ') =>
      match (σ.heap child).bind fun c => c.promise.awaitResume with
      | none => σ.goto .undefined
      | some r => (σ'.set f ⟨fr.promise, .running⟩).goto (.leave f child false (k r))

def resume : Handle → Option (State S Op V E)
  | .noop | .owner => none
  | .frame f =>
      match σ.heap f with
      | none => some (σ.goto .undefined)
      | some fr =>
          match fr.point with
          | .initial s => some (σ.resumeInitial f fr s)
          | .opDone r k => some (σ.resumeOp f fr r k)
          | .atChild child lent k => some (σ.resumeChild f fr child lent k)
          | _ => some (σ.goto .undefined)

/-- The body of frame `f` goes on to its next `co_await`, `co_return` or
exception. A coroutine it calls starts suspended and is awaited at once: its
`await_suspend` stores the continuation and the environment. -/
def body (code : S → Act S Op V (Exc E) Kind) (f : Nat) (fr : Frame S V E) (s : S) :
    State S Op V E :=
  match code s with
  | .ret v => (σ.set f ⟨fr.promise.returnValue v, .running⟩).goto (.finalSuspend f)
  | .throws x => (σ.set f ⟨fr.promise.unhandledException x, .running⟩).goto (.finalSuspend f)
  | .op o k => ((σ.observe [.start o]).set f ⟨fr.promise, .atOp k⟩).goto (.suspended f)
  | .call kind child k =>
      let promise : Promise V E :=
        ((Promise.new kind).setContinuation (.frame f)).setEnvironment fr.promise.environment
      { (σ.set f ⟨fr.promise, .atChild σ.next true k⟩).set σ.next ⟨promise, .initial child⟩ with
        next := σ.next + 1
        control := .resume (.frame σ.next) }

/-- `final_suspend` transfers to the continuation. -/
def finalSuspend (f : Nat) (fr : Frame S V E) : State S Op V E :=
  let next := fr.promise.continuation
  (σ.set f ⟨next.2, .final⟩).goto (.resume next.1)

/-- `destroy_frame` of the object that owns `child`; `frames` and `after` are
what is left to destroy and to do. -/
def destroyFrame (child : Nat) (lent : Bool) (frames : List Nat) (after : Option (Nat × S)) :
    State S Op V E :=
  match σ.heap child with
  | none => σ.goto .undefined
  | some c =>
      if lent && !c.point.done && !σ.abandoned then σ.goto .terminated
      else σ.goto (.destroy (child :: frames) after)

/-- Destroying a suspended coroutine destroys what it holds and frees it. -/
def destroy : List Nat → Option (Nat × S) → State S Op V E
  | [], none => σ.goto .unwound
  | [], some (f, s) => σ.goto (.body f s)
  | f :: frames, after =>
      match σ.heap f with
      | none => σ.goto .undefined
      | some fr =>
          match fr.point with
          | .running | .opDone _ _ => σ.goto .undefined
          | .atChild child lent _ =>
              (σ.set f ⟨fr.promise, .unwinding⟩).destroyFrame child lent (f :: frames) after
          | _ => (σ.free f).goto (.destroy frames after)

/-- The next step of the thread that runs the segment. -/
def run (code : S → Act S Op V (Exc E) Kind) : Option (State S Op V E) :=
  match σ.control with
  | .resume h => σ.resume h
  | .body f s =>
      match σ.heap f with
      | none => some (σ.goto .undefined)
      | some fr => some (σ.body code f fr s)
  | .finalSuspend f =>
      match σ.heap f with
      | none => some (σ.goto .undefined)
      | some fr => some (σ.finalSuspend f fr)
  | .leave f child lent s => some (σ.destroyFrame child lent [] (some (f, s)))
  | .destroy frames after => some (σ.destroy frames after)
  | .suspended _ | .unwound | .terminated | .undefined => none

end State

/-- The running thread's next step; the operation completes, at once or later,
with this result; a stop is requested; the operation gives the coroutine up, and
the owner destroys the frame it awaits. -/
inductive Event (V E : Type*) where
  | run
  | complete (r : Result V E)
  | requestStop
  | abandon

def step (code : S → Act S Op V (Exc E) Kind) (σ : State S Op V E) :
    Event V E → Option (State S Op V E)
  | .run => σ.run code
  | .complete r =>
      match σ.control with
      | .suspended f =>
          match σ.heap f with
          | some ⟨promise, .atOp k⟩ =>
              some ((σ.set f ⟨promise, .opDone r k⟩).goto (.resume (.frame f)))
          | _ => some (σ.goto .undefined)
      | _ => none
  | .requestStop => some { σ with stop := true }
  | .abandon =>
      match σ.control with
      | .suspended _ => some { σ with abandoned := true, control := .destroy [0] none }
      | _ => none

def runEvents (code : S → Act S Op V (Exc E) Kind) :
    State S Op V E → List (Event V E) → Option (State S Op V E)
  | σ, [] => some σ
  | σ, e :: es => (step code σ e).bind fun σ' => runEvents code σ' es

/-- The owner has called the coroutine, and starts it in its environment. -/
def start (kind : Kind) (s : S) (env : Nat) : State S Op V E where
  heap := Function.update (fun _ => none) 0
    (some ⟨((Promise.new kind).setContinuation .owner).setEnvironment (some env), .initial s⟩)
  next := 1
  control := .resume (.frame 0)
  stop := false
  abandoned := false
  log := []
  freed := []

/-- The states of the segment that the owner started with this coroutine. -/
def Reachable (code : S → Act S Op V (Exc E) Kind) (kind : Kind) (s : S) (env : Nat)
    (σ : State S Op V E) : Prop :=
  ∃ es, runEvents code (start kind s env) es = some σ

/-- The coroutines as direct-style programs: only quitters look for a stop. -/
def language (code : S → Act S Op V (Exc E) Kind) : Language S Op V (Exc E) Kind where
  code := code
  checks kind := kind = .quitter
  stopped := .stopRequested

end Capy.Coroutine
