import Mathlib.Logic.Function.Basic
import Capy.CallStack

/-!
The thread-local frame allocator of `frame_allocator.hpp` and the code that writes
it: `safe_resume`, the launch expressions `run_async(ex, mr)(t)` and `run(ex, mr)(t)`,
and the points at which a `task`, a `quitter` and a `write_now` operation come back
to their body. A thread is a stack of activations. Code that is neither a coroutine
body nor a launch expression is plain code, which does not write the slot itself.
-/

namespace Capy.FrameAllocator

open Capy.CallStack

abbrev Resource := Nat

/-- A `memory_resource*`; `none` is the null pointer. -/
abbrev Slot := Option Resource

/-- The resource of `get_recycling_memory_resource`. -/
def recycling : Resource := 0

/-- One call of `allocate` or `deallocate`, or of their `_fast` forms when the
resource is the recycling one. -/
structure Request where
  resource : Resource
  bytes : Nat
  fast : Bool
  deriving DecidableEq

def pointerBytes : Nat := 8

def Request.ofSize (mr : Resource) (size : Nat) : Request :=
  ⟨mr, size + pointerBytes, mr == recycling⟩

/-- The storage of a frame made by `frame_alloc_mixin`: the size of the frame, the
resource the storage came from and the pointers it holds, by offset. The pointer to
the resource is at the end of the frame. -/
structure FrameBlock where
  size : Nat
  resource : Resource
  pointers : Nat → Option Resource
  trailer : pointers size = some resource

def FrameBlock.allocation (b : FrameBlock) : Request := .ofSize b.resource b.size

/-- `frame_alloc_mixin::operator new` on a thread with the given slot. -/
def operatorNew (slot : Slot) (defaultResource : Resource) (size : Nat) : FrameBlock where
  size := size
  resource := slot.getD defaultResource
  pointers := Function.update (fun _ => none) size (some (slot.getD defaultResource))
  trailer := Function.update_self ..

/-- `frame_alloc_mixin::operator delete`, which is passed the size of the frame. -/
def operatorDelete (b : FrameBlock) : Option Request :=
  (b.pointers b.size).map fun mr => .ofSize mr b.size

theorem operatorDelete_eq (b : FrameBlock) : operatorDelete b = some b.allocation := by
  rw [operatorDelete, b.trailer]
  rfl

/-- A stretch of code that saves the slot and writes it back: what it saved, and
what the slot held when it began. -/
structure Scope where
  saved : Slot
  found : Slot
  kept : saved = found

def Scope.enter (v : Slot) : Scope := ⟨v, v, rfl⟩

/-- How far a launch expression is: its task argument is evaluated, `dispatch` has
the task, or `dispatch` has returned the handle that is resumed. -/
inductive Stage where
  | argument
  | dispatching (d : Nat)
  | resuming
  deriving DecidableEq

/-- A launch expression that has not been left: the trampoline of a
`run_async_wrapper`, none for a `run_wrapper`, and the resource it installed. -/
structure Launch where
  trampoline : Option Nat
  resource : Slot
  scope : Scope
  stage : Stage

/-- What the slot holds once the wrappers are destroyed, the innermost first. -/
def unwind (v : Slot) (ls : List Launch) : Slot := ls.foldl (fun _ l => l.scope.saved) v

inductive Kind where
  | task
  | quitter
  | writeNow
  | runner
  | trampoline
  deriving DecidableEq

/-- The coroutines whose body relies on the slot. -/
def Kind.guarded : Kind → Bool
  | .task | .quitter | .writeNow => true
  | .runner | .trampoline => false

/-- Where a coroutine is. A `write_now` operation is at its initial point until it
is first resumed by its awaiter, be it at `initial_suspend` or at `co_yield 0`. -/
inductive Point where
  | initial
  | awaiting
  | running
  | final
  | destroyed
  deriving DecidableEq

/-- Whether the awaiter that a coroutine comes back through writes the slot:
`initial_suspend` and the awaiter of a `co_await` do in `task` and `quitter`, only
the latter does in `write_now`, and none in a runner or a trampoline. -/
def Kind.setsSlot : Kind → Point → Bool
  | .task, _ | .quitter, _ => true
  | .writeNow, .initial => false
  | .writeNow, _ => true
  | .runner, _ | .trampoline, _ => false

/-- A coroutine: the `frame_allocator` of its `await_context`, the one a `run`
wrapper keeps for it, its continuation, the launch expressions it is suspended
inside of, innermost first, and its storage if `frame_alloc_mixin` made it. -/
structure Coro where
  kind : Kind
  point : Point := .initial
  env : Option Slot := none
  given : Option Slot := none
  continuation : Option Nat := none
  launches : List Launch := []
  block : Option FrameBlock := none

/-- A suspended coroutine that has its environment. -/
def Coro.resumable (x : Coro) : Bool :=
  (x.point = .initial || x.point = .awaiting) && (x.kind = .trampoline || x.env.isSome)

/-- The slot after the coroutine came back to its body on a thread with slot `v`. -/
def Coro.resumeSlot (x : Coro) (v : Slot) : Slot :=
  if x.kind.setsSlot x.point then x.env.getD none else v

/-- A scope that was left, with what it found in the slot and what it left there. -/
structure Exit where
  found : Slot
  left : Slot
  deriving DecidableEq

/-- The slots of the threads, the coroutines, `std::pmr::get_default_resource()`,
the scopes left so far and the calls of `operator delete`. -/
structure Shared where
  slots : Nat → Slot := fun _ => none
  coros : Nat → Option Coro := fun _ => none
  defaultResource : Resource
  exits : List Exit := []
  returned : List (Nat × Option Request) := []

/-- Who called `resume()`: `safe_resume`, or `run_async_wrapper` and the nested form
of `symmetric_transfer`, which do not save the slot. -/
inductive How where
  | safe (scope : Scope)
  | direct

/-- Where an activation stands: in the body of a coroutine or in plain code, inside
the launch expressions listed, or in the `await_suspend` a coroutine is suspended
in. -/
inductive Pc where
  | body (how : How) (c : Nat) (launches : List Launch)
  | plain (launches : List Launch)
  | suspending (how : How) (c : Nat)

def Pc.launches : Pc → List Launch
  | .body _ _ ls | .plain ls => ls
  | .suspending _ _ => []

def Pc.withLaunches : Pc → List Launch → Pc
  | .body how c _, ls => .body how c ls
  | .plain _, ls => .plain ls
  | .suspending how c, _ => .suspending how c

/-- The activation runs user code, at most inside task arguments. -/
def Pc.atCode : Pc → Bool
  | .body _ _ ls | .plain ls => ls.all fun l => l.stage = .argument
  | .suspending _ _ => false

/-- The activation calls `resume()` without saving the slot. -/
def Pc.resumesDirectly : Pc → Bool
  | .body _ _ (l :: _) | .plain (l :: _) => l.stage = .resuming
  | .suspending _ _ => true
  | _ => false

namespace Shared

def setSlot (s : Shared) (t : Nat) (v : Slot) : Shared :=
  { s with slots := Function.update s.slots t v }

def setCoro (s : Shared) (c : Nat) (x : Coro) : Shared :=
  { s with coros := Function.update s.coros c (some x) }

/-- Leave a scope: the saved value is written back. -/
def leave (s : Shared) (t : Nat) (scope : Scope) : Shared :=
  let s' := s.setSlot t scope.saved
  { s' with exits := ⟨scope.found, s'.slots t⟩ :: s.exits }

/-- Destroy a coroutine on a thread: the wrappers in its frame write the slot, and
its storage is given back. -/
def destroy (s : Shared) (t : Nat) (d : Nat) : Shared :=
  match s.coros d with
  | none => s
  | some x =>
      { (s.setSlot t (unwind (s.slots t) x.launches)).setCoro d
          { x with point := .destroyed, launches := [] } with
        returned := (x.block.map fun b => (d, operatorDelete b)).toList ++ s.returned }

/-- Destroy a coroutine that was made and never resumed. -/
def destroyUnstarted (s : Shared) (t : Nat) (d : Nat) : Option Shared :=
  if (s.coros d).any fun x => x.point = .initial then some (s.destroy t d) else none

/-- Resume a suspended coroutine. -/
def resume (s : Shared) (t : Nat) (how : How) (d : Nat) : Option (Shared × Option Pc) :=
  match s.coros d with
  | none => none
  | some x =>
      if x.resumable then
        some ((s.setSlot t (x.resumeSlot (s.slots t))).setCoro d
          { x with point := .running, launches := [] }, some (.body how d x.launches))
      else none

end Shared

/-- What the running activation of a thread does next. -/
inductive Action where
  /-- Call a coroutine function; its frame has the given size. -/
  | create (kind : Kind) (size k : Nat)
  /-- `run_async(ex, mr)`, with the trampoline `k`. -/
  | runAsync (mr : Slot) (k : Nat)
  /-- `run(ex, mr)`. -/
  | run (mr : Slot)
  /-- Evaluating the task argument of the innermost launch expression throws. -/
  | argumentThrows
  /-- `run_async_wrapper::operator()` up to the call of `dispatch`. -/
  | startTask (d : Nat)
  | dispatchThrows
  | dispatchReturns
  /-- The handle was resumed and the `run_async_wrapper` is destroyed. -/
  | leaveRunAsync
  /-- `operator()` of a `run` wrapper, whose awaitable has a resource of its own. -/
  | makeAwaitable (d : Nat) (own : Slot)
  /-- A `co_await` that does not suspend. -/
  | awaitReady
  /-- A `co_await` that hands the coroutine to an operation. -/
  | suspend
  /-- A `co_await` of a child, directly or through `run`; a child that `run` starts
  on another executor continues with a boundary trampoline. -/
  | lend (d : Nat) (trampoline : Option Nat)
  /-- Make a runner of `when_all` or `when_any` for the suspended coroutine. -/
  | makeRunner (k : Nat)
  /-- Symmetric transfer. -/
  | transfer (d : Nat)
  /-- The body ends and `final_suspend` transfers to the continuation. -/
  | finish
  /-- `resume()` returns to its caller, or plain code returns. -/
  | ret

/-- What a thread may begin when it is idle or above its running activation. -/
inductive Entry where
  | call
  | safeResume (d : Nat)
  | resume (d : Nat)
  | destroy (d : Nat)
  | setDefaultResource (r : Resource)

def exec (s : Shared) (t : Nat) (pc : Pc) : Action → Option (Shared × Option Pc)
  | .create kind size k =>
      if kind.guarded && (s.coros k).isNone then
        some (s.setCoro k
          { kind := kind
            block :=
              if kind = .writeNow then none
              else some (operatorNew (s.slots t) s.defaultResource size) }, some pc)
      else none
  | .runAsync mr k =>
      if pc.atCode && (s.coros k).isNone then
        some ((s.setCoro k { kind := .trampoline }).setSlot t mr,
          some (pc.withLaunches
            (⟨some k, mr, .enter (s.slots t), .argument⟩ :: pc.launches)))
      else none
  | .run mr =>
      if pc.atCode then
        some (s.setSlot t mr,
          some (pc.withLaunches (⟨none, mr, .enter (s.slots t), .argument⟩ :: pc.launches)))
      else none
  | .argumentThrows =>
      match pc.launches with
      | l :: ls =>
          if l.stage = .argument then
            match l.trampoline with
            | some k =>
                (s.destroyUnstarted t k).map fun s' =>
                  (s'.leave t l.scope, some (pc.withLaunches ls))
            | none => some (s.leave t l.scope, some (pc.withLaunches ls))
          else none
      | [] => none
  | .startTask d =>
      match pc.launches, s.coros d with
      | l :: ls, some x =>
          if l.stage = .argument && l.trampoline.isSome && x.kind.guarded &&
              x.kind ≠ .writeNow && x.point = .initial && x.env.isNone then
            some (s.setCoro d { x with env := some l.resource, continuation := l.trampoline },
              some (pc.withLaunches ({ l with stage := .dispatching d } :: ls)))
          else none
      | _, _ => none
  | .dispatchThrows =>
      match pc.launches with
      | l :: ls =>
          match l.stage, l.trampoline with
          | .dispatching d, some k =>
              (s.destroyUnstarted t d).bind fun s₁ =>
                (s₁.destroyUnstarted t k).map fun s₂ =>
                  (s₂.leave t l.scope, some (pc.withLaunches ls))
          | _, _ => none
      | [] => none
  | .dispatchReturns =>
      match pc.launches with
      | l :: ls =>
          match l.stage with
          | .dispatching _ =>
              some (s, some (pc.withLaunches ({ l with stage := .resuming } :: ls)))
          | _ => none
      | [] => none
  | .leaveRunAsync =>
      match pc.launches with
      | l :: ls =>
          if l.stage = .resuming then some (s.leave t l.scope, some (pc.withLaunches ls)) else none
      | [] => none
  | .makeAwaitable d own =>
      match pc.launches, s.coros d with
      | l :: ls, some x =>
          if l.stage = .argument && l.trampoline.isNone && x.kind.guarded &&
              x.kind ≠ .writeNow && x.point = .initial && x.env.isNone then
            some ((s.setCoro d { x with given := some own }).leave t l.scope,
              some (pc.withLaunches ls))
          else none
      | _, _ => none
  | .awaitReady =>
      match pc with
      | .body _ c _ =>
          match s.coros c with
          | some x =>
              if pc.atCode then
                some (s.setSlot t ({ x with point := .awaiting }.resumeSlot (s.slots t)), some pc)
              else none
          | none => none
      | _ => none
  | .suspend =>
      match pc with
      | .body how c ls =>
          match s.coros c with
          | some x =>
              if pc.atCode && x.point = .running then
                some (s.setCoro c { x with point := .awaiting, launches := ls },
                  some (.suspending how c))
              else none
          | none => none
      | _ => none
  | .lend d trampoline =>
      match pc with
      | .body how c ls =>
          match s.coros c, s.coros d with
          | some x, some y =>
              match x.env with
              | some e =>
                  if pc.atCode && x.point = .running && y.kind.guarded &&
                      y.point = .initial && y.env.isNone &&
                      trampoline.all fun k => (s.coros k).isNone then
                    let s' := match trampoline with
                      | some k => s.setCoro k { kind := .trampoline }
                      | none => s
                    some ((s'.setCoro c { x with point := .awaiting, launches := ls }).setCoro d
                      { y with
                        env := some (y.given.getD e)
                        continuation := some (trampoline.getD c) },
                      some (.suspending how c))
                  else none
              | none => none
          | _, _ => none
      | _ => none
  | .makeRunner k =>
      match pc with
      | .suspending _ c =>
          match s.coros c with
          | some x =>
              if x.env.isSome && (s.coros k).isNone then
                some (s.setCoro k { kind := .runner, env := x.env }, some pc)
              else none
          | none => none
      | _ => none
  | .transfer d =>
      match pc with
      | .suspending how _ => s.resume t how d
      | _ => none
  | .finish =>
      match pc with
      | .body how c [] =>
          match s.coros c with
          | some x =>
              if x.point = .running then
                let s' := s.setCoro c { x with point := .final }
                match x.continuation with
                | some a => s'.resume t how a
                | none => some (s', some (.suspending how c))
              else none
          | none => none
      | _ => none
  | .ret =>
      match pc with
      | .plain [] => some (s, none)
      | .suspending (.safe scope) _ => some (s.leave t scope, none)
      | .suspending .direct _ => some (s, none)
      | _ => none

def enter (s : Shared) (fs : List (Frame Pc)) (t : Nat) : Entry → Option (Shared × Option Pc)
  | .call => some (s, some (.plain []))
  | .safeResume d => s.resume t (.safe (.enter (s.slots t))) d
  | .resume d =>
      if (topPc t fs).any Pc.resumesDirectly then s.resume t .direct d else none
  | .destroy d =>
      match s.coros d with
      | some x =>
          if x.point = .initial || x.point = .awaiting || x.point = .final then
            some (s.destroy t d, none)
          else none
      | none => none
  | .setDefaultResource r => some ({ s with defaultResource := r }, none)

def machine : Machine Shared Pc Action Entry :=
  Machine.ofSteps (fun _ => true) (fun s _ => exec s) enter

/-- No thread runs anything, no coroutine was made and every slot is null. -/
def Initial (s : State Shared Pc) : Prop :=
  s.frames = [] ∧ ∃ r, s.shared = { defaultResource := r }

end Capy.FrameAllocator
