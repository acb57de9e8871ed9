import Capy.CallStack
import Capy.Custody

/-!
What `any_read_stream`, `any_write_stream` and `any_stream` create and release:
the stream objects and storage blocks the wrappers own, and the inner awaitables
in their caches, which the awaitables of `read_some` and `write_some` start and
end. Wrappers and awaitables go by their address, which may be used again;
blocks, stream objects and inner awaitables are numbered.
-/

namespace Capy.AnyStreamLifetime

open Capy.CallStack

inductive Kind where
  | read
  | write
  deriving DecidableEq

inductive Class where
  | anyReadStream
  | anyWriteStream
  | anyStream
  deriving DecidableEq

/-- The wrapper has the base class that does operations of this kind. -/
def Class.has : Class → Kind → Bool
  | .anyReadStream, k => k = .read
  | .anyWriteStream, k => k = .write
  | .anyStream, _ => true

/-- What `stream_` points to: a stream of the caller, or a stream object in a
storage block of a wrapper. -/
inductive Stream where
  | external (id : Nat)
  | owned (id block : Nat)
  deriving DecidableEq

/-- An inner awaitable is constructed in a block and refers to a stream. -/
inductive Resource where
  | block (id : Nat)
  | stream (id block : Nat)
  | inner (id block : Nat) (stream : Stream)
  deriving DecidableEq

/-- The stream object, when it is a wrapper's own. -/
def Stream.object : Stream → Option Resource
  | .external _ => none
  | .owned x b => some (.stream x b)

/-- The members of `any_read_stream` and `any_write_stream`. `vt_` is set, moved
and cleared with `stream_` and stands for it. -/
structure Base where
  stream : Option Stream := none
  cachedAwaitable : Option Nat := none
  storage : Option Nat := none
  awaitableActive : Bool := false
  /-- `owner_`: the awaitable whose flag `owns_` it points to. -/
  owner : Option Nat := none
  deriving DecidableEq

/-- The members `any_stream` adds to its bases. `destroy_` goes with `stream_ptr_`. -/
structure Whole where
  storage : Option Nat := none
  streamPtr : Option Stream := none
  deriving DecidableEq

/-- The awaitable `read_some` and `write_some` return; `empty` is
`ba_.to_span().empty()`. -/
structure Awaitable where
  kind : Kind
  self : Option Nat
  empty : Bool
  owns : Bool := false
  deriving DecidableEq

/-- `cell` is what was last constructed in a cache block. `fault` is set when the
code uses an object that is not there. -/
structure Store where
  wrapper : Nat → Option Class := fun _ => none
  base : Nat × Kind → Base := fun _ => {}
  whole : Nat → Whole := fun _ => {}
  awaitable : Nat → Option Awaitable := fun _ => none
  cell : Nat → Option Resource := fun _ => none
  log : List (Custody.Event Resource) := []
  next : Nat := 0
  fault : Bool := false

namespace Store

variable (s : Store) (p dst src : Nat × Kind) (w a : Nat)

def setBase (b : Base) : Store := { s with base := Function.update s.base p b }

def setWhole (m : Whole) : Store := { s with whole := Function.update s.whole w m }

def setAwaitable (x : Option Awaitable) : Store :=
  { s with awaitable := Function.update s.awaitable a x }

/-- The address begins or stops to be a wrapper of the class. -/
def setWrapper (c : Option Class) : Store := { s with wrapper := Function.update s.wrapper w c }

def create (r : Resource) : Store := { s with log := .created r :: s.log, next := s.next + 1 }

def release (r : Resource) : Store := { s with log := .released r :: s.log }

def fail : Store := { s with fault := true }

/-- `::operator delete` of a pointer that may be null. -/
def deleteBlock : Option Nat → Store
  | none => s
  | some b => s.release (.block b)

/-- `vt_->destroy(stream_)` and `destroy_(stream_ptr_)`. -/
def destroyStream (stream : Option Stream) : Store :=
  match stream.bind Stream.object with
  | some r => s.release r
  | none => s.fail

/-- `vt_->destroy_awaitable(cached_awaitable_)`. -/
def destroyAwaitable : Store :=
  match (s.base p).cachedAwaitable.bind s.cell with
  | some r => s.release r
  | none => s.fail

/-- `*std::exchange(owner_, nullptr) = false`, when `owner_` is set. -/
def disown : Store :=
  match (s.base p).owner with
  | none => s
  | some a =>
      let s := s.setBase p { s.base p with owner := none }
      match s.awaitable a with
      | some x => s.setAwaitable a (some { x with owns := false })
      | none => s.fail

def endOperation : Store :=
  let s := s.disown p
  if (s.base p).awaitableActive then
    (s.destroyAwaitable p).setBase p { s.base p with awaitableActive := false }
  else s

/-- A stream held in a storage block of its own is destroyed, then the block is
deleted. -/
def destroyOwned (stream : Option Stream) (storage : Option Nat) : Store :=
  if storage.isSome then (s.destroyStream stream).deleteBlock storage else s

/-- `~any_read_stream`, and what `operator=` does to the target before it takes
the members of the other wrapper. -/
def clear : Store :=
  let s := s.endOperation p
  let b := s.base p
  ((s.deleteBlock b.cachedAwaitable).destroyOwned b.stream b.storage).setBase p {}

/-- The move constructor: the members change hands, `owner_` apart, and the other
wrapper disowns its operation. -/
def take : Store :=
  let b := s.base src
  let s := s.setBase dst { b with owner := none }
  (s.setBase src { owner := b.owner }).disown src

/-- `operator=` for two different wrappers. `other.disown()` touches nothing that
clearing the target does, and comes with the other moves. -/
def assign : Store := (s.clear dst).take dst src

/-- `any_stream` destroys the stream it owns; its storage is null after that, or is
overwritten at once. -/
def destroyWhole : Store :=
  (s.destroyOwned (s.whole w).streamPtr (s.whole w).storage).setWhole w {}

def takeWhole (w' : Nat) : Store := (s.setWhole w (s.whole w')).setWhole w' {}

end Store

/-- Where a construction throws: at the allocation for the stream, at the stream's
move, or at the allocation of the cache of a base. -/
inductive Point where
  | storage
  | move
  | cached (k : Kind)
  deriving DecidableEq

namespace Store

variable (s : Store) (p : Nat × Kind) (w : Nat) (throws : Option Point)

/-- `any_read_stream(S s)`. The result tells whether it returned; when it throws,
the guard has released the stream, if there is one, and the storage, if there is one. -/
def constructOwning : Store × Bool :=
  if throws = some .storage then (s, false)
  else
    let b := s.next
    let s := s.create (.block b)
    if throws = some .move then (s.release (.block b), false)
    else
      let x := s.next
      let s := s.create (.stream x b)
      if throws = some (.cached p.2) then ((s.release (.stream x b)).release (.block b), false)
      else
        let c := s.next
        let base : Base :=
          { stream := some (.owned x b), cachedAwaitable := some c, storage := some b }
        ((s.create (.block c)).setBase p base, true)

/-- `any_read_stream(S* s)`. -/
def constructBorrowing (stream : Stream) : Store × Bool :=
  if throws = some (.cached p.2) then (s, false)
  else
    let c := s.next
    let base : Base := { stream := some stream, cachedAwaitable := some c }
    ((s.create (.block c)).setBase p base, true)

/-- `any_stream(S s)` once `ptr` is set: when the cache of a base cannot be
allocated, the guard releases the stream and the storage, and a base that is there
already its cache. -/
def constructBases (stream : Stream) : Store × Bool :=
  match s.constructBorrowing (w, .read) throws stream with
  | (s, false) => (s.destroyWhole w, false)
  | (s, true) =>
      match s.constructBorrowing (w, .write) throws stream with
      | (s, false) => ((s.destroyWhole w).clear (w, .read), false)
      | (s, true) => (s, true)

/-- `any_stream(S s)`. -/
def constructWhole : Store × Bool :=
  if throws = some .storage then (s, false)
  else
    let b := s.next
    let s := s.create (.block b)
    -- the guard's `ptr` is still null, so nothing gives `storage_` back
    if throws = some .move then (s, false)
    else
      let x := s.next
      let stream := Stream.owned x b
      let s := (s.create (.stream x b)).setWhole w ⟨some b, some stream⟩
      s.constructBases w throws stream

/-- `any_stream(S* s)`. -/
def constructBoth (stream : Stream) : Store × Bool :=
  match s.constructBorrowing (w, .read) throws stream with
  | (s, false) => (s, false)
  | (s, true) =>
      match s.constructBorrowing (w, .write) throws stream with
      | (s, false) => (s.clear (w, .read), false)
      | (s, true) => (s, true)

end Store

/-- What a wrapper is constructed from: nothing, a stream to own, or a pointer to
a stream of the caller. -/
inductive Argument where
  | nothing
  | value
  | pointer (id : Nat)
  deriving DecidableEq

namespace Store

variable (s : Store) (w w' a a' : Nat)

def construct (c : Class) (arg : Argument) (throws : Option Point) : Store × Bool :=
  match arg, c with
  | .nothing, _ => (s, true)
  | .value, .anyReadStream => s.constructOwning (w, .read) throws
  | .value, .anyWriteStream => s.constructOwning (w, .write) throws
  | .value, .anyStream => s.constructWhole w throws
  | .pointer i, .anyReadStream => s.constructBorrowing (w, .read) throws (.external i)
  | .pointer i, .anyWriteStream => s.constructBorrowing (w, .write) throws (.external i)
  | .pointer i, .anyStream => s.constructBoth w throws (.external i)

/-- The destructors of the three classes. -/
def destroy : Class → Store
  | .anyReadStream => s.clear (w, .read)
  | .anyWriteStream => s.clear (w, .write)
  | .anyStream =>
      let s := (s.endOperation (w, .read)).endOperation (w, .write)
      ((s.destroyWhole w).clear (w, .write)).clear (w, .read)

/-- The move constructors of the three classes, from `w'` into `w`. -/
def moveConstruct : Class → Store
  | .anyReadStream => s.take (w, .read) (w', .read)
  | .anyWriteStream => s.take (w, .write) (w', .write)
  | .anyStream =>
      ((s.take (w, .read) (w', .read)).take (w, .write) (w', .write)).takeWhole w w'

/-- The move assignments of the three classes, from `w'` to `w`. -/
def moveAssign (c : Class) : Store :=
  if w = w' then s
  else
    match c with
    | .anyReadStream => s.assign (w, .read) (w', .read)
    | .anyWriteStream => s.assign (w, .write) (w', .write)
    | .anyStream =>
        let s := (s.endOperation (w, .read)).endOperation (w, .write)
        let s := s.destroyWhole w
        ((s.assign (w, .read) (w', .read)).assign (w, .write) (w', .write)).takeWhole w w'

/-- `await_ready` of the awaitable `x` at `a`, on the base `p`, up to the call of
the inner `await_ready`. -/
def awaitReady (x : Awaitable) (p : Nat × Kind) : Store :=
  match (s.base p).stream, (s.base p).cachedAwaitable with
  | some stream, some c =>
      let r := Resource.inner s.next c stream
      let base : Base := { s.base p with awaitableActive := true, owner := some a }
      let s := { s.create r with cell := Function.update s.cell c (some r) }
      (s.setBase p base).setAwaitable a (some { x with owns := true })
  | _, _ => s.fail

/-- What an awaitable that owns the operation does to the wrapper when it ends the
operation. -/
def finish (x : Awaitable) : Store :=
  match x.self with
  | none => s.fail
  | some w =>
      if (s.wrapper w).isSome then
        (s.destroyAwaitable (w, x.kind)).setBase (w, x.kind)
          { s.base (w, x.kind) with awaitableActive := false, owner := none }
      else s.fail

/-- `await_resume` while `owns_` is set; the guard ends the operation also when the
inner `await_resume` throws. -/
def awaitResume (x : Awaitable) : Store :=
  (s.finish x).setAwaitable a (some { x with owns := false })

/-- `~awaitable`. -/
def drop (x : Awaitable) : Store := (if x.owns then s.finish x else s).setAwaitable a none

/-- The move constructor of the awaitable, from `a` into `a'`. -/
def moveAwaitable (x : Awaitable) : Store :=
  let s := s.setAwaitable a (some { x with self := none, owns := false })
  let s := s.setAwaitable a' (some x)
  if x.owns then
    match x.self with
    | none => s.fail
    | some w =>
        if (s.wrapper w).isSome then
          s.setBase (w, x.kind) { s.base (w, x.kind) with owner := some a' }
        else s.fail
  else s

end Store

/-- One step of the program that uses the wrappers. -/
inductive Action where
  | construct (w : Nat) (c : Class) (arg : Argument) (throws : Option Point)
  | make (a w : Nat) (k : Kind) (empty : Bool)
  | start (a : Nat) (throws : Bool)
  | complete (a : Nat)
  | drop (a : Nat)
  | moveAwaitable (a a' : Nat)
  | moveConstruct (w w' : Nat)
  | moveAssign (w w' : Nat)
  | destroy (w : Nat)
  deriving DecidableEq

/-- The wrapper is there and holds a stream, and no operation of the kind is in
flight on it. An operation is in flight as long as its awaitable owns it. -/
def Store.canStart (s : Store) (p : Nat × Kind) : Bool :=
  (s.wrapper p.1).isSome && (s.base p).stream.isSome && (s.base p).owner.isNone

/-- An empty write never touches the wrapper. -/
def Awaitable.emptyWrite (x : Awaitable) : Bool := x.kind = .write && x.empty

/-- `start` is `await_ready`, which may throw as it constructs the inner awaitable,
`complete` is `await_resume`. -/
def step (s : Store) : Action → Option Store
  | .construct w c arg throws =>
      if s.wrapper w = none then
        match s.construct w c arg throws with
        | (s, true) => some (s.setWrapper w (some c))
        | (s, false) => some s
      else none
  | .make a w k empty =>
      match s.awaitable a, s.wrapper w with
      | none, some c =>
          if c.has k then
            some (s.setAwaitable a (some { kind := k, self := some w, empty := empty }))
          else none
      | _, _ => none
  | .start a throws =>
      match s.awaitable a with
      | none => none
      | some x =>
          if x.emptyWrite then some s
          else
            match x.self with
            | none => none
            | some w =>
                if s.canStart (w, x.kind) then
                  some (if throws then s else s.awaitReady a x (w, x.kind))
                else none
  | .complete a =>
      match s.awaitable a with
      | none => none
      | some x =>
          if x.owns then some (s.awaitResume a x)
          -- a write that owns nothing returns at once
          else if x.kind = .write then some s
          else none
  | .drop a => (s.awaitable a).map fun x => s.drop a x
  | .moveAwaitable a a' =>
      match s.awaitable a, s.awaitable a' with
      | some x, none => some (s.moveAwaitable a a' x)
      | _, _ => none
  | .moveConstruct w w' =>
      match s.wrapper w, s.wrapper w' with
      | none, some c => some ((s.moveConstruct w w' c).setWrapper w (some c))
      | _, _ => none
  | .moveAssign w w' =>
      match s.wrapper w, s.wrapper w' with
      | some c, some c' => if c = c' then some (s.moveAssign w w' c) else none
      | _, _ => none
  | .destroy w => (s.wrapper w).map fun c => (s.destroy w c).setWrapper w none

/-- No call outlasts its step. -/
def machine : Machine Store Empty Unit Action :=
  .ofSteps (fun _ => false) (fun _ _ _ pc _ => pc.elim)
    (fun s _ _ action => (step s action).map fun s' => (s', none))

def Initial (s : State Store Empty) : Prop := s = ⟨{}, []⟩

end Capy.AnyStreamLifetime
