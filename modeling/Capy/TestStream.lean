import Mathlib.Logic.Function.Basic
import Capy.CallStack
import Capy.Fuse
import Capy.Transfer

/-!
`test/stream.hpp`: the two ends of a stream pair with their parked reads. A call on
a stream runs on one thread up to the point where it posts a parked read, and is one
step up to there; the executor may resume the reader, and the reader may go on,
before that post returns. Stop callbacks run on any thread. What the fuse does at a
call of `maybe_fail` is a choice of the step. An end of the pair is a flag, and a
read is known by the number of its awaitable.
-/

namespace Capy.TestStream

open Buffers
open CallStack
open Join (ErrorCode Results)

/-- `error::eof`, `error::canceled` and `error::test_failure`. -/
def eof : ErrorCode := ⟨1, 1⟩

def canceled : ErrorCode := ⟨2, 1⟩

def testFailure : ErrorCode := ⟨3, 1⟩

/-- `stream::half`. A parked read is known to its side by two pointers into its
awaitable. -/
structure Half where
  buf : List UInt8 := []
  maxReadSize : Nat := sizeMax
  pendingCont : Option Nat := none
  pendingClaimed : Option Nat := none
  eof : Bool := false

/-- How far a read has got: `suspended` from `await_suspend` on, `resuming` once the
executor has resumed it. -/
inductive Phase where
  | fresh | suspended | resuming | done | destroyed
  deriving DecidableEq

/-- The awaitable of `read_some`. `linked` tells that `side_` is set, `stop` that its
environment's stop token is requested, `registered` that the stop state holds its
callback; the last two fields are history. -/
structure Read where
  side : Bool := false
  buffers : List Buffer := []
  linked : Bool := false
  claimed : Bool := false
  canceled : Bool := false
  active : Bool := false
  stop : Bool := false
  registered : Bool := false
  phase : Phase := .fresh
  posts : Nat := 0

/-- A `read_some` or `write_some` that has completed: its result, the bytes that a
read copied into its buffers or those that the buffers of a write hold, whether the
fuse made it fail, whether the pair was closed when it started, whether its stop token
was requested, what its end had buffered, and whether the pair was closed when it
completed. -/
structure Completion where
  write : Bool
  side : Bool
  buffers : List Buffer
  results : Results Nat
  bytes : List UInt8
  failed : Bool
  late : Bool
  stop : Bool
  buffered : List UInt8
  closed : Bool

/-- The bytes that the completed operation reports to have moved. -/
def Completion.moved (c : Completion) : List UInt8 :=
  if c.results.ec.isError then [] else c.bytes.take c.results.payload

/-- One event of a pair: an operation completed, bytes were provided to an end, or the
fuse threw out of an operation. -/
inductive Record where
  | completed (c : Completion)
  | provided (e : Bool) (sv : List UInt8)
  | thrown

namespace Record

def completion : Record → Option Completion
  | .completed c => some c
  | _ => none

/-- The bytes that a read of the end returned. -/
def returned (e : Bool) : Record → List UInt8
  | .completed c => if c.write = false ∧ c.side = e then c.moved else []
  | _ => []

/-- The bytes that were written or provided to the end. -/
def stored (e : Bool) : Record → List UInt8
  | .completed c => if c.write = true ∧ c.side = !e then c.moved else []
  | .provided e' sv => if e' = e then sv else []
  | .thrown => []

/-- The fuse injected a failure. -/
def failed : Record → Bool
  | .completed c => c.failed
  | .provided _ _ => false
  | .thrown => true

end Record

/-- `stream::state`, the reads of both ends, the reads that are outstanding, and what
has happened, oldest first. -/
structure Pair where
  closed : Bool := false
  sides : Bool → Half := fun _ => {}
  reads : Nat → Read := fun _ => {}
  outstanding : List Nat := []
  history : List Record := []

namespace Pair

def log (s : Pair) : List Completion := s.history.filterMap Record.completion

def delivered (s : Pair) (e : Bool) : List UInt8 := s.history.flatMap (Record.returned e)

def written (s : Pair) (e : Bool) : List UInt8 := s.history.flatMap (Record.stored e)

def record (s : Pair) (x : Record) : Pair := { s with history := s.history ++ [x] }

def updateSide (s : Pair) (e : Bool) (f : Half → Half) : Pair :=
  { s with sides := Function.update s.sides e (f (s.sides e)) }

def updateRead (s : Pair) (r : Nat) (f : Read → Read) : Pair :=
  { s with reads := Function.update s.reads r (f (s.reads r)) }

/-- `executor::post` of the continuation of a read. -/
def post (s : Pair) (r : Nat) : Pair := s.updateRead r fun a => { a with posts := a.posts + 1 }

/-- Forget the parked read of a side. -/
def unpark (s : Pair) (e : Bool) : Pair :=
  s.updateSide e fun side => { side with pendingCont := none, pendingClaimed := none }

/-- `state::wake`, and whether it posts. -/
def wake (s : Pair) (e : Bool) : Pair × Bool :=
  match (s.sides e).pendingCont with
  | none => (s, false)
  | some r =>
      match (s.sides e).pendingClaimed with
      | none => ((s.unpark e).post r, true)
      | some r' =>
          if (s.reads r').claimed then (s.unpark e, false)
          else
            (((s.unpark e).updateRead r' fun a => { a with claimed := true }).post r, true)

/-- The part of `~awaitable` and of a canceled `await_resume` that unlinks the read
from its side. -/
def unlink (s : Pair) (r : Nat) : Pair :=
  if (s.reads r).linked ∧ (s.sides (s.reads r).side).pendingClaimed = some r then
    s.unpark (s.reads r).side
  else s

/-- The awaitable of a read that has been resumed is gone. -/
def finish (s : Pair) (r : Nat) : Pair :=
  { s.updateRead r fun a => { a with phase := .done } with
    outstanding := s.outstanding.erase r }

end Pair

/-- Where an activation stands: a read that the executor resumed at
`await_resume`, a stop callback at its claim, at its post and inside it, and a call
that is inside a post and has to wake the sides listed after it. -/
inductive Pc where
  | awaitResume (r : Nat)
  | cancelClaim (r : Nat) (inConstructor : Bool)
  | cancelPost (r : Nat) (inConstructor : Bool)
  | cancelPosting (r : Nat) (inConstructor : Bool)
  | posting (rest : List Bool)
  deriving DecidableEq

def Pc.foreign : Pc → Bool
  | .cancelPosting _ _ | .posting _ => true
  | _ => false

def Pc.runsCallback (r : Nat) : Pc → Bool
  | .cancelClaim v _ | .cancelPost v _ | .cancelPosting v _ => v = r
  | _ => false

/-- Destroying the stop callback of a read waits for another thread that runs it. -/
def callbackRunning (fs : List (Frame Pc)) (t r : Nat) : Bool :=
  fs.any fun f => f.pc.runsCallback r && f.thread != t

/-- Wake the sides in turn, up to the first post. -/
def wakes (s : Pair) : List Bool → Pair × Option Pc
  | [] => (s, none)
  | e :: rest =>
      if (s.wake e).2 then ((s.wake e).1, some (.posting rest)) else wakes (s.wake e).1 rest

/-- `state::close`, which the guard around `maybe_fail` calls. -/
def closePair (s : Pair) : Pair × Option Pc := wakes { s with closed := true } [false, true]

/-- The bytes that `buffer_copy` moves out of the buffer of a side. -/
def readCount (buffers : List Buffer) (side : Half) : Nat :=
  min (min (totalSize buffers) side.buf.length) side.maxReadSize

/-- A read completes with `results`, having copied `bytes`. -/
def completeRead (s : Pair) (r : Nat) (late : Bool) (results : Results Nat)
    (bytes : List UInt8) (failed : Bool) : Pair :=
  (s.finish r).record (.completed ⟨false, (s.reads r).side, (s.reads r).buffers, results, bytes,
    failed, late, (s.reads r).stop, (s.sides (s.reads r).side).buf, s.closed⟩)

/-- The end of `await_resume`: the bytes are copied and erased. -/
def takeBytes (s : Pair) (r : Nat) (late : Bool) : Pair :=
  let e := (s.reads r).side
  let n := readCount (s.reads r).buffers (s.sides e)
  (completeRead s r late ⟨{}, n⟩ ((s.sides e).buf.take n) false).updateSide e fun side =>
    { side with buf := side.buf.drop n }

/-- The read `await_resume`, after the stop callback. -/
def awaitResume (s : Pair) (r : Nat) (late : Bool) (reply : Fuse.Reply) : Pair × Option Pc :=
  let side := s.sides (s.reads r).side
  if bufferEmpty (s.reads r).buffers then (completeRead s r late ⟨{}, 0⟩ [] false, none)
  else if (s.reads r).canceled then
    (completeRead (s.unlink r) r late ⟨canceled, 0⟩ [] false, none)
  else if s.closed then (completeRead s r late ⟨eof, 0⟩ [] false, none)
  else if side.eof && side.buf.isEmpty then (completeRead s r late ⟨eof, 0⟩ [] false, none)
  else if side.eof then (takeBytes s r late, none)
  else
    match reply with
    | .code ec =>
        if ec.isError then
          closePair (completeRead { s with closed := true } r late ⟨ec, 0⟩ [] true)
        else (takeBytes s r late, none)
    | .thrown _ => closePair ((s.finish r).record .thrown)
    | .none => (takeBytes s r late, none)

/-- Bytes are appended to the buffer of the peer and its read is woken. -/
def append (s : Pair) (e : Bool) (sv : List UInt8) : Pair × Option Pc :=
  wakes (s.updateSide (!e) fun side => { side with buf := side.buf ++ sv }) [!e]

/-- `write_some`, whose `await_suspend` only looks at the stop token. -/
def writeSome (s : Pair) (e : Bool) (buffers : List Buffer) (mem : Nat → UInt8) (stop : Bool)
    (reply : Fuse.Reply) : Pair × Option Pc :=
  let n := bufferSize buffers
  let content := (flatten buffers).map mem
  let completed (results : Results Nat) (failed closed : Bool) : Pair :=
    s.record (.completed ⟨true, e, buffers, results, content, failed, s.closed, stop,
      (s.sides e).buf, closed⟩)
  if n = 0 then (completed ⟨{}, 0⟩ false s.closed, none)
  else if stop then (completed ⟨canceled, 0⟩ false s.closed, none)
  else if s.closed then (completed ⟨eof, 0⟩ false true, none)
  else
    let written := append (completed ⟨{}, n⟩ false false) e (content.take n)
    match reply with
    | .code ec => if ec.isError then closePair (completed ⟨ec, 0⟩ true true) else written
    | .thrown _ => closePair (s.record .thrown)
    | .none => written

/-- `provide`. -/
def provide (s : Pair) (e : Bool) (sv : List UInt8) : Pair × Option Pc :=
  append (s.record (.provided (!e) sv)) e sv

/-- `close`. -/
def close (s : Pair) (e : Bool) : Pair × Option Pc :=
  wakes (s.updateSide (!e) fun side => { side with eof := true }) [!e]

/-- The end of a stop callback; when the constructor called it, `await_suspend` goes
on with the awaitable, if it is still there. -/
def callbackReturns (s : Pair) (r : Nat) (inConstructor : Bool) : Pair :=
  if inConstructor ∧ ((s.reads r).phase = .suspended ∨ (s.reads r).phase = .resuming) then
    s.updateRead r fun a => { a with active := true }
  else s

def exec (s : Pair) (fs : List (Frame Pc)) (t : Nat) :
    Pc → Fuse.Reply → Option (Pair × Option Pc)
  | .awaitResume r, reply =>
      if (s.reads r).active && callbackRunning fs t r then none
      else
        some (awaitResume
          (s.updateRead r fun a =>
            { a with registered := a.registered && !a.active, active := false }) r false reply)
  | .cancelClaim r inConstructor, _ =>
      if (s.reads r).claimed then some (callbackReturns s r inConstructor, none)
      else
        some (s.updateRead r fun a => { a with claimed := true },
          some (.cancelPost r inConstructor))
  | .cancelPost r inConstructor, _ =>
      some ((s.updateRead r fun a => { a with canceled := true }).post r,
        some (.cancelPosting r inConstructor))
  | .cancelPosting r inConstructor, _ => some (callbackReturns s r inConstructor, none)
  | .posting rest, _ => some (wakes s rest)

/-- What the coroutines, the executor, other threads and the owners of stop sources
do. A read that does not complete at once parks and registers its stop callback;
`race` tells that the stop is requested in between. -/
inductive Entry where
  | readSome (r : Nat) (e : Bool) (buffers : List Buffer) (race : Bool) (reply : Fuse.Reply)
  | resume (r : Nat)
  | destroy (r : Nat)
  | writeSome (e : Bool) (buffers : List Buffer) (mem : Nat → UInt8) (stop : Bool)
      (reply : Fuse.Reply)
  | provide (e : Bool) (sv : List UInt8)
  | close (e : Bool)
  | setMaxReadSize (e : Bool) (n : Fin sizeValues)
  | requestStop (r : Nat)
  | stopCallback (r : Nat)

/-- `await_ready` of `read_some`. -/
def awaitReady (s : Pair) (e : Bool) (buffers : List Buffer) : Bool :=
  bufferEmpty buffers || s.closed || (s.sides e).eof || !(s.sides e).buf.isEmpty

/-- `read_some`, up to where it has completed or is suspended. -/
def readSome (s : Pair) (r : Nat) (e : Bool) (buffers : List Buffer) (race : Bool)
    (reply : Fuse.Reply) : Pair × Option Pc :=
  let started := { s.updateRead r fun a => { a with side := e, buffers := buffers } with
    outstanding := s.outstanding ++ [r] }
  if awaitReady s e buffers then awaitResume started r s.closed reply
  else if (s.reads r).stop then
    awaitResume (started.updateRead r fun a => { a with canceled := true }) r s.closed reply
  else
    let parked :=
      (started.updateRead r fun a =>
        { a with
          linked := true
          phase := .suspended
          stop := race
          registered := !race
          active := !race }).updateSide e fun side =>
            { side with pendingCont := some r, pendingClaimed := some r }
    (parked, if race then some (.cancelClaim r true) else none)

def enter (s : Pair) (fs : List (Frame Pc)) (t : Nat) : Entry → Option (Pair × Option Pc)
  | .readSome r e buffers race reply =>
      if (s.reads r).phase = .fresh then some (readSome s r e buffers race reply) else none
  | .resume r =>
      if (s.reads r).phase = .suspended ∧ (s.reads r).posts ≠ 0 then
        some (s.updateRead r fun a => { a with phase := .resuming }, some (.awaitResume r))
      else none
  | .destroy r =>
      if (s.reads r).phase = .suspended ∧
          ((s.reads r).active && callbackRunning fs t r) = false then
        some ({ (s.unlink r).updateRead r fun a =>
            { a with registered := a.registered && !a.active, phase := .destroyed } with
          outstanding := s.outstanding.erase r }, none)
      else none
  | .writeSome e buffers mem stop reply => some (writeSome s e buffers mem stop reply)
  | .provide e sv => some (provide s e sv)
  | .close e => some (close s e)
  | .setMaxReadSize e n =>
      some (s.updateSide e fun side => { side with maxReadSize := n }, none)
  | .requestStop r => some (s.updateRead r fun a => { a with stop := true }, none)
  | .stopCallback r =>
      if (s.reads r).stop ∧ (s.reads r).registered then
        some (s.updateRead r fun a => { a with registered := false },
          some (.cancelClaim r false))
      else none

def machine : Machine Pair Pc Fuse.Reply Entry := Machine.ofSteps Pc.foreign exec enter

def Initial (s : State Pair Pc) : Prop := s = ⟨{}, []⟩

end Capy.TestStream
