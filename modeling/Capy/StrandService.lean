import Capy.CallStack

/-!
The strand of `strand_service.cpp`: one `strand_impl`, any number of threads
that post and dispatch to it, the invokers its inner executor holds or runs,
one shutdown of its service and its destructor. Each critical section and each
access to `service_` or `dispatch_thread_` is one step.
-/

namespace Capy.StrandService

open Capy.CallStack

/-- A `strand_impl`, followed by the part of its surroundings that its code
acts on and by the record of what happened to each continuation. A
continuation is a number; it stands for one submission. -/
structure Strand where
  /-- `pending_`, front first. -/
  pending : List Nat
  locked : Bool
  /-- `service_` is not null. -/
  service : Bool
  dispatchThread : Option Nat
  /-- The impl is in the service's `impl_list_`. -/
  linked : Bool
  /-- Invokers that the inner executor has taken and neither run nor destroyed. -/
  queued : Nat
  /-- The service's `shutdown()` has been called. -/
  shutdown : Bool
  /-- `~strand_impl` has started. -/
  destroyed : Bool
  /-- Continuations with the thread that submitted them. -/
  submitted : List (Nat × Nat)
  /-- Continuations in the order of their enqueue critical sections. -/
  enqueued : List Nat
  resumed : List Nat
  abandoned : List Nat
  /-- Continuations whose post or dispatch threw, with the thread it threw on. -/
  handedBack : List (Nat × Nat)
  /-- Continuations whose handle dispatch returned, with the calling thread. -/
  inlined : List (Nat × Nat)
  deriving DecidableEq

/-- The strand `create_implementation` makes; its argument is the service's
`shutdown_` flag. -/
def createImplementation (shutdown : Bool) : Strand where
  pending := []
  locked := shutdown
  service := !shutdown
  dispatchThread := none
  linked := !shutdown
  queued := 0
  shutdown := shutdown
  destroyed := false
  submitted := []
  enqueued := []
  resumed := []
  abandoned := []
  handedBack := []
  inlined := []

/-- Who runs `abandon_batch` (or `abandon`, for a batch of one). -/
inductive AbandonFor where
  | enqueue
  | abandonPending (c : Nat)
  | shutdown
  | destructor
  deriving DecidableEq

/-- Where an activation of the strand's code stands. -/
inductive Pc where
  | dispatch (c : Nat)
  | enqueue (c : Nat)
  | enqueueLocked (c : Nat)
  | postInvoker (c : Nat)
  | posted
  | withdraw (c : Nat)
  | repostInvoker (c : Nat)
  | reposted (c : Nat)
  | abandonPending (c : Nat)
  | abandonBatch (batch : List Nat) (caller : AbandonFor)
  | rethrow (c : Nat) (invokerPosted : Bool)
  | setDispatchThread
  | takeAll
  | dispatchBatch (current : Option Nat) (rest : List Nat)
  | tryUnlock
  | clearDispatchThread
  | shutdownImpl
  | destroyLoad
  | destroyUnlink
  | destroyTake
  deriving DecidableEq

/-- Code of others runs inside the inner executor's post, inside a resumed
continuation and inside an abandon. -/
def Pc.foreign : Pc → Bool
  | .postInvoker _ | .posted | .repostInvoker _ | .reposted _ => true
  | .abandonBatch _ _ => true
  | .dispatchBatch current _ => current.isSome
  | _ => false

/-- How the inner executor's `post` ends; the other steps ignore it. -/
inductive Outcome where
  | succeeds
  | throws
  deriving DecidableEq

/-- One step of the activation `pc` on thread `t`. -/
def exec (s : Strand) (t : Nat) : Pc → Outcome → Option (Strand × Option Pc)
  -- strand_service::dispatch, at the load of dispatch_thread_
  | .dispatch c, _ =>
      if s.dispatchThread = some t then
        some ({ s with inlined := s.inlined ++ [(c, t)] }, none)
      else some (s, some (.enqueue c))
  | .enqueue c, _ =>
      if s.service then some (s, some (.enqueueLocked c))
      else some (s, some (.abandonBatch [c] .enqueue))
  | .enqueueLocked c, _ =>
      if s.service then
        if s.locked then
          some ({ s with
            pending := s.pending ++ [c]
            enqueued := s.enqueued ++ [c] }, none)
        else
          some ({ s with
            pending := s.pending ++ [c]
            enqueued := s.enqueued ++ [c]
            locked := true }, some (.postInvoker c))
      else some (s, some (.abandonBatch [c] .enqueue))
  -- post_or_withdraw
  | .postInvoker _, .succeeds =>
      some ({ s with queued := s.queued + 1 }, some .posted)
  | .postInvoker c, .throws => some (s, some (.withdraw c))
  | .posted, _ => some (s, none)
  | .withdraw c, _ =>
      if s.service then
        if s.pending.tail = [] then
          some ({ s with pending := s.pending.tail, locked := false },
            some (.rethrow c false))
        else some ({ s with pending := s.pending.tail }, some (.repostInvoker c))
      else some (s, none)
  | .repostInvoker c, .succeeds =>
      some ({ s with queued := s.queued + 1 }, some (.reposted c))
  | .repostInvoker c, .throws => some (s, some (.abandonPending c))
  | .reposted c, _ => some (s, some (.rethrow c true))
  | .abandonPending c, _ =>
      if s.service then
        some ({ s with pending := [], locked := false },
          some (.abandonBatch s.pending (.abandonPending c)))
      else some (s, some (.rethrow c false))
  | .abandonBatch (x :: rest) k, _ =>
      some ({ s with abandoned := s.abandoned ++ [x] }, some (.abandonBatch rest k))
  | .abandonBatch [] (.abandonPending c), _ => some (s, some (.rethrow c false))
  | .abandonBatch [] _, _ => some (s, none)
  | .rethrow c _, _ =>
      some ({ s with handedBack := s.handedBack ++ [(c, t)] }, none)
  -- make_invoker
  | .setDispatchThread, _ =>
      some ({ s with dispatchThread := some t }, some .takeAll)
  | .takeAll, _ =>
      some ({ s with pending := [] }, some (.dispatchBatch none s.pending))
  | .dispatchBatch _ (x :: rest), _ =>
      some ({ s with resumed := s.resumed ++ [x] },
        some (.dispatchBatch (some x) rest))
  | .dispatchBatch _ [], _ => some (s, some .tryUnlock)
  | .tryUnlock, _ =>
      if s.pending = [] then
        some ({ s with locked := false }, some .clearDispatchThread)
      else some (s, some .setDispatchThread)
  | .clearDispatchThread, _ => some ({ s with dispatchThread := none }, none)
  -- strand_service_impl::shutdown
  | .shutdownImpl, _ =>
      if s.linked then
        some ({ s with
          linked := false
          locked := true
          service := false
          pending := [] }, some (.abandonBatch s.pending .shutdown))
      else some (s, some (.abandonBatch [] .shutdown))
  -- strand_impl::~strand_impl
  | .destroyLoad, _ =>
      if s.service then some (s, some .destroyUnlink)
      else some (s, some .destroyTake)
  | .destroyUnlink, _ => some ({ s with linked := false }, some .destroyTake)
  | .destroyTake, _ =>
      some ({ s with pending := [] }, some (.abandonBatch s.pending .destructor))

/-- The caller of `abandon_batch` keeps the `strand_impl` alive. -/
def AbandonFor.holdsImpl : AbandonFor → Bool
  | .enqueue | .abandonPending _ => true
  | .shutdown | .destructor => false

/-- The activation keeps the `strand_impl` alive. -/
def Pc.holdsImpl : Pc → Bool
  | .abandonBatch _ caller => caller.holdsImpl
  | .shutdownImpl | .destroyLoad | .destroyUnlink | .destroyTake => false
  | _ => true

/-- What the surroundings start: the calls of the strand's users, the inner
executor running or destroying an invoker, the service's shutdown and the end
of the last reference. -/
inductive Entry where
  | post (c : Nat)
  | dispatch (c : Nat)
  | invoke
  | dropInvoker
  | shutdown
  | destroy
  deriving DecidableEq

def enter (s : Strand) (fs : List (Frame Pc)) (t : Nat) :
    Entry → Option (Strand × Option Pc)
  | .post c =>
      if s.destroyed = false ∧ c ∉ s.submitted.map Prod.fst then
        some ({ s with submitted := s.submitted ++ [(c, t)] }, some (.enqueue c))
      else none
  | .dispatch c =>
      if s.destroyed = false ∧ c ∉ s.submitted.map Prod.fst then
        some ({ s with submitted := s.submitted ++ [(c, t)] }, some (.dispatch c))
      else none
  | .invoke =>
      if 0 < s.queued then
        some ({ s with queued := s.queued - 1 }, some .setDispatchThread)
      else none
  | .dropInvoker =>
      if 0 < s.queued then some ({ s with queued := s.queued - 1 }, none)
      else none
  | .shutdown =>
      if s.shutdown = false then
        some ({ s with shutdown := true }, some .shutdownImpl)
      else none
  | .destroy =>
      if s.destroyed = false ∧ s.queued = 0 ∧ ∀ f ∈ fs, f.pc.holdsImpl = false then
        some ({ s with destroyed := true }, some .destroyLoad)
      else none

/-- The steps of `exec`, one constructor for each way a step can go. -/
inductive Step (s : Strand) (t : Nat) : Pc → Strand → Option Pc → Prop
  | dispatchInline {c} : s.dispatchThread = some t →
      Step s t (.dispatch c) { s with inlined := s.inlined ++ [(c, t)] } none
  | dispatchQueue {c} : s.dispatchThread ≠ some t →
      Step s t (.dispatch c) s (some (.enqueue c))
  | enqueueOpen {c} : s.service = true →
      Step s t (.enqueue c) s (some (.enqueueLocked c))
  | enqueueClosed {c} : s.service = false →
      Step s t (.enqueue c) s (some (.abandonBatch [c] .enqueue))
  | enqueuePush {c} : s.service = true → s.locked = true →
      Step s t (.enqueueLocked c)
        { s with
          pending := s.pending ++ [c]
          enqueued := s.enqueued ++ [c] } none
  | enqueueWin {c} : s.service = true → s.locked = false →
      Step s t (.enqueueLocked c)
        { s with
          pending := s.pending ++ [c]
          enqueued := s.enqueued ++ [c]
          locked := true } (some (.postInvoker c))
  | enqueueLockedClosed {c} : s.service = false →
      Step s t (.enqueueLocked c) s (some (.abandonBatch [c] .enqueue))
  | postSucceeds {c} :
      Step s t (.postInvoker c) { s with queued := s.queued + 1 } (some .posted)
  | postThrows {c} : Step s t (.postInvoker c) s (some (.withdraw c))
  | posted : Step s t .posted s none
  | withdrawAlone {c} : s.service = true → s.pending.tail = [] →
      Step s t (.withdraw c) { s with pending := s.pending.tail, locked := false }
        (some (.rethrow c false))
  | withdrawFollowed {c} : s.service = true → s.pending.tail ≠ [] →
      Step s t (.withdraw c) { s with pending := s.pending.tail }
        (some (.repostInvoker c))
  | withdrawTaken {c} : s.service = false → Step s t (.withdraw c) s none
  | repostSucceeds {c} :
      Step s t (.repostInvoker c) { s with queued := s.queued + 1 }
        (some (.reposted c))
  | repostThrows {c} : Step s t (.repostInvoker c) s (some (.abandonPending c))
  | reposted {c} : Step s t (.reposted c) s (some (.rethrow c true))
  | abandonPendingOpen {c} : s.service = true →
      Step s t (.abandonPending c) { s with pending := [], locked := false }
        (some (.abandonBatch s.pending (.abandonPending c)))
  | abandonPendingClosed {c} : s.service = false →
      Step s t (.abandonPending c) s (some (.rethrow c false))
  | abandonOne {x rest k} :
      Step s t (.abandonBatch (x :: rest) k)
        { s with abandoned := s.abandoned ++ [x] } (some (.abandonBatch rest k))
  | abandonThenRethrow {c} :
      Step s t (.abandonBatch [] (.abandonPending c)) s (some (.rethrow c false))
  | abandonDone {k} : (∀ c, k ≠ .abandonPending c) →
      Step s t (.abandonBatch [] k) s none
  | rethrow {c b} :
      Step s t (.rethrow c b) { s with handedBack := s.handedBack ++ [(c, t)] } none
  | setDispatchThread :
      Step s t .setDispatchThread { s with dispatchThread := some t } (some .takeAll)
  | takeAll :
      Step s t .takeAll { s with pending := [] }
        (some (.dispatchBatch none s.pending))
  | resumeOne {cur x rest} :
      Step s t (.dispatchBatch cur (x :: rest))
        { s with resumed := s.resumed ++ [x] }
        (some (.dispatchBatch (some x) rest))
  | batchDone {cur} : Step s t (.dispatchBatch cur []) s (some .tryUnlock)
  | unlock : s.pending = [] →
      Step s t .tryUnlock { s with locked := false } (some .clearDispatchThread)
  | again : s.pending ≠ [] → Step s t .tryUnlock s (some .setDispatchThread)
  | clearDispatchThread :
      Step s t .clearDispatchThread { s with dispatchThread := none } none
  | shutdownLinked : s.linked = true →
      Step s t .shutdownImpl
        { s with
          linked := false
          locked := true
          service := false
          pending := [] } (some (.abandonBatch s.pending .shutdown))
  | shutdownUnlinked : s.linked = false →
      Step s t .shutdownImpl s (some (.abandonBatch [] .shutdown))
  | destroyOpen : s.service = true →
      Step s t .destroyLoad s (some .destroyUnlink)
  | destroyClosed : s.service = false →
      Step s t .destroyLoad s (some .destroyTake)
  | destroyUnlink :
      Step s t .destroyUnlink { s with linked := false } (some .destroyTake)
  | destroyTake :
      Step s t .destroyTake { s with pending := [] }
        (some (.abandonBatch s.pending .destructor))

theorem exec_step {s s' : Strand} {t : Nat} {pc : Pc} {o : Outcome}
    {q : Option Pc} (h : exec s t pc o = some (s', q)) : Step s t pc s' q := by
  unfold exec at h
  split at h
  all_goals first
    | split_ifs at h
    | skip
  all_goals
    simp only [Option.some.injEq, Prod.mk.injEq] at h
    obtain ⟨rfl, rfl⟩ := h
  all_goals constructor
  all_goals simp_all

/-- The calls that `enter` starts. -/
inductive Entered (s : Strand) (fs : List (Frame Pc)) (t : Nat) :
    Strand → Option Pc → Prop
  | post {c} : s.destroyed = false → c ∉ s.submitted.map Prod.fst →
      Entered s fs t { s with submitted := s.submitted ++ [(c, t)] }
        (some (.enqueue c))
  | dispatch {c} : s.destroyed = false → c ∉ s.submitted.map Prod.fst →
      Entered s fs t { s with submitted := s.submitted ++ [(c, t)] }
        (some (.dispatch c))
  | invoke : 0 < s.queued →
      Entered s fs t { s with queued := s.queued - 1 } (some .setDispatchThread)
  | dropInvoker : 0 < s.queued →
      Entered s fs t { s with queued := s.queued - 1 } none
  | shutdown : s.shutdown = false →
      Entered s fs t { s with shutdown := true } (some .shutdownImpl)
  | destroy : s.destroyed = false → s.queued = 0 →
      (∀ f ∈ fs, f.pc.holdsImpl = false) →
      Entered s fs t { s with destroyed := true } (some .destroyLoad)

theorem enter_entered {s s' : Strand} {fs : List (Frame Pc)} {t : Nat} {a : Entry}
    {q : Option Pc} (h : enter s fs t a = some (s', q)) : Entered s fs t s' q := by
  cases a <;> simp only [enter, Option.ite_none_right_eq_some, Option.some.injEq,
      Prod.mk.injEq] at h <;>
    obtain ⟨hguard, rfl, rfl⟩ := h <;> constructor <;> simp_all

/-- The step system of one strand. -/
def machine : Machine Strand Pc Outcome Entry :=
  Machine.ofSteps Pc.foreign (fun s _ => exec s) enter

def Initial (s : State Strand Pc) : Prop :=
  ∃ shutdown, s = ⟨createImplementation shutdown, []⟩

/-- The states that runs of the strand reach. -/
def Reachable : State Strand Pc → Prop := machine.Reachable Initial

theorem initial_frames (s : State Strand Pc) (h : Initial s) : s.frames = [] := by
  obtain ⟨_, rfl⟩ := h
  rfl

theorem reachable_of_runEvents (shutdown : Bool) (es : List (Event Outcome Entry))
    {s : State Strand Pc}
    (h : machine.runEvents ⟨createImplementation shutdown, []⟩ es = some s) :
    Reachable s :=
  Machine.ReachableWhen.runWhen (.init ⟨shutdown, rfl⟩) es h

/-- `strand::running_in_this_thread`, evaluated on thread `t`. -/
def runningInThisThread (s : Strand) (t : Nat) : Bool :=
  s.dispatchThread = some t

end Capy.StrandService
