import Capy.IntrusiveQueue
import Capy.MachineRefinement
import Capy.StrandDrain

/-!
The strand with its queue as the source has it: `strand_queue` and the batches
taken from it are chains through the `reserved` slot of the continuations. A
continuation that the strand does not hold belongs to its coroutine, which may
write the slot, queue it elsewhere or destroy it at any time.
-/

namespace Capy.StrandQueue

open Capy.CallStack
open Capy.IntrusiveQueue
open Capy.StrandService
open Capy.StrandFate

/-- A `strand_impl` with its surroundings. `pending.head` and `pending.tail` are
`head_` and `tail_` of `pending_`; `pending.next` is the `reserved` slot of every
continuation. -/
structure Impl where
  pending : Queue Nat
  locked : Bool
  service : Bool
  dispatchThread : Option Nat
  linked : Bool
  queued : Nat
  shutdown : Bool
  destroyed : Bool
  submitted : List (Nat × Nat)
  enqueued : List Nat
  resumed : List Nat
  abandoned : List Nat
  handedBack : List (Nat × Nat)
  inlined : List (Nat × Nat)

def createImplementation (shutdown : Bool) (reserved : Nat → Option Nat) : Impl where
  pending := ⟨none, none, reserved⟩
  locked := shutdown
  service := !shutdown
  dispatchThread := none
  linked := !shutdown
  queued := 0
  shutdown := shutdown
  destroyed := false
  submitted := []
  enqueued := []
  resumed := []
  abandoned := []
  handedBack := []
  inlined := []

/-- Where an activation stands; a batch is the pointer to its first continuation. -/
inductive Pc where
  | dispatch (c : Nat)
  | enqueue (c : Nat)
  | enqueueLocked (c : Nat)
  | postInvoker (c : Nat)
  | posted
  | withdraw (c : Nat)
  | repostInvoker (c : Nat)
  | reposted (c : Nat)
  | abandonPending (c : Nat)
  | abandon (c : Nat)
  | abandonDone
  | abandonBatch (batch : Option Nat) (caller : AbandonFor)
  | rethrow (c : Nat) (invokerPosted : Bool)
  | setDispatchThread
  | takeAll
  | dispatchBatch (current : Option Nat) (batch : Option Nat)
  | tryUnlock
  | clearDispatchThread
  | shutdownImpl
  | destroyLoad
  | destroyUnlink
  | destroyTake
  deriving DecidableEq

def Pc.foreign : Pc → Bool
  | .postInvoker _ | .posted | .repostInvoker _ | .reposted _ => true
  | .abandon _ | .abandonDone | .abandonBatch _ _ => true
  | .dispatchBatch current _ => current.isSome
  | _ => false

/-- `take_all`: the first continuation of the batch, and the empty queue. -/
def takeAll (q : Queue Nat) : Option Nat × Queue Nat := (q.head, ⟨none, none, q.next⟩)

/-- One step of the activation `pc` on thread `t`. `withdraw` has no step where
its assertion fails. -/
def exec (s : Impl) (t : Nat) : Pc → Outcome → Option (Impl × Option Pc)
  -- strand_service::dispatch, at the load of dispatch_thread_
  | .dispatch c, _ =>
      if s.dispatchThread = some t then
        some ({ s with inlined := s.inlined ++ [(c, t)] }, none)
      else some (s, some (.enqueue c))
  | .enqueue c, _ =>
      if s.service then some (s, some (.enqueueLocked c))
      else some (s, some (.abandon c))
  | .enqueueLocked c, _ =>
      if s.service then
        if s.locked then
          some ({ s with
            pending := s.pending.push c
            enqueued := s.enqueued ++ [c] }, none)
        else
          some ({ s with
            pending := s.pending.push c
            enqueued := s.enqueued ++ [c]
            locked := true }, some (.postInvoker c))
      else some (s, some (.abandon c))
  -- post_or_withdraw
  | .postInvoker _, .succeeds =>
      some ({ s with queued := s.queued + 1 }, some .posted)
  | .postInvoker c, .throws => some (s, some (.withdraw c))
  | .posted, _ => some (s, none)
  | .withdraw c, _ =>
      if s.service then
        if s.pending.head = some c then
          let popped := s.pending.pop.1
          if popped.head = none then
            some ({ s with pending := popped, locked := false }, some (.rethrow c false))
          else some ({ s with pending := popped }, some (.repostInvoker c))
        else none
      else some (s, none)
  | .repostInvoker c, .succeeds =>
      some ({ s with queued := s.queued + 1 }, some (.reposted c))
  | .repostInvoker c, .throws => some (s, some (.abandonPending c))
  | .reposted c, _ => some (s, some (.rethrow c true))
  | .abandonPending c, _ =>
      if s.service then
        let taken := takeAll s.pending
        some ({ s with pending := taken.2, locked := false },
          some (.abandonBatch taken.1 (.abandonPending c)))
      else some (s, some (.rethrow c false))
  -- capy::abandon in enqueue
  | .abandon c, _ => some ({ s with abandoned := s.abandoned ++ [c] }, some .abandonDone)
  | .abandonDone, _ => some (s, none)
  -- abandon_batch reads the link of a continuation before it abandons it
  | .abandonBatch (some c) k, _ =>
      some ({ s with abandoned := s.abandoned ++ [c] },
        some (.abandonBatch (s.pending.next c) k))
  | .abandonBatch none (.abandonPending c), _ => some (s, some (.rethrow c false))
  | .abandonBatch none _, _ => some (s, none)
  | .rethrow c _, _ =>
      some ({ s with handedBack := s.handedBack ++ [(c, t)] }, none)
  -- make_invoker
  | .setDispatchThread, _ =>
      some ({ s with dispatchThread := some t }, some .takeAll)
  | .takeAll, _ =>
      let taken := takeAll s.pending
      some ({ s with pending := taken.2 }, some (.dispatchBatch none taken.1))
  -- dispatch_batch reads the link of a continuation before it resumes it
  | .dispatchBatch _ (some c), _ =>
      some ({ s with resumed := s.resumed ++ [c] },
        some (.dispatchBatch (some c) (s.pending.next c)))
  | .dispatchBatch _ none, _ => some (s, some .tryUnlock)
  | .tryUnlock, _ =>
      if s.pending.head = none then
        some ({ s with locked := false }, some .clearDispatchThread)
      else some (s, some .setDispatchThread)
  | .clearDispatchThread, _ => some ({ s with dispatchThread := none }, none)
  -- strand_service_impl::shutdown
  | .shutdownImpl, _ =>
      if s.linked then
        let taken := takeAll s.pending
        some ({ s with
          linked := false
          locked := true
          service := false
          pending := taken.2 }, some (.abandonBatch taken.1 .shutdown))
      else some (s, some (.abandonBatch none .shutdown))
  -- strand_impl::~strand_impl
  | .destroyLoad, _ =>
      if s.service then some (s, some .destroyUnlink)
      else some (s, some .destroyTake)
  | .destroyUnlink, _ => some ({ s with linked := false }, some .destroyTake)
  | .destroyTake, _ =>
      let taken := takeAll s.pending
      some ({ s with pending := taken.2 }, some (.abandonBatch taken.1 .destructor))

/-- The activation keeps the `strand_impl` alive. -/
def Pc.holdsImpl : Pc → Bool
  | .abandonBatch _ caller => caller.holdsImpl
  | .shutdownImpl | .destroyLoad | .destroyUnlink | .destroyTake => false
  | _ => true

/-- The strand does not hold the continuation: it was not submitted, or has met
its fate. -/
def Impl.released (s : Impl) (c : Nat) : Prop :=
  c ∉ s.submitted.map Prod.fst ∨ c ∈ s.resumed ∨ c ∈ s.abandoned ∨
    c ∈ s.handedBack.map Prod.fst ∨ c ∈ s.inlined.map Prod.fst

instance (s : Impl) (c : Nat) : Decidable (s.released c) :=
  inferInstanceAs (Decidable (_ ∨ _ ∨ _ ∨ _ ∨ _))

/-- What the surroundings start, and a write to the `reserved` slot of a
continuation that the strand does not hold. -/
inductive Entry where
  | call (e : StrandService.Entry)
  | write (c : Nat) (value : Option Nat)
  deriving DecidableEq

def enter (s : Impl) (fs : List (Frame Pc)) (t : Nat) : Entry → Option (Impl × Option Pc)
  | .call (.post c) =>
      if s.destroyed = false ∧ c ∉ s.submitted.map Prod.fst then
        some ({ s with submitted := s.submitted ++ [(c, t)] }, some (.enqueue c))
      else none
  | .call (.dispatch c) =>
      if s.destroyed = false ∧ c ∉ s.submitted.map Prod.fst then
        some ({ s with submitted := s.submitted ++ [(c, t)] }, some (.dispatch c))
      else none
  | .call .invoke =>
      if 0 < s.queued then
        some ({ s with queued := s.queued - 1 }, some .setDispatchThread)
      else none
  | .call .dropInvoker =>
      if 0 < s.queued then some ({ s with queued := s.queued - 1 }, none)
      else none
  | .call .shutdown =>
      if s.shutdown = false then
        some ({ s with shutdown := true }, some .shutdownImpl)
      else none
  | .call .destroy =>
      if s.destroyed = false ∧ s.queued = 0 ∧ ∀ f ∈ fs, f.pc.holdsImpl = false then
        some ({ s with destroyed := true }, some .destroyLoad)
      else none
  | .write c value =>
      if s.released c then
        some ({ s with pending :=
          { s.pending with next := Function.update s.pending.next c value } }, none)
      else none

def machine : Machine Impl Pc Outcome Entry :=
  Machine.ofSteps Pc.foreign (fun s _ => exec s) enter

def Initial (s : State Impl Pc) : Prop :=
  ∃ shutdown reserved, s = ⟨createImplementation shutdown reserved, []⟩

/-- The states that runs of the strand with its linked queue reach. -/
def Reachable : State Impl Pc → Prop := machine.Reachable Initial

/-- The strand of lists, with this queue for its list of pending continuations. -/
def withQueue (q : Queue Nat) (a : Strand) : Impl where
  pending := q
  locked := a.locked
  service := a.service
  dispatchThread := a.dispatchThread
  linked := a.linked
  queued := a.queued
  shutdown := a.shutdown
  destroyed := a.destroyed
  submitted := a.submitted
  enqueued := a.enqueued
  resumed := a.resumed
  abandoned := a.abandoned
  handedBack := a.handedBack
  inlined := a.inlined

/-- An activation, with pointers for its lists. -/
def link : StrandService.Pc → Pc
  | .dispatch c => .dispatch c
  | .enqueue c => .enqueue c
  | .enqueueLocked c => .enqueueLocked c
  | .postInvoker c => .postInvoker c
  | .posted => .posted
  | .withdraw c => .withdraw c
  | .repostInvoker c => .repostInvoker c
  | .reposted c => .reposted c
  | .abandonPending c => .abandonPending c
  | .abandonBatch (c :: _) .enqueue => .abandon c
  | .abandonBatch [] .enqueue => .abandonDone
  | .abandonBatch batch caller => .abandonBatch batch.head? caller
  | .rethrow c b => .rethrow c b
  | .setDispatchThread => .setDispatchThread
  | .takeAll => .takeAll
  | .dispatchBatch current rest => .dispatchBatch current rest.head?
  | .tryUnlock => .tryUnlock
  | .clearDispatchThread => .clearDispatchThread
  | .shutdownImpl => .shutdownImpl
  | .destroyLoad => .destroyLoad
  | .destroyUnlink => .destroyUnlink
  | .destroyTake => .destroyTake

/-- The batch that an activation reaches through the links. -/
def linkedBatch : StrandService.Pc → List Nat
  | .abandonBatch _ .enqueue => []
  | .abandonBatch batch _ => batch
  | .dispatchBatch _ rest => rest
  | _ => []

/-- The links lead through the activation's batch; what `enqueue` abandons is a
single continuation. -/
structure BatchLinked (next : Nat → Option Nat) (pc : StrandService.Pc) : Prop where
  linked : Linked next (linkedBatch pc).head? (linkedBatch pc)
  single : ∀ batch, pc = .abandonBatch batch .enqueue → batch.length ≤ 1

theorem linkedBatch_subset {pc : StrandService.Pc} {x : Nat} (h : x ∈ linkedBatch pc) :
    x ∈ batchHeld pc := by
  cases pc with
  | abandonBatch batch caller => cases caller <;> simp_all [linkedBatch, batchHeld]
  | dispatchBatch => exact h
  | _ => simp [linkedBatch] at h

theorem batchLinked_of_nil {next : Nat → Option Nat} {pc : StrandService.Pc}
    (h : linkedBatch pc = []) (hsingle : ∀ batch, pc = .abandonBatch batch .enqueue →
      batch.length ≤ 1) : BatchLinked next pc := by
  refine ⟨?_, hsingle⟩
  rw [h]
  rfl

theorem BatchLinked.congr {next next' : Nat → Option Nat} {pc : StrandService.Pc}
    (h : BatchLinked next pc) (hsame : ∀ c ∈ linkedBatch pc, next' c = next c) :
    BatchLinked next' pc :=
  ⟨h.linked.congr hsame, h.single⟩

theorem pop_next (q : Queue Nat) : q.pop.1.next = q.next := by
  unfold Queue.pop
  split
  · rfl
  · split <;> rfl

theorem push_next_of_ne {q : Queue Nat} {c x : Nat} (hc : x ≠ c) (htail : q.tail ≠ some x) :
    (q.push c).next x = q.next x := by
  unfold Queue.push
  split
  · rename_i last hlast
    have hx : x ≠ last := by
      rintro rfl
      exact htail hlast
    change Function.update (Function.update q.next c none) last _ x = _
    rw [Function.update_of_ne hx, Function.update_of_ne hc]
  · exact Function.update_of_ne hc ..

theorem pop_head {q : Queue Nat} {c : Nat} {rest : List Nat} (h : Represents q (c :: rest)) :
    q.pop.1.head = rest.head? := by
  obtain ⟨q', hpop, hrest⟩ := h.pop_cons
  rw [hpop]
  exact hrest.linked.eq_head

theorem represents_takeAll (q : Queue Nat) : Represents (takeAll q).2 [] :=
  ⟨rfl, rfl, List.nodup_nil⟩

theorem head_eq_none_iff {q : Queue Nat} {l : List Nat} (h : Represents q l) :
    q.head = none ↔ l = [] := by
  rw [h.linked.eq_head, List.head?_eq_none_iff]

/-- What a step on the linked queue gives: the same as the step on lists, with
the links changed only at a continuation that the activation holds or at one in
the queue. -/
structure Agrees (q : Queue Nat) (a : Strand) (pc : StrandService.Pc)
    (result : Option (Impl × Option Pc)) (a' : Strand) (p : Option StrandService.Pc) : Prop where
  exists_queue : ∃ q', result = some (withQueue q' a', p.map link) ∧ Represents q' a'.pending ∧
    (∀ pc', p = some pc' → BatchLinked q'.next pc') ∧
    ∀ x, x ∉ ownHeld pc → x ∉ a.pending → q'.next x = q.next x

section Agrees

variable {q : Queue Nat} {a a' : Strand} {pc pc' : StrandService.Pc}
  {p : Option StrandService.Pc} {result : Option (Impl × Option Pc)}

theorem agrees_of_same (hresult : result = some (withQueue q a', p.map link))
    (hq : Represents q a.pending) (hpending : a'.pending = a.pending)
    (hp : ∀ pc', p = some pc' → BatchLinked q.next pc') : Agrees q a pc result a' p :=
  ⟨q, hresult, hpending ▸ hq, hp, fun _ _ _ => rfl⟩

theorem agrees_takeAll (hresult : result = some (withQueue (takeAll q).2 a', some (link pc')))
    (hq : Represents q a.pending) (hpending : a'.pending = [])
    (hbatch : linkedBatch pc' = a.pending)
    (hsingle : ∀ batch, pc' = .abandonBatch batch .enqueue → batch.length ≤ 1) :
    Agrees q a pc result a' (some pc') := by
  refine ⟨(takeAll q).2, hresult, hpending ▸ represents_takeAll q, ?_, fun _ _ _ => rfl⟩
  rintro _ ⟨⟩
  refine ⟨?_, hsingle⟩
  rw [hbatch, ← hq.linked.eq_head]
  exact hq.linked

theorem agrees_push {c : Nat} (hresult : result = some (withQueue (q.push c) a', p.map link))
    (hq : Represents q a.pending) (hc : c ∉ a.pending) (hown : c ∈ ownHeld pc)
    (hpending : a'.pending = a.pending ++ [c])
    (hp : ∀ pc', p = some pc' → BatchLinked (q.push c).next pc') :
    Agrees q a pc result a' p := by
  refine ⟨q.push c, hresult, hpending ▸ hq.push hc, hp, fun x hx hmem => push_next_of_ne ?_ ?_⟩
  · rintro rfl
    exact hx hown
  · intro htail
    rw [hq.tail] at htail
    exact hmem (List.mem_of_getLast? htail)

theorem agrees_pop {c : Nat} {rest : List Nat}
    (hresult : result = some (withQueue q.pop.1 a', p.map link)) (hq : Represents q (c :: rest))
    (hpending : a'.pending = rest) (hp : ∀ pc', p = some pc' → BatchLinked q.next pc') :
    Agrees q a pc result a' p := by
  obtain ⟨q', hpop, hrest⟩ := hq.pop_cons
  have hnext := pop_next q
  rw [hpop] at hnext hresult
  refine ⟨q', hresult, hpending ▸ hrest, ?_, fun _ _ _ => ?_⟩
  · rwa [hnext]
  · rw [hnext]

theorem agrees_of_next {x : Nat} {rest : List Nat}
    (hresult : (q.next x = rest.head? → result = some (withQueue q a', some (link pc'))))
    (hq : Represents q a.pending) (hpending : a'.pending = a.pending)
    (hpc : BatchLinked q.next pc) (hbatch : linkedBatch pc = x :: rest)
    (hrest : linkedBatch pc' = rest)
    (hsingle : ∀ batch, pc' = .abandonBatch batch .enqueue → batch.length ≤ 1) :
    Agrees q a pc result a' (some pc') := by
  have hlinked := hpc.linked
  rw [hbatch] at hlinked
  refine ⟨q, hresult hlinked.2.eq_head, hpending ▸ hq, ?_, fun _ _ _ => rfl⟩
  rintro _ ⟨⟩
  refine ⟨?_, hsingle⟩
  rw [hrest, ← hlinked.2.eq_head]
  exact hlinked.2

theorem batchLinked_none {next : Nat → Option Nat} :
    ∀ pc', none = some pc' → BatchLinked next pc' := by
  simp

theorem batchLinked_some {next : Nat → Option Nat} (h : linkedBatch pc = [])
    (hs : ∀ batch, pc = .abandonBatch batch .enqueue → batch.length ≤ 1) :
    ∀ pc', some pc = some pc' → BatchLinked next pc' := by
  rintro _ ⟨⟩
  exact batchLinked_of_nil h hs

end Agrees

/-- Every step on lists is the step on the linked queue. -/
theorem exec_agrees {q : Queue Nat} {a a' : Strand} {t : Nat} {pc : StrandService.Pc}
    {o : Outcome} {p : Option StrandService.Pc} (hq : Represents q a.pending)
    (hpc : BatchLinked q.next pc) (hown : ∀ c ∈ ownHeld pc, c ∉ a.pending)
    (hfront : ∀ c, pc = .withdraw c → a.service = true → ∃ rest, a.pending = c :: rest)
    (hexec : StrandService.exec a t pc o = some (a', p)) :
    Agrees q a pc (exec (withQueue q a) t (link pc) o) a' p := by
  have hstep := exec_step hexec
  have hempty := head_eq_none_iff hq
  cases hstep with
  | dispatchInline hid =>
      exact agrees_of_same (by simp [exec, link, withQueue, hid]) hq rfl batchLinked_none
  | dispatchQueue hid =>
      exact agrees_of_same (by simp [exec, link, withQueue, hid]) hq rfl
        (batchLinked_some rfl (by simp))
  | enqueueOpen hopen =>
      exact agrees_of_same (by simp [exec, link, withQueue, hopen]) hq rfl
        (batchLinked_some rfl (by simp))
  | enqueueClosed hclosed =>
      exact agrees_of_same (by simp [exec, link, withQueue, hclosed]) hq rfl
        (batchLinked_some rfl (by simp))
  | enqueuePush hopen hlocked =>
      exact agrees_push (by simp [exec, link, withQueue, hopen, hlocked]) hq
        (hown _ (by simp [ownHeld])) (by simp [ownHeld]) rfl batchLinked_none
  | enqueueWin hopen hfree =>
      exact agrees_push (by simp [exec, link, withQueue, hopen, hfree]) hq
        (hown _ (by simp [ownHeld])) (by simp [ownHeld]) rfl (batchLinked_some rfl (by simp))
  | enqueueLockedClosed hclosed =>
      exact agrees_of_same (by simp [exec, link, withQueue, hclosed]) hq rfl
        (batchLinked_some rfl (by simp))
  | postSucceeds =>
      cases o with
      | succeeds => exact agrees_of_same rfl hq rfl (batchLinked_some rfl (by simp))
      | throws => simp [StrandService.exec] at hexec
  | postThrows =>
      cases o with
      | succeeds => simp [StrandService.exec] at hexec
      | throws => exact agrees_of_same rfl hq rfl (batchLinked_some rfl (by simp))
  | posted => exact agrees_of_same rfl hq rfl batchLinked_none
  | @withdrawAlone c hopen hlast =>
      obtain ⟨rest, hpending⟩ := hfront c rfl hopen
      rw [hpending] at hq hlast
      obtain rfl : rest = [] := hlast
      exact agrees_pop (by simp [exec, link, withQueue, hopen, hq.linked.1, pop_head hq]) hq
        (by simp [hpending]) (batchLinked_some rfl (by simp))
  | @withdrawFollowed c hopen hmore =>
      obtain ⟨rest, hpending⟩ := hfront c rfl hopen
      rw [hpending] at hq hmore
      have hhead : ¬q.pop.1.head = none := by
        rw [pop_head hq, List.head?_eq_none_iff]
        exact hmore
      exact agrees_pop (by simp [exec, link, withQueue, hopen, hq.linked.1, hhead]) hq
        (by simp [hpending]) (batchLinked_some rfl (by simp))
  | withdrawTaken hclosed =>
      exact agrees_of_same (by simp [exec, link, withQueue, hclosed]) hq rfl batchLinked_none
  | repostSucceeds =>
      cases o with
      | succeeds => exact agrees_of_same rfl hq rfl (batchLinked_some rfl (by simp))
      | throws => simp [StrandService.exec] at hexec
  | repostThrows =>
      cases o with
      | succeeds => simp [StrandService.exec] at hexec
      | throws => exact agrees_of_same rfl hq rfl (batchLinked_some rfl (by simp))
  | reposted => exact agrees_of_same rfl hq rfl (batchLinked_some rfl (by simp))
  | abandonPendingOpen hopen =>
      exact agrees_takeAll (by simp [exec, link, withQueue, hopen, takeAll, hq.linked.eq_head]) hq
        rfl rfl (by simp)
  | abandonPendingClosed hclosed =>
      exact agrees_of_same (by simp [exec, link, withQueue, hclosed]) hq rfl
        (batchLinked_some rfl (by simp))
  | @abandonOne x rest k =>
      cases k with
      | enqueue =>
          have hlength := hpc.single (x :: rest) rfl
          obtain rfl : rest = [] := by simpa using hlength
          exact agrees_of_same rfl hq rfl (batchLinked_some rfl (by simp))
      | abandonPending c =>
          exact agrees_of_next (fun hx => by simp [exec, link, withQueue, hx]) hq rfl hpc rfl rfl
            (by simp)
      | shutdown =>
          exact agrees_of_next (fun hx => by simp [exec, link, withQueue, hx]) hq rfl hpc rfl rfl
            (by simp)
      | destructor =>
          exact agrees_of_next (fun hx => by simp [exec, link, withQueue, hx]) hq rfl hpc rfl rfl
            (by simp)
  | abandonThenRethrow => exact agrees_of_same rfl hq rfl (batchLinked_some rfl (by simp))
  | @abandonDone k hk =>
      cases k with
      | abandonPending c => exact absurd rfl (hk c)
      | _ => exact agrees_of_same rfl hq rfl batchLinked_none
  | rethrow => exact agrees_of_same rfl hq rfl batchLinked_none
  | setDispatchThread => exact agrees_of_same rfl hq rfl (batchLinked_some rfl (by simp))
  | takeAll =>
      exact agrees_takeAll (by simp [exec, link, withQueue, takeAll, hq.linked.eq_head]) hq
        rfl rfl (by simp)
  | resumeOne =>
      exact agrees_of_next (fun hx => by simp [exec, link, withQueue, hx]) hq rfl hpc rfl rfl
        (by simp)
  | batchDone => exact agrees_of_same rfl hq rfl (batchLinked_some rfl (by simp))
  | unlock hpending =>
      exact agrees_of_same (by simp [exec, link, withQueue, hempty, hpending]) hq rfl
        (batchLinked_some rfl (by simp))
  | again hpending =>
      exact agrees_of_same (by simp [exec, link, withQueue, hempty, hpending]) hq rfl
        (batchLinked_some rfl (by simp))
  | clearDispatchThread => exact agrees_of_same rfl hq rfl batchLinked_none
  | shutdownLinked hlinked =>
      exact agrees_takeAll (by simp [exec, link, withQueue, hlinked, takeAll, hq.linked.eq_head])
        hq rfl rfl (by simp)
  | shutdownUnlinked hlinked =>
      exact agrees_of_same (by simp [exec, link, withQueue, hlinked]) hq rfl
        (batchLinked_some rfl (by simp))
  | destroyOpen hopen =>
      exact agrees_of_same (by simp [exec, link, withQueue, hopen]) hq rfl
        (batchLinked_some rfl (by simp))
  | destroyClosed hclosed =>
      exact agrees_of_same (by simp [exec, link, withQueue, hclosed]) hq rfl
        (batchLinked_some rfl (by simp))
  | destroyUnlink => exact agrees_of_same rfl hq rfl (batchLinked_some rfl (by simp))
  | destroyTake =>
      exact agrees_takeAll (by simp [exec, link, withQueue, takeAll, hq.linked.eq_head]) hq
        rfl rfl (by simp)

/-- The strand with its linked queue stands for the strand of lists. -/
def Stands (s : Impl) (a : Strand) (fs : List (Frame StrandService.Pc)) : Prop :=
  ∃ q, s = withQueue q a ∧ Represents q a.pending ∧ ∀ f ∈ fs, BatchLinked q.next f.pc

/-- A continuation in the queue or in a batch is in one place only. -/
theorem held_once {a : Strand} {fs : List (Frame StrandService.Pc)} (h : Fates a fs) (x : Nat) :
    a.pending.count x + total (holding x) fs + (a.resumed.count x + a.abandoned.count x +
      (a.handedBack.map Prod.fst).count x + (a.inlined.map Prod.fst).count x) ≤ 1 := by
  have hconserved := h.conserved x
  have hone := List.nodup_iff_count_le_one.mp h.calls.nodup x
  unfold Conserved at hconserved
  omega

theorem total_le_of_mem {w : StrandService.Pc → Nat} {fs : List (Frame StrandService.Pc)}
    {f : Frame StrandService.Pc} (hf : f ∈ fs) : w f.pc ≤ total w fs := by
  obtain ⟨l, r, rfl⟩ := List.append_of_mem hf
  obtain ⟨t, pc⟩ := f
  rw [total_split]
  exact Nat.le_add_left ..

theorem holding_pos_of_batch {pc : StrandService.Pc} {x : Nat} (h : x ∈ batchHeld pc) :
    0 < holding x pc := by
  have hpos := List.count_pos_iff.mpr h
  unfold holding
  omega

theorem holding_pos_of_own {pc : StrandService.Pc} {x : Nat} (h : x ∈ ownHeld pc) :
    0 < holding x pc := by
  have hpos := List.count_pos_iff.mpr h
  unfold holding
  omega

theorem batch_apart {a : Strand} {t : Nat} {pc : StrandService.Pc}
    {l r : List (Frame StrandService.Pc)} (h : Fates a (l ++ ⟨t, pc⟩ :: r))
    {f : Frame StrandService.Pc} (hf : f ∈ l ++ r) {x : Nat} (hx : x ∈ batchHeld f.pc) :
    x ∉ ownHeld pc ∧ x ∉ a.pending := by
  have honce := held_once h x
  have hpos := holding_pos_of_batch hx
  have hle := total_le_of_mem (w := holding x) hf
  rw [total_split] at honce
  constructor
  · intro hown
    have hholding := holding_pos_of_own hown
    omega
  · intro hpending
    have hpending' := List.count_pos_iff.mpr hpending
    omega

theorem own_not_pending {a : Strand} {fs : List (Frame StrandService.Pc)} (h : Fates a fs)
    {f : Frame StrandService.Pc} (hf : f ∈ fs) {x : Nat} (hx : x ∈ ownHeld f.pc) :
    x ∉ a.pending := by
  intro hpending
  have honce := held_once h x
  have hown := holding_pos_of_own hx
  have hpending' := List.count_pos_iff.mpr hpending
  have hle := total_le_of_mem (w := holding x) hf
  omega

theorem not_released_of_held {a : Strand} {fs : List (Frame StrandService.Pc)} (h : Fates a fs)
    (q : Queue Nat) {x : Nat}
    (hx : x ∈ a.pending ∨ ∃ f ∈ fs, 0 < holding x f.pc) : ¬(withQueue q a).released x := by
  have honce := held_once h x
  have hconserved := h.conserved x
  unfold Conserved at hconserved
  have hheld : 0 < a.pending.count x + total (holding x) fs := by
    rcases hx with hx | ⟨f, hf, hx⟩
    · have hpos := List.count_pos_iff.mpr hx
      omega
    · have hle := total_le_of_mem (w := holding x) hf
      omega
  rintro (hsub | hres | hab | hback | hin)
  · have hzero := List.count_eq_zero_of_not_mem hsub
    simp only [withQueue] at hzero
    omega
  · have hpos := List.count_pos_iff.mpr hres
    simp only [withQueue] at hpos
    omega
  · have hpos := List.count_pos_iff.mpr hab
    simp only [withQueue] at hpos
    omega
  · have hpos := List.count_pos_iff.mpr hback
    simp only [withQueue] at hpos
    omega
  · have hpos := List.count_pos_iff.mpr hin
    simp only [withQueue] at hpos
    omega

theorem foreign_link (pc : StrandService.Pc) :
    Pc.foreign (link pc) = StrandService.Pc.foreign pc := by
  cases pc with
  | abandonBatch batch caller => cases caller <;> cases batch <;> rfl
  | _ => rfl

theorem holdsImpl_link (pc : StrandService.Pc) :
    Pc.holdsImpl (link pc) = StrandService.Pc.holdsImpl pc := by
  cases pc with
  | abandonBatch batch caller => cases caller <;> cases batch <;> rfl
  | _ => rfl

theorem stands_exec {s s' : Impl} {a : Strand} {t : Nat} {pc : StrandService.Pc} {o : Outcome}
    {l r : List (Frame StrandService.Pc)} {q' : Option Pc}
    (hs : Stands s a (l ++ ⟨t, pc⟩ :: r)) (hfates : Fates a (l ++ ⟨t, pc⟩ :: r))
    (hexec : exec s t (link pc) o = some (s', q')) :
    ∃ a' p, StrandService.exec a t pc o = some (a', p) ∧ q' = p.map link ∧
      Stands s' a' (l ++ p.toList.map (Frame.mk t) ++ r) := by
  obtain ⟨q, rfl, hq, hbatches⟩ := hs
  obtain ⟨hrest, hpc⟩ := forall_split.mp hbatches
  have hmem : (⟨t, pc⟩ : Frame StrandService.Pc) ∈ l ++ ⟨t, pc⟩ :: r := by simp
  obtain ⟨⟨a', p⟩, haexec⟩ := Option.isSome_iff_exists.mp (StrandDrain.exec_isSome a t pc o)
  have hfront : ∀ c, pc = .withdraw c → a.service = true → ∃ rest, a.pending = c :: rest := by
    rintro c rfl hopen
    exact hfates.front _ hmem c rfl hopen
  obtain ⟨q₁, hresult, hq₁, hnew, hsame⟩ :=
    (exec_agrees hq hpc (fun c hc => own_not_pending hfates hmem hc) hfront haexec).exists_queue
  obtain ⟨rfl, rfl⟩ := Prod.mk.inj (Option.some.inj (hexec.symm.trans hresult))
  refine ⟨a', p, haexec, rfl, q₁, rfl, hq₁, forall_replace.mpr ⟨fun f hf => ?_, hnew⟩⟩
  refine (hrest f hf).congr fun x hx => ?_
  obtain ⟨hown, hpending⟩ := batch_apart hfates hf (linkedBatch_subset hx)
  exact hsame x hown hpending

theorem stands_start {s' : Impl} {q : Queue Nat} {a a' : Strand}
    {fs : List (Frame StrandService.Pc)} {t : Nat} {p : Option StrandService.Pc}
    (hs : s' = withQueue q a') (hq : Represents q a.pending)
    (hbatches : ∀ f ∈ fs, BatchLinked q.next f.pc) (hpending : a'.pending = a.pending)
    (hp : ∀ pc, p = some pc → BatchLinked q.next pc) :
    Stands s' a' (p.toList.map (Frame.mk t) ++ fs) :=
  ⟨q, hs, hpending ▸ hq, forall_enter.mpr ⟨hbatches, hp⟩⟩

theorem stands_call {q : Queue Nat} {a : Strand} {s' : Impl} {fs : List (Frame StrandService.Pc)}
    {t : Nat} {e : StrandService.Entry} {q' : Option Pc} (hq : Represents q a.pending)
    (hbatches : ∀ f ∈ fs, BatchLinked q.next f.pc)
    (henter : enter (withQueue q a) (fs.map (Frame.map link)) t (.call e) = some (s', q')) :
    ∃ a' p, StrandService.enter a fs t e = some (a', p) ∧ q' = p.map link ∧
      Stands s' a' (p.toList.map (Frame.mk t) ++ fs) := by
  cases e <;>
    simp only [enter, Option.ite_none_right_eq_some, Option.some.injEq, Prod.mk.injEq] at henter <;>
    obtain ⟨hguard, rfl, rfl⟩ := henter
  case post c =>
    exact ⟨_, _, if_pos hguard, rfl,
      stands_start rfl hq hbatches rfl (batchLinked_some rfl (by simp))⟩
  case dispatch c =>
    exact ⟨_, _, if_pos hguard, rfl,
      stands_start rfl hq hbatches rfl (batchLinked_some rfl (by simp))⟩
  case invoke =>
    exact ⟨_, _, if_pos hguard, rfl,
      stands_start rfl hq hbatches rfl (batchLinked_some rfl (by simp))⟩
  case dropInvoker =>
    exact ⟨_, _, if_pos hguard, rfl, stands_start rfl hq hbatches rfl batchLinked_none⟩
  case shutdown =>
    exact ⟨_, _, if_pos hguard, rfl,
      stands_start rfl hq hbatches rfl (batchLinked_some rfl (by simp))⟩
  case destroy =>
    obtain ⟨hlive, hqueued, hframes⟩ := hguard
    have hframes' : ∀ f ∈ fs, f.pc.holdsImpl = false := by
      intro f hf
      rw [← holdsImpl_link]
      exact hframes _ (List.mem_map_of_mem hf)
    exact ⟨_, _, if_pos ⟨hlive, hqueued, hframes'⟩, rfl,
      stands_start rfl hq hbatches rfl (batchLinked_some rfl (by simp))⟩

theorem stands_write {q : Queue Nat} {a : Strand} {fs : List (Frame StrandService.Pc)} {c : Nat}
    {value : Option Nat} (hq : Represents q a.pending)
    (hbatches : ∀ f ∈ fs, BatchLinked q.next f.pc) (hfates : Fates a fs)
    (hreleased : (withQueue q a).released c) :
    Stands (withQueue { q with next := Function.update q.next c value } a) a fs := by
  have hpending : c ∉ a.pending := fun hc => not_released_of_held hfates q (.inl hc) hreleased
  refine ⟨_, rfl, ⟨hq.linked.update hpending value, hq.tail, hq.nodup⟩, fun f hf => ?_⟩
  refine (hbatches f hf).congr fun x hx => Function.update_of_ne ?_ ..
  rintro rfl
  exact not_released_of_held hfates q (.inr ⟨f, hf, holding_pos_of_batch (linkedBatch_subset hx)⟩)
    hreleased

theorem stands_enter {s s' : Impl} {a : Strand} {fs : List (Frame StrandService.Pc)} {t : Nat}
    {e : Entry} {q' : Option Pc} (hs : Stands s a fs) (hfates : Fates a fs)
    (henter : enter s (fs.map (Frame.map link)) t e = some (s', q')) :
    (∃ e' a' p, StrandService.enter a fs t e' = some (a', p) ∧ q' = p.map link ∧
      Stands s' a' (p.toList.map (Frame.mk t) ++ fs)) ∨ q' = none ∧ Stands s' a fs := by
  obtain ⟨q, rfl, hq, hbatches⟩ := hs
  cases e with
  | call e => exact .inl ⟨e, stands_call hq hbatches henter⟩
  | write c value =>
      simp only [enter, Option.ite_none_right_eq_some, Option.some.injEq, Prod.mk.injEq] at henter
      obtain ⟨hreleased, rfl, rfl⟩ := henter
      exact .inr ⟨rfl, stands_write hq hbatches hfates hreleased⟩

theorem refines :
    Refines machine StrandService.machine link Stands fun a => Fates a.shared a.frames := by
  apply Refines.ofSteps foreign_link
  · intro s a l t pc r o s' q' hs hfates hexec
    exact .inl ⟨o, stands_exec hs hfates hexec⟩
  · intro s a fs t e s' q' hs hfates henter
    exact stands_enter hs hfates henter

theorem exists_strand {s : State Impl Pc} (h : Reachable s) :
    ∃ a, StrandService.Reachable a ∧ s.frames = a.frames.map (Frame.map link) ∧
      Stands s.shared a.shared a.frames := by
  refine refines.reachable ?_ (fun a ha => fates_reachable ha) h
  rintro _ ⟨shutdown, reserved, rfl⟩
  refine ⟨⟨StrandService.createImplementation shutdown, []⟩, ⟨shutdown, rfl⟩, rfl,
    ⟨none, none, reserved⟩, rfl, ⟨rfl, rfl, List.nodup_nil⟩, by simp⟩

/-- The continuations whose `reserved` slot the strand's next steps read or write:
the ends of the queue, the fronts of the batches and those about to be pushed. -/
def touches (s : State Impl Pc) (c : Nat) : Prop :=
  s.shared.pending.head = some c ∨ s.shared.pending.tail = some c ∨
    ∃ f ∈ s.frames, f.pc = .enqueueLocked c ∨
      (∃ current, f.pc = .dispatchBatch current (some c)) ∨
      ∃ caller, f.pc = .abandonBatch (some c) caller

theorem holding_pos_of_link {pc : StrandService.Pc} {c : Nat}
    (h : link pc = .enqueueLocked c ∨ (∃ current, link pc = .dispatchBatch current (some c)) ∨
      ∃ caller, link pc = .abandonBatch (some c) caller) : 0 < holding c pc := by
  cases pc with
  | enqueueLocked c' =>
      obtain rfl : c' = c := by simpa [link] using h
      exact holding_pos_of_own (by simp [ownHeld])
  | abandonBatch batch caller =>
      refine holding_pos_of_batch ?_
      cases caller <;> cases batch <;> simp_all [link, batchHeld]
  | dispatchBatch current rest =>
      refine holding_pos_of_batch ?_
      cases rest <;> simp_all [link, batchHeld]
  | _ => simp [link] at h

/-- The strand with its queue linked through the continuations is the strand of
lists. In every state that any run reaches, although coroutines may write or
reuse the slot of any continuation the strand does not hold: the strand of lists
reaches the same state, the queue and the batches are its lists, read along the
links; no step is stuck, so `withdraw` finds its continuation first; and the
strand reads and writes only slots of continuations that it holds. -/
theorem strand_queue_refines {s : State Impl Pc} (h : Reachable s) :
    (∃ a, StrandService.Reachable a ∧ s.frames = a.frames.map (Frame.map link) ∧
      s.shared = withQueue s.shared.pending a.shared ∧
      Represents s.shared.pending a.shared.pending ∧
      ∀ f ∈ a.frames, Linked s.shared.pending.next (linkedBatch f.pc).head? (linkedBatch f.pc)) ∧
    (∀ f ∈ s.frames, ∀ o, (exec s.shared f.thread f.pc o).isSome = true) ∧
    ∀ c, touches s c → ¬s.shared.released c := by
  obtain ⟨a, ha, hframes, q, hs, hq, hbatches⟩ := exists_strand h
  have hfates := fates_reachable ha
  obtain ⟨sh, fs⟩ := s
  simp only at hframes hs
  subst hframes hs
  refine ⟨⟨a, ha, rfl, rfl, hq, fun f hf => (hbatches f hf).linked⟩, ?_, ?_⟩
  · intro f hf o
    obtain ⟨g, hg, rfl⟩ := List.mem_map.mp hf
    obtain ⟨⟨a', p⟩, hexec⟩ :=
      Option.isSome_iff_exists.mp (StrandDrain.exec_isSome a.shared g.thread g.pc o)
    have hfront : ∀ c, g.pc = .withdraw c → a.shared.service = true →
        ∃ rest, a.shared.pending = c :: rest := by
      intro c hc hopen
      exact hfates.front g hg c (by rw [hc]; rfl) hopen
    obtain ⟨q', hresult, -⟩ := (exec_agrees hq (hbatches g hg)
      (fun c hc => own_not_pending hfates hg hc) hfront hexec).exists_queue
    exact Option.isSome_iff_exists.mpr ⟨_, hresult⟩
  · intro c hc
    apply not_released_of_held hfates q
    rcases hc with hhead | htail | ⟨f, hf, hbatch⟩
    · refine .inl (List.mem_of_mem_head? ?_)
      rw [← hq.linked.eq_head]
      exact hhead
    · refine .inl (List.mem_of_getLast? ?_)
      rw [← hq.tail]
      exact htail
    · obtain ⟨g, hg, rfl⟩ := List.mem_map.mp hf
      exact .inr ⟨g, hg, holding_pos_of_link hbatch⟩

/-- Thread 1 posts two continuations; thread 2 resumes the first, which writes its
own slot before the second one is resumed. -/
def rewritingRun : List (Event Outcome Entry) :=
  [.enter 1 (.call (.post 7)), .run 1 .succeeds, .run 1 .succeeds, .run 1 .succeeds,
    .run 1 .succeeds, .enter 1 (.call (.post 8)), .run 1 .succeeds, .run 1 .succeeds,
    .enter 2 (.call .invoke), .run 2 .succeeds, .run 2 .succeeds, .run 2 .succeeds,
    .enter 2 (.write 7 (some 7)), .run 2 .succeeds]

theorem strand_queue_refines_rewriting :
    ∃ s, machine.runEvents ⟨createImplementation false fun _ => some 9, []⟩ rewritingRun = some s ∧
      s.shared.resumed = [7, 8] ∧ ∀ c, touches s c → ¬s.shared.released c := by
  obtain ⟨s, hs, hresumed⟩ : ∃ s, machine.runEvents
      ⟨createImplementation false fun _ => some 9, []⟩ rewritingRun = some s ∧
      s.shared.resumed = [7, 8] := ⟨_, rfl, rfl⟩
  have hreach : Reachable s :=
    Machine.ReachableWhen.runWhen (.init ⟨false, fun _ => some 9, rfl⟩) rewritingRun hs
  exact ⟨s, hs, hresumed, (strand_queue_refines hreach).2.2⟩

end Capy.StrandQueue
