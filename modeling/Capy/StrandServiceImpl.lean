import Mathlib.Logic.Function.Basic
import Capy.FrameProjection
import Capy.StrandService

/-!
`strand_service_impl` with any number of strands. The strands share the list of live
impls and the mutex of the service; the calls of one strand may be made in the
code that another one runs. `shutdown()` closes a strand and takes what it has pending
in two steps, so a destructor, which takes no mutex of the impl, may stand in between.
-/

namespace Capy.StrandServiceImpl

open Capy.CallStack
open Capy.StrandService (Strand Outcome createImplementation)

/-- The members of the service and its strands, of which `created` have been made.
`called` tells that `shutdown()` has been called, `mutex` that its loop holds
`mutex_`, and `closing` the impl whose mutex it holds. -/
structure Service where
  strands : Nat → Strand
  created : Nat
  implList : List Nat
  shutdown : Bool
  called : Bool
  mutex : Bool
  closing : Option Nat

def newService : Service where
  strands _ := createImplementation false
  created := 0
  implList := []
  shutdown := false
  called := false
  mutex := false
  closing := none

/-- An activation of the code of one strand, or where one of the service's own stands;
`doomed` is the batch that `shutdown()` has spliced together, each continuation with
the strand that it was taken from. -/
inductive Pc where
  | strand (k : Nat) (pc : StrandService.Pc)
  | createImplementation
  | shutdown
  | shutdownLoop (doomed : List (Nat × Nat))
  | shutdownTake (k : Nat) (doomed : List (Nat × Nat))
  | abandonBatch (doomed : List (Nat × Nat))
  deriving DecidableEq

def Pc.foreign : Pc → Bool
  | .strand _ pc => pc.foreign
  | .abandonBatch _ => true
  | _ => false

/-- The critical sections of the impl's own mutex. -/
def locksImpl : StrandService.Pc → Bool
  | .enqueueLocked _ | .withdraw _ | .abandonPending _ | .takeAll | .tryUnlock => true
  | _ => false

def Service.setStrand (s : Service) (k : Nat) (x : Strand) : Service :=
  { s with strands := Function.update s.strands k x }

def exec (s : Service) (t : Nat) : Pc → Outcome → Option (Service × Option Pc)
  | .strand k pc, outcome =>
      -- the destructor unlinks the impl under the mutex of the service, and the critical
      -- sections of the impl wait for the one in which the shutdown closes it
      if pc = .shutdownImpl ∨ pc = .destroyUnlink ∧ s.mutex = true ∨
          locksImpl pc = true ∧ s.closing = some k then none
      else
        (StrandService.exec (s.strands k) t pc outcome).map fun p =>
          ({ s.setStrand k p.1 with
            implList := if pc = .destroyUnlink then s.implList.erase k else s.implList },
            p.2.map (Pc.strand k))
  | .createImplementation, _ =>
      if s.mutex then none
      else
        some ({ s.setStrand s.created
          { StrandService.createImplementation s.shutdown with shutdown := s.called } with
          created := s.created + 1
          implList := if s.shutdown then s.implList else s.implList ++ [s.created] }, none)
  | .shutdown, _ =>
      if s.mutex then none
      else some ({ s with mutex := true, shutdown := true }, some (.shutdownLoop []))
  | .shutdownLoop doomed, _ =>
      match s.implList with
      | [] => some ({ s with mutex := false }, some (.abandonBatch doomed))
      | k :: implList =>
          some ({ s.setStrand k
            { s.strands k with
              linked := false
              locked := true
              service := false } with implList := implList, closing := some k },
            some (.shutdownTake k doomed))
  | .shutdownTake k doomed, _ =>
      some ({ s.setStrand k { s.strands k with pending := [] } with closing := none },
        some (.shutdownLoop (doomed ++ (s.strands k).pending.map (Prod.mk k))))
  | .abandonBatch ((k, c) :: doomed), _ =>
      some (s.setStrand k
        { s.strands k with abandoned := (s.strands k).abandoned ++ [c] },
        some (.abandonBatch doomed))
  | .abandonBatch [], _ => some (s, none)

/-- The continuations of the strand in a batch. -/
def doomedOf (k : Nat) (doomed : List (Nat × Nat)) : List Nat :=
  doomed.filterMap fun p => if p.1 = k then some p.2 else none

/-- The abandoning of a batch of the strand, as long as there is something left. -/
def abandons (batch : List Nat) : Option StrandService.Pc :=
  if batch = [] then none else some (.abandonBatch batch .shutdown)

/-- What an activation is for the strand `k`. The shutdown has taken what the strand
has pending when it has closed it. -/
def project (k : Nat) (s : Service) : Pc → Option StrandService.Pc
  | .strand j pc => if j = k then some pc else none
  | .createImplementation => none
  | .shutdown => some .shutdownImpl
  | .shutdownLoop doomed =>
      if k ∈ s.implList then some .shutdownImpl else abandons (doomedOf k doomed)
  | .shutdownTake j doomed =>
      if j = k then abandons (s.strands k).pending
      else if k ∈ s.implList then some .shutdownImpl
      else abandons (doomedOf k doomed)
  | .abandonBatch doomed => abandons (doomedOf k doomed)

inductive Entry where
  | strand (k : Nat) (e : StrandService.Entry)
  | createImplementation
  | shutdown
  deriving DecidableEq

def enter (s : Service) (fs : List (Frame Pc)) (t : Nat) : Entry → Option (Service × Option Pc)
  | .strand k e =>
      if k < s.created ∧ e ≠ .shutdown then
        (StrandService.enter (s.strands k) (projectFrames (project k s) fs) t e).map fun p =>
          (s.setStrand k p.1, p.2.map (Pc.strand k))
      else none
  | .createImplementation => some (s, some .createImplementation)
  | .shutdown =>
      if s.called then none
      else
        some ({ s with
          called := true
          strands := fun k => { s.strands k with shutdown := true } }, some .shutdown)

def machine : Machine Service Pc Outcome Entry :=
  Machine.ofSteps Pc.foreign (fun s _ => exec s) enter

def Initial (s : State Service Pc) : Prop := s = ⟨newService, []⟩

/-- A destructor that has found its strand closed does not take what the strand has
pending while `shutdown()` is about to. -/
def destructorApart (s : State Service Pc) : Event Outcome Entry → Bool
  | .run t _ =>
      match topPc t s.frames with
      | some (.strand k .destroyTake) => s.shared.closing != some k
      | _ => true
  | .enter _ _ => true

def Reachable : State Service Pc → Prop := machine.ReachableWhen destructorApart Initial

inductive Step (s : Service) (t : Nat) : Pc → Service → Option Pc → Prop
  | strand {k pc x q} (outcome : Outcome) : pc ≠ .shutdownImpl → pc ≠ .destroyUnlink →
      (s.closing = some k → locksImpl pc = false) →
      StrandService.exec (s.strands k) t pc outcome = some (x, q) →
      Step s t (.strand k pc) (s.setStrand k x) (q.map (Pc.strand k))
  | unlink {k} : s.mutex = false →
      Step s t (.strand k .destroyUnlink)
        { s.setStrand k { s.strands k with linked := false } with
          implList := s.implList.erase k } (some (.strand k .destroyTake))
  | create : s.mutex = false →
      Step s t .createImplementation
        { s.setStrand s.created
          { StrandService.createImplementation s.shutdown with shutdown := s.called } with
          created := s.created + 1
          implList := if s.shutdown then s.implList else s.implList ++ [s.created] } none
  | lock : s.mutex = false →
      Step s t .shutdown { s with mutex := true, shutdown := true } (some (.shutdownLoop []))
  | emptied {doomed} : s.implList = [] →
      Step s t (.shutdownLoop doomed) { s with mutex := false } (some (.abandonBatch doomed))
  | close {doomed k implList} : s.implList = k :: implList →
      Step s t (.shutdownLoop doomed)
        { s.setStrand k
          { s.strands k with
            linked := false
            locked := true
            service := false } with implList := implList, closing := some k }
        (some (.shutdownTake k doomed))
  | take {k doomed} :
      Step s t (.shutdownTake k doomed)
        { s.setStrand k { s.strands k with pending := [] } with closing := none }
        (some (.shutdownLoop (doomed ++ (s.strands k).pending.map (Prod.mk k))))
  | abandon {k c doomed} :
      Step s t (.abandonBatch ((k, c) :: doomed))
        (s.setStrand k { s.strands k with abandoned := (s.strands k).abandoned ++ [c] })
        (some (.abandonBatch doomed))
  | abandoned : Step s t (.abandonBatch []) s none

theorem exec_step {s s' : Service} {t : Nat} {pc : Pc} {outcome : Outcome} {q : Option Pc}
    (h : exec s t pc outcome = some (s', q)) : Step s t pc s' q := by
  cases pc with
  | strand k pc =>
      simp only [exec, Option.ite_none_left_eq_some, not_or, not_and, Bool.not_eq_true] at h
      obtain ⟨⟨hshutdown, hmutex, hlocks⟩, h⟩ := h
      have hclosing : s.closing = some k → locksImpl pc = false := by
        intro hk
        by_contra hpc
        exact hlocks (by simpa using hpc) hk
      obtain ⟨⟨x, q'⟩, hexec, heq⟩ := Option.map_eq_some_iff.mp h
      obtain ⟨rfl, rfl⟩ := Prod.mk.inj heq
      rcases eq_or_ne pc .destroyUnlink with rfl | hne
      · obtain ⟨rfl, rfl⟩ := by
          simpa only [StrandService.exec, Option.some.injEq, Prod.mk.injEq] using hexec
        exact .unlink (hmutex rfl)
      · simpa [hne, Service.setStrand] using Step.strand outcome hshutdown hne hclosing hexec
  | createImplementation =>
      simp only [exec, Option.ite_none_left_eq_some, Bool.not_eq_true, Option.some.injEq,
        Prod.mk.injEq] at h
      obtain ⟨hmutex, rfl, rfl⟩ := h
      exact .create hmutex
  | shutdown =>
      simp only [exec, Option.ite_none_left_eq_some, Bool.not_eq_true, Option.some.injEq,
        Prod.mk.injEq] at h
      obtain ⟨hmutex, rfl, rfl⟩ := h
      exact .lock hmutex
  | shutdownLoop doomed =>
      simp only [exec] at h
      split at h
      · obtain ⟨rfl, rfl⟩ := by simpa only [Option.some.injEq, Prod.mk.injEq] using h
        exact .emptied (by assumption)
      · obtain ⟨rfl, rfl⟩ := by simpa only [Option.some.injEq, Prod.mk.injEq] using h
        exact .close (by assumption)
  | shutdownTake k doomed =>
      obtain ⟨rfl, rfl⟩ := by simpa only [exec, Option.some.injEq, Prod.mk.injEq] using h
      exact .take
  | abandonBatch doomed =>
      rcases doomed with _ | ⟨⟨k, c⟩, doomed⟩ <;> obtain ⟨rfl, rfl⟩ := by
        simpa only [exec, Option.some.injEq, Prod.mk.injEq] using h
      · exact .abandoned
      · exact .abandon

end Capy.StrandServiceImpl
