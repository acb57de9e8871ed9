import Capy.CallStack

/-!
The service registry of `execution_context.cpp`. A critical section is one step,
which needs `mutex_` free, except that `delete` inside one runs a destructor with
the lock held. Constructors, `shutdown()` bodies and destructors of services are
code of others and may call the context again.
-/

namespace Capy.ExecutionContext

open Capy.CallStack

/-- A registered service; `id` stands for its address. -/
structure Service where
  id : Nat
  t0 : Nat
  t1 : Nat
  deriving DecidableEq

/-- The two type indices of a `factory`. They are equal when the service type has
no `key_type`. -/
structure Factory where
  t0 : Nat
  t1 : Nat
  deriving DecidableEq

/-- The fields of the context, with the services in the order of their `next_`
links. Then, oldest first: the objects created and those registered, the calls
of `shutdown()` on services and which of them the walk made, the services found
by the walk's start, the objects deleted by `destroy()` and those deleted
unregistered, and the calls that threw. -/
structure Context where
  mutex : Bool
  services : List Service
  shutdown : Bool
  destroyed : Bool
  created : List Nat
  registered : List Nat
  shutDown : List Nat
  walked : List Nat
  present : List Nat
  removed : List Nat
  discarded : List Nat
  threw : List Factory

def newContext : Context := ⟨false, [], false, false, [], [], [], [], [], [], [], []⟩

def ids (s : Context) : List Nat := s.services.map Service.id

def Service.carries (p : Service) (ti : Nat) : Bool := p.t0 = ti ∨ p.t1 = ti

def findImpl (s : Context) (ti : Nat) : Option Service := s.services.find? (·.carries ti)

inductive Call where
  | useService
  | makeService
  deriving DecidableEq

/-- What the call finds registered already: `use_service_impl` looks for `t0`
only. -/
def taken (s : Context) : Call → Factory → Bool
  | .useService, f => (findImpl s f.t0).isSome
  | .makeService, f => (findImpl s f.t0).isSome || (f.t0 ≠ f.t1 && (findImpl s f.t1).isSome)

inductive Pc where
  | find (call : Call) (f : Factory)
  | create (call : Call) (f : Factory)
  | register (call : Call) (f : Factory) (id : Nat)
  | discard (call : Call) (f : Factory) (id : Nat)
  | lateShutdown (id : Nat)
  | lateBody (id : Nat)
  | shutdown
  | walk (p : Option Nat)
  | walkBody (id : Nat)
  | destroy
  | destructor (id : Nat)
  deriving DecidableEq

/-- The services behind the one with this address. -/
def behind (id : Nat) (l : List Nat) : List Nat := (l.dropWhile (· ≠ id)).tail

/-- `make_service_impl` throws where `use_service_impl` returns what it found. -/
def refuse (s : Context) : Call → Factory → Context
  | .useService, _ => s
  | .makeService, f => { s with threw := s.threw ++ [f] }

/-- One step of an activation; the flag makes a constructor throw. -/
def exec (s : Context) : Pc → Bool → Option (Context × Option Pc)
  -- use_service_impl, make_service_impl
  | .find call f, _ =>
      if s.mutex then none
      else if taken s call f then some (refuse s call f, none)
      else some (s, some (.create call f))
  | .create call f, throws =>
      if throws then some ({ s with threw := s.threw ++ [f] }, none)
      else
        let id := s.created.length
        some ({ s with created := s.created ++ [id] }, some (.register call f id))
  | .register call f id, _ =>
      if s.mutex then none
      else if taken s call f then
        some ({ s with mutex := true, discarded := s.discarded ++ [id] },
          some (.discard call f id))
      else
        some ({ s with
          services := ⟨id, f.t0, f.t1⟩ :: s.services
          registered := s.registered ++ [id] },
          if s.shutdown then some (.lateShutdown id) else none)
  | .discard call f _, _ => some ({ refuse s call f with mutex := false }, none)
  | .lateShutdown id, _ =>
      some ({ s with shutDown := s.shutDown ++ [id] }, some (.lateBody id))
  | .lateBody _, _ => some (s, none)
  -- shutdown
  | .shutdown, _ =>
      if s.shutdown then some (s, none)
      else some ({ s with shutdown := true, present := ids s }, some (.walk (ids s).head?))
  | .walk none, _ => some (s, none)
  | .walk (some id), _ =>
      some ({ s with shutDown := s.shutDown ++ [id], walked := s.walked ++ [id] },
        some (.walkBody id))
  | .walkBody id, _ => some (s, some (.walk (behind id (ids s)).head?))
  -- destroy
  | .destroy, _ =>
      match s.services with
      | [] => some ({ s with destroyed := true }, none)
      | p :: rest =>
          some ({ s with services := rest, removed := s.removed ++ [p.id] },
            some (.destructor p.id))
  | .destructor _, _ => some (s, some .destroy)

def foreign : Pc → Bool
  | .create _ _ | .discard _ _ _ | .lateBody _ | .walkBody _ | .destructor _ => true
  | _ => false

/-- The activation is of `shutdown()` or `destroy()`. -/
def closing : Pc → Bool
  | .shutdown | .walk _ | .walkBody _ | .destroy | .destructor _ => true
  | _ => false

inductive Entry where
  | call (c : Call) (f : Factory)
  | shutdown
  | destroy
  deriving DecidableEq

/-- While `shutdown()` or `destroy()` runs only the code it runs may call the
context, and neither is called while anything else is in progress. `destroy()`
needs `shutdown()` to have been called, and after it no service is created. -/
def enter (s : Context) (fs : List (Frame Pc)) (t : Nat) : Entry → Option (Context × Option Pc)
  | .call c f =>
      if s.destroyed = false ∧ ∀ g ∈ fs, closing g.pc = true → g.thread = t then
        some (s, some (.find c f))
      else none
  | .shutdown => if fs = [] then some (s, some .shutdown) else none
  | .destroy => if fs = [] ∧ s.shutdown = true then some (s, some .destroy) else none

/-- The step system of a context. -/
def machine : Machine Context Pc Bool Entry :=
  Machine.ofSteps foreign (fun s _ _ => exec s) enter

def Initial (s : State Context Pc) : Prop := s = ⟨newContext, []⟩

def Reachable : State Context Pc → Prop := machine.Reachable Initial

inductive Step (s : Context) : Pc → Context → Option Pc → Prop
  | found {call f} : taken s call f = true → Step s (.find call f) (refuse s call f) none
  | missing {call f} : taken s call f = false →
      Step s (.find call f) s (some (.create call f))
  | createThrows {call f} :
      Step s (.create call f) { s with threw := s.threw ++ [f] } none
  | create {call f id} : id = s.created.length →
      Step s (.create call f) { s with created := s.created ++ [id] }
        (some (.register call f id))
  | lost {call f id} : taken s call f = true →
      Step s (.register call f id)
        { s with mutex := true, discarded := s.discarded ++ [id] } (some (.discard call f id))
  | register {call f id} : taken s call f = false →
      Step s (.register call f id)
        { s with
          services := ⟨id, f.t0, f.t1⟩ :: s.services
          registered := s.registered ++ [id] }
        (if s.shutdown then some (.lateShutdown id) else none)
  | discarded {call f id} :
      Step s (.discard call f id) { refuse s call f with mutex := false } none
  | lateShutdown {id} :
      Step s (.lateShutdown id) { s with shutDown := s.shutDown ++ [id] } (some (.lateBody id))
  | lateDone {id} : Step s (.lateBody id) s none
  | shutdownAgain : s.shutdown = true → Step s .shutdown s none
  | shutdown : s.shutdown = false →
      Step s .shutdown { s with shutdown := true, present := ids s }
        (some (.walk (ids s).head?))
  | walkEnd : Step s (.walk none) s none
  | walk {id} :
      Step s (.walk (some id))
        { s with shutDown := s.shutDown ++ [id], walked := s.walked ++ [id] }
        (some (.walkBody id))
  | walkNext {id} : Step s (.walkBody id) s (some (.walk (behind id (ids s)).head?))
  | destroyEnd : s.services = [] → Step s .destroy { s with destroyed := true } none
  | destroy {p rest} : s.services = p :: rest →
      Step s .destroy { s with services := rest, removed := s.removed ++ [p.id] }
        (some (.destructor p.id))
  | destructed {id} : Step s (.destructor id) s (some .destroy)

theorem exec_step {s s' : Context} {pc : Pc} {throws : Bool} {q : Option Pc}
    (h : exec s pc throws = some (s', q)) : Step s pc s' q := by
  cases pc with
  | find call f =>
      simp only [exec, Option.ite_none_left_eq_some] at h
      obtain ⟨-, h⟩ := h
      cases htaken : taken s call f <;>
        simp only [htaken, if_true, Bool.false_eq_true, if_false, Option.some.injEq,
          Prod.mk.injEq] at h <;> obtain ⟨rfl, rfl⟩ := h
      · exact .missing htaken
      · exact .found htaken
  | create call f =>
      cases throws <;>
        simp only [exec, if_true, Bool.false_eq_true, if_false, Option.some.injEq,
          Prod.mk.injEq] at h <;> obtain ⟨rfl, rfl⟩ := h
      · exact .create rfl
      · exact .createThrows
  | register call f id =>
      simp only [exec, Option.ite_none_left_eq_some] at h
      obtain ⟨-, h⟩ := h
      cases htaken : taken s call f <;>
        simp only [htaken, if_true, Bool.false_eq_true, if_false, Option.some.injEq,
          Prod.mk.injEq] at h <;> obtain ⟨rfl, rfl⟩ := h
      · exact .register htaken
      · exact .lost htaken
  | shutdown =>
      cases hshut : s.shutdown <;>
        simp only [exec, hshut, if_true, Bool.false_eq_true, if_false, Option.some.injEq,
          Prod.mk.injEq] at h <;> obtain ⟨rfl, rfl⟩ := h
      · exact .shutdown hshut
      · exact .shutdownAgain hshut
  | walk p =>
      cases p <;> simp only [exec, Option.some.injEq, Prod.mk.injEq] at h <;>
        obtain ⟨rfl, rfl⟩ := h
      · exact .walkEnd
      · exact .walk
  | destroy =>
      simp only [exec] at h
      split at h <;> simp only [Option.some.injEq, Prod.mk.injEq] at h <;>
        obtain ⟨rfl, rfl⟩ := h
      · exact .destroyEnd ‹_›
      · exact .destroy ‹_›
  | discard | lateShutdown | lateBody | walkBody | destructor =>
      simp only [exec, Option.some.injEq, Prod.mk.injEq] at h
      obtain ⟨rfl, rfl⟩ := h
      constructor

inductive Entered (s : Context) (fs : List (Frame Pc)) (t : Nat) : Pc → Prop
  | call {c f} : s.destroyed = false → (∀ g ∈ fs, closing g.pc = true → g.thread = t) →
      Entered s fs t (.find c f)
  | shutdown : fs = [] → Entered s fs t .shutdown
  | destroy : fs = [] → s.shutdown = true → Entered s fs t .destroy

theorem enter_entered {s s' : Context} {fs : List (Frame Pc)} {t : Nat} {e : Entry}
    {q : Option Pc} (h : enter s fs t e = some (s', q)) :
    s' = s ∧ ∃ pc, q = some pc ∧ Entered s fs t pc := by
  cases e <;> simp only [enter, Option.ite_none_right_eq_some, Option.some.injEq,
    Prod.mk.injEq] at h
  case call c f =>
    obtain ⟨⟨hlive, hown⟩, rfl, rfl⟩ := h
    exact ⟨rfl, _, rfl, .call hlive hown⟩
  case shutdown =>
    obtain ⟨hempty, rfl, rfl⟩ := h
    exact ⟨rfl, _, rfl, .shutdown hempty⟩
  case destroy =>
    obtain ⟨⟨hempty, hshut⟩, rfl, rfl⟩ := h
    exact ⟨rfl, _, rfl, .destroy hempty hshut⟩

end Capy.ExecutionContext
