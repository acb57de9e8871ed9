import Mathlib.Algebra.BigOperators.Fin
import Mathlib.Logic.Function.Basic

/-!
The part that `when_all` and `when_any` share: runners that each hold a share of
a join, the launcher that posts them, `final_suspend`, which drops the share of
a runner that has finished, and `lose_branch`, which drops that of a runner
destroyed before. What a runner does with the result of its child is its body.
-/

namespace Capy.Join

open Function

/-- A `std::error_code`, which converts to `true` when its value is not zero. -/
structure ErrorCode where
  value : Int := 0
  category : Nat := 0
  deriving DecidableEq

def ErrorCode.isError (ec : ErrorCode) : Bool := ec.value ≠ 0

/-- A `results`: the error code a child reports and its payload. -/
structure Results (P : Type) where
  ec : ErrorCode
  payload : P

/-- How a child completes: it returns a `results`, which throws when it is moved
if `throws` says so, or it exits by an exception. -/
inductive Completion (P Exc : Type) where
  | returned (r : Results P) (throws : Option Exc)
  | threw (e : Exc)

/-- Where a runner stands. The points from `finalSuspend` on are inside
`final_suspend`, those from `loseBranch` on inside `lose_branch`, as called by
the destructor of the promise. -/
inductive Pc (Work : Type) where
  | created
  | posted
  | awaiting
  | working (w : Work)
  | finalSuspend
  | finalLost
  | finalRelease
  | finalLast
  | loseBranch
  | loseStop
  | loseRelease
  | loseLast
  | done

/-- A runner: where it stands, whether its segment is abandoned, and how its
child completed. `lost` and `requested` record that it has stored `lost_` and
that it has called `request_stop`. -/
structure Branch (Outcome Work : Type) where
  pc : Pc Work := .created
  abandoned : Bool := false
  outcome : Option Outcome := none
  lost : Bool := false
  requested : Bool := false

/-- What the runner is at before `final_suspend`. -/
def Branch.pending {Outcome Work : Type} (b : Branch Outcome Work) : Option Work :=
  match b.pc with
  | .working w => some w
  | _ => none

/-- What the runners do between the completion of the child and `final_suspend`:
the work an outcome gives rise to, one step of it on the members of the state,
and the steps that call `request_stop`. -/
structure Body (n : Nat) (Outcome Work : Fin n → Type) (σ : Type) where
  begin : ∀ i, Outcome i → Option (Work i)
  step : ∀ i, σ → Work i → σ × Option (Work i)
  stops : ∀ i, Work i → Bool

/-- The members of `when_all_core` and `when_any_core` that the join uses, the
number of runners posted, whether the parent's stop request came, and how often
the parent was resumed and abandoned. -/
structure Core where
  remaining : Nat
  lost : Bool := false
  stop : Bool := false
  parentStop : Bool := false
  posted : Nat := 0
  resumed : Nat := 0
  abandoned : Nat := 0

structure State {n : Nat} (Outcome Work : Fin n → Type) (σ : Type) where
  core : Core
  shared : σ
  branch : ∀ i, Branch (Outcome i) (Work i)

variable {n : Nat} {Outcome Work : Fin n → Type} {σ : Type}

def State.set (s : State Outcome Work σ) (i : Fin n)
    (b : Branch (Outcome i) (Work i)) : ∀ i, Branch (Outcome i) (Work i) :=
  update s.branch i b

/-- What can happen: the launcher posts the next runner, an executor starts a
runner, a runner is destroyed, a child completes, a segment is abandoned, a
runner is resumed to unwind its abandoned segment, the parent's stop callback
runs, and a running runner goes on. -/
inductive Event (Outcome : Fin n → Type) where
  | post
  | start (i : Fin n)
  | destroy (i : Fin n)
  | complete (i : Fin n) (o : Outcome i)
  | abandon (i : Fin n)
  | unwind (i : Fin n)
  | parentStop
  | run (i : Fin n)

/-- One atomic step of a running runner. -/
def run (body : Body n Outcome Work σ) (s : State Outcome Work σ) (i : Fin n) :
    Option (State Outcome Work σ) :=
  let b := s.branch i
  match b.pc with
  | .working w =>
      let next := body.step i s.shared w
      some ⟨{ s.core with stop := s.core.stop || body.stops i w }, next.1,
        s.set i { b with
          pc := next.2.elim .finalSuspend .working
          requested := b.requested || body.stops i w }⟩
  | .finalSuspend =>
      if b.abandoned then
        some ⟨{ s.core with lost := true }, s.shared,
          s.set i { b with pc := .finalLost, lost := true }⟩
      else some ⟨s.core, s.shared, s.set i { b with pc := .finalRelease }⟩
  | .finalLost =>
      some ⟨{ s.core with stop := true }, s.shared,
        s.set i { b with pc := .finalRelease, requested := true }⟩
  | .finalRelease =>
      some ⟨{ s.core with remaining := s.core.remaining - 1 }, s.shared,
        s.set i { b with pc := if s.core.remaining = 1 then .finalLast else .done }⟩
  | .finalLast =>
      if s.core.lost then
        some ⟨{ s.core with abandoned := s.core.abandoned + 1 }, s.shared,
          s.set i { b with pc := .done }⟩
      else
        some ⟨{ s.core with resumed := s.core.resumed + 1 }, s.shared,
          s.set i { b with pc := .done }⟩
  | .loseBranch =>
      some ⟨{ s.core with lost := true }, s.shared,
        s.set i { b with pc := .loseStop, lost := true }⟩
  | .loseStop =>
      some ⟨{ s.core with stop := true }, s.shared,
        s.set i { b with pc := .loseRelease, requested := true }⟩
  | .loseRelease =>
      some ⟨{ s.core with remaining := s.core.remaining - 1 }, s.shared,
        s.set i { b with pc := if s.core.remaining = 1 then .loseLast else .done }⟩
  | .loseLast =>
      some ⟨{ s.core with abandoned := s.core.abandoned + 1 }, s.shared,
        s.set i { b with pc := .done }⟩
  | _ => none

def step (body : Body n Outcome Work σ) (s : State Outcome Work σ) :
    Event Outcome → Option (State Outcome Work σ)
  | .post =>
      if h : s.core.posted < n then
        some ⟨{ s.core with posted := s.core.posted + 1 }, s.shared,
          s.set ⟨s.core.posted, h⟩ { s.branch ⟨s.core.posted, h⟩ with pc := .posted }⟩
      else none
  | .start i =>
      match (s.branch i).pc with
      | .posted => some ⟨s.core, s.shared, s.set i { s.branch i with pc := .awaiting }⟩
      | _ => none
  | .destroy i =>
      match (s.branch i).pc with
      | .posted | .awaiting =>
          some ⟨s.core, s.shared, s.set i { s.branch i with pc := .loseBranch }⟩
      | _ => none
  | .complete i o =>
      match (s.branch i).pc, (s.branch i).abandoned with
      | .awaiting, false =>
          some ⟨s.core, s.shared, s.set i { s.branch i with
            pc := (body.begin i o).elim .finalSuspend .working
            outcome := some o }⟩
      | _, _ => none
  | .abandon i =>
      match (s.branch i).pc with
      | .awaiting => some ⟨s.core, s.shared, s.set i { s.branch i with abandoned := true }⟩
      | _ => none
  | .unwind i =>
      match (s.branch i).pc, (s.branch i).abandoned with
      | .awaiting, true =>
          some ⟨s.core, s.shared, s.set i { s.branch i with pc := .finalSuspend }⟩
      | _, _ => none
  | .parentStop =>
      some ⟨{ s.core with stop := true, parentStop := true }, s.shared, s.branch⟩
  | .run i => run body s i

def initial (x : σ) : State Outcome Work σ := ⟨{ remaining := n }, x, fun _ => {}⟩

def runEvents (body : Body n Outcome Work σ) (s : State Outcome Work σ) :
    List (Event Outcome) → Option (State Outcome Work σ)
  | [] => some s
  | e :: es => (step body s e).bind fun s' => runEvents body s' es

/-- The states that the runs of a join reach. -/
inductive Reachable (body : Body n Outcome Work σ) (x : σ) : State Outcome Work σ → Prop
  | initial : Reachable body x (initial x)
  | step {s s' e} : Reachable body x s → step body s e = some s' → Reachable body x s'

theorem Reachable.runEvents {body : Body n Outcome Work σ} {x : σ}
    {s s' : State Outcome Work σ} (hs : Reachable body x s) (es : List (Event Outcome))
    (h : runEvents body s es = some s') : Reachable body x s' := by
  induction es generalizing s with
  | nil =>
      obtain rfl : s = s' := by simpa [Join.runEvents] using h
      exact hs
  | cons e es ih =>
      obtain ⟨t, ht, hrest⟩ := Option.bind_eq_some_iff.mp h
      exact ih (.step hs ht) hrest

section Steps

variable (body : Body n Outcome Work σ)

inductive Step (c : Core) (x : σ) (b : ∀ i, Branch (Outcome i) (Work i)) :
    Core → σ → (∀ i, Branch (Outcome i) (Work i)) → Prop
  | post (h : c.posted < n) :
      Step c x b { c with posted := c.posted + 1 } x
        (update b ⟨c.posted, h⟩ { b ⟨c.posted, h⟩ with pc := .posted })
  | start {i} : (b i).pc = .posted →
      Step c x b c x (update b i { b i with pc := .awaiting })
  | destroy {i} : (b i).pc = .posted ∨ (b i).pc = .awaiting →
      Step c x b c x (update b i { b i with pc := .loseBranch })
  | complete {i o} : (b i).pc = .awaiting → (b i).abandoned = false →
      Step c x b c x (update b i { b i with
        pc := (body.begin i o).elim .finalSuspend .working
        outcome := some o })
  | abandon {i} : (b i).pc = .awaiting →
      Step c x b c x (update b i { b i with abandoned := true })
  | unwind {i} : (b i).pc = .awaiting → (b i).abandoned = true →
      Step c x b c x (update b i { b i with pc := .finalSuspend })
  | parentStop : Step c x b { c with stop := true, parentStop := true } x b
  | work {i w} : (b i).pc = .working w →
      Step c x b { c with stop := c.stop || body.stops i w } (body.step i x w).1
        (update b i { b i with
          pc := (body.step i x w).2.elim .finalSuspend .working
          requested := (b i).requested || body.stops i w })
  | finalAbandoned {i} : (b i).pc = .finalSuspend → (b i).abandoned = true →
      Step c x b { c with lost := true } x
        (update b i { b i with pc := .finalLost, lost := true })
  | finalFinished {i} : (b i).pc = .finalSuspend → (b i).abandoned = false →
      Step c x b c x (update b i { b i with pc := .finalRelease })
  | finalStop {i} : (b i).pc = .finalLost →
      Step c x b { c with stop := true } x
        (update b i { b i with pc := .finalRelease, requested := true })
  | finalRelease {i} : (b i).pc = .finalRelease → c.remaining ≠ 1 →
      Step c x b { c with remaining := c.remaining - 1 } x
        (update b i { b i with pc := .done })
  | finalReleaseLast {i} : (b i).pc = .finalRelease → c.remaining = 1 →
      Step c x b { c with remaining := c.remaining - 1 } x
        (update b i { b i with pc := .finalLast })
  | finalAbandons {i} : (b i).pc = .finalLast → c.lost = true →
      Step c x b { c with abandoned := c.abandoned + 1 } x
        (update b i { b i with pc := .done })
  | finalResumes {i} : (b i).pc = .finalLast → c.lost = false →
      Step c x b { c with resumed := c.resumed + 1 } x
        (update b i { b i with pc := .done })
  | loseBranch {i} : (b i).pc = .loseBranch →
      Step c x b { c with lost := true } x
        (update b i { b i with pc := .loseStop, lost := true })
  | loseStop {i} : (b i).pc = .loseStop →
      Step c x b { c with stop := true } x
        (update b i { b i with pc := .loseRelease, requested := true })
  | loseRelease {i} : (b i).pc = .loseRelease → c.remaining ≠ 1 →
      Step c x b { c with remaining := c.remaining - 1 } x
        (update b i { b i with pc := .done })
  | loseReleaseLast {i} : (b i).pc = .loseRelease → c.remaining = 1 →
      Step c x b { c with remaining := c.remaining - 1 } x
        (update b i { b i with pc := .loseLast })
  | loseAbandons {i} : (b i).pc = .loseLast →
      Step c x b { c with abandoned := c.abandoned + 1 } x
        (update b i { b i with pc := .done })

variable {body}

theorem run_step {s s' : State Outcome Work σ} {i : Fin n} (h : run body s i = some s') :
    Step body s.core s.shared s.branch s'.core s'.shared s'.branch := by
  simp only [run] at h
  split at h
  all_goals try split at h
  all_goals first
    | simp only [Option.some.injEq] at h
    | simp only [reduceCtorEq] at h
  all_goals subst h
  all_goals first
    | exact .loseRelease ‹_› ‹_›
    | exact .loseReleaseLast ‹_› ‹_›
    | exact .loseAbandons ‹_›
    | (constructor <;> simp_all)

theorem step_step {s s' : State Outcome Work σ} {e : Event Outcome}
    (h : step body s e = some s') :
    Step body s.core s.shared s.branch s'.core s'.shared s'.branch := by
  cases e with
  | run i => exact run_step h
  | _ =>
      simp only [step] at h
      try split at h
      all_goals first
        | simp only [Option.some.injEq] at h
        | simp only [reduceCtorEq] at h
      all_goals
        subst h
        constructor
      all_goals simp [*]

end Steps

end Capy.Join
