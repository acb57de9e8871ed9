import Capy.Potential
import Capy.StrandFate

namespace Capy.StrandDrain

open Capy.CallStack
open Capy.StrandService
open Capy.StrandExclusion
open Capy.StrandFate

/-- The steps that an activation still has to pay for itself; what it does for
a continuation in the queue, or for a queued invoker, is paid by these. -/
def cost : Pc → Nat
  | .dispatch _ => 19
  | .enqueue _ => 18
  | .enqueueLocked _ => 17
  | .postInvoker _ => 11
  | .posted => 1
  | .withdraw _ => 10
  | .repostInvoker _ => 9
  | .reposted _ => 2
  | .abandonPending _ => 3
  | .abandonBatch batch _ => 2 + batch.length
  | .rethrow _ _ => 1
  | .setDispatchThread => 1
  | .takeAll => 0
  | .dispatchBatch _ rest => 3 + rest.length
  | .tryUnlock => 2
  | .clearDispatchThread => 1
  | .shutdownImpl => 3
  | .destroyLoad => 5
  | .destroyUnlink => 4
  | .destroyTake => 3

/-- The invoker has yet to take the queue. -/
def aboutToTake : Pc → Bool
  | .setDispatchThread | .takeAll => true
  | _ => false

/-- The credit of the shared state, with `n` invokers about to take the queue:
an empty queue pays for none of them. -/
def stored (s : Strand) (n : Nat) : Nat :=
  5 * s.pending.length + 6 * s.queued + (if s.pending = [] then 4 * n else 0) +
    (if s.shutdown then 0 else 4) + (if s.destroyed then 0 else 6)

theorem aboutToTake_ownsStrand {pc : Pc} (h : aboutToTake pc = true) : ownsStrand pc = true := by
  cases pc <;> simp_all [aboutToTake, ownsStrand]

/-- A step pays for itself, as long as no two invokers are about to take the queue. -/
theorem Step.pays {s s' : Strand} {t k : Nat} {pc : Pc} {q : Option Pc}
    (hstep : Step s t pc s' q) (hk : k + (aboutToTake pc).toNat ≤ 1) :
    stored s' (k + (q.elim false aboutToTake).toNat) + q.elim 0 cost + 1 ≤
      stored s (k + (aboutToTake pc).toNat) + cost pc := by
  unfold stored
  cases hstep
  case withdrawFollowed hopen hmore =>
    rcases hpending : s.pending with _ | ⟨c, rest⟩
    · simp [hpending] at hmore
    · grind [aboutToTake, cost]
  all_goals
    rcases hpending : s.pending with _ | ⟨c, rest⟩ <;>
      simp_all [aboutToTake, cost] <;> omega

/-- Who submits a continuation to the strand. -/
def isSubmission : Event Outcome Entry → Bool
  | .enter _ (.post _) | .enter _ (.dispatch _) => true
  | _ => false

/-- Only a submission brings work to the strand. -/
def credit (e : Event Outcome Entry) : Nat := if isSubmission e then 20 else 0

theorem enter_pays {s s' : Strand} {fs : List (Frame Pc)} {t k : Nat} {a : Entry}
    {q : Option Pc} (_ : k ≤ 1) (henter : enter s fs t a = some (s', q)) :
    stored s' (k + (q.elim false aboutToTake).toNat) + q.elim 0 cost + 1 ≤
      stored s k + credit (.enter t a) := by
  cases a <;> simp only [enter, Option.ite_none_right_eq_some, Option.some.injEq,
      Prod.mk.injEq] at henter <;>
    obtain ⟨hguard, rfl, rfl⟩ := henter
  all_goals
    rcases hpending : s.pending with _ | ⟨c, rest⟩ <;>
      simp_all [stored, aboutToTake, cost, credit, isSubmission] <;> omega

/-- How many invokers are about to take the queue. -/
def takers (fs : List (Frame Pc)) : Nat := fs.countP fun f => aboutToTake f.pc

theorem takers_split {t : Nat} {pc : Pc} {l r : List (Frame Pc)} :
    takers (l ++ ⟨t, pc⟩ :: r) = takers (l ++ r) + (aboutToTake pc).toNat :=
  countP_split _

theorem takers_replace {t : Nat} {q : Option Pc} {l r : List (Frame Pc)} :
    takers (l ++ q.toList.map (Frame.mk t) ++ r) =
      takers (l ++ r) + (q.elim false aboutToTake).toNat :=
  countP_replace _

theorem takers_enter {t : Nat} {q : Option Pc} {fs : List (Frame Pc)} :
    takers (q.toList.map (Frame.mk t) ++ fs) =
      takers fs + (q.elim false aboutToTake).toNat :=
  countP_enter _

theorem takers_le_one {s : Strand} {fs : List (Frame Pc)} (h : Ownership s (ownersOf fs)) :
    takers fs ≤ 1 := by
  have hle : takers fs ≤ ownersOf fs :=
    List.countP_mono_left fun f _ hf => aboutToTake_ownsStrand hf
  have hunique := h.unique
  omega

/-- Every step of a strand pays for itself; only submissions bring credit. -/
def potential : machine.Potential Reachable credit where
  value s := stored s.shared (takers s.frames) + total cost s.frames
  closed hs hstep := .step hs rfl hstep
  pays {s s' e} hs hstep := by
    have htakers := takers_le_one (ownership_reachable hs)
    rcases Machine.ofSteps_step_cases hstep with
      ⟨t, o, l, pc, r, q, rfl, hfs, -, hexec, hfs'⟩ | ⟨t, a, q, rfl, henter, hfs'⟩
    · rw [hfs, takers_split] at htakers
      have hpay := Step.pays (exec_step hexec) htakers
      rw [hfs, hfs', takers_split, takers_replace, total_split, total_replace]
      change _ ≤ _ + 0
      omega
    · have hpay := enter_pays htakers henter
      rw [hfs', takers_enter, total_enter]
      omega

theorem credit_sum (es : List (Event Outcome Entry)) :
    (es.map credit).sum = 20 * es.countP isSubmission := by
  induction es with
  | nil => rfl
  | cons e es ih =>
      rw [List.map_cons, List.sum_cons, ih, credit, List.countP_cons]
      split <;> omega

/-- For every run of a strand, whatever its interleaving, whatever the inner
executor does with the invokers it is given and wherever its posts throw: the run
has at most twenty steps for each submitted continuation, and ten for the
shutdown and the destructor. In particular no invoker goes round its loop forever
unless continuations keep being submitted. -/
theorem strand_work_is_linear (shutdown : Bool) (es : List (Event Outcome Entry))
    {s : State Strand Pc}
    (h : machine.runEvents ⟨createImplementation shutdown, []⟩ es = some s) :
    es.length ≤ 20 * es.countP isSubmission + 10 := by
  have hlen := potential.length_add_le (.init ⟨shutdown, rfl⟩) es h
  have hstart : potential.value ⟨createImplementation shutdown, []⟩ ≤ 10 := by
    cases shutdown <;> decide
  rw [credit_sum] at hlen
  omega

theorem strand_work_is_linear_resuming :
    resumingRun.length ≤ 20 * resumingRun.countP isSubmission + 10 :=
  strand_work_is_linear false resumingRun rfl

/-- The inner executor runs every invoker it takes. -/
def runsInvokers (_ : State Strand Pc) : Event Outcome Entry → Bool
  | .enter _ .dropInvoker => false
  | _ => true

/-- An open strand that is locked has an owner, unless an invoker was dropped. -/
def LockOwned (s : Strand) (n : Nat) : Prop :=
  s.service = true → s.locked = true → 0 < s.queued + n

theorem LockOwned.step {s s' : Strand} {t k : Nat} {pc : Pc} {q : Option Pc}
    (h : LockOwned s (k + (ownsStrand pc).toNat)) (hstep : Step s t pc s' q) :
    LockOwned s' (k + (q.elim false ownsStrand).toNat) := by
  intro hopen hlocked
  cases hstep <;> grind [LockOwned, ownsStrand]

theorem lockOwned_preserves :
    machine.Preserves runsInvokers fun s fs => LockOwned s (ownersOf fs) := by
  apply Machine.Preserves.ofSteps
  · intro s l t pc r c s' q h _ _ _ hexec
    rw [ownersOf, countP_split] at h
    rw [ownersOf, countP_replace]
    exact LockOwned.step h (exec_step hexec)
  · intro s fs t a s' q h _ _ hok henter
    rw [ownersOf, countP_enter]
    intro hopen hlocked
    have hold := h
    unfold LockOwned ownersOf at hold
    cases enter_entered henter with
    | dropInvoker hqueued => cases a <;> simp_all [runsInvokers, enter]
    | invoke hqueued =>
        simp only [Option.elim, ownsStrand, Bool.toNat_true]
        omega
    | _ => simpa [ownsStrand] using hold hopen hlocked

theorem lockOwned_reachable {s : State Strand Pc}
    (h : machine.ReachableWhen runsInvokers Initial s) :
    LockOwned s.shared (ownersOf s.frames) := by
  refine lockOwned_preserves.reachableWhen initial_frames ?_ h
  rintro _ ⟨b, rfl⟩ hopen hlocked
  cases b <;> simp [createImplementation] at hopen hlocked

/-- What the strand's own code and an inner executor that runs its invokers can
still do. -/
def ownStep : Event Outcome Entry → Bool
  | .run _ _ | .enter _ .invoke => true
  | _ => false

theorem exec_isSome (s : Strand) (t : Nat) (pc : Pc) (o : Outcome) :
    (exec s t pc o).isSome = true := by
  cases pc <;> cases o <;> simp only [exec] <;> grind

theorem quiescent_of_idle {s : State Strand Pc} (hframes : s.frames = [])
    (hqueued : s.shared.queued = 0) : machine.Quiescent ownStep s := by
  intro e he
  cases e with
  | run t c => simp [Machine.step, hframes, splitTop]
  | enter t a =>
      cases a <;> simp [ownStep] at he
      simp [Machine.step, machine, Machine.ofSteps, enter, hqueued]

theorem quiescent_idle {s : State Strand Pc} (h : machine.Quiescent ownStep s) :
    s.frames = [] ∧ s.shared.queued = 0 := by
  have hframes : s.frames = [] :=
    Machine.Quiescent.frames_eq_nil h fun t pc => ⟨.succeeds, rfl, exec_isSome _ t pc _⟩
  refine ⟨hframes, ?_⟩
  have hinvoke := h (.enter 0 .invoke) rfl
  by_contra hqueued
  simp [Machine.step, Machine.free, machine, Machine.ofSteps, hframes, splitTop, enter,
    Nat.pos_of_ne_zero hqueued] at hinvoke

theorem Fates.settled_once {s : Strand} (h : Fates s []) (hpending : s.pending = [])
    {x : Nat} (hx : x ∈ s.submitted.map Prod.fst) :
    s.resumed.count x + s.abandoned.count x + (s.handedBack.map Prod.fst).count x +
      (s.inlined.map Prod.fst).count x = 1 := by
  have hconserved := h.conserved x
  have hone := List.count_eq_one_of_mem h.calls.nodup hx
  simp only [Conserved, hpending, List.count_nil, total, List.map_nil, List.sum_nil] at hconserved
  omega

theorem credit_of_ownStep (e : Event Outcome Entry) (h : ownStep e = true) : credit e = 0 := by
  rcases e with _ | ⟨_, _ | _⟩ <;> simp_all [ownStep, credit, isSubmission]

/-- From every state that a strand reaches, its own steps and the invokers that
the inner executor holds come to an end, whatever their order. Then no call is
left; and when the executor dropped no invoker, or the strand was shut down, or
its destructor has run, the queue is empty and every submitted continuation has
met exactly one fate. If the strand is still open and no invoker was dropped, it
is unlocked. -/
theorem strand_settles {s : State Strand Pc} (h : Reachable s) :
    (∃ n, ∀ es s', (∀ e ∈ es, ownStep e = true) → machine.runEvents s es = some s' →
      es.length ≤ n) ∧
    (∃ es s', (∀ e ∈ es, ownStep e = true) ∧ machine.runEvents s es = some s' ∧
      machine.Quiescent ownStep s') ∧
    (machine.Quiescent ownStep s → s.frames = [] ∧ s.shared.queued = 0 ∧
      (machine.ReachableWhen runsInvokers Initial s ∨ s.shared.shutdown = true ∨
          s.shared.destroyed = true →
        s.shared.pending = [] ∧
        ∀ x ∈ s.shared.submitted.map Prod.fst,
          s.shared.resumed.count x + s.shared.abandoned.count x +
            (s.shared.handedBack.map Prod.fst).count x +
            (s.shared.inlined.map Prod.fst).count x = 1) ∧
      (machine.ReachableWhen runsInvokers Initial s → s.shared.service = true →
        s.shared.locked = false)) := by
  have variant : machine.Variant Reachable ownStep := potential.variant credit_of_ownStep
  refine ⟨⟨variant.value s, fun es s' hown hrun => variant.length_le h hown hrun⟩,
    variant.exists_quiescent h, fun hquiet => ?_⟩
  · obtain ⟨hframes, hqueued⟩ := quiescent_idle hquiet
    have hfates := fates_reachable h
    rw [hframes] at hfates
    have hunlocked : machine.ReachableWhen runsInvokers Initial s → s.shared.service = true →
        s.shared.locked = false := by
      intro hkept hopen
      by_contra hlocked
      have howner := lockOwned_reachable hkept hopen (by simpa using hlocked)
      simp [hframes, hqueued, ownersOf] at howner
    refine ⟨hframes, hqueued, fun hwhen => ?_, hunlocked⟩
    have hpending : s.shared.pending = [] := by
      cases hservice : s.shared.service with
      | false => exact hfates.closing.closed hservice
      | true =>
          rcases hwhen with hkept | hshut | hdestroyed
          · exact hfates.ownership.idle hservice (hunlocked hkept hservice)
          · cases hd : s.shared.destroyed with
            | true => exact hfates.closing.emptied hd (by simp)
            | false =>
                have hlinked := hfates.closing.shut hshut (by simp)
                have hclosed := hfates.closing.unlinked hlinked hd
                simp [hservice] at hclosed
          · exact hfates.closing.emptied hdestroyed (by simp)
    exact ⟨hpending, fun x hx => Fates.settled_once hfates hpending hx⟩

/-- Thread 2 resumes the third continuation too and frees the strand. -/
def settledRun : List (Event Outcome Entry) :=
  queuedRun ++ List.replicate 8 (.run 2 .succeeds)

theorem strand_settles_settledRun :
    ∃ s, machine.runWhen runsInvokers ⟨createImplementation false, []⟩ settledRun = some s ∧
      (∃ n, ∀ es s', (∀ e ∈ es, ownStep e = true) → machine.runEvents s es = some s' →
        es.length ≤ n) ∧
      s.shared.resumed = [7, 8, 9] ∧ s.shared.pending = [] ∧ s.shared.locked = false ∧
      s.shared.resumed.count 9 + s.shared.abandoned.count 9 +
        (s.shared.handedBack.map Prod.fst).count 9 +
        (s.shared.inlined.map Prod.fst).count 9 = 1 := by
  obtain ⟨s, hs, hframes, hqueued, hresumed, hopen, hsubmitted⟩ : ∃ s,
      machine.runWhen runsInvokers ⟨createImplementation false, []⟩ settledRun = some s ∧
        s.frames = [] ∧ s.shared.queued = 0 ∧ s.shared.resumed = [7, 8, 9] ∧
        s.shared.service = true ∧ 9 ∈ s.shared.submitted.map Prod.fst :=
    ⟨_, rfl, rfl, rfl, rfl, rfl, by decide⟩
  have hreach : machine.ReachableWhen runsInvokers Initial s :=
    Machine.ReachableWhen.runWhen (.init ⟨false, rfl⟩) settledRun hs
  obtain ⟨hbound, -, hrest⟩ := strand_settles hreach.reachable
  obtain ⟨-, -, hsettled, hunlocked⟩ := hrest (quiescent_of_idle hframes hqueued)
  obtain ⟨hpending, hfate⟩ := hsettled (.inl hreach)
  exact ⟨s, hs, hbound, hresumed, hpending, hunlocked hreach hopen, hfate 9 hsubmitted⟩

end Capy.StrandDrain
