import Mathlib.Algebra.BigOperators.Group.Finset.Basic
import Capy.Potential
import Capy.RunBlockingOutcome

namespace Capy.RunBlocking

open Capy.CallStack

/-- The steps that an activation has still to pay for itself; what it does for a
queued continuation is paid by the queue. -/
def Place.cost : Place → Nat
  | .start => 8
  | .run => 7
  | .wait _ => 6
  | .resume _ _ => 9
  | .resuming _ => 8
  | .runEnd _ => 5
  | .shutdown => 4
  | .drain last => if last then 1 else 3
  | .drainAbandon _ last => if last then 3 else 5
  | .abandoning last => if last then 2 else 4
  | .destroy => 2
  | .enqueue _ => 6
  | .handlers => 3
  | .signalDone _ | .signalAbandoned => 2

/-- What a context pays for: its queue, and that its `run()` goes to sleep. -/
def stored (x : BlockingContext) : Nat := 4 * x.queue.length + (!x.sleeping).toNat

theorem step_pays {running : Option Nat} {x x' : BlockingContext} {p : Place} {q : Option Place}
    (hstep : Step running x p x' q) (hawake : ∀ prev, p = .wait prev → x.sleeping = false) :
    stored x' + q.elim 0 Place.cost + 1 ≤ stored x + p.cost := by
  cases hstep with
  | wake hsleeping => simp [hawake _ rfl] at hsleeping
  | take _ hqueue =>
      simp only [stored, hqueue, List.length_cons, Option.elim_some, Place.cost]
      omega
  | sleep hsleeping hqueue hdone =>
      simp only [stored, hsleeping, Option.elim_some, Place.cost, Bool.not_true, Bool.not_false,
        Bool.toNat_true, Bool.toNat_false]
      omega
  | enqueue =>
      simp only [stored, List.length_append, List.length_singleton, Option.elim_none, Place.cost,
        Bool.not_false, Bool.toNat_true]
      omega
  | signalDone | signalThrown | signalAbandoned =>
      simp only [stored, Option.elim_none, Place.cost, Bool.not_false, Bool.toNat_true]
      omega
  | @drainTake c queue last hqueue =>
      cases last <;> simp only [stored, hqueue, List.length_cons, Option.elim_some, Place.cost,
        Bool.false_eq_true, if_true, if_false] <;> omega
  | @abandon c last =>
      cases last <;> simp [stored, Place.cost]
  | @abandoned last =>
      cases last <;> simp [stored, Place.cost]
  | _ => simp [stored, Place.cost]

theorem sum_update {n k : Nat} (hk : k < n) (f : BlockingContext → Nat)
    (contexts : Nat → BlockingContext) (x : BlockingContext) :
    ∑ j ∈ Finset.range n, f (Function.update contexts k x j) + f (contexts k) =
      ∑ j ∈ Finset.range n, f (contexts j) + f x := by
  have hmem : k ∈ Finset.range n := Finset.mem_range.mpr hk
  rw [← Finset.sum_erase_add _ _ hmem, ← Finset.sum_erase_add _ _ hmem, Function.update_self]
  have hrest : ∑ j ∈ (Finset.range n).erase k, f (Function.update contexts k x j) =
      ∑ j ∈ (Finset.range n).erase k, f (contexts j) := by
    refine Finset.sum_congr rfl fun j hj => ?_
    rw [Function.update_of_ne (Finset.ne_of_mem_erase hj)]
  rw [hrest]
  omega

/-- Every step of a call lowers it. -/
def value (s : State System Pc) : Nat :=
  ∑ k ∈ Finset.range s.shared.created, stored (s.shared.contexts k) +
    total (fun pc => pc.place.cost) s.frames

/-- What the calls can still do when no thread wakes spuriously and nobody makes
another call. -/
def ownStep : Event Choice Entry → Bool
  | .run _ .wake => false
  | .run _ _ => true
  | .enter _ _ => false

theorem awake_of_exec {s s' : System} {t : Nat} {pc : Pc} {choice : Choice} {q : Option Pc}
    (h : exec s t pc choice = some (s', q)) (hchoice : choice ≠ .wake) (prev : Option Nat)
    (hpc : pc.place = .wait prev) : (s.contexts pc.ctx).sleeping = false := by
  obtain ⟨k, place⟩ := pc
  simp only at hpc
  subst hpc
  by_contra hsleeping
  simp only [Bool.not_eq_false] at hsleeping
  simp [exec, execContext, hsleeping, hchoice] at h

def variant : machine.Variant Reachable ownStep where
  value := value
  closed hs _ hstep := .step hs rfl hstep
  falls {s s' e} hs he hstep := by
    have hinv := invariant_reachable hs
    obtain ⟨sh, fs⟩ := s
    obtain ⟨sh', fs'⟩ := s'
    rcases Machine.ofSteps_step_cases hstep with
      ⟨t, c, l, pc, r, q, rfl, rfl, -, hexec, rfl⟩ | ⟨t, a, q, rfl, henter, rfl⟩
    · have hchoice : c ≠ .wake := by
        rintro rfl
        simp [ownStep] at he
      have hawake := awake_of_exec hexec hchoice
      obtain ⟨x, p, hlocal, rfl, hcontexts, hcreated, -⟩ := exec_step hexec
      have hpays := step_pays hlocal hawake
      have hknown : pc.ctx < sh.created := hinv.known ⟨t, pc⟩ (by simp)
      dsimp only at hcontexts hcreated
      have hsum := sum_update hknown stored sh.contexts x
      simp only [value, hcontexts, hcreated, total_split, total_replace]
      cases p <;> simp only [Option.map_none, Option.map_some, Option.elim_none,
        Option.elim_some] at hpays ⊢ <;> omega
    · simp [ownStep] at he

theorem exec_isSome (s : System) (t : Nat) {pc : Pc}
    (hawake : ∀ prev, pc.place = .wait prev → (s.contexts pc.ctx).sleeping = false)
    (hlive : ∀ c, pc.place = .enqueue c → (s.contexts pc.ctx).destroyed = false) :
    (exec s t pc .proceed).isSome = true := by
  obtain ⟨k, place⟩ := pc
  cases place with
  | wait prev =>
      have hsleeping := hawake prev rfl
      simp only at hsleeping
      simp only [exec, execContext, hsleeping, Option.isSome_map]
      cases (s.contexts k).queue <;> cases (s.contexts k).done <;> rfl
  | enqueue c =>
      have hdestroyed := hlive c rfl
      simp only at hdestroyed
      simp [exec, execContext, hdestroyed]
  | drain last =>
      simp only [exec, execContext, Option.isSome_map]
      cases (s.contexts k).queue <;> cases last <;> rfl
  | signalDone ep => cases ep <;> rfl
  | _ => rfl

/-- The activation waits in `run()` for a task that has not ended, with nothing
queued. -/
def Waits (s : System) (pc : Pc) : Prop :=
  (∃ prev, pc.place = .wait prev) ∧ (s.contexts pc.ctx).done = false ∧
    (s.contexts pc.ctx).queue = []

/-- The activation uses a context that is destroyed. -/
def Misuses (s : System) (pc : Pc) : Prop :=
  (∃ c, pc.place = .enqueue c) ∧ (s.contexts pc.ctx).destroyed = true

section Quiescent

variable {s : State System Pc} (h : Reachable s) (hquiet : machine.Quiescent ownStep s)

include h hquiet

theorem waits_or_misuses {t : Nat} {pc : Pc} (htop : topPc t s.frames = some pc)
    (hf : ⟨t, pc⟩ ∈ s.frames) : Waits s.shared pc ∨ Misuses s.shared pc := by
  have hnone := hquiet.exec_eq_none (c := .proceed) htop rfl
  refine or_iff_not_imp_right.mpr fun hmisuses => ?_
  by_contra hwaits
  have hsome : (exec s.shared t pc .proceed).isSome = true := by
    refine exec_isSome s.shared t (fun prev hpc => ?_) fun c hpc => ?_
    · by_contra hsleeping
      have hdrives := ((invariant_reachable h).frames _ hf).drives (by simp [hpc, Place.drives])
      exact hwaits ⟨⟨prev, hpc⟩, (hdrives.sleeps (by simpa using hsleeping)).2⟩
    · by_contra hdestroyed
      exact hmisuses ⟨⟨c, hpc⟩, by simpa using hdestroyed⟩
  simp [hnone] at hsome

theorem all_returned (hused : ∀ f ∈ s.frames, ¬Misuses s.shared f.pc)
    (hdone : ∀ k, k < s.shared.created → (s.shared.contexts k).done = true) :
    s.frames = [] ∧ ∀ k, k < s.shared.created → (s.shared.contexts k).destroyed = true ∧
      (s.shared.contexts k).enqueued =
        (s.shared.contexts k).resumed ++ (s.shared.contexts k).given := by
  have hinv := invariant_reachable h
  have hnil : s.frames = [] := by
    refine List.eq_nil_iff_forall_not_mem.mpr fun f hf => ?_
    obtain ⟨pc, htop, hmem⟩ := Machine.exists_topPc hf
    rcases waits_or_misuses h hquiet htop hmem with ⟨-, hpending, -⟩ | hmisuses
    · simp [hdone pc.ctx (hinv.known _ hmem)] at hpending
    · exact hused _ hmem hmisuses
  refine ⟨hnil, fun k hk => ?_⟩
  have hdestroyed : (s.shared.contexts k).destroyed = true := by
    by_contra hlive
    obtain ⟨t, p, hf, -⟩ := hinv.exists_driver hk (by simpa using hlive)
    simp [hnil] at hf
  exact ⟨hdestroyed, ((hinv.sound k).destroyed hdestroyed).2.2.2⟩

end Quiescent

/-- What calls of `run_blocking` can still do, without spurious wakeups, is bounded
and can be done until nothing is left; then every thread that is still in one
waits, with nothing queued, for a task that has not ended, unless somebody has
used a destroyed context. So when nobody does that and every task has ended, every
call has returned, and each continuation was resumed or given up. -/
theorem run_blocking_settles {s : State System Pc} (h : Reachable s) :
    (∃ n, ∀ es s', (∀ e ∈ es, ownStep e = true) → machine.runEvents s es = some s' →
      es.length ≤ n) ∧
    (∃ es s', (∀ e ∈ es, ownStep e = true) ∧ machine.runEvents s es = some s' ∧
      machine.Quiescent ownStep s') ∧
    ∀ es s', (∀ e ∈ es, ownStep e = true) → machine.runEvents s es = some s' →
      machine.Quiescent ownStep s' →
      (∀ t pc, topPc t s'.frames = some pc → Waits s'.shared pc ∨ Misuses s'.shared pc) ∧
      ((∀ f ∈ s'.frames, ¬Misuses s'.shared f.pc) →
        (∀ k, k < s'.shared.created → (s'.shared.contexts k).done = true) →
        s'.frames = [] ∧ ∀ k, k < s'.shared.created →
          (s'.shared.contexts k).destroyed = true ∧ (s'.shared.contexts k).enqueued =
            (s'.shared.contexts k).resumed ++ (s'.shared.contexts k).given) := by
  refine ⟨⟨value s, fun es s' hes hrun => ?_⟩, variant.exists_quiescent h, ?_⟩
  · exact variant.length_le h hes hrun
  · intro es s' hes hrun hquiet
    have hreach : Reachable s' := h.runWhen es hrun
    refine ⟨fun t pc htop => ?_, all_returned hreach hquiet⟩
    exact waits_or_misuses hreach hquiet htop (Machine.mem_of_topPc htop)

/-- The inner call of two nested ones has returned, and the task of the outer one ends. -/
def endedRun : List (Event Choice Entry) :=
  nestedRun ++ [.enter 0 (.invoke 0), .run 0 .proceed, .run 0 .proceed]

theorem run_blocking_settles_ended :
    ∃ s s', machine.runEvents ⟨newSystem, []⟩ endedRun = some s ∧
      (s.shared.contexts 0).destroyed = false ∧
      machine.runEvents s (List.replicate 10 (.run 0 .proceed)) = some s' ∧ s'.frames = [] ∧
      (s'.shared.contexts 0).resumed = [5, 7] ∧ ∀ k, k < 2 →
        (s'.shared.contexts k).destroyed = true ∧ (s'.shared.contexts k).enqueued =
          (s'.shared.contexts k).resumed ++ (s'.shared.contexts k).given := by
  obtain ⟨s, s', hs, hlive, hs', hnil, hcreated, hresumed, houter, hinner⟩ : ∃ s s',
      machine.runEvents ⟨newSystem, []⟩ endedRun = some s ∧
        (s.shared.contexts 0).destroyed = false ∧
        machine.runEvents s (List.replicate 10 (.run 0 .proceed)) = some s' ∧ s'.frames = [] ∧
        s'.shared.created = 2 ∧ (s'.shared.contexts 0).resumed = [5, 7] ∧
        (s'.shared.contexts 0).done = true ∧ (s'.shared.contexts 1).done = true :=
    ⟨_, _, rfl, rfl, rfl, rfl, rfl, rfl, rfl, rfl⟩
  have hquiet : machine.Quiescent ownStep s' := by
    intro e he
    cases e with
    | run t choice => simp [Machine.step, hnil, splitTop]
    | enter t a => simp [ownStep] at he
  have hdone : ∀ k, k < s'.shared.created → (s'.shared.contexts k).done = true := by
    intro k hk
    rw [hcreated] at hk
    obtain rfl | rfl : k = 0 ∨ k = 1 := by omega
    · exact houter
    · exact hinner
  have hinit : Reachable ⟨newSystem, []⟩ := .init rfl
  obtain ⟨-, -, hrest⟩ := run_blocking_settles (hinit.runWhen endedRun hs)
  obtain ⟨-, hreturned⟩ := hrest _ s' (by simp [ownStep]) hs' hquiet
  obtain ⟨hframes, hcontexts⟩ := hreturned (by simp [hnil]) hdone
  exact ⟨s, s', hs, hlive, hs', hframes, hresumed, fun k hk => hcontexts k (hcreated ▸ hk)⟩

end Capy.RunBlocking
