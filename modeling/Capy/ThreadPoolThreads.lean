import Capy.FrameProjection
import Capy.ThreadPoolFate

namespace Capy.ThreadPool

open Capy.CallStack
open Capy.IntrusiveQueue

def workPc : Pc → Option ThreadPoolWork.Pc
  | .work pc _ => some pc
  | _ => none

/-- The calls of work counting among the activations. -/
abbrev workFrames (fs : List (Frame Pc)) : List (Frame ThreadPoolWork.Pc) :=
  projectFrames workPc fs

theorem mem_workFrames {fs : List (Frame Pc)} {t : Nat} {pc : ThreadPoolWork.Pc} :
    ⟨t, pc⟩ ∈ workFrames fs ↔ ∃ caller, ⟨t, .work pc caller⟩ ∈ fs := by
  rw [workFrames, mem_projectFrames]
  constructor
  · rintro ⟨pc', hf, hpc⟩
    cases pc' <;> simp only [workPc, Option.some.injEq, reduceCtorEq] at hpc
    subst hpc
    exact ⟨_, hf⟩
  · rintro ⟨caller, hf⟩
    exact ⟨_, hf, rfl⟩

theorem invariant_perm {s : ThreadPoolWork.Pool} {fs fs' : List (Frame ThreadPoolWork.Pc)}
    (h : ThreadPoolWork.Invariant s fs) (hperm : fs.Perm fs') :
    ThreadPoolWork.Invariant s fs' := by
  obtain ⟨hcounts, hpositive, hdrained, hsleeping⟩ := h
  rw [hperm.countP_eq, hperm.countP_eq, hperm.countP_eq] at hcounts
  refine ⟨hcounts, fun f hf => hpositive f (hperm.mem_iff.mpr hf), ?_,
    fun f hf => hsleeping f (hperm.mem_iff.mpr hf)⟩
  intro hjoined hstop hzero
  obtain ⟨f, hf, htests⟩ := hdrained hjoined hstop hzero
  exact ⟨f, hperm.mem_iff.mp hf, htests⟩

theorem invariant_stop {s s' : ThreadPoolWork.Pool} {t : Nat} {q : Option ThreadPoolWork.Pc}
    {l r : List (Frame ThreadPoolWork.Pc)} (h : ThreadPoolWork.Invariant s (l ++ r))
    (hstep : ThreadPoolWork.Step s .stopLock s' q) :
    ThreadPoolWork.Invariant s' (l ++ [⟨t, .joinLock⟩] ++ r) := by
  have hentered : ThreadPoolWork.Invariant s ([⟨t, .stopLock⟩] ++ (l ++ r)) :=
    ThreadPoolWork.invariant_enter (e := .stop) h rfl
  obtain rfl : q = none := by cases hstep; rfl
  have hstopped : ThreadPoolWork.Invariant s' (l ++ r) :=
    ThreadPoolWork.invariant_exec (l := []) hentered hstep
  have hjoins : ThreadPoolWork.Invariant s' ([⟨t, .joinLock⟩] ++ (l ++ r)) :=
    ThreadPoolWork.invariant_enter (e := .join) hstopped rfl
  refine invariant_perm hjoins ?_
  simpa using List.perm_middle.symm

/-- The call is of the destructor. -/
def destroys : Pc → Bool
  | .stop => true
  | pc => closes pc

/-- The call is a `join()` that has done its waiting. -/
def joinsThreads : Pc → Bool
  | .work .joinUnlock _ | .work .joinThreads _ => true
  | _ => false

/-- The activations of work counting keep what they keep alone; a thread that has
begun is a worker until it exits; a `join()` that joins threads finds the pool
stopped; and the destructor goes on until the pool is destroyed, with its queue
empty. -/
structure Upkeep (s : Pool) (fs : List (Frame Pc)) : Prop where
  work : ThreadPoolWork.Invariant s.work (workFrames fs)
  workers : s.exited + fs.countP (fun f => inWorker f.pc) = s.begun
  begun : s.begun ≤ s.threads
  joins : ∀ f ∈ fs, joinsThreads f.pc = true → s.work.stop = true
  closing : s.closing = true → s.destroyed = true ∨ ∃ f ∈ fs, destroys f.pc = true
  destroyed : s.destroyed = true → s.queue.pop.2 = none

section Step

variable {idle : Nat → Bool} {s s' : Pool} {pc : Pc} {q : Option Pc}
  (hstep : Step idle s pc s' q)

include hstep

theorem Step.keeps_work {t : Nat} {l r : List (Frame Pc)}
    (h : ThreadPoolWork.Invariant s.work (workFrames (l ++ ⟨t, pc⟩ :: r))) :
    ThreadPoolWork.Invariant s'.work
      (workFrames (l ++ q.toList.map (Frame.mk t) ++ r)) := by
  rw [workFrames, projectFrames_split] at h
  rw [workFrames, projectFrames_replace]
  cases hstep with
  | @work pc caller w q _ hwork =>
      have h' : ThreadPoolWork.Invariant s.work (workFrames l ++ ⟨t, pc⟩ :: workFrames r) := by
        simpa [workPc] using h
      have hexec := ThreadPoolWork.invariant_exec h' hwork
      cases q with
      | some pc' => simpa [workPc] using hexec
      | none => cases caller <;> simpa [Caller.next, workPc] using hexec
  | stop hwork => exact invariant_stop (by simpa [workPc] using h) hwork
  | @drained last q _ hq =>
      subst hq
      cases last <;> exact h
  | _ => exact h

theorem Step.workers {n : Nat} (h : s.exited + (n + (inWorker pc).toNat) = s.begun) :
    s'.exited + (n + (q.elim false inWorker).toNat) = s'.begun := by
  cases hstep with
  | @work pc caller w q =>
      rcases q with _ | pc'
      · cases caller <;> exact h
      · exact h
  | exit =>
      simp only [inWorker, Bool.toNat_true, Option.elim, Bool.toNat_false] at h ⊢
      omega
  | @drained last q _ hq =>
      subst hq
      cases last <;> exact h
  | _ => exact h

theorem Step.threads_le : s'.begun = s.begun ∧ s.threads ≤ s'.threads := by
  cases hstep with
  | startThrows => exact ⟨rfl, Nat.le_add_right ..⟩
  | startAll => exact ⟨rfl, Nat.le_max_left ..⟩
  | _ => exact ⟨rfl, Nat.le_refl _⟩

theorem Step.joins (hpc : joinsThreads pc = true → s.work.stop = true)
    (hq : q.elim false joinsThreads = true) : s'.work.stop = true := by
  cases hstep with
  | @work pc caller w q _ hwork =>
      cases hwork <;> cases caller <;> simp_all [Caller.next, joinsThreads]
  | @drained last q _ hlast =>
      subst hlast
      cases last <;> simp [joinsThreads] at hq
  | _ => simp_all [joinsThreads]

theorem Step.destroys (hpc : destroys pc = true) :
    s'.destroyed = true ∨ ∃ pc', q = some pc' ∧ ThreadPool.destroys pc' = true := by
  cases hstep with
  | @work pc caller w q =>
      cases caller with
      | user => simp [ThreadPool.destroys, closes] at hpc
      | destructor => cases q <;> exact .inr ⟨_, rfl, rfl⟩
  | @drained last q _ hlast =>
      subst hlast
      cases last
      · exact .inr ⟨_, rfl, rfl⟩
      · exact .inl rfl
  | stop | shutdown | drainTake | skip | abandon | abandoned | destroy => exact .inr ⟨_, rfl, rfl⟩
  | _ => simp [ThreadPool.destroys, closes] at hpc

theorem Step.closes_pool : s'.closing = s.closing ∧ (s.destroyed = true → s'.destroyed = true) ∧
    (s.destroyed = false → s'.destroyed = true → s'.queue.pop.2 = none) := by
  cases hstep with
  | drained hpop =>
      refine ⟨rfl, fun h => by simp [h], fun _ _ => hpop⟩
  | push | pushStopped => exact ⟨rfl, id, fun hlive hd => by simp [Pool.push, hlive] at hd⟩
  | _ => exact ⟨rfl, id, fun hlive hd => by simp [hlive] at hd⟩

end Step

theorem Entered.joins {s s' : Pool} {q : Option Pc} (henter : Entered s s' q) :
    q.elim false joinsThreads = false := by
  cases henter with
  | @work e w q henter =>
      cases e <;> simp only [ThreadPoolWork.enter, Option.ite_none_right_eq_some,
        Option.some.injEq, Prod.mk.injEq] at henter
      case onWorkFinished =>
        obtain ⟨-, -, rfl⟩ := henter
        rfl
      all_goals
        obtain ⟨-, rfl⟩ := henter
        rfl
  | _ => rfl

theorem Upkeep.exec {idle : Nat → Bool} {s s' : Pool} {t : Nat} {pc : Pc} {q : Option Pc}
    {l r : List (Frame Pc)} (h : Upkeep s (l ++ ⟨t, pc⟩ :: r)) (hlive : s.destroyed = false)
    (hstep : Step idle s pc s' q) : Upkeep s' (l ++ q.toList.map (Frame.mk t) ++ r) := by
  obtain ⟨hwork, hworkers, hbegun, hjoins, hclosing, -⟩ := h
  obtain ⟨hjoinsRest, hjoinsPc⟩ := forall_split.mp hjoins
  obtain ⟨hsame, hthreads⟩ := hstep.threads_le
  obtain ⟨hsameClosing, -, hdrained⟩ := hstep.closes_pool
  constructor
  · exact hstep.keeps_work hwork
  · rw [countP_split] at hworkers
    rw [countP_replace]
    exact hstep.workers hworkers
  · omega
  · exact forall_replace.mpr ⟨fun f hf hpc => hstep.mono.1 (hjoinsRest f hf hpc),
      fun pc' hq hpc' => hstep.joins hjoinsPc (by simpa [hq] using hpc')⟩
  · intro hc
    rcases hclosing (hsameClosing ▸ hc) with hd | ⟨f, hf, hpc⟩
    · simp [hlive] at hd
    · rcases mem_split.mp hf with hf | rfl
      · exact .inr ⟨f, mem_replace.mpr (.inl hf), hpc⟩
      · rcases hstep.destroys hpc with hd | ⟨pc', rfl, hpc'⟩
        · exact .inl hd
        · exact .inr ⟨⟨t, pc'⟩, mem_replace.mpr (.inr ⟨pc', rfl, rfl⟩), hpc'⟩
  · exact hdrained hlive

theorem Upkeep.enter {s s' : Pool} {t : Nat} {q : Option Pc} {fs : List (Frame Pc)}
    (h : Upkeep s fs) (hlive : s.destroyed = false) (henter : Entered s s' q) :
    Upkeep s' (q.toList.map (Frame.mk t) ++ fs) := by
  obtain ⟨hwork, hworkers, hbegun, hjoins, hclosing, -⟩ := h
  have hold : s.closing = true → ∃ f ∈ fs, destroys f.pc = true := fun hc =>
    (hclosing hc).resolve_left (by simp [hlive])
  constructor
  · rw [workFrames, projectFrames_enter]
    cases henter with
    | @work e w q henter =>
        have hentered := ThreadPoolWork.invariant_enter (t := t) hwork henter
        cases q <;> simpa [workPc] using hentered
    | _ => exact hwork
  · rw [countP_enter]
    cases henter with
    | @work e w q => cases q <;> exact hworkers
    | startWorker =>
        change s.exited + (_ + 1) = s.begun + 1
        omega
    | _ => exact hworkers
  · cases henter with
    | startWorker hlt => exact hlt
    | _ => exact hbegun
  · refine forall_enter.mpr ⟨?_, ?_⟩
    · rw [henter.frame.2.2.2.2.2.1]
      exact hjoins
    · intro pc hq hpc
      have hnone := henter.joins
      simp [hq, hpc] at hnone
  · cases henter with
    | destroy => exact fun _ => .inr ⟨⟨t, .stop⟩, by simp, rfl⟩
    | _ =>
        intro hc
        obtain ⟨f, hf, hpc⟩ := hold hc
        exact .inr ⟨f, mem_enter.mpr (.inl hf), hpc⟩
  · intro hd
    cases henter <;> simp [hlive] at hd

theorem upkeep_reachable {idle : Nat → Bool} {s : State Pool Pc} (h : Reachable idle s) :
    Upkeep s.shared s.frames := by
  have hpreserves : (machine idle).Preserves (fun _ _ => true) Upkeep := by
    apply Machine.Preserves.ofSteps
    · intro s l t pc r c s' q hI _ _ _ hexec
      obtain ⟨hlive, hexec⟩ := Option.ite_none_left_eq_some.mp hexec
      exact hI.exec (by simpa using hlive) (exec_step hexec)
    · intro s fs t a s' q hI _ _ _ henter
      obtain ⟨hlive, henter⟩ := Option.ite_none_left_eq_some.mp henter
      exact hI.enter (by simpa using hlive) (enter_entered henter)
  refine hpreserves.reachable (by rintro _ ⟨n, hardware, rfl⟩; rfl) ?_ h
  rintro _ ⟨n, hardware, rfl⟩
  have hstart : ThreadPoolWork.Reachable ⟨ThreadPoolWork.newPool, []⟩ := .init rfl
  exact ⟨ThreadPoolWork.invariant_reachable hstart, rfl, Nat.le_refl _, by simp,
    by simp [newPool], by simp [newPool]⟩

end Capy.ThreadPool
