import Mathlib.Data.Fintype.EquivFin
import Capy.ThreadPoolVariant

namespace Capy.ThreadPoolWaits

open Capy.CallStack
open Capy.ThreadPool (Pc Caller Entry foreign inWorker runningInThisThread newPool workFrames)
open Capy.IntrusiveQueue

/-- The call is of `join()` or of the destructor. -/
def joins : Pc → Bool
  | .work (.joinLock) .user | .work (.joinEnter) .user | .work (.joinRead) .user => true
  | .work (.joinTest _) .user | .work (.joinWait) .user | .work (.joinSleep) .user => true
  | .work (.joinUnlock) .user | .work (.joinThreads) .user => true
  | pc => ThreadPool.destroys pc

/-- `join()` and the destructor must not be called on a thread of the pool. -/
def joinsOutside (s : State Pool Pc) : Event Choice Entry → Bool
  | .enter t (.work .join) | .enter t .destroy => !runningInThisThread t s.frames
  | _ => true

/-- A thread is a worker at most once, and no worker is in a `join()` or in the
destructor. -/
def Apart (fs : List (Frame Pc)) : Prop :=
  ∀ t, (stackOf t fs).countP inWorker ≤ 1 ∧
    ((stackOf t fs).countP inWorker = 0 ∨ (stackOf t fs).countP joins = 0)

section Step

variable {idle : Nat → Bool} {s : Pool} {p' : ThreadPool.Pool} {pc : Pc} {q : Option Pc}
  (hstep : ThreadPool.Step idle s.pool pc p' q)

include hstep

theorem inWorker_of_step (hq : q.elim false inWorker = true) : inWorker pc = true := by
  cases hstep with
  | @work pc caller w q =>
      rcases q with _ | pc' <;> cases caller <;> simp [Caller.next, inWorker] at hq
  | @drained last q _ hlast =>
      subst hlast
      cases last <;> simp [inWorker] at hq
  | resumed => rfl
  | resume => rfl
  | take => rfl
  | _ => simp [inWorker] at hq

theorem joins_of_step (hq : q.elim false joins = true) : joins pc = true := by
  cases hstep with
  | @work pc caller w q _ hwork =>
      cases caller with
      | destructor => cases hwork <;> rfl
      | user =>
          cases hwork <;> simp_all [Caller.next, joins, ThreadPool.destroys, ThreadPool.closes]
  | drained | drainTake | skip | abandon | abandoned | destroy | shutdown | stop => rfl
  | _ => simp [joins, ThreadPool.destroys, ThreadPool.closes] at hq

end Step

theorem mem_stackOf {t : Nat} {pc : Pc} {fs : List (Frame Pc)} :
    pc ∈ stackOf t fs ↔ ⟨t, pc⟩ ∈ fs := by
  simp only [stackOf, List.mem_map, List.mem_filter, decide_eq_true_eq]
  constructor
  · rintro ⟨f, ⟨hf, rfl⟩, rfl⟩
    exact hf
  · exact fun hf => ⟨_, ⟨hf, rfl⟩, rfl⟩

theorem countP_toList (p : Pc → Bool) (q : Option Pc) (pcs : List Pc) :
    (q.toList ++ pcs).countP p = pcs.countP p + (q.elim false p).toNat := by
  cases q with
  | none => simp
  | some pc => cases h : p pc <;> simp [h]

theorem Apart.exec {idle : Nat → Bool} {s s' : Pool} {t : Nat} {pc : Pc} {q : Option Pc}
    {l r : List (Frame Pc)} (h : Apart (l ++ ⟨t, pc⟩ :: r)) (hl : ∀ g ∈ l, g.thread ≠ t)
    (hstep : Step idle s t pc s' q) : Apart (l ++ q.toList.map (Frame.mk t) ++ r) := by
  have hworker : (q.elim false inWorker).toNat ≤ (inWorker pc).toNat := by
    cases hstep with
    | wake => exact Nat.le_refl _
    | sleep => exact Nat.le_refl _
    | step _ _ hpool => exact Bool.toNat_le_toNat (inWorker_of_step hpool)
  have hjoins : (q.elim false joins).toNat ≤ (joins pc).toNat := by
    cases hstep with
    | wake => exact Nat.le_refl _
    | sleep => exact Nat.le_refl _
    | step _ _ hpool => exact Bool.toNat_le_toNat (joins_of_step hpool)
  intro u
  have hu := h u
  rcases eq_or_ne t u with rfl | hne
  · have hsplit : stackOf t (l ++ ⟨t, pc⟩ :: r) = (some pc).toList ++ stackOf t r :=
      stackOf_split hl
    rw [hsplit, countP_toList, countP_toList] at hu
    rw [stackOf_replace hl, countP_toList, countP_toList]
    simp only [Option.elim_some] at hu
    omega
  · rwa [stackOf_replace_of_ne hne pc]

theorem starts_apart {s p : ThreadPool.Pool} {t : Nat} {a : Entry} {q : Option Pc}
    {fs : List (Frame Pc)} (henter : ThreadPool.enter s fs t a = some (p, q)) :
    (q.elim false inWorker = true → q.elim false joins = false ∧ ∀ f ∈ fs, f.thread ≠ t) ∧
      (q.elim false joins = true → a = .work .join ∨ a = .destroy) := by
  cases a with
  | startWorker =>
      simp only [ThreadPool.enter, Option.ite_none_right_eq_some, Option.some.injEq,
        Prod.mk.injEq] at henter
      obtain ⟨⟨-, hidle⟩, -, rfl⟩ := henter
      exact ⟨fun _ => ⟨rfl, hidle⟩, fun h => by simp [joins, ThreadPool.destroys,
        ThreadPool.closes] at h⟩
  | destroy =>
      simp only [ThreadPool.enter, Option.ite_none_left_eq_some, Option.some.injEq,
        Prod.mk.injEq] at henter
      obtain ⟨-, -, rfl⟩ := henter
      exact ⟨fun h => by simp [inWorker] at h, fun _ => .inr rfl⟩
  | work e =>
      obtain ⟨⟨w, q'⟩, hwork, heq⟩ := Option.map_eq_some_iff.mp henter
      obtain ⟨-, rfl⟩ := Prod.mk.inj heq
      cases e <;> simp only [ThreadPoolWork.enter, Option.ite_none_right_eq_some,
        Option.some.injEq, Prod.mk.injEq] at hwork
      case join => exact ⟨fun h => by simp [← hwork.2, inWorker] at h, fun _ => .inl rfl⟩
      case onWorkFinished =>
        obtain ⟨-, -, rfl⟩ := hwork
        exact ⟨fun h => by simp [inWorker] at h, fun h => by simp [joins, ThreadPool.destroys,
          ThreadPool.closes] at h⟩
      all_goals
        obtain ⟨-, rfl⟩ := hwork
        exact ⟨fun h => by simp [inWorker] at h, fun h => by simp [joins, ThreadPool.destroys,
          ThreadPool.closes] at h⟩
  | post c | dispatch c =>
      have hq : q = none ∨ q = some (.post c) := by
        simp only [ThreadPool.enter, ThreadPool.enterPost] at henter
        grind
      rcases hq with rfl | rfl
      · exact ⟨fun h => by simp at h, fun h => by simp at h⟩
      · exact ⟨fun h => by simp [inWorker] at h, fun h => by simp [joins, ThreadPool.destroys,
          ThreadPool.closes] at h⟩

theorem Apart.enter {s : Pool} {p : ThreadPool.Pool} {t : Nat} {a : Entry} {q : Option Pc}
    {fs : List (Frame Pc)} (h : Apart fs) (hok : joinsOutside ⟨s, fs⟩ (.enter t a) = true)
    (henter : ThreadPool.enter s.pool fs t a = some (p, q)) :
    Apart (q.toList.map (Frame.mk t) ++ fs) := by
  obtain ⟨hworker, hjoins⟩ := starts_apart henter
  intro u
  have hu := h u
  rcases eq_or_ne t u with rfl | hne
  · rw [stackOf_enter, countP_toList, countP_toList]
    cases hw : q.elim false inWorker with
    | true =>
        obtain ⟨hj, hidle⟩ := hworker hw
        simp [stackOf_eq_nil hidle, hj]
    | false =>
        cases hj : q.elim false joins with
        | false => exact hu
        | true =>
            have hnone : runningInThisThread t fs = false := by
              rcases hjoins hj with rfl | rfl <;> simpa [joinsOutside] using hok
            have hzero : (stackOf t fs).countP inWorker = 0 := by
              refine List.countP_eq_zero.mpr fun pc hpc hpc' => ?_
              have hnot := List.any_eq_false.mp hnone _ (mem_stackOf.mp hpc)
              simp [hpc'] at hnot
            exact ⟨by simp [hzero], .inl (by simp [hzero])⟩
  · rwa [stackOf_enter_of_ne hne]

/-- The states of the runs in which nobody calls `join()` or the destructor on a
thread of the pool. -/
def ReachableOutside (idle : Nat → Bool) : State Pool Pc → Prop :=
  (machine idle).ReachableWhen joinsOutside Initial

theorem apart_reachable {idle : Nat → Bool} {s : State Pool Pc} (h : ReachableOutside idle s) :
    Apart s.frames := by
  have hpreserves : (machine idle).Preserves joinsOutside fun _ fs => Apart fs := by
    apply Machine.Preserves.ofSteps
    · intro s l t pc r c s' q hI _ hl _ hexec
      exact hI.exec hl (exec_step (Option.ite_none_left_eq_some.mp hexec).2)
    · intro s fs t a s' q hI _ _ hok henter
      obtain ⟨p, -, henter⟩ := enter_entered (Option.ite_none_left_eq_some.mp henter).2
      exact hI.enter hok henter
  refine hpreserves.reachableWhen (by rintro _ ⟨n, hardware, rfl⟩; rfl) ?_ h
  rintro _ ⟨n, hardware, rfl⟩ t
  exact ⟨Nat.zero_le _, .inl rfl⟩

theorem exec_work (idle : Nat → Bool) (s : Pool) {t : Nat} {pc : ThreadPoolWork.Pc}
    {c : Caller} (hawake : asleep s t (.work pc c) = false)
    (hjoin : pc = .joinThreads → s.pool.exited = s.pool.threads)
    (hwork : (ThreadPoolWork.exec s.pool.work pc false).isSome = true) :
    (exec idle s t (.work pc c) (.step .proceed 0)).isSome = true := by
  have hfalls : fallsAsleep s (.work pc c) = false := by simp [fallsAsleep]
  have hthreads : ¬(pc = .joinThreads ∧ s.pool.exited ≠ s.pool.threads) := by tauto
  simpa [exec, hawake, hfalls, ThreadPool.exec, hthreads] using hwork

theorem critical_isSome (s : ThreadPoolWork.Pool) {pc : ThreadPoolWork.Pc}
    (hpc : ThreadPoolWork.inCritical pc = true) :
    (ThreadPoolWork.exec s pc false).isSome = true := by
  cases pc <;> simp [ThreadPoolWork.inCritical] at hpc <;>
    first | rfl | (simp only [ThreadPoolWork.exec]; split_ifs <;> rfl)

/-- With the mutex free every call of the pool goes on, but a worker or a `join()`
that waits. -/
theorem exec_isSome (idle : Nat → Bool) (s : Pool) {t : Nat} {pc : Pc}
    (hmutex : s.pool.work.mutex = false) (hawake : asleep s t pc = false)
    (hjoin : ∀ caller, pc = .work .joinThreads caller → s.pool.exited = s.pool.threads) :
    (exec idle s t pc (.step .proceed 0)).isSome = true := by
  cases pc with
  | work pc caller =>
      refine exec_work idle s hawake (fun hpc => hjoin caller (by rw [hpc])) ?_
      cases pc <;> simp only [ThreadPoolWork.exec, hmutex] <;> first | rfl | (split_ifs <;> rfl)
  | run =>
      simp only [exec, hawake, fallsAsleep, ThreadPool.exec, hmutex]
      cases hstop : s.pool.work.stop with
      | true => rfl
      | false => rcases s.pool.queue.pop with ⟨queue, _ | c⟩ <;> rfl
  | stop =>
      simp [exec, hawake, fallsAsleep, ThreadPool.exec, ThreadPoolWork.exec, hmutex]
  | drain last =>
      simp only [exec, hawake, fallsAsleep, ThreadPool.exec, hmutex]
      rcases s.pool.queue.pop with ⟨queue, _ | c⟩ <;> cases last <;> rfl
  | postStopped | ensureStarted | postPush | drainAbandon =>
      simp only [exec, hawake, fallsAsleep, ThreadPool.exec, hmutex]
      split_ifs <;> simp_all
  | _ => simp [exec, hawake, fallsAsleep, ThreadPool.exec]

section Quiescent

variable {idle : Nat → Bool} {s : State Pool Pc} (h : ReachableOutside idle s)

include h

theorem not_joins_of_worker {t : Nat} {pc pc' : Pc} (hpc : ⟨t, pc⟩ ∈ s.frames)
    (hworker : inWorker pc = true) (hpc' : ⟨t, pc'⟩ ∈ s.frames) : joins pc' = false := by
  have hone := (apart_reachable h t).2
  have hpos : 0 < (stackOf t s.frames).countP inWorker :=
    List.countP_pos_iff.mpr ⟨pc, mem_stackOf.mpr hpc, hworker⟩
  have hzero := hone.resolve_left (by omega)
  simpa using List.countP_eq_zero.mp hzero pc' (mem_stackOf.mpr hpc')

variable (hquiet : (machine idle).Quiescent ownStep s)
  (hlive : s.shared.pool.destroyed = false)

include hquiet hlive

omit h in
theorem exec_eq_none {t : Nat} {pc : Pc} (htop : topPc t s.frames = some pc) :
    exec idle s.shared t pc (.step .proceed 0) = none := by
  have hexec := hquiet.exec_eq_none (c := .step .proceed 0) htop rfl
  simpa [hlive] using hexec

theorem mutex_free : s.shared.pool.work.mutex = false := by
  by_contra hmutex
  have hcounts := (ThreadPool.upkeep_reachable (pool_reachable h.reachable)).work.counts.mutex
  have hpos : 0 < (workFrames s.frames).countP fun f => ThreadPoolWork.inCritical f.pc := by
    have hheld : s.shared.pool.work.mutex = true := by simpa using hmutex
    have hone : (workFrames s.frames).countP _ = s.shared.pool.work.mutex.toNat := hcounts
    rw [hone, hheld]
    exact Nat.one_pos
  obtain ⟨⟨t, pc⟩, hf, hpc⟩ := List.countP_pos_iff.mp hpos
  change ThreadPoolWork.inCritical pc = true at hpc
  obtain ⟨caller, hf⟩ := ThreadPool.mem_workFrames.mp hf
  have hnone := exec_eq_none hquiet hlive ((stacked h.reachable).topPc_eq hf rfl)
  have hsome := exec_work idle s.shared (t := t) (c := caller)
    (by cases pc <;> first | rfl | simp [ThreadPoolWork.inCritical] at hpc)
    (by rintro rfl; simp [ThreadPoolWork.inCritical] at hpc)
    (critical_isSome s.shared.pool.work hpc)
  simp [hnone] at hsome

/-- Whoever is left sleeps, or joins threads that have not all exited. -/
theorem asleep_or_joins {t : Nat} {pc : Pc} (htop : topPc t s.frames = some pc) :
    asleep s.shared t pc = true ∨ (∃ caller, pc = .work .joinThreads caller) ∧
      s.shared.pool.exited ≠ s.shared.pool.threads := by
  have hmutex := mutex_free h hquiet hlive
  have hnone := exec_eq_none hquiet hlive htop
  by_contra hne
  obtain ⟨hawake, hjoin⟩ := not_or.mp hne
  have hsome := exec_isSome idle s.shared hmutex (by simpa using hawake)
    (fun caller hpc => by simpa [hpc] using hjoin)
  simp [hnone] at hsome

theorem all_begun : s.shared.pool.begun = s.shared.pool.threads := by
  have hle := (ThreadPool.upkeep_reachable (pool_reachable h.reachable)).begun
  by_contra hne
  have hlt : s.shared.pool.begun < s.shared.pool.threads := Nat.lt_of_le_of_ne hle hne
  obtain ⟨t, ht⟩ := Infinite.exists_notMem_finset (s.frames.map Frame.thread).toFinset
  have hidle : ∀ f ∈ s.frames, f.thread ≠ t := by
    rintro f hf rfl
    exact ht (List.mem_toFinset.mpr (List.mem_map_of_mem hf))
  have hfree : (machine idle).free t s.frames = true := by
    cases hsplit : splitTop t s.frames with
    | none => simp [Machine.free, hsplit]
    | some p =>
        obtain ⟨hfs, hp, -⟩ := splitTop_eq_some hsplit
        exact absurd hp (hidle _ (by simp [hfs]))
  have hnone := hquiet (.enter t .startWorker) rfl
  have hentered : ThreadPool.enter s.shared.pool s.frames t .startWorker =
      some ({ s.shared.pool with begun := s.shared.pool.begun + 1 }, some .run) :=
    if_pos ⟨hlt, hidle⟩
  simp only [Machine.step, hfree, if_true] at hnone
  simp [machine, Machine.ofSteps, hlive, enter, hentered] at hnone

theorem frames_eq_nil (hstop : s.shared.pool.work.stop = true) : s.frames = [] := by
  obtain ⟨hwork, hdone⟩ := (sleepers_reachable h.reachable).stopped hstop
  have hjoins {t : Nat} {pc : Pc} (htop : topPc t s.frames = some pc) :
      (∃ caller, pc = .work .joinThreads caller) ∧
        s.shared.pool.exited ≠ s.shared.pool.threads := by
    refine (asleep_or_joins h hquiet hlive htop).resolve_left fun hasleep => ?_
    unfold asleep at hasleep
    split at hasleep <;> simp [hwork, hdone] at hasleep
  refine List.eq_nil_iff_forall_not_mem.mpr fun f hf => ?_
  obtain ⟨pc, htop, -⟩ := Machine.exists_topPc hf
  have hworkers := (ThreadPool.upkeep_reachable (pool_reachable h.reachable)).workers
  have hbegun := all_begun h hquiet hlive
  have hexited := (hjoins htop).2
  have hpos : 0 < s.frames.countP fun f => inWorker f.pc := by
    simp only [poolState] at hworkers
    omega
  obtain ⟨⟨t, pc⟩, hg, hworker⟩ := List.countP_pos_iff.mp hpos
  obtain ⟨pc', htop', hg'⟩ := Machine.exists_topPc hg
  obtain ⟨⟨caller, rfl⟩, -⟩ := hjoins htop'
  have hnot := not_joins_of_worker h hg hworker hg'
  cases caller <;> simp [joins, ThreadPool.destroys, ThreadPool.closes] at hnot

theorem all_asleep (hrunning : s.shared.pool.work.stop = false) {f : Frame Pc}
    (hf : f ∈ s.frames) : asleep s.shared f.thread f.pc = true := by
  have hpool := pool_reachable h.reachable
  have hupkeep := ThreadPool.upkeep_reachable hpool
  have hfate := ThreadPool.fate_reachable hpool
  obtain ⟨pc, htop, hmem⟩ := Machine.exists_topPc hf
  have hasleep : asleep s.shared f.thread pc = true := by
    refine (asleep_or_joins h hquiet hlive htop).resolve_right ?_
    rintro ⟨⟨caller, rfl⟩, -⟩
    have hstop := hupkeep.joins _ hmem rfl
    simp [poolState, hrunning] at hstop
  rcases eq_or_ne f.pc pc with heq | hne
  · rwa [heq]
  · exfalso
    have hforeign : foreign f.pc = true := by
      by_contra hpc
      have hown : foreign f.pc = false := by simpa using hpc
      have htop' := (stacked h.reachable).topPc_eq hf hown
      rw [htop] at htop'
      exact hne (Option.some.inj htop').symm
    have hopen : ThreadPool.closes f.pc = false := by
      by_contra hcloses
      have hstop := hfate.closes f hf (by simpa using hcloses)
      simp [poolState, hrunning] at hstop
    have hworker : inWorker f.pc = true := by
      revert hforeign hopen
      cases f.pc <;> simp [foreign, ThreadPool.closes, inWorker]
    have hone := (apart_reachable h f.thread).1
    have hnot := not_joins_of_worker h hf hworker hmem
    rw [topPc_eq_head] at htop
    obtain ⟨rest, hstack⟩ := List.head?_eq_some_iff.mp htop
    have hrest : f.pc ∈ rest := by
      have hin : f.pc ∈ stackOf f.thread s.frames := mem_stackOf.mpr hf
      rw [hstack] at hin
      exact (List.mem_cons.mp hin).resolve_left hne
    unfold asleep at hasleep
    split at hasleep
    · have hpos : 0 < rest.countP inWorker := List.countP_pos_iff.mpr ⟨_, hrest, hworker⟩
      rw [hstack, List.countP_cons_of_pos rfl] at hone
      omega
    · rename_i caller
      cases caller <;> simp [joins, ThreadPool.destroys, ThreadPool.closes] at hnot
    · simp at hasleep

theorem awake_eq_zero (hrunning : s.shared.pool.work.stop = false) : awake s = 0 := by
  refine List.countP_eq_zero.mpr fun f hf hawake => ?_
  simp only [decide_eq_true_eq] at hawake
  have hasleep := all_asleep h hquiet hlive hrunning hf
  simp [hawake.1, asleep, hawake.2] at hasleep

theorem queue_empty (hrunning : s.shared.pool.work.stop = false) :
    ThreadPool.Queued s.shared.pool [] := by
  have hpool := pool_reachable h.reachable
  have hfate := ThreadPool.fate_reachable hpool
  have hupkeep := ThreadPool.upkeep_reachable hpool
  obtain ⟨queued, hrep, hattended⟩ := (sleepers_reachable h.reachable).attended
  obtain ⟨queued', hqueued⟩ := hfate.queued
  obtain rfl : queued = queued' := hrep.linked.unique hqueued.1.linked
  suffices hnil : queued = [] by
    subst hnil
    exact hqueued
  rcases eq_or_ne s.shared.workCv [] with hcv | hcv
  · by_contra hne
    have hposted : s.shared.pool.posted ≠ [] := by
      have heq : s.shared.pool.posted = _ := hqueued.2
      rw [heq]
      exact List.append_ne_nil_of_right_ne_nil _ hne
    have hstarted : s.shared.pool.started = true :=
      (hfate.threads.posted hposted).resolve_right (by simp [poolState, hrunning])
    have hthreads := hfate.threads.all hstarted
    have hpositive := hfate.threads.positive
    have hexited : s.shared.pool.exited = 0 := by
      by_contra hne
      have hstop := hfate.threads.exited hne
      simp [poolState, hrunning] at hstop
    have hnone : (s.frames.countP fun f => inWorker f.pc) = 0 := by
      refine List.countP_eq_zero.mpr fun f hf => ?_
      have hasleep := all_asleep h hquiet hlive hrunning hf
      unfold asleep at hasleep
      split at hasleep
      · simp [hcv] at hasleep
      · rename_i hpc
        simp [hpc, inWorker]
      · simp at hasleep
    have hworkers := hupkeep.workers
    have hbegun := all_begun h hquiet hlive
    simp only [poolState] at hworkers hthreads hpositive
    omega
  · have hle := hattended hcv
    have hwaiting := waiting_le h.reachable
    have hawake := awake_eq_zero h hquiet hlive hrunning
    exact List.length_eq_zero_iff.mp (by omega)

theorem join_waits (hrunning : s.shared.pool.work.stop = false) (hjoin : s.shared.doneCv ≠ []) :
    0 < s.shared.pool.work.outstandingWork := by
  have hwork : ThreadPoolWork.Invariant s.shared.pool.work (workFrames s.frames) :=
    (ThreadPool.upkeep_reachable (pool_reachable h.reachable)).work
  obtain ⟨t, ht⟩ := List.exists_mem_of_ne_nil _ hjoin
  obtain ⟨caller, hf⟩ := (sleepers_reachable h.reachable).joins t ht
  have hjoined : s.shared.pool.work.joined = true :=
    hwork.counts.joined (ThreadPool.mem_workFrames.mpr ⟨caller, hf⟩) rfl
  by_contra hzero
  obtain ⟨⟨u, pc⟩, hg, htests⟩ := hwork.drained hjoined hrunning (by simpa using hzero)
  obtain ⟨caller', hg⟩ := ThreadPool.mem_workFrames.mp hg
  have hasleep := all_asleep h hquiet hlive hrunning hg
  cases pc <;> simp [asleep, ThreadPoolWork.testsZero] at hasleep htests

end Quiescent

theorem count_of_idle {idle : Nat → Bool} {s : ThreadPool.Pool} {fs : List (Frame Pc)}
    {queued : List Nat} (hfate : ThreadPool.Fate idle s fs) (hqueued : ThreadPool.Queued s queued)
    (hidle : ∀ f ∈ fs, ThreadPool.posting f.pc = none ∧ ThreadPool.resuming f.pc = none ∧
      ThreadPool.abandoning f.pc = none) (x : Nat) :
    s.submitted.count x = s.thrown.count x + s.resumed.count x + s.abandoned.count x +
      s.skipped.count x + queued.count x := by
  have hzero {held : Pc → Option Nat} (hheld : ∀ f ∈ fs, held f.pc = none) :
      total (ThreadPool.holds held x) fs = 0 := by
    by_contra hne
    obtain ⟨f, hf, hpos⟩ := total_pos_iff.mp (Nat.pos_of_ne_zero hne)
    simp [ThreadPool.holds, hheld f hf] at hpos
  obtain ⟨hsubmitted, htaken, hdrained, -⟩ := hfate.counts x
  rw [hzero fun f hf => (hidle f hf).1] at hsubmitted
  rw [hzero fun f hf => (hidle f hf).2.1] at htaken
  rw [hzero fun f hf => (hidle f hf).2.2] at hdrained
  rw [hqueued.2, List.count_append, List.count_append] at hsubmitted
  omega

/-- A pool that has come to rest: a destructor that was called has ended; a
continuation whose post did not throw has been resumed or given up, unless it is
in the queue of a stopped pool that has no destructor yet; nobody is left in a
stopped pool; and in a running one everybody sleeps, nobody in a `join()` that has
nothing to wait for. -/
structure AtRest (s : State Pool Pc) : Prop where
  closed : s.shared.pool.closing = true → s.shared.pool.destroyed = true
  fates : ∃ queued, Represents s.shared.pool.queue queued ∧
    (s.shared.pool.destroyed = true ∨ s.shared.pool.work.stop = false → queued = []) ∧
    (s.shared.pool.destroyed = false ∨ s.frames = [] → ∀ x,
      s.shared.pool.submitted.count x =
        s.shared.pool.thrown.count x + s.shared.pool.resumed.count x +
          s.shared.pool.abandoned.count x + s.shared.pool.skipped.count x + queued.count x)
  stopped : s.shared.pool.destroyed = false → s.shared.pool.work.stop = true → s.frames = []
  running : s.shared.pool.destroyed = false → s.shared.pool.work.stop = false →
    (∀ f ∈ s.frames, asleep s.shared f.thread f.pc = true) ∧
      (s.shared.doneCv ≠ [] → 0 < s.shared.pool.work.outstandingWork)

theorem idle_of_asleep {s : Pool} {t : Nat} {pc : Pc} (h : asleep s t pc = true) :
    ThreadPool.posting pc = none ∧ ThreadPool.resuming pc = none ∧
      ThreadPool.abandoning pc = none := by
  unfold asleep at h
  split at h
  · exact ⟨rfl, rfl, rfl⟩
  · exact ⟨rfl, rfl, rfl⟩
  · simp at h

theorem not_destroys_of_asleep {s : Pool} {t : Nat} {pc : Pc} (h : asleep s t pc = true)
    (hcloses : ThreadPool.closes pc = false) : ThreadPool.destroys pc = false := by
  unfold asleep at h
  split at h
  · rfl
  · exact hcloses
  · simp at h

theorem AtRest.of_quiescent {idle : Nat → Bool} {s : State Pool Pc} (h : ReachableOutside idle s)
    (hquiet : (machine idle).Quiescent ownStep s) : AtRest s := by
  have hfate := ThreadPool.fate_reachable (pool_reachable h.reachable)
  have hupkeep := ThreadPool.upkeep_reachable (pool_reachable h.reachable)
  have hidle (hlive : s.shared.pool.destroyed = false ∨ s.frames = []) : ∀ f ∈ s.frames,
      ThreadPool.posting f.pc = none ∧ ThreadPool.resuming f.pc = none ∧
        ThreadPool.abandoning f.pc = none := by
    intro f hf
    rcases hlive with hlive | hnil
    · cases hstop : s.shared.pool.work.stop with
      | true => simp [frames_eq_nil h hquiet hlive hstop] at hf
      | false => exact idle_of_asleep (all_asleep h hquiet hlive hstop hf)
    · simp [hnil] at hf
  refine ⟨fun hclosing => ?_, ?_, frames_eq_nil h hquiet, fun hlive hrunning => ?_⟩
  · by_contra hdestroyed
    have hlive : s.shared.pool.destroyed = false := by simpa using hdestroyed
    obtain ⟨f, hf, hdestroys⟩ := (hupkeep.closing hclosing).resolve_left hdestroyed
    cases hstop : s.shared.pool.work.stop with
    | true => simp [poolState, frames_eq_nil h hquiet hlive hstop] at hf
    | false =>
        have hcloses : ThreadPool.closes f.pc = false := by
          by_contra hcloses
          have hstopped := hfate.closes f hf (by simpa using hcloses)
          simp [poolState, hstop] at hstopped
        have hasleep := all_asleep h hquiet hlive hstop hf
        simp [not_destroys_of_asleep hasleep hcloses] at hdestroys
  · obtain ⟨queued, hqueued⟩ := hfate.queued
    refine ⟨queued, hqueued.1, ?_, fun hlive x => ?_⟩
    · intro hempty
      cases hdestroyed : s.shared.pool.destroyed with
      | true => exact hqueued.1.eq_nil_of_pop (hupkeep.destroyed hdestroyed)
      | false =>
          have hrunning := hempty.resolve_left (by simp [hdestroyed])
          have hnone := queue_empty h hquiet hdestroyed hrunning
          exact hqueued.1.linked.unique hnone.1.linked
    · exact count_of_idle hfate hqueued (hidle hlive) x
  · exact ⟨fun f => all_asleep h hquiet hlive hrunning, join_waits h hquiet hlive hrunning⟩

theorem joinsOutside_of_ownStep (s : State Pool Pc) (e : Event Choice Entry)
    (h : ownStep e = true) : joinsOutside s e = true := by
  cases e with
  | run => rfl
  | enter t a => cases a <;> first | rfl | simp [ownStep] at h

/-- When nobody calls `join()` or the destructor on a thread of the pool, the pool
comes to rest from every state it reaches: what it can still do without spurious
wakeups and spurious failures is bounded, and can be done until nothing is left;
and however it is done, the pool is then at rest. -/
theorem thread_pool_settles {idle : Nat → Bool} {s : State Pool Pc}
    (h : ReachableOutside idle s) :
    (∃ n, ∀ es s', (∀ e ∈ es, ownStep e = true) → (machine idle).runEvents s es = some s' →
      es.length ≤ n) ∧
    (∃ es s', (∀ e ∈ es, ownStep e = true) ∧ (machine idle).runEvents s es = some s' ∧
      (machine idle).Quiescent ownStep s') ∧
    ∀ es s', (∀ e ∈ es, ownStep e = true) → (machine idle).runEvents s es = some s' →
      (machine idle).Quiescent ownStep s' → AtRest s' := by
  refine ⟨⟨value s, fun es s' hes hrun => ?_⟩, ?_, fun es s' hes hrun hquiet => ?_⟩
  · exact (variant idle).length_le h.reachable hes hrun
  · exact (variant idle).exists_quiescent h.reachable
  · exact .of_quiescent (h.runEvents joinsOutside_of_ownStep hes hrun) hquiet

/-- With work outstanding, one worker sleeps and a `join()` sleeps, while the
other worker is in the continuation that was posted. -/
theorem thread_pool_settles_sleeping :
    ∃ s, (machine fun _ => false).runWhen joinsOutside ⟨⟨newPool 2 4, [], []⟩, []⟩ sleepingRun =
        some s ∧ s.shared.workCv = [2] ∧ s.shared.doneCv = [0] ∧
      ∃ es s', (∀ e ∈ es, ownStep e = true) ∧
        (machine fun _ => false).runEvents s es = some s' ∧ AtRest s' := by
  obtain ⟨s, hs, hwork, hdone⟩ : ∃ s, (machine fun _ => false).runWhen joinsOutside
      ⟨⟨newPool 2 4, [], []⟩, []⟩ sleepingRun = some s ∧ s.shared.workCv = [2] ∧
        s.shared.doneCv = [0] := ⟨_, rfl, rfl, rfl⟩
  have hinit : ReachableOutside (fun _ => false) ⟨⟨newPool 2 4, [], []⟩, []⟩ := .init ⟨2, 4, rfl⟩
  have hsettles := thread_pool_settles (hinit.runWhen sleepingRun hs)
  obtain ⟨-, ⟨es, s', hes, hrun, hquiet⟩, hrest⟩ := hsettles
  exact ⟨s, hs, hwork, hdone, es, s', hes, hrun, hrest es s' hes hrun hquiet⟩

end Capy.ThreadPoolWaits
