import Mathlib.Data.List.Perm.Subperm
import Capy.MachineRefinement
import Capy.ThreadPoolThreads

/-!
The condition variables of `thread_pool.cpp`. A thread that waits is asleep until
it is notified or wakes spuriously, and `notify_one` wakes one of the threads that
sleep. In `ThreadPool` a thread that waits may look at its predicate at any time.
-/

namespace Capy.ThreadPoolWaits

open Capy.CallStack
open Capy.ThreadPool (Pc Caller Entry foreign inWorker runningInThisThread newPool)
open Capy.IntrusiveQueue

/-- The pool, and the threads that sleep in `work_cv_` and in `done_cv_`. -/
structure Pool where
  pool : ThreadPool.Pool
  workCv : List Nat
  doneCv : List Nat

/-- A step, with the thread that a `notify_one` picks, or a spurious wakeup. -/
inductive Choice where
  | step (choice : ThreadPool.Choice) (pick : Nat)
  | wake
  deriving DecidableEq

def notifyOne (cv : List Nat) (pick : Nat) : List Nat := cv.eraseIdx (pick % cv.length)

/-- The last `on_work_finished` of a joined pool stops it. -/
def finishStops (s : ThreadPoolWork.Pool) (n : Nat) : Bool :=
  n = 0 ∧ s.joined = true ∧ s.stop = false

/-- Who sleeps in `work_cv_` after a step. -/
def workCvAfter (s : Pool) (pick : Nat) : Pc → List Nat
  | .postPush _ => notifyOne s.workCv pick
  | .work (.finishTest n) _ => if finishStops s.pool.work n then [] else s.workCv
  | .work (.joinTest n) _ => if n = 0 then [] else s.workCv
  | .work .stopLock _ | .stop => []
  | _ => s.workCv

/-- Who sleeps in `done_cv_` after a step. -/
def doneCvAfter (s : Pool) (t : Nat) : Pc → List Nat
  | .work (.finishTest n) _ => if finishStops s.pool.work n then [] else s.doneCv
  | .work .joinWait _ => if s.pool.work.stop then s.doneCv else t :: s.doneCv
  | .work .stopLock _ | .stop => []
  | _ => s.doneCv

def asleep (s : Pool) (t : Nat) : Pc → Bool
  | .run => t ∈ s.workCv
  | .work .joinSleep _ => t ∈ s.doneCv
  | _ => false

/-- The predicate of a worker's wait is false: it goes to sleep. -/
def fallsAsleep (s : Pool) (pc : Pc) : Bool :=
  pc = .run ∧ s.pool.work.mutex = false ∧ s.pool.work.stop = false ∧
    s.pool.queue.pop.2 = none

def exec (idle : Nat → Bool) (s : Pool) (t : Nat) (pc : Pc) : Choice → Option (Pool × Option Pc)
  | .wake =>
      if asleep s t pc then
        some ({ s with workCv := s.workCv.erase t, doneCv := s.doneCv.erase t }, some pc)
      else none
  | .step choice pick =>
      if asleep s t pc then none
      else if fallsAsleep s pc then some ({ s with workCv := t :: s.workCv }, some pc)
      else
        (ThreadPool.exec idle s.pool pc choice).map fun p =>
          (⟨p.1, workCvAfter s pick pc, doneCvAfter s t pc⟩, p.2)

def enter (s : Pool) (fs : List (Frame Pc)) (t : Nat) (e : Entry) : Option (Pool × Option Pc) :=
  (ThreadPool.enter s.pool fs t e).map fun p => ({ s with pool := p.1 }, p.2)

def machine (idle : Nat → Bool) : Machine Pool Pc Choice Entry :=
  Machine.ofSteps foreign
    (fun s _ t pc choice => if s.pool.destroyed then none else exec idle s t pc choice)
    (fun s fs t e => if s.pool.destroyed then none else enter s fs t e)

def Initial (s : State Pool Pc) : Prop :=
  ∃ n hardware, s = ⟨⟨newPool n hardware, [], []⟩, []⟩

def Reachable (idle : Nat → Bool) : State Pool Pc → Prop :=
  (machine idle).Reachable Initial

inductive Step (idle : Nat → Bool) (s : Pool) (t : Nat) (pc : Pc) : Pool → Option Pc → Prop
  | wake : asleep s t pc = true →
      Step idle s t pc { s with workCv := s.workCv.erase t, doneCv := s.doneCv.erase t } (some pc)
  | sleep : pc = .run → t ∉ s.workCv → s.pool.work.stop = false →
      s.pool.queue.pop.2 = none →
      Step idle s t pc { s with workCv := t :: s.workCv } (some pc)
  | step {p q} (pick : Nat) : asleep s t pc = false → ThreadPool.Step idle s.pool pc p q →
      Step idle s t pc ⟨p, workCvAfter s pick pc, doneCvAfter s t pc⟩ q

theorem exec_step {idle : Nat → Bool} {s s' : Pool} {t : Nat} {pc : Pc} {choice : Choice}
    {q : Option Pc} (h : exec idle s t pc choice = some (s', q)) : Step idle s t pc s' q := by
  cases choice with
  | wake =>
      simp only [exec, Option.ite_none_right_eq_some, Option.some.injEq, Prod.mk.injEq] at h
      obtain ⟨hasleep, rfl, rfl⟩ := h
      exact .wake hasleep
  | step choice pick =>
      simp only [exec, Option.ite_none_left_eq_some, Bool.not_eq_true] at h
      obtain ⟨hawake, h⟩ := h
      split_ifs at h with hfalls
      · simp only [Option.some.injEq, Prod.mk.injEq] at h
        obtain ⟨rfl, rfl⟩ := h
        simp only [fallsAsleep, decide_eq_true_eq] at hfalls
        obtain ⟨rfl, -, hstop, hempty⟩ := hfalls
        exact .sleep rfl (by simpa [asleep] using hawake) hstop hempty
      · obtain ⟨⟨p, q'⟩, hexec, heq⟩ := Option.map_eq_some_iff.mp h
        obtain ⟨rfl, rfl⟩ := Prod.mk.inj heq
        exact .step pick hawake (ThreadPool.exec_step hexec)

theorem enter_entered {s s' : Pool} {fs : List (Frame Pc)} {t : Nat} {e : Entry}
    {q : Option Pc} (h : enter s fs t e = some (s', q)) :
    ∃ p, s' = { s with pool := p } ∧ ThreadPool.enter s.pool fs t e = some (p, q) := by
  obtain ⟨⟨p, q'⟩, henter, heq⟩ := Option.map_eq_some_iff.mp h
  obtain ⟨rfl, rfl⟩ := Prod.mk.inj heq
  exact ⟨p, rfl, henter⟩

/-- The pool with its condition variables is the pool whose threads look at their
predicates at any time: going to sleep and waking change nothing there. -/
theorem refines (idle : Nat → Bool) :
    Refines (machine idle) (ThreadPool.machine idle) id (fun s p _ => s.pool = p)
      fun _ => True := by
  apply Refines.ofSteps fun _ => rfl
  · rintro s _ l t pc r choice s' q rfl - h
    simp only [Option.ite_none_left_eq_some] at h ⊢
    obtain ⟨hlive, hexec⟩ := h
    cases choice with
    | wake =>
        simp only [exec, Option.ite_none_right_eq_some, Option.some.injEq, Prod.mk.injEq] at hexec
        obtain ⟨-, rfl, rfl⟩ := hexec
        exact .inr ⟨rfl, rfl⟩
    | step choice pick =>
        simp only [exec, Option.ite_none_left_eq_some] at hexec
        obtain ⟨-, hexec⟩ := hexec
        split_ifs at hexec
        · simp only [Option.some.injEq, Prod.mk.injEq] at hexec
          obtain ⟨rfl, rfl⟩ := hexec
          exact .inr ⟨rfl, rfl⟩
        · obtain ⟨⟨p, q'⟩, hpool, heq⟩ := Option.map_eq_some_iff.mp hexec
          obtain ⟨rfl, rfl⟩ := Prod.mk.inj heq
          exact .inl ⟨choice, p, q', ⟨hlive, hpool⟩, by simp, rfl⟩
  · rintro s _ fs t e s' q rfl - h
    simp only [Option.ite_none_left_eq_some] at h ⊢
    obtain ⟨hlive, henter⟩ := h
    change enter s (fs.map id) t e = _ at henter
    rw [List.map_id] at henter
    obtain ⟨p, rfl, hpool⟩ := enter_entered henter
    exact .inl ⟨e, p, q, ⟨hlive, hpool⟩, by simp, rfl⟩

/-- The pool of `ThreadPool` that a state stands for. -/
def poolState (s : State Pool Pc) : State ThreadPool.Pool Pc := ⟨s.shared.pool, s.frames⟩

theorem pool_reachable {idle : Nat → Bool} {s : State Pool Pc} (h : Reachable idle s) :
    ThreadPool.Reachable idle (poolState s) := by
  have hinit : ∀ s, Initial s → ∃ a, ThreadPool.Initial a ∧
      Refines.Represents id (fun s p _ => s.pool = p) s a := by
    rintro _ ⟨n, hardware, rfl⟩
    exact ⟨_, ⟨n, hardware, rfl⟩, rfl, rfl⟩
  obtain ⟨⟨p, fs⟩, ha, hframes, hpool⟩ :=
    (refines idle).reachable hinit (fun _ _ => trivial) h
  change s.frames = fs.map id at hframes
  rw [List.map_id] at hframes
  obtain rfl : s.frames = fs := hframes
  obtain rfl : s.shared.pool = p := hpool
  exact ha

/-- How many workers are in their wait loop, asleep or awake. -/
def waiting (fs : List (Frame Pc)) : Nat := fs.countP fun f => f.pc = .run

/-- Who sleeps is in its wait; nobody sleeps in a stopped pool; and while a worker
sleeps, every queued continuation has an awake worker that is about to look. -/
structure Sleepers (s : Pool) (fs : List (Frame Pc)) : Prop where
  workers : ∀ t ∈ s.workCv, ⟨t, .run⟩ ∈ fs
  nodup : s.workCv.Nodup
  joins : ∀ t ∈ s.doneCv, ∃ caller, ⟨t, .work .joinSleep caller⟩ ∈ fs
  stopped : s.pool.work.stop = true → s.workCv = [] ∧ s.doneCv = []
  attended : ∃ queued, Represents s.pool.queue queued ∧
    (s.workCv ≠ [] → queued.length + s.workCv.length ≤ waiting fs)

theorem notifyOne_sublist (cv : List Nat) (pick : Nat) : (notifyOne cv pick).Sublist cv :=
  List.eraseIdx_sublist ..

theorem length_notifyOne_le (cv : List Nat) (pick : Nat) :
    cv.length ≤ (notifyOne cv pick).length + 1 := by
  rw [notifyOne, List.length_eraseIdx]
  split <;> omega

theorem length_notifyOne {cv : List Nat} {pick : Nat} (h : notifyOne cv pick ≠ []) :
    (notifyOne cv pick).length + 1 = cv.length := by
  have hpos : 0 < cv.length :=
    List.length_pos_iff.mpr (ne_nil_of_sublist (notifyOne_sublist cv pick) h)
  rw [notifyOne, List.length_eraseIdx_of_lt (Nat.mod_lt _ hpos)]
  omega

theorem workCvAfter_sublist (s : Pool) (pick : Nat) (pc : Pc) :
    (workCvAfter s pick pc).Sublist s.workCv := by
  unfold workCvAfter
  split
  · exact notifyOne_sublist ..
  · split
    · exact List.nil_sublist _
    · exact List.Sublist.refl _
  · split
    · exact List.nil_sublist _
    · exact List.Sublist.refl _
  · exact List.nil_sublist _
  · exact List.nil_sublist _
  · exact List.Sublist.refl _

theorem length_workCvAfter {s : Pool} {pick : Nat} {pc : Pc} (h : workCvAfter s pick pc ≠ []) :
    (workCvAfter s pick pc).length + (ThreadPool.pushes pc).toNat ≤ s.workCv.length := by
  cases hpc : ThreadPool.pushes pc with
  | false => exact (workCvAfter_sublist s pick pc).length_le
  | true =>
      cases pc with
      | postPush c => exact Nat.le_of_eq (length_notifyOne h)
      | _ => simp [ThreadPool.pushes] at hpc

theorem length_le_waiting {cv : List Nat} {fs : List (Frame Pc)} (hnodup : cv.Nodup)
    (h : ∀ t ∈ cv, ⟨t, .run⟩ ∈ fs) : cv.length ≤ waiting fs := by
  have hinj : (cv.map fun t => (⟨t, .run⟩ : Frame Pc)).Nodup :=
    hnodup.map fun _ _ heq => congrArg Frame.thread heq
  have hsub : cv.map (fun t => (⟨t, .run⟩ : Frame Pc)) ⊆ fs.filter fun f => f.pc = .run := by
    intro f hf
    obtain ⟨t, ht, rfl⟩ := List.mem_map.mp hf
    exact List.mem_filter.mpr ⟨h t ht, by simp⟩
  have hle := (hinj.subperm hsub).length_le
  rwa [List.length_map, ← List.countP_eq_length_filter] at hle

theorem mem_doneCvAfter {s : Pool} {t u : Nat} {pc : Pc} (h : u ∈ doneCvAfter s t pc) :
    u ∈ s.doneCv ∨
      u = t ∧ s.pool.work.stop = false ∧ ∃ caller, pc = .work .joinWait caller := by
  unfold doneCvAfter at h
  split at h
  · split at h
    · simp at h
    · exact .inl h
  · split at h
    · exact .inl h
    · rename_i hstop
      rcases List.mem_cons.mp h with rfl | h
      · exact .inr ⟨rfl, by simpa using hstop, _, rfl⟩
      · exact .inl h
  · simp at h
  · simp at h
  · exact .inl h

section PoolStep

variable {idle : Nat → Bool} {s p' : ThreadPool.Pool} {pc : Pc} {q : Option Pc}
  (hstep : ThreadPool.Step idle s pc p' q)

include hstep

theorem stops_notified (workCv doneCv : List Nat) (t pick : Nat) (hrunning : s.work.stop = false)
    (hstop : p'.work.stop = true) :
    workCvAfter ⟨s, workCv, doneCv⟩ pick pc = [] ∧
      (doneCvAfter ⟨s, workCv, doneCv⟩ t pc = [] ∨
        ∃ caller, pc = .work (.joinTest 0) caller) := by
  cases hstep with
  | work _ hwork =>
      cases hwork with
      | @finishSignal n hn hjoined =>
          have hstops : finishStops s.work n = true := by
            simpa [finishStops] using ⟨hn, hjoined, hrunning⟩
          exact ⟨if_pos hstops, .inl (if_pos hstops)⟩
      | joinDrained hn => exact ⟨if_pos hn, .inr ⟨_, by rw [hn]⟩⟩
      | stopLock => exact ⟨rfl, .inl rfl⟩
      | _ => simp [hrunning] at hstop
  | stop hwork => exact ⟨rfl, .inl rfl⟩
  | push | pushStopped => simp [ThreadPool.Pool.push, hrunning] at hstop
  | _ => simp [hrunning] at hstop

theorem joinWait_sleeps (hrunning : s.work.stop = false) {caller : Caller}
    (hpc : pc = .work .joinWait caller) : q = some (.work .joinSleep caller) := by
  subst hpc
  cases hstep with
  | work _ hwork =>
      cases hwork with
      | joinReleased hstop => simp [hrunning] at hstop
      | joinBlocks => rfl

/-- In a running pool, what a step adds to the queue is pushed with a
notification, and what it takes a waiting worker takes. -/
theorem queue_attended {queued : List Nat} (hrep : Represents s.queue queued)
    (hfresh : ∀ c, ThreadPool.posting pc = some c → c ∉ queued)
    (hrunning : s.work.stop = false) :
    ∃ queued', Represents p'.queue queued' ∧
      queued'.length + (decide (pc = .run)).toNat ≤
        queued.length + (ThreadPool.pushes pc).toNat +
          (q.elim false fun pc' => decide (pc' = .run)).toNat := by
  cases hstep with
  | push => exact ⟨_, hrep.push (hfresh _ rfl), by simp [ThreadPool.pushes]⟩
  | take _ hpop =>
      obtain ⟨rest, rfl, hrest⟩ := hrep.of_pop hpop
      exact ⟨rest, hrest, by simp⟩
  | drainTake hpop =>
      obtain ⟨rest, rfl, hrest⟩ := hrep.of_pop hpop
      refine ⟨rest, hrest, ?_⟩
      simp only [reduceCtorEq, decide_false, Bool.toNat_false, List.length_cons]
      omega
  | pushStopped hstop => simp [hrunning] at hstop
  | exit hstop => simp [hrunning] at hstop
  | _ => exact ⟨queued, hrep, Nat.le_add_right_of_le (Nat.le_add_right ..)⟩

end PoolStep

theorem attended_nil {idle : Nat → Bool} {s : Pool} {fs fs' : List (Frame Pc)}
    (h : ThreadPool.Fate idle s.pool fs) (hcv : s.workCv = []) :
    ∃ queued, Represents s.pool.queue queued ∧
      (s.workCv ≠ [] → queued.length + s.workCv.length ≤ waiting fs') := by
  obtain ⟨queued, hqueued⟩ := h.queued
  exact ⟨queued, hqueued.1, fun hne => absurd hcv hne⟩

theorem doneCv_of_firstJoin {s : Pool} {l r : List (Frame Pc)} {t : Nat}
    {pc : ThreadPoolWork.Pc} {caller : Caller} (h : Sleepers s (l ++ ⟨t, .work pc caller⟩ :: r))
    (hupkeep : ThreadPool.Upkeep s.pool (l ++ ⟨t, .work pc caller⟩ :: r))
    (hfirst : ThreadPoolWork.firstJoin pc = true) (hup : pc ≠ .joinSleep) : s.doneCv = [] := by
  have hjoin : (ThreadPool.workFrames l ++ ⟨t, pc⟩ :: ThreadPool.workFrames r).countP
      (fun f => ThreadPoolWork.firstJoin f.pc) ≤ 1 := by
    have hle := Nat.le_trans hupkeep.work.counts.join (Bool.toNat_le _)
    rw [ThreadPool.workFrames, projectFrames_split] at hle
    simpa [ThreadPool.workPc] using hle
  have hrest := rest_of_countP_le_one hjoin hfirst
  refine List.eq_nil_iff_forall_not_mem.mpr fun u hu => ?_
  obtain ⟨caller', hf⟩ := h.joins u hu
  rcases mem_split.mp hf with hf | hf
  · have hmem : ⟨u, .joinSleep⟩ ∈ ThreadPool.workFrames (l ++ r) :=
      ThreadPool.mem_workFrames.mpr ⟨caller', hf⟩
    rw [ThreadPool.workFrames, projectFrames_append] at hmem
    simpa [ThreadPoolWork.firstJoin] using hrest _ hmem
  · simp only [Frame.mk.injEq, ThreadPool.Pc.work.injEq] at hf
    exact hup hf.2.1.symm

theorem Sleepers.step {idle : Nat → Bool} {s : Pool} {p' : ThreadPool.Pool} {t pick : Nat}
    {pc : Pc} {q : Option Pc} {l r : List (Frame Pc)} (h : Sleepers s (l ++ ⟨t, pc⟩ :: r))
    (hfate : ThreadPool.Fate idle s.pool (l ++ ⟨t, pc⟩ :: r))
    (hupkeep : ThreadPool.Upkeep s.pool (l ++ ⟨t, pc⟩ :: r)) (hawake : asleep s t pc = false)
    (hstep : ThreadPool.Step idle s.pool pc p' q) :
    Sleepers ⟨p', workCvAfter s pick pc, doneCvAfter s t pc⟩
      (l ++ q.toList.map (Frame.mk t) ++ r) := by
  have hnone : s.pool.work.stop = true → s.workCv = [] ∧ s.doneCv = [] := h.stopped
  have hsub := workCvAfter_sublist s pick pc
  have hstopped : p'.work.stop = true →
      workCvAfter s pick pc = [] ∧ doneCvAfter s t pc = [] := by
    intro hstop
    cases hrunning : s.pool.work.stop with
    | true =>
        obtain ⟨hwork, hdone⟩ := hnone hrunning
        refine ⟨List.sublist_nil.mp (hwork ▸ hsub), ?_⟩
        refine List.eq_nil_iff_forall_not_mem.mpr fun u hu => ?_
        rcases mem_doneCvAfter hu with hu | ⟨-, hstop', -⟩
        · simp [hdone] at hu
        · simp [hrunning] at hstop'
    | false =>
        obtain ⟨hwork, hdone | ⟨caller, rfl⟩⟩ :=
          stops_notified hstep s.workCv s.doneCv t pick hrunning hstop
        · exact ⟨hwork, hdone⟩
        · have hdone : s.doneCv = [] := doneCv_of_firstJoin h hupkeep rfl (by simp)
          exact ⟨hwork, hdone⟩
  refine ⟨fun u hu => ?_, h.nodup.sublist hsub, fun u hu => ?_, hstopped, ?_⟩
  · rcases mem_split.mp (h.workers u (hsub.subset hu)) with hf | hf
    · exact mem_replace.mpr (.inl hf)
    · obtain ⟨rfl, rfl⟩ : u = t ∧ Pc.run = pc := by simpa using hf
      simp [asleep, hsub.subset hu] at hawake
  · rcases mem_doneCvAfter hu with hold | ⟨rfl, hrunning, caller, hpc⟩
    · obtain ⟨caller, hf⟩ := h.joins u hold
      rcases mem_split.mp hf with hf | hf
      · exact ⟨caller, mem_replace.mpr (.inl hf)⟩
      · obtain ⟨rfl, rfl⟩ : u = t ∧ Pc.work .joinSleep caller = pc := by simpa using hf
        simp [asleep, hold] at hawake
    · exact ⟨caller, mem_replace.mpr (.inr ⟨_, joinWait_sleeps hstep hrunning hpc, rfl⟩)⟩
  · cases hrunning : s.pool.work.stop with
    | true =>
        have hstop := hstep.mono.1 hrunning
        exact attended_nil (s := ⟨p', _, _⟩) (hfate.exec hstep) (hstopped hstop).1
    | false =>
        obtain ⟨queued, hrep, hattended⟩ := h.attended
        obtain ⟨queued₀, hqueued₀⟩ := hfate.queued
        obtain rfl : queued = queued₀ := hrep.linked.unique hqueued₀.1.linked
        have hfresh : ∀ c, ThreadPool.posting pc = some c → c ∉ queued := by
          intro c hc
          refine (hfate.counts c).not_queued hqueued₀ ?_
          rw [total_split, ThreadPool.holds, hc]
          simp
        obtain ⟨queued', hrep', hle⟩ := queue_attended hstep hrep hfresh hrunning
        refine ⟨queued', hrep', fun hne => ?_⟩
        have hattended := hattended (ne_nil_of_sublist hsub hne)
        rw [waiting, countP_split] at hattended
        rw [waiting, countP_replace]
        have hcv := length_workCvAfter hne
        simp only at hattended ⊢
        omega

theorem Sleepers.wake {s : Pool} {t : Nat} {fs : List (Frame Pc)} (h : Sleepers s fs) :
    Sleepers { s with workCv := s.workCv.erase t, doneCv := s.doneCv.erase t } fs := by
  refine ⟨fun u hu => h.workers u (List.mem_of_mem_erase hu), h.nodup.erase t,
    fun u hu => h.joins u (List.mem_of_mem_erase hu), fun hstop => ?_, ?_⟩
  · obtain ⟨hwork, hdone⟩ := h.stopped hstop
    simp [hwork, hdone]
  · obtain ⟨queued, hrep, hattended⟩ := h.attended
    refine ⟨queued, hrep, fun hne => ?_⟩
    have hle := hattended (ne_nil_of_sublist List.erase_sublist hne)
    have hlen := (List.erase_sublist (a := t) (l := s.workCv)).length_le
    simp only
    omega

theorem Sleepers.sleep {s : Pool} {t : Nat} {fs : List (Frame Pc)} (h : Sleepers s fs)
    (hf : ⟨t, .run⟩ ∈ fs) (hawake : t ∉ s.workCv) (hrunning : s.pool.work.stop = false)
    (hempty : s.pool.queue.pop.2 = none) :
    Sleepers { s with workCv := t :: s.workCv } fs := by
  have hworkers : ∀ u ∈ t :: s.workCv, ⟨u, .run⟩ ∈ fs :=
    List.forall_mem_cons.mpr ⟨hf, h.workers⟩
  have hnodup : (t :: s.workCv).Nodup := List.nodup_cons.mpr ⟨hawake, h.nodup⟩
  refine ⟨hworkers, hnodup, h.joins, fun hstop => ?_, ?_⟩
  · simp [hrunning] at hstop
  · obtain ⟨queued, hrep, -⟩ := h.attended
    obtain rfl : queued = [] := hrep.eq_nil_of_pop hempty
    exact ⟨[], hrep, fun _ => by simpa using length_le_waiting hnodup hworkers⟩

theorem Sleepers.exec {idle : Nat → Bool} {s s' : Pool} {t : Nat} {pc : Pc} {q : Option Pc}
    {l r : List (Frame Pc)} (h : Sleepers s (l ++ ⟨t, pc⟩ :: r))
    (hfate : ThreadPool.Fate idle s.pool (l ++ ⟨t, pc⟩ :: r))
    (hupkeep : ThreadPool.Upkeep s.pool (l ++ ⟨t, pc⟩ :: r))
    (hstep : Step idle s t pc s' q) : Sleepers s' (l ++ q.toList.map (Frame.mk t) ++ r) := by
  cases hstep with
  | wake => simpa using h.wake
  | sleep hpc hawake hrunning hempty =>
      subst hpc
      have hmem : (⟨t, .run⟩ : Frame Pc) ∈ l ++ ⟨t, .run⟩ :: r := by simp
      simpa using h.sleep hmem hawake hrunning hempty
  | step pick hawake hpool => exact h.step hfate hupkeep hawake hpool

theorem Sleepers.enter {s : Pool} {p : ThreadPool.Pool} {t : Nat} {q : Option Pc}
    {fs : List (Frame Pc)} (h : Sleepers s fs) (henter : ThreadPool.Entered s.pool p q) :
    Sleepers { s with pool := p } (q.toList.map (Frame.mk t) ++ fs) := by
  have hqueue : p.queue = s.pool.queue := by cases henter <;> rfl
  refine ⟨fun u hu => mem_enter.mpr (.inl (h.workers u hu)), h.nodup, fun u hu => ?_, ?_, ?_⟩
  · obtain ⟨caller, hf⟩ := h.joins u hu
    exact ⟨caller, mem_enter.mpr (.inl hf)⟩
  · rw [henter.frame.2.2.2.2.2.1]
    exact h.stopped
  · obtain ⟨queued, hrep, hattended⟩ := h.attended
    refine ⟨queued, hqueue ▸ hrep, fun hne => ?_⟩
    have hle := hattended hne
    rw [waiting, countP_enter]
    exact Nat.le_add_right_of_le hle

theorem sleepers_reachable {idle : Nat → Bool} {s : State Pool Pc} (h : Reachable idle s) :
    Sleepers s.shared s.frames := by
  induction h with
  | init hi =>
      obtain ⟨n, hardware, rfl⟩ := hi
      exact ⟨by simp, List.nodup_nil, by simp, by simp, [], represents_empty, by simp⟩
  | step hs _ hstep ih =>
      have hpool := pool_reachable hs
      rcases Machine.ofSteps_step_cases hstep with
        ⟨t, c, l, pc, r, q, rfl, hfs, -, hexec, hfs'⟩ | ⟨t, a, q, rfl, henter, hfs'⟩
      · have hfate := ThreadPool.fate_reachable hpool
        have hupkeep := ThreadPool.upkeep_reachable hpool
        simp only [poolState, hfs] at hfate hupkeep
        rw [hfs] at ih
        rw [hfs']
        exact ih.exec hfate hupkeep (exec_step (Option.ite_none_left_eq_some.mp hexec).2)
      · rw [hfs']
        obtain ⟨p, hp, henter⟩ := enter_entered (Option.ite_none_left_eq_some.mp henter).2
        rw [hp]
        exact ih.enter (ThreadPool.enter_entered henter)

theorem stacked {idle : Nat → Bool} {s : State Pool Pc} (h : Reachable idle s) :
    (machine idle).Stacked s.frames :=
  h.stacked (by rintro _ ⟨n, hardware, rfl⟩; rfl)

/-- How many workers are about to look at the queue. -/
def awake (s : State Pool Pc) : Nat :=
  s.frames.countP fun f => f.pc = .run ∧ f.thread ∉ s.shared.workCv

theorem waiting_eq (cv : List Nat) (fs : List (Frame Pc)) :
    waiting fs = (fs.countP fun f => f.pc = .run ∧ f.thread ∉ cv) +
      fs.countP fun f => f.pc = .run ∧ f.thread ∈ cv := by
  unfold waiting
  induction fs with
  | nil => rfl
  | cons f fs ih =>
      rw [List.countP_cons, List.countP_cons, List.countP_cons, ih]
      rcases eq_or_ne f.pc .run with hrun | hrun
      · rcases Decidable.em (f.thread ∈ cv) with hmem | hmem <;> simp [hrun, hmem] <;> omega
      · simp [hrun]

theorem waiting_le {idle : Nat → Bool} {s : State Pool Pc} (h : Reachable idle s) :
    waiting s.frames ≤ awake s + s.shared.workCv.length := by
  have hthreads : ((s.frames.filter fun f => f.pc = .run ∧ f.thread ∈ s.shared.workCv).map
      Frame.thread).Nodup := by
    rw [List.Nodup, List.pairwise_map]
    refine ((stacked h).filter _).imp_of_mem ?_
    intro f g _ hg hforeign heq
    have hrun : g.pc = .run := by
      have hboth := (List.mem_filter.mp hg).2
      simp only [decide_eq_true_eq] at hboth
      exact hboth.1
    have hfalse := hforeign heq
    rw [hrun] at hfalse
    simp [machine, Machine.ofSteps, foreign] at hfalse
  have hsub : (s.frames.filter fun f => f.pc = .run ∧ f.thread ∈ s.shared.workCv).map
      Frame.thread ⊆ s.shared.workCv := by
    intro t ht
    obtain ⟨f, hf, rfl⟩ := List.mem_map.mp ht
    have hboth := (List.mem_filter.mp hf).2
    simp only [decide_eq_true_eq] at hboth
    exact hboth.2
  have hle := (hthreads.subperm hsub).length_le
  rw [List.length_map, ← List.countP_eq_length_filter] at hle
  have hsum := waiting_eq s.shared.workCv s.frames
  unfold awake
  omega

/-- In every state that a pool with condition variables reaches, whoever
`notify_one` picks and whenever threads wake spuriously: the pool is one that
`ThreadPool` reaches; a worker sleeps only while the pool runs and every queued
continuation has an awake worker that is about to look; and a `join()` sleeps only
while the pool runs and there is work to wait for, or somebody holds the mutex who
has found none and is about to stop the pool. -/
theorem no_wakeup_is_lost {idle : Nat → Bool} {s : State Pool Pc} (h : Reachable idle s) :
    ThreadPool.Reachable idle (poolState s) ∧
    (∃ queued, Represents s.shared.pool.queue queued ∧
      (s.shared.workCv ≠ [] →
        s.shared.pool.work.stop = false ∧ queued.length ≤ awake s)) ∧
    (s.shared.doneCv ≠ [] → s.shared.pool.work.stop = false ∧
      (0 < s.shared.pool.work.outstandingWork ∨ s.shared.pool.work.mutex = true ∧
        ∃ t pc caller, ⟨t, .work pc caller⟩ ∈ s.frames ∧ ThreadPoolWork.testsZero pc = true)) := by
  have hsleepers := sleepers_reachable h
  have hwork : ThreadPoolWork.Invariant s.shared.pool.work (ThreadPool.workFrames s.frames) :=
    (ThreadPool.upkeep_reachable (pool_reachable h)).work
  have hrunning (hne : s.shared.workCv ≠ [] ∨ s.shared.doneCv ≠ []) :
      s.shared.pool.work.stop = false := by
    by_contra hstop
    obtain ⟨hnone, hnone'⟩ := hsleepers.stopped (by simpa using hstop)
    simp [hnone, hnone'] at hne
  refine ⟨pool_reachable h, ?_, fun hne => ⟨hrunning (.inr hne), ?_⟩⟩
  · obtain ⟨queued, hrep, hattended⟩ := hsleepers.attended
    refine ⟨queued, hrep, fun hne => ⟨hrunning (.inl hne), ?_⟩⟩
    have hle := hattended hne
    have hsplit := waiting_le h
    omega
  · obtain ⟨t, ht⟩ := List.exists_mem_of_ne_nil _ hne
    obtain ⟨caller, hf⟩ := hsleepers.joins t ht
    have hjoined : s.shared.pool.work.joined = true :=
      hwork.counts.joined (ThreadPool.mem_workFrames.mpr ⟨caller, hf⟩) rfl
    refine or_iff_not_imp_left.mpr fun hzero => ?_
    obtain ⟨⟨u, pc⟩, hg, htests⟩ :=
      hwork.drained hjoined (hrunning (.inr hne)) (Nat.eq_zero_of_not_pos hzero)
    obtain ⟨caller', hg'⟩ := ThreadPool.mem_workFrames.mp hg
    refine ⟨hwork.counts.mutex_held hg ?_, u, pc, caller', hg', htests⟩
    cases pc <;> simp [ThreadPoolWork.testsZero, ThreadPoolWork.inCritical] at htests ⊢

/-- A continuation is posted, the two workers begin, one takes it and the other
goes to sleep; then work is started, and a `join()` goes to sleep. -/
def sleepingRun : List (Event Choice Entry) :=
  [.enter 0 (.post 7), .run 0 (.step .proceed 0), .run 0 (.step .proceed 0),
    .run 0 (.step .proceed 0), .run 0 (.step .proceed 0), .enter 1 .startWorker,
    .enter 2 .startWorker, .run 1 (.step .proceed 0), .run 1 (.step .proceed 0),
    .run 2 (.step .proceed 0), .enter 0 (.work .onWorkStarted), .enter 0 (.work .join),
    .run 0 (.step .proceed 0), .run 0 (.step .proceed 0), .run 0 (.step .proceed 0),
    .run 0 (.step .proceed 0), .run 0 (.step .proceed 0)]

theorem no_wakeup_is_lost_sleeping :
    ∃ s, (machine fun _ => false).runEvents ⟨⟨newPool 2 4, [], []⟩, []⟩ sleepingRun = some s ∧
      s.shared.workCv = [2] ∧ s.shared.doneCv = [0] ∧ s.shared.pool.work.mutex = false ∧
      0 < s.shared.pool.work.outstandingWork := by
  obtain ⟨s, hs, hwork, hdone, hmutex⟩ : ∃ s, (machine fun _ => false).runEvents
      ⟨⟨newPool 2 4, [], []⟩, []⟩ sleepingRun = some s ∧ s.shared.workCv = [2] ∧
        s.shared.doneCv = [0] ∧ s.shared.pool.work.mutex = false := ⟨_, rfl, rfl, rfl, rfl⟩
  have hinit : Reachable (fun _ => false) ⟨⟨newPool 2 4, [], []⟩, []⟩ := .init ⟨2, 4, rfl⟩
  have hwaits := (no_wakeup_is_lost (hinit.runWhen sleepingRun hs)).2.2 (by simp [hdone])
  exact ⟨s, hs, hwork, hdone, hmutex, hwaits.2.resolve_right (by simp [hmutex])⟩

end Capy.ThreadPoolWaits
