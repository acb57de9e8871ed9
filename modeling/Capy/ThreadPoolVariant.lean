import Mathlib.Tactic.Ring
import Capy.Potential
import Capy.ThreadPoolWaits

namespace Capy.ThreadPoolWaits

open Capy.CallStack
open Capy.ThreadPool (Pc Caller Entry foreign inWorker runningInThisThread newPool workFrames)
open Capy.IntrusiveQueue

/-- The steps that a call of work counting has still to pay for itself. -/
def workCost : ThreadPoolWork.Pc → Nat
  | .finishLoad => 7
  | .finishLoop _ => 6
  | .finishLock => 5
  | .finishSub => 4
  | .finishRead => 3
  | .finishTest _ => 2
  | .finishUnlock => 1
  | .joinLock => 9
  | .joinEnter => 8
  | .joinRead => 5
  | .joinTest _ => 4
  | .joinSleep => 4
  | .joinWait => 3
  | .joinUnlock => 2
  | .joinThreads => 1
  | .stopLock => 1

def drainCost (last : Bool) : Nat := if last then 1 else 3

/-- The steps that an activation has still to pay for itself; what it does for a
queued continuation is paid by the queue. -/
def cost : Pc → Nat
  | .work pc .user => workCost pc
  | .work pc .destructor => workCost pc + 4
  | .post _ => 9
  | .postStopped _ => 8
  | .ensureStarted _ => 7
  | .postPush _ => 6
  | .run => 1
  | .runResume _ => 4
  | .resuming _ => 3
  | .stop => 14
  | .shutdown => 4
  | .drain last => drainCost last
  | .drainAbandon _ last => drainCost last + 2
  | .abandoning _ last => drainCost last + 1
  | .destroy => 2

/-- The compare-exchange of the activation will fail. -/
def stale (work : Nat) : ThreadPoolWork.Pc → Bool
  | .finishLoop n => n ≠ work
  | _ => false

/-- What the first `join()` pays to go to sleep, unless nobody will again. -/
def joinCredit (settled : Bool) (joins : Nat) : Nat := if settled then 0 else 2 * joins

theorem work_pays {w w' : ThreadPoolWork.Pool} {pc : ThreadPoolWork.Pc}
    {q : Option ThreadPoolWork.Pc} (hstep : ThreadPoolWork.Step w pc w' q) {j n n' f : Nat}
    {settled settled' : Bool} (hsame : w'.outstandingWork = w.outstandingWork → n' = n)
    (hstale : n' ≤ f) (hsettled : settled = true → settled' = true)
    (hsleep : pc = .joinWait → w.stop = false → settled = false ∧ settled' = true)
    (hretry : ∀ a b, pc = .finishLoop a → q = some (.finishLoop b) → a ≠ w.outstandingWork) :
    q.elim 0 workCost + joinCredit settled' (j + (q.elim false ThreadPoolWork.firstJoin).toNat) +
        (n' + (q.elim false (stale w'.outstandingWork)).toNat) +
        (f + (q.elim false ThreadPoolWork.undecremented).toNat) ^ 2 + 1 ≤
      workCost pc + joinCredit settled (j + (ThreadPoolWork.firstJoin pc).toNat) +
        (n + (stale w.outstandingWork pc).toNat) +
        (f + (ThreadPoolWork.undecremented pc).toNat) ^ 2 := by
  have hsquare : (f + 1) ^ 2 = f ^ 2 + 2 * f + 1 := by ring
  have hcredit (k : Nat) : joinCredit settled' k ≤ joinCredit settled k := by
    unfold joinCredit
    cases settled <;> cases settled' <;> simp_all
  have hj := hcredit j
  have hj' := hcredit (j + 1)
  have hmono : joinCredit settled j ≤ joinCredit settled (j + 1) ∧
      joinCredit settled (j + 1) ≤ joinCredit settled j + 2 := by
    unfold joinCredit
    cases settled <;> simp
    omega
  cases hstep with
  | finishRetry hlarge =>
      have hne := hretry _ _ rfl rfl
      have hn := hsame rfl
      simp [workCost, stale, ThreadPoolWork.firstJoin, ThreadPoolWork.undecremented, hne]
      omega
  | joinBlocks hstop =>
      obtain ⟨rfl, rfl⟩ := hsleep rfl hstop
      have hn := hsame rfl
      simp [workCost, stale, ThreadPoolWork.firstJoin, ThreadPoolWork.undecremented, joinCredit]
      omega
  | finishCas | finishSub =>
      simp [workCost, stale, ThreadPoolWork.firstJoin, ThreadPoolWork.undecremented]
      omega
  | _ =>
      have hn := hsame rfl
      simp [workCost, stale, ThreadPoolWork.firstJoin, ThreadPoolWork.undecremented]
      omega

/-- The call of work counting, if it is one, meets `p`. -/
def onWork (p : ThreadPoolWork.Pc → Bool) (pc : Pc) : Bool := (ThreadPool.workPc pc).elim false p

/-- The awake workers that still may go to sleep. -/
def wakeCredit (stop : Bool) (waiting sleepers : Nat) : Nat :=
  if stop then 0 else waiting - sleepers

theorem wakeCredit_succ_le (stop : Bool) (n k : Nat) :
    wakeCredit stop (n + 1) k ≤ wakeCredit stop n k + 1 := by
  unfold wakeCredit
  split <;> omega

/-- Nobody goes to sleep in `done_cv_` again without being woken first. -/
def joinSettled (stop : Bool) (sleepers : List Nat) : Bool := stop || !sleepers.isEmpty

def queueLength (s : ThreadPool.Pool) : Nat := s.posted.length - s.taken.length - s.drained.length

/-- What the shared state pays for, with the numbers of workers that wait, of
first `join()`s, of failing compare-exchanges and of undone decrements. -/
def stored (s : Pool) (waiting joins stale undone : Nat) : Nat :=
  3 * queueLength s.pool + wakeCredit s.pool.work.stop waiting s.workCv.length +
    3 * (s.pool.numThreads - s.pool.begun) +
    joinCredit (joinSettled s.pool.work.stop s.doneCv) joins + stale + undone ^ 2

theorem cost_next (q : Option ThreadPoolWork.Pc) (caller : Caller) (pc : ThreadPoolWork.Pc) :
    (q.elim caller.next fun pc' => some (.work pc' caller)).elim 0 cost + workCost pc ≤
      cost (.work pc caller) + q.elim 0 workCost := by
  cases q <;> cases caller <;> simp only [Option.elim, Caller.next, cost] <;> omega

theorem onWork_work (p : ThreadPoolWork.Pc → Bool) (pc : ThreadPoolWork.Pc) (caller : Caller) :
    onWork p (.work pc caller) = p pc := rfl

theorem next_onWork (p : ThreadPoolWork.Pc → Bool) (q : Option ThreadPoolWork.Pc)
    (caller : Caller) :
    (q.elim caller.next fun pc' => some (.work pc' caller)).elim false (onWork p) =
      q.elim false p := by
  cases q <;> cases caller <;> rfl

theorem next_ne_run (q : Option ThreadPoolWork.Pc) (caller : Caller) :
    (q.elim caller.next fun pc' => some (.work pc' caller)).elim false
      (fun pc => decide (pc = .run)) = false := by
  cases q <;> cases caller <;> rfl

section Work

variable {s : Pool} {w : ThreadPoolWork.Pool} {pc : ThreadPoolWork.Pc}
  {q : Option ThreadPoolWork.Pc} (caller : Caller)
  (hwork : ThreadPoolWork.Step s.pool.work pc w q)

include hwork

theorem sleepers_of_running (hrunning : w.stop = false) (pick t : Nat) :
    workCvAfter s pick (.work pc caller) = s.workCv ∧
      (s.doneCv ≠ [] → doneCvAfter s t (.work pc caller) ≠ []) := by
  cases hwork with
  | finishSignal | joinDrained | stopLock => simp at hrunning
  | @finishQuiet n hquiet =>
      have hstops : finishStops s.pool.work n = false := by
        simp only [finishStops, decide_eq_false_iff_not]
        rintro ⟨hn, hjoined, -⟩
        simp_all
      simp [workCvAfter, doneCvAfter, hstops]
  | joinBlocks hstop => simp [workCvAfter, doneCvAfter, hstop]
  | joinReleased hstop => simp [workCvAfter, doneCvAfter, hstop]
  | joinPending hn => simp [workCvAfter, doneCvAfter, hn]
  | _ => exact ⟨rfl, id⟩

theorem work_wakeCredit (pick t n : Nat) :
    wakeCredit w.stop n (workCvAfter s pick (.work pc caller)).length ≤
      wakeCredit s.pool.work.stop n s.workCv.length := by
  cases hrunning : w.stop with
  | true => exact Nat.zero_le _
  | false =>
      have hold : s.pool.work.stop = false := by
        by_contra hstop
        simp [ThreadPool.work_stop hwork (by simpa using hstop)] at hrunning
      rw [(sleepers_of_running caller hwork hrunning pick t).1, hold]

theorem work_joinSettled (t : Nat) (h : joinSettled s.pool.work.stop s.doneCv = true) :
    joinSettled w.stop (doneCvAfter s t (.work pc caller)) = true := by
  cases hrunning : w.stop with
  | true => simp [joinSettled]
  | false =>
      have hold : s.pool.work.stop = false := by
        by_contra hstop
        simp [ThreadPool.work_stop hwork (by simpa using hstop)] at hrunning
      have hdone : s.doneCv ≠ [] := by simpa [joinSettled, hold] using h
      have hdone' := (sleepers_of_running caller hwork hrunning 0 t).2 hdone
      simp [joinSettled, hdone']

end Work

/-- A step pays for itself, when it is not a compare-exchange that failed
spuriously. -/
theorem step_pays {idle : Nat → Bool} {s : Pool} {p' : ThreadPool.Pool} {pc : Pc} {q : Option Pc}
    (hstep : ThreadPool.Step idle s.pool pc p' q) (t pick : Nat) {w j n n' f : Nat}
    {queued : List Nat}
    (hqueued : ThreadPool.Queued s.pool queued) (hw : s.workCv.length ≤ w)
    (hsame : p'.work.outstandingWork = s.pool.work.outstandingWork → n' = n) (hstale : n' ≤ f)
    (hjoin : ∀ caller, pc = .work .joinWait caller → s.doneCv = [])
    (hretry : ∀ a b caller, pc = .work (.finishLoop a) caller →
      q = some (.work (.finishLoop b) caller) → a ≠ s.pool.work.outstandingWork) :
    stored ⟨p', workCvAfter s pick pc, doneCvAfter s t pc⟩
        (w + (q.elim false fun pc => decide (pc = .run)).toNat)
        (j + (q.elim false (onWork ThreadPoolWork.firstJoin)).toNat)
        (n' + (q.elim false (onWork (stale p'.work.outstandingWork))).toNat)
        (f + (q.elim false (onWork ThreadPoolWork.undecremented)).toNat) +
        q.elim 0 cost + 1 ≤
      stored s (w + (decide (pc = .run)).toNat) (j + (onWork ThreadPoolWork.firstJoin pc).toNat)
        (n + (onWork (stale s.pool.work.outstandingWork) pc).toNat)
        (f + (onWork ThreadPoolWork.undecremented pc).toNat) + cost pc := by
  have hdown : s.pool.work.stop = false →
      wakeCredit s.pool.work.stop w s.workCv.length + 1 ≤
        wakeCredit s.pool.work.stop (w + 1) s.workCv.length := by
    intro hrunning
    simp only [wakeCredit, hrunning, Bool.false_eq_true, if_false]
    omega
  have hlength : s.pool.posted.length =
      s.pool.taken.length + s.pool.drained.length + queued.length := by
    rw [hqueued.2, List.length_append, List.length_append]
  cases hstep with
  | @work pc caller w' q _ hwork =>
      have hsleep : pc = .joinWait → s.pool.work.stop = false →
          joinSettled s.pool.work.stop s.doneCv = false ∧
            joinSettled w'.stop (doneCvAfter s t (.work pc caller)) = true := by
        rintro rfl hrunning
        have hdone := hjoin caller rfl
        simp [joinSettled, hrunning, hdone, doneCvAfter]
      have hpay := work_pays (j := j) (f := f) hwork hsame hstale
        (work_joinSettled caller hwork t) hsleep
        fun a b ha hb => hretry a b caller (by rw [ha]) (by rw [hb]; rfl)
      have hcost := cost_next q caller pc
      have hwake := work_wakeCredit caller hwork pick t w
      simp only [stored, next_onWork, next_ne_run, onWork_work, reduceCtorEq, decide_false,
        Bool.toNat_false, Nat.add_zero]
      change 3 * queueLength s.pool + _ + 3 * (s.pool.numThreads - s.pool.begun) + _ + _ + _ + _ +
        1 ≤ _
      omega
  | stop hwork =>
      cases hwork
      have hn := hsame rfl
      have hcredit (k : Nat) : joinCredit (joinSettled true []) k = 0 := rfl
      have hzero (n c : Nat) : wakeCredit true n c = 0 := rfl
      simp only [stored, queueLength, cost, workCost, onWork, ThreadPool.workPc, workCvAfter,
        doneCvAfter, hcredit, hzero, ThreadPoolWork.firstJoin, ThreadPoolWork.undecremented, stale,
        Option.elim_some, Option.elim_none, Bool.toNat_false, reduceCtorEq, decide_false,
        Nat.add_zero]
      omega
  | push =>
      have hn := hsame rfl
      have hnotify := length_notifyOne_le s.workCv pick
      have hwake : wakeCredit s.pool.work.stop w (notifyOne s.workCv pick).length ≤
          wakeCredit s.pool.work.stop w s.workCv.length + 1 := by
        unfold wakeCredit
        split <;> omega
      simp only [stored, queueLength, cost, onWork, ThreadPool.workPc, workCvAfter, doneCvAfter,
        ThreadPool.Pool.push, List.length_append, List.length_singleton, Option.elim_none,
        Bool.toNat_false, reduceCtorEq, decide_false, Nat.add_zero]
      omega
  | exit hstop =>
      have hn := hsame rfl
      have hzero (n c : Nat) : wakeCredit true n c = 0 := rfl
      simp only [stored, queueLength, cost, onWork, ThreadPool.workPc, workCvAfter, doneCvAfter,
        hstop, hzero, Option.elim_none, Bool.toNat_false, Nat.add_zero]
      omega
  | take hrunning hpop =>
      have hn := hsame rfl
      have hdown := hdown hrunning
      obtain ⟨rest, rfl, -⟩ := hqueued.1.of_pop hpop
      rw [List.length_cons] at hlength
      simp only [stored, queueLength, cost, onWork, ThreadPool.workPc, workCvAfter, doneCvAfter,
        List.length_append, List.length_singleton, Option.elim_some, Option.elim_none,
        Bool.toNat_false, reduceCtorEq, decide_false, decide_true, Bool.toNat_true, Nat.add_zero]
      omega
  | resumed =>
      have hn := hsame rfl
      have hup := wakeCredit_succ_le s.pool.work.stop w s.workCv.length
      simp only [stored, queueLength, cost, onWork, ThreadPool.workPc, workCvAfter, doneCvAfter,
        Option.elim_some, Option.elim_none, Bool.toNat_false, reduceCtorEq, decide_false,
        decide_true, Bool.toNat_true, Nat.add_zero]
      omega
  | drainTake hpop =>
      have hn := hsame rfl
      obtain ⟨rest, rfl, -⟩ := hqueued.1.of_pop hpop
      rw [List.length_cons] at hlength
      simp only [stored, queueLength, cost, onWork, ThreadPool.workPc, workCvAfter, doneCvAfter,
        List.length_append, List.length_singleton, Option.elim_some, Option.elim_none,
        Bool.toNat_false, reduceCtorEq, decide_false, Nat.add_zero]
      omega
  | @drained last q _ hlast =>
      have hn := hsame rfl
      subst hlast
      cases last <;>
        simp only [stored, queueLength, cost, drainCost, onWork, ThreadPool.workPc, workCvAfter,
          doneCvAfter, Option.elim_some, Option.elim_none, Bool.toNat_false, reduceCtorEq,
          decide_false, Nat.add_zero, if_true, if_false] <;>
        omega
  | _ =>
      have hn := hsame rfl
      simp only [stored, queueLength, cost, drainCost, onWork, ThreadPool.workPc, workCvAfter,
        doneCvAfter, ThreadPool.Pool.push, List.length_append, List.length_singleton,
        Option.elim_some, Option.elim_none, Bool.toNat_false, reduceCtorEq, decide_false,
        Nat.add_zero, Bool.false_eq_true, if_true, if_false]
      omega

/-- What the pool's own code can still do when no compare-exchange fails spuriously
and no thread wakes spuriously; the system may refuse to start a thread. -/
def ownStep : Event Choice Entry → Bool
  | .run _ (.step .proceed _) | .run _ (.step (.throws _) _) | .enter _ .startWorker => true
  | _ => false

/-- Without spurious failures a compare-exchange fails only when the counter has
changed. -/
theorem retries {idle : Nat → Bool} {s p' : ThreadPool.Pool} {pc : Pc} {q : Option Pc}
    {choice : ThreadPool.Choice} (hchoice : choice ≠ .spurious)
    (h : ThreadPool.exec idle s pc choice = some (p', q)) {a b : Nat} {caller : Caller}
    (hpc : pc = .work (.finishLoop a) caller) (hq : q = some (.work (.finishLoop b) caller)) :
    a ≠ s.work.outstandingWork := by
  rintro rfl
  subst hpc hq
  simp only [ThreadPool.exec, ThreadPoolWork.exec, hchoice, reduceCtorEq, false_and, if_false,
    decide_false, and_self, if_true, Option.map_eq_some_iff] at h
  obtain ⟨⟨w, q'⟩, hexec, heq⟩ := h
  split_ifs at hexec <;>
    simp only [Option.some.injEq, Prod.mk.injEq] at hexec <;>
    obtain ⟨rfl, rfl⟩ := hexec <;>
    cases caller <;> simp [Caller.next] at heq

/-- Every step of the pool's own code lowers it. -/
def value (s : State Pool Pc) : Nat :=
  stored s.shared (waiting s.frames)
    (s.frames.countP fun f => onWork ThreadPoolWork.firstJoin f.pc)
    (s.frames.countP fun f => onWork (stale s.shared.pool.work.outstandingWork) f.pc)
    (s.frames.countP fun f => onWork ThreadPoolWork.undecremented f.pc) +
    total cost s.frames

theorem value_split {s : Pool} {l r : List (Frame Pc)} {t : Nat} {pc : Pc} :
    value ⟨s, l ++ ⟨t, pc⟩ :: r⟩ =
      stored s (waiting (l ++ r) + (decide (pc = .run)).toNat)
        ((l ++ r).countP (fun f => onWork ThreadPoolWork.firstJoin f.pc) +
          (onWork ThreadPoolWork.firstJoin pc).toNat)
        ((l ++ r).countP (fun f => onWork (stale s.pool.work.outstandingWork) f.pc) +
          (onWork (stale s.pool.work.outstandingWork) pc).toNat)
        ((l ++ r).countP (fun f => onWork ThreadPoolWork.undecremented f.pc) +
          (onWork ThreadPoolWork.undecremented pc).toNat) +
        (total cost (l ++ r) + cost pc) := by
  simp only [value, waiting, countP_split, total_split]

theorem value_replace {s : Pool} {l r : List (Frame Pc)} {t : Nat} {q : Option Pc} :
    value ⟨s, l ++ q.toList.map (Frame.mk t) ++ r⟩ =
      stored s (waiting (l ++ r) + (q.elim false fun pc => decide (pc = .run)).toNat)
        ((l ++ r).countP (fun f => onWork ThreadPoolWork.firstJoin f.pc) +
          (q.elim false (onWork ThreadPoolWork.firstJoin)).toNat)
        ((l ++ r).countP (fun f => onWork (stale s.pool.work.outstandingWork) f.pc) +
          (q.elim false (onWork (stale s.pool.work.outstandingWork))).toNat)
        ((l ++ r).countP (fun f => onWork ThreadPoolWork.undecremented f.pc) +
          (q.elim false (onWork ThreadPoolWork.undecremented)).toNat) +
        (total cost (l ++ r) + q.elim 0 cost) := by
  simp only [value, waiting, countP_replace, total_replace]

theorem stale_le (n : Nat) (fs : List (Frame Pc)) :
    fs.countP (fun f => onWork (stale n) f.pc) ≤
      fs.countP fun f => onWork ThreadPoolWork.undecremented f.pc := by
  refine List.countP_mono_left fun f _ hf => ?_
  obtain ⟨t, pc⟩ := f
  cases pc with
  | work pc caller =>
      cases pc <;>
        simp_all [onWork, ThreadPool.workPc, stale, ThreadPoolWork.undecremented]
  | _ => simp [onWork, ThreadPool.workPc] at hf

theorem workCv_le {s : Pool} {l r : List (Frame Pc)} {t : Nat} {pc : Pc}
    (h : Sleepers s (l ++ ⟨t, pc⟩ :: r)) (hawake : asleep s t pc = false) :
    s.workCv.length ≤ waiting (l ++ r) := by
  refine length_le_waiting h.nodup fun u hu => ?_
  rcases mem_split.mp (h.workers u hu) with hf | hf
  · exact hf
  · obtain ⟨rfl, rfl⟩ : u = t ∧ Pc.run = pc := by simpa using hf
    simp [asleep, hu] at hawake

theorem value_sleep {s : Pool} {l r : List (Frame Pc)} {t : Nat} {pc : Pc}
    (h : Sleepers s (l ++ ⟨t, pc⟩ :: r)) (hpc : pc = .run) (hawake : t ∉ s.workCv)
    (hrunning : s.pool.work.stop = false) :
    value ⟨{ s with workCv := t :: s.workCv }, l ++ ⟨t, pc⟩ :: r⟩ <
      value ⟨s, l ++ ⟨t, pc⟩ :: r⟩ := by
  subst hpc
  have hle := workCv_le h (by simpa [asleep] using hawake)
  rw [value_split, value_split]
  simp only [stored, wakeCredit, hrunning, List.length_cons, decide_true, Bool.toNat_true,
    Bool.false_eq_true, if_false]
  omega

theorem value_step {idle : Nat → Bool} {s : Pool} {p' : ThreadPool.Pool} {t pick : Nat}
    {pc : Pc} {q : Option Pc} {l r : List (Frame Pc)} (h : Sleepers s (l ++ ⟨t, pc⟩ :: r))
    (hfate : ThreadPool.Fate idle s.pool (l ++ ⟨t, pc⟩ :: r))
    (hupkeep : ThreadPool.Upkeep s.pool (l ++ ⟨t, pc⟩ :: r)) (hawake : asleep s t pc = false)
    {choice : ThreadPool.Choice} (hchoice : choice ≠ .spurious)
    (hexec : ThreadPool.exec idle s.pool pc choice = some (p', q)) :
    value ⟨⟨p', workCvAfter s pick pc, doneCvAfter s t pc⟩,
        l ++ q.toList.map (Frame.mk t) ++ r⟩ <
      value ⟨s, l ++ ⟨t, pc⟩ :: r⟩ := by
  obtain ⟨queued, hqueued⟩ := hfate.queued
  rw [value_split, value_replace]
  have hpay := step_pays (j := (l ++ r).countP fun f => onWork ThreadPoolWork.firstJoin f.pc)
    (f := (l ++ r).countP fun f => onWork ThreadPoolWork.undecremented f.pc)
    (n := (l ++ r).countP fun f => onWork (stale s.pool.work.outstandingWork) f.pc)
    (ThreadPool.exec_step hexec) t pick hqueued (workCv_le h hawake)
    (fun hsame => by rw [hsame]) (stale_le p'.work.outstandingWork _) ?_
    fun a b caller ha hb => retries hchoice hexec ha hb
  · dsimp only at hpay ⊢
    omega
  · rintro caller rfl
    exact doneCv_of_firstJoin h hupkeep rfl (by simp)

theorem value_startWorker {s : Pool} {fs : List (Frame Pc)} {t : Nat}
    (hthreads : s.pool.begun < s.pool.numThreads) :
    value ⟨{ s with pool := { s.pool with begun := s.pool.begun + 1 } }, ⟨t, .run⟩ :: fs⟩ <
      value ⟨s, fs⟩ := by
  rw [← List.nil_append (⟨t, .run⟩ :: fs), value_split]
  have hwake := wakeCredit_succ_le s.pool.work.stop (waiting fs) s.workCv.length
  simp only [value, stored, queueLength, cost, onWork, ThreadPool.workPc, List.nil_append,
    decide_true, Bool.toNat_true, Option.elim_none, Bool.toNat_false, Nat.add_zero]
  omega

/-- Every step of the pool's own code lowers `value`. -/
def variant (idle : Nat → Bool) : (machine idle).Variant (Reachable idle) ownStep where
  value := value
  closed hs _ hstep := .step hs rfl hstep
  falls {s s' e} hs he hstep := by
    have hpool := pool_reachable hs
    have hfate := ThreadPool.fate_reachable hpool
    have hupkeep := ThreadPool.upkeep_reachable hpool
    have hsleepers := sleepers_reachable hs
    obtain ⟨sh, fs⟩ := s
    obtain ⟨sh', fs'⟩ := s'
    simp only [poolState] at hfate hupkeep
    rcases Machine.ofSteps_step_cases hstep with
      ⟨t, c, l, pc, r, q, rfl, rfl, -, hexec, rfl⟩ | ⟨t, a, q, rfl, henter, rfl⟩
    · have hexec := (Option.ite_none_left_eq_some.mp hexec).2
      cases c with
      | wake => simp [ownStep] at he
      | step choice pick =>
          have hchoice : choice ≠ .spurious := by
            rintro rfl
            simp [ownStep] at he
          simp only [exec, Option.ite_none_left_eq_some, Bool.not_eq_true] at hexec
          obtain ⟨hawake, hexec⟩ := hexec
          split_ifs at hexec with hfalls
          · simp only [fallsAsleep, decide_eq_true_eq] at hfalls
            obtain ⟨rfl, -, hrunning, -⟩ := hfalls
            obtain ⟨rfl, rfl⟩ := by
              simpa only [Option.some.injEq, Prod.mk.injEq] using hexec
            simpa using value_sleep hsleepers rfl (by simpa [asleep] using hawake) hrunning
          · obtain ⟨⟨p', q'⟩, hrun, heq⟩ := Option.map_eq_some_iff.mp hexec
            obtain ⟨rfl, rfl⟩ := Prod.mk.inj heq
            exact value_step hsleepers hfate hupkeep hawake hchoice hrun
    · have henter := (Option.ite_none_left_eq_some.mp henter).2
      obtain ⟨p, rfl, hentered⟩ := enter_entered henter
      cases a with
      | startWorker =>
          simp only [ThreadPool.enter, Option.ite_none_right_eq_some, Option.some.injEq,
            Prod.mk.injEq] at hentered
          obtain ⟨⟨hlt, -⟩, rfl, rfl⟩ := hentered
          exact value_startWorker (Nat.lt_of_lt_of_le hlt hfate.threads.bounded)
      | _ => simp [ownStep] at he

end Capy.ThreadPoolWaits
