import Capy.CallStack

namespace Capy.ThreadPoolWork

open Capy.CallStack

/-- The fields of `thread_pool::impl` that work counting reads. `unmatched`
counts the `on_work_started` calls whose `on_work_finished` has not begun, and
`notified` tells that `done_cv_` has been notified. Each operation on the counter and
each one under `mutex_` is a step. -/
structure Pool where
  outstandingWork : Nat
  mutex : Bool
  stop : Bool
  joined : Bool
  notified : Bool
  unmatched : Nat
  deriving DecidableEq

def newPool : Pool := ⟨0, false, false, false, false, 0⟩

inductive Pc where
  | finishLoad
  | finishLoop (n : Nat)
  | finishLock
  | finishSub
  | finishRead
  | finishTest (n : Nat)
  | finishUnlock
  | joinLock
  | joinEnter
  | joinRead
  | joinTest (n : Nat)
  | joinWait
  | joinSleep
  | joinUnlock
  | joinThreads
  | stopLock
  deriving DecidableEq

/-- One step of an activation; the flag makes a weak compare-exchange fail
spuriously and is ignored elsewhere. -/
def exec (s : Pool) : Pc → Bool → Option (Pool × Option Pc)
  -- on_work_finished
  | .finishLoad, _ => some (s, some (.finishLoop s.outstandingWork))
  | .finishLoop n, spurious =>
      if 1 < n then
        if s.outstandingWork = n ∧ spurious = false then
          some ({ s with outstandingWork := n - 1 }, none)
        else some (s, some (.finishLoop s.outstandingWork))
      else some (s, some .finishLock)
  | .finishLock, _ =>
      if s.mutex then none else some ({ s with mutex := true }, some .finishSub)
  | .finishSub, _ =>
      some ({ s with outstandingWork := s.outstandingWork - 1 }, some .finishRead)
  | .finishRead, _ => some (s, some (.finishTest s.outstandingWork))
  | .finishTest n, _ =>
      if n = 0 ∧ s.joined = true ∧ s.stop = false then
        some ({ s with stop := true, notified := true }, some .finishUnlock)
      else some (s, some .finishUnlock)
  | .finishUnlock, _ => some ({ s with mutex := false }, none)
  -- join
  | .joinLock, _ =>
      if s.mutex then none else some ({ s with mutex := true }, some .joinEnter)
  | .joinEnter, _ =>
      if s.joined then some ({ s with mutex := false }, none)
      else some ({ s with joined := true }, some .joinRead)
  | .joinRead, _ => some (s, some (.joinTest s.outstandingWork))
  | .joinTest n, _ =>
      if n = 0 then some ({ s with stop := true }, some .joinUnlock)
      else some (s, some .joinWait)
  | .joinWait, _ =>
      if s.stop then some (s, some .joinUnlock)
      else some ({ s with mutex := false, notified := false }, some .joinSleep)
  | .joinSleep, _ =>
      if s.mutex then none else some ({ s with mutex := true }, some .joinWait)
  | .joinUnlock, _ => some ({ s with mutex := false }, some .joinThreads)
  | .joinThreads, _ => some (s, none)
  -- stop
  | .stopLock, _ =>
      if s.mutex then none else some ({ s with stop := true, notified := true }, none)

inductive Entry where
  | onWorkStarted
  | onWorkFinished
  | join
  | stop
  deriving DecidableEq

def enter (s : Pool) : Entry → Option (Pool × Option Pc)
  | .onWorkStarted =>
      some ({ s with
        outstandingWork := s.outstandingWork + 1
        unmatched := s.unmatched + 1 }, none)
  | .onWorkFinished =>
      if 0 < s.unmatched then
        some ({ s with unmatched := s.unmatched - 1 }, some .finishLoad)
      else none
  | .join => some (s, some .joinLock)
  | .stop => some (s, some .stopLock)

/-- The step system of a pool's work counting. None of its calls runs code of
others. -/
def machine : Machine Pool Pc Bool Entry :=
  Machine.ofSteps (fun _ => false) (fun s _ _ => exec s) (fun s _ _ => enter s)

def Initial (s : State Pool Pc) : Prop := s = ⟨newPool, []⟩

def Reachable : State Pool Pc → Prop := machine.Reachable Initial

inductive Step (s : Pool) : Pc → Pool → Option Pc → Prop
  | finishLoad : Step s .finishLoad s (some (.finishLoop s.outstandingWork))
  | finishCas {n} : 1 < n → s.outstandingWork = n →
      Step s (.finishLoop n) { s with outstandingWork := n - 1 } none
  | finishRetry {n} : 1 < n →
      Step s (.finishLoop n) s (some (.finishLoop s.outstandingWork))
  | finishSlow {n} : n ≤ 1 → Step s (.finishLoop n) s (some .finishLock)
  | finishLock : s.mutex = false →
      Step s .finishLock { s with mutex := true } (some .finishSub)
  | finishSub :
      Step s .finishSub { s with outstandingWork := s.outstandingWork - 1 }
        (some .finishRead)
  | finishRead : Step s .finishRead s (some (.finishTest s.outstandingWork))
  | finishSignal {n} : n = 0 → s.joined = true → s.stop = false →
      Step s (.finishTest n) { s with stop := true, notified := true }
        (some .finishUnlock)
  | finishQuiet {n} : n ≠ 0 ∨ s.joined = false ∨ s.stop = true →
      Step s (.finishTest n) s (some .finishUnlock)
  | finishUnlock : Step s .finishUnlock { s with mutex := false } none
  | joinLock : s.mutex = false →
      Step s .joinLock { s with mutex := true } (some .joinEnter)
  | joinAgain : s.joined = true → Step s .joinEnter { s with mutex := false } none
  | joinFirst : s.joined = false →
      Step s .joinEnter { s with joined := true } (some .joinRead)
  | joinRead : Step s .joinRead s (some (.joinTest s.outstandingWork))
  | joinDrained {n} : n = 0 →
      Step s (.joinTest n) { s with stop := true } (some .joinUnlock)
  | joinPending {n} : n ≠ 0 → Step s (.joinTest n) s (some .joinWait)
  | joinReleased : s.stop = true → Step s .joinWait s (some .joinUnlock)
  | joinBlocks : s.stop = false →
      Step s .joinWait { s with mutex := false, notified := false } (some .joinSleep)
  | joinWakes : s.mutex = false →
      Step s .joinSleep { s with mutex := true } (some .joinWait)
  | joinUnlock : Step s .joinUnlock { s with mutex := false } (some .joinThreads)
  | joinThreads : Step s .joinThreads s none
  | stopLock : s.mutex = false →
      Step s .stopLock { s with stop := true, notified := true } none

theorem exec_step {s s' : Pool} {pc : Pc} {c : Bool} {q : Option Pc}
    (h : exec s pc c = some (s', q)) : Step s pc s' q := by
  unfold exec at h
  split at h
  all_goals first
    | split_ifs at h
    | skip
  all_goals
    simp only [Option.some.injEq, Prod.mk.injEq] at h
    obtain ⟨rfl, rfl⟩ := h
  all_goals constructor
  all_goals simp_all
  all_goals grind

/-- The activation holds `mutex_`. -/
def inCritical : Pc → Bool
  | .finishSub | .finishRead | .finishTest _ | .finishUnlock => true
  | .joinEnter | .joinRead | .joinTest _ | .joinWait | .joinUnlock => true
  | _ => false

/-- The activation is an `on_work_finished` that has not lowered the counter. -/
def undecremented : Pc → Bool
  | .finishLoad | .finishLoop _ | .finishLock | .finishSub => true
  | _ => false

/-- The activation is the `join()` that set `joined_`, up to its last look at
`stop_`. -/
def firstJoin : Pc → Bool
  | .joinRead | .joinTest _ | .joinWait | .joinSleep => true
  | _ => false

/-- The activation is going to set `stop_` if it finds or has found the counter
at zero with `joined_` set. -/
def testsZero : Pc → Bool
  | .finishRead | .joinRead => true
  | .finishTest n | .joinTest n => n = 0
  | _ => false

/-- The activation holds the lock and has read a counter that is not zero. -/
def readPositive : Pc → Bool
  | .finishTest n | .joinTest n => n ≠ 0
  | _ => false

/-- The three counts over the activations, and what the fields say of them. -/
structure Counts (s : Pool) (critical undone first : Nat) : Prop where
  mutex : critical = s.mutex.toNat
  work : s.outstandingWork = s.unmatched + undone
  join : first ≤ s.joined.toNat

section Step

variable {s s' : Pool} {pc : Pc} {q : Option Pc} (hstep : Step s pc s' q)

include hstep

theorem Step.mutex (hheld : inCritical pc = true → s.mutex = true) :
    s'.mutex.toNat + (inCritical pc).toNat =
      s.mutex.toNat + (q.elim false inCritical).toNat := by
  cases hstep <;> simp_all [inCritical]

theorem Step.undone (hpos : undecremented pc = true → 0 < s.outstandingWork) :
    s'.unmatched = s.unmatched ∧
    s'.outstandingWork + (undecremented pc).toNat =
      s.outstandingWork + (q.elim false undecremented).toNat := by
  cases hstep with
  | finishCas hn hsame =>
      refine ⟨rfl, ?_⟩
      simp only [undecremented, Bool.toNat_true, Option.elim, Bool.toNat_false]
      omega
  | finishSub =>
      have := hpos rfl
      refine ⟨rfl, ?_⟩
      simp only [undecremented, Bool.toNat_true, Option.elim, Bool.toNat_false]
      omega
  | _ => exact ⟨rfl, rfl⟩

theorem Step.first :
    (q.elim false firstJoin).toNat + s.joined.toNat ≤
      s'.joined.toNat + (firstJoin pc).toNat := by
  cases hstep <;> simp [firstJoin, *]
  all_goals omega

theorem Step.work :
    s'.outstandingWork = s.outstandingWork ∨
      (pc = .finishSub ∧ s'.outstandingWork = s.outstandingWork - 1) ∨
      (0 < s'.outstandingWork ∧ s'.outstandingWork + 1 = s.outstandingWork) := by
  cases hstep <;> simp
  omega

/-- After a step that leaves a joined pool at zero and not stopped, its
activation tests for zero, or the pool was so before and it did not. -/
theorem Step.drained (hpos : readPositive pc = true → 0 < s.outstandingWork)
    (hjoined : s'.joined = true) (hstop : s'.stop = false)
    (hzero : s'.outstandingWork = 0) :
    (∃ pc', q = some pc' ∧ testsZero pc' = true) ∨
      (s.joined = true ∧ s.stop = false ∧ s.outstandingWork = 0 ∧
        testsZero pc = false) := by
  cases hstep <;> simp_all [testsZero, readPositive]
  all_goals omega

theorem Step.signal :
    (s'.stop = true → s'.notified = true) ∨
      (s'.stop = s.stop ∧ s'.notified = s.notified) ∨
      (firstJoin pc = true ∧ q = some .joinUnlock) := by
  cases hstep <;> simp_all [firstJoin]

theorem Step.reads {pc' : Pc} (hq : q = some pc') (hread : readPositive pc' = true) :
    0 < s'.outstandingWork := by
  cases hstep <;> simp at hq <;> subst hq <;> simp [readPositive] at hread
  all_goals omega

theorem Step.sleeps (hq : q = some .joinSleep) : s'.stop = false := by
  cases hstep <;> simp at hq
  assumption

/-- A step that sets `stop_` is one of `stop()`, or one of an activation that
holds the lock, has read the counter as zero and finds `joined_` set. -/
theorem Step.sets_stop (hold : s.stop = false) (hnew : s'.stop = true) :
    pc = .stopLock ∨ (pc = .finishTest 0 ∧ s.joined = true) ∨ pc = .joinTest 0 := by
  cases hstep <;> simp_all

end Step

theorem Counts.step {s s' : Pool} {a b c : Nat} {pc : Pc} {q : Option Pc}
    (h : Counts s (a + (inCritical pc).toNat) (b + (undecremented pc).toNat)
      (c + (firstJoin pc).toNat)) (hstep : Step s pc s' q) :
    Counts s' (a + (q.elim false inCritical).toNat)
      (b + (q.elim false undecremented).toNat) (c + (q.elim false firstJoin).toNat) := by
  have hm := h.mutex
  have hw := h.work
  have hj := h.join
  constructor
  · have hmutex := hstep.mutex fun hheld => by
      rw [hheld, Bool.toNat_true] at hm
      have hle := Bool.toNat_le s.mutex
      exact Bool.toNat_eq_one.mp (by omega)
    omega
  · have hundone := hstep.undone fun hundone => by
      rw [hundone, Bool.toNat_true] at hw
      omega
    omega
  · have hfirst := hstep.first
    omega

theorem Counts.enter {s s' : Pool} {a b c : Nat} {e : Entry} {q : Option Pc}
    (h : Counts s a b c) (henter : ThreadPoolWork.enter s e = some (s', q)) :
    Counts s' (a + (q.elim false inCritical).toNat)
      (b + (q.elim false undecremented).toNat) (c + (q.elim false firstJoin).toNat) := by
  obtain ⟨hm, hw, hj⟩ := h
  cases e <;>
    simp only [ThreadPoolWork.enter, Option.ite_none_right_eq_some, Option.some.injEq,
      Prod.mk.injEq] at henter
  case onWorkFinished =>
    obtain ⟨hpos, rfl, rfl⟩ := henter
    refine ⟨hm, ?_, hj⟩
    simp only [Option.elim, undecremented, Bool.toNat_true]
    omega
  all_goals
    obtain ⟨rfl, rfl⟩ := henter
    refine ⟨hm, ?_, hj⟩
    simp only [Option.elim, undecremented, Bool.toNat_false]
    omega

/-- What every run of the pool keeps. -/
structure Invariant (s : Pool) (fs : List (Frame Pc)) : Prop where
  counts : Counts s (fs.countP fun f => inCritical f.pc)
    (fs.countP fun f => undecremented f.pc) (fs.countP fun f => firstJoin f.pc)
  positive : ∀ f ∈ fs, readPositive f.pc = true → 0 < s.outstandingWork
  drained : s.joined = true → s.stop = false → s.outstandingWork = 0 →
    ∃ f ∈ fs, testsZero f.pc = true
  sleeping : ∀ f ∈ fs, f.pc = .joinSleep → s.stop = true → s.notified = true

theorem Counts.work_pos {s : Pool} {fs : List (Frame Pc)} {a c : Nat}
    (h : Counts s a (fs.countP fun f => undecremented f.pc) c) {f : Frame Pc}
    (hf : f ∈ fs) (hpc : undecremented f.pc = true) : 0 < s.outstandingWork := by
  have hpos : 0 < fs.countP fun f => undecremented f.pc :=
    List.countP_pos_iff.mpr ⟨f, hf, hpc⟩
  have := h.work
  omega

theorem Counts.mutex_held {s : Pool} {fs : List (Frame Pc)} {b c : Nat}
    (h : Counts s (fs.countP fun f => inCritical f.pc) b c) {f : Frame Pc}
    (hf : f ∈ fs) (hpc : inCritical f.pc = true) : s.mutex = true := by
  have hpos : 0 < fs.countP fun f => inCritical f.pc :=
    List.countP_pos_iff.mpr ⟨f, hf, hpc⟩
  rw [h.mutex] at hpos
  simpa [Nat.pos_iff_ne_zero] using hpos

theorem Counts.joined {s : Pool} {fs : List (Frame Pc)} {a b : Nat}
    (h : Counts s a b (fs.countP fun f => firstJoin f.pc)) {f : Frame Pc}
    (hf : f ∈ fs) (hpc : firstJoin f.pc = true) : s.joined = true := by
  have hpos : 0 < fs.countP fun f => firstJoin f.pc :=
    List.countP_pos_iff.mpr ⟨f, hf, hpc⟩
  simpa [Nat.pos_iff_ne_zero] using Nat.lt_of_lt_of_le hpos h.join

theorem invariant_exec {s s' : Pool} {t : Nat} {pc : Pc} {q : Option Pc}
    {l r : List (Frame Pc)} (h : Invariant s (l ++ ⟨t, pc⟩ :: r))
    (hstep : Step s pc s' q) :
    Invariant s' (l ++ q.toList.map (Frame.mk t) ++ r) := by
  obtain ⟨hcounts, hpositive, hdrained, hsleeping⟩ := h
  have hcritical : (l ++ ⟨t, pc⟩ :: r).countP (fun f => inCritical f.pc) ≤ 1 :=
    hcounts.mutex ▸ Bool.toNat_le _
  have hfirst : (l ++ ⟨t, pc⟩ :: r).countP (fun f => firstJoin f.pc) ≤ 1 :=
    Nat.le_trans hcounts.join (Bool.toNat_le _)
  obtain ⟨hposRest, hposPc⟩ := forall_split.mp hpositive
  obtain ⟨hsleepRest, hsleepPc⟩ := forall_split.mp hsleeping
  constructor
  · rw [countP_replace, countP_replace, countP_replace]
    rw [countP_split, countP_split, countP_split] at hcounts
    exact hcounts.step hstep
  · refine forall_replace.mpr ⟨?_, ?_⟩
    · intro f hf hread
      have hold := hposRest f hf hread
      rcases hstep.work with hsame | ⟨rfl, -⟩ | ⟨hpos, -⟩
      · omega
      · have hrest := rest_of_countP_le_one hcritical rfl f hf
        revert hrest hread
        cases f.pc <;> simp [inCritical, readPositive]
      · exact hpos
    · exact fun pc' hq hread => hstep.reads hq hread
  · intro hjoined hstop hzero
    rcases hstep.drained hposPc hjoined hstop hzero with
      ⟨pc', rfl, htests⟩ | ⟨hj, hs, hz, hpc⟩
    · exact ⟨⟨t, pc'⟩, mem_replace.mpr (.inr ⟨pc', rfl, rfl⟩), htests⟩
    · obtain ⟨f, hf, htests⟩ := hdrained hj hs hz
      rcases mem_split.mp hf with hf | rfl
      · exact ⟨f, mem_replace.mpr (.inl hf), htests⟩
      · simp [hpc] at htests
  · refine forall_replace.mpr ⟨?_, ?_⟩
    · intro f hf hsleep hstop
      rcases hstep.signal with hboth | ⟨hsame, hnot⟩ | ⟨hpc, -⟩
      · exact hboth hstop
      · rw [hnot]
        exact hsleepRest f hf hsleep (hsame ▸ hstop)
      · have hrest := rest_of_countP_le_one hfirst hpc f hf
        simp [hsleep, firstJoin] at hrest
    · rintro pc' hq rfl hstop
      simp [hstep.sleeps hq] at hstop

theorem enter_frame {s s' : Pool} {e : Entry} {q : Option Pc}
    (henter : enter s e = some (s', q)) :
    s'.joined = s.joined ∧ s'.stop = s.stop ∧ s'.notified = s.notified ∧
      s.outstandingWork ≤ s'.outstandingWork ∧
      ∀ pc, q = some pc → readPositive pc = false ∧ pc ≠ .joinSleep := by
  cases e <;> simp only [enter, Option.ite_none_right_eq_some, Option.some.injEq,
    Prod.mk.injEq] at henter <;> grind [readPositive]

theorem invariant_enter {s s' : Pool} {fs : List (Frame Pc)} {t : Nat} {e : Entry}
    {q : Option Pc} (h : Invariant s fs)
    (henter : enter s e = some (s', q)) :
    Invariant s' (q.toList.map (Frame.mk t) ++ fs) := by
  obtain ⟨hcounts, hpositive, hdrained, hsleeping⟩ := h
  obtain ⟨hj, hs, hn, hw, hq⟩ := enter_frame henter
  constructor
  · rw [countP_enter, countP_enter, countP_enter]
    exact hcounts.enter henter
  · refine forall_enter.mpr ⟨?_, ?_⟩
    · intro f hf hread
      exact Nat.lt_of_lt_of_le (hpositive f hf hread) hw
    · intro pc hpc hread
      simp [(hq pc hpc).1] at hread
  · intro hjoined hstop hzero
    obtain ⟨f, hf, htests⟩ := hdrained (hj ▸ hjoined) (hs ▸ hstop) (by omega)
    exact ⟨f, mem_enter.mpr (.inl hf), htests⟩
  · rw [hs, hn]
    refine forall_enter.mpr ⟨hsleeping, ?_⟩
    intro pc hpc hsleep
    exact absurd hsleep (hq pc hpc).2

theorem invariant_reachable {s : State Pool Pc} (h : Reachable s) :
    Invariant s.shared s.frames := by
  have hpreserves : machine.Preserves (fun _ _ => true) Invariant := by
    apply Machine.Preserves.ofSteps
    · intro s l t pc r c s' q hI _ _ _ hexec
      exact invariant_exec hI (exec_step hexec)
    · intro s fs t a s' q hI _ _ _ henter
      exact invariant_enter hI henter
  refine hpreserves.reachable (by rintro _ rfl; rfl) ?_ h
  rintro _ rfl
  exact ⟨⟨rfl, rfl, Nat.zero_le _⟩, by simp, by simp [newPool], by simp⟩

/-- In every state that any run of the pool reaches, the counter is positive
while an `on_work_finished` has still to lower it; a step that takes it from
one to zero is the locked decrement; `join()` and `on_work_finished` set
`stop_` only in a critical section, after reading zero, with `joined_` set; and
a joined pool at zero with no critical section in progress is stopped, with a
sleeping `join()` notified. -/
theorem work_counting {s : State Pool Pc} (h : Reachable s) :
    (∀ f ∈ s.frames, undecremented f.pc = true → 0 < s.shared.outstandingWork) ∧
    (∀ e s', machine.step s e = some s' →
      s.shared.outstandingWork = 1 → s'.shared.outstandingWork = 0 →
      ∃ t c, e = .run t c ∧ topPc t s.frames = some .finishSub ∧
        s.shared.mutex = true) ∧
    (∀ e s', machine.step s e = some s' →
      s.shared.stop = false → s'.shared.stop = true →
      ∃ t c, e = .run t c ∧ (topPc t s.frames = some .stopLock ∨
        (topPc t s.frames = some (.finishTest 0) ∨
          topPc t s.frames = some (.joinTest 0)) ∧
          s.shared.mutex = true ∧ s.shared.joined = true)) ∧
    (s.shared.joined = true → s.shared.outstandingWork = 0 →
      (∀ f ∈ s.frames, inCritical f.pc = false) →
      s.shared.stop = true ∧
        ∀ f ∈ s.frames, f.pc = .joinSleep → s.shared.notified = true) := by
  obtain ⟨hcounts, -, hdrained, hsleeping⟩ := invariant_reachable h
  refine ⟨fun f hf hpc => hcounts.work_pos hf hpc, ?_, ?_, ?_⟩
  · intro e s' hstep hone hzero
    rcases Machine.ofSteps_step_cases hstep with
      ⟨t, c, l, pc, r, q, rfl, hfs, hl, hexec, -⟩ | ⟨t, a, q, rfl, henter, -⟩
    · have hmem : (⟨t, pc⟩ : Frame Pc) ∈ s.frames := by simp [hfs]
      rcases (exec_step hexec).work with hsame | ⟨rfl, -⟩ | ⟨hpos, -⟩
      · omega
      · exact ⟨t, c, rfl, hfs ▸ topPc_append hl, hcounts.mutex_held hmem rfl⟩
      · omega
    · obtain ⟨-, -, -, hw, -⟩ := enter_frame henter
      omega
  · intro e s' hstep hold hnew
    rcases Machine.ofSteps_step_cases hstep with
      ⟨t, c, l, pc, r, q, rfl, hfs, hl, hexec, -⟩ | ⟨t, a, q, rfl, henter, -⟩
    · have hmem : (⟨t, pc⟩ : Frame Pc) ∈ s.frames := by simp [hfs]
      have htop : topPc t s.frames = some pc := hfs ▸ topPc_append hl
      refine ⟨t, c, rfl, ?_⟩
      rcases (exec_step hexec).sets_stop hold hnew with rfl | ⟨rfl, hj⟩ | rfl
      · exact .inl htop
      · exact .inr ⟨.inl htop, hcounts.mutex_held hmem rfl, hj⟩
      · exact .inr ⟨.inr htop, hcounts.mutex_held hmem rfl, hcounts.joined hmem rfl⟩
    · obtain ⟨-, hs, -⟩ := enter_frame henter
      simp [hs, hold] at hnew
  · intro hjoined hzero hcritical
    have hstop : s.shared.stop = true := by
      by_contra hstop
      obtain ⟨f, hf, htests⟩ := hdrained hjoined (by simpa using hstop) hzero
      have hfree := hcritical f hf
      revert hfree htests
      cases f.pc <;> simp [inCritical, testsZero]
    exact ⟨hstop, fun f hf hsleep => hsleeping f hf hsleep hstop⟩

theorem reachable_of_runEvents (es : List (Event Bool Entry)) {s : State Pool Pc}
    (h : machine.runEvents ⟨newPool, []⟩ es = some s) : Reachable s := by
  have hinit : Reachable ⟨newPool, []⟩ := .init rfl
  exact hinit.runWhen es h

/-- A `join()` sleeps while one unit of work is outstanding, and the finish of
that unit is about to lower the counter. -/
def joinSleepsRun : List (Event Bool Entry) :=
  [.enter 0 .onWorkStarted, .enter 1 .join, .run 1 false, .run 1 false, .run 1 false,
    .run 1 false, .run 1 false, .enter 0 .onWorkFinished, .run 0 false, .run 0 false,
    .run 0 false]

def joinSleepsState : State Pool Pc :=
  ⟨⟨1, true, false, true, false, 0⟩, [⟨0, .finishSub⟩, ⟨1, .joinSleep⟩]⟩

theorem work_counting_joinSleeps :
    Reachable joinSleepsState ∧ 0 < joinSleepsState.shared.outstandingWork := by
  have hreach : Reachable joinSleepsState := reachable_of_runEvents joinSleepsRun rfl
  exact ⟨hreach, (work_counting hreach).1 ⟨0, .finishSub⟩ (by decide) rfl⟩

end Capy.ThreadPoolWork
