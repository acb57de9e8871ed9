import Capy.ThreadPool

namespace Capy.ThreadPool

open Capy.CallStack
open Capy.IntrusiveQueue

/-- The continuation that a call of `post` has not pushed yet. -/
def posting : Pc → Option Nat
  | .post c | .postStopped c | .ensureStarted c | .postPush c => some c
  | _ => none

/-- The continuation that a worker has taken and not resumed yet. -/
def resuming : Pc → Option Nat
  | .runResume c => some c
  | _ => none

/-- The continuation that a drain has popped and not given up yet. -/
def abandoning : Pc → Option Nat
  | .drainAbandon c _ => some c
  | _ => none

/-- Whether the activation holds `x` in the way `held` says. -/
def holds (held : Pc → Option Nat) (x : Nat) (pc : Pc) : Nat := (held pc).toList.count x

/-- The posts of `x`, with the numbers of activations that hold it: every post
throws or pushes, what workers take they resume, what drains pop they give up,
and at most one post has not ended so. -/
structure Counts (x : Nat) (s : Pool) (posts resumes abandons : Nat) : Prop where
  submitted : s.submitted.count x = s.thrown.count x + s.posted.count x + posts
  taken : s.taken.count x = s.resumed.count x + resumes
  drained : s.drained.count x = s.abandoned.count x + s.skipped.count x + abandons
  pending : s.submitted.count x ≤
    s.thrown.count x + s.resumed.count x + s.abandoned.count x + s.skipped.count x + 1

/-- The activation is of the destructor, after its `stop()`. -/
def closes : Pc → Bool
  | .work _ .destructor | .shutdown | .drain _ | .drainAbandon _ _ => true
  | .abandoning _ _ | .destroy => true
  | _ => false

/-- The activation has found the threads started or the pool stopped. -/
def pushes : Pc → Bool
  | .postPush _ => true
  | _ => false

/-- What the pool's fields say of its threads and its queue. -/
structure Threads (s : Pool) : Prop where
  positive : 0 < s.numThreads
  bounded : s.threads ≤ s.numThreads
  all : s.started = true → s.threads = s.numThreads
  posted : s.posted ≠ [] → s.started = true ∨ s.work.stop = true
  drained : s.drained ≠ [] → s.work.stop = true
  exited : s.exited ≠ 0 → s.work.stop = true

/-- The pushed continuations are those taken, then those drained, then those in
the queue. -/
def Queued (s : Pool) (queued : List Nat) : Prop :=
  Represents s.queue queued ∧ s.posted = s.taken ++ s.drained ++ queued

/-- What every run of the pool keeps. -/
structure Fate (idle : Nat → Bool) (s : Pool) (fs : List (Frame Pc)) : Prop where
  queued : ∃ queued, Queued s queued
  counts : ∀ x, Counts x s (total (holds posting x) fs) (total (holds resuming x) fs)
    (total (holds abandoning x) fs)
  skipped : ∀ x ∈ s.skipped, idle x = true
  threads : Threads s
  closes : ∀ f ∈ fs, closes f.pc = true → s.work.stop = true
  pushes : ∀ f ∈ fs, pushes f.pc = true → s.started = true ∨ s.work.stop = true

theorem work_stop {s s' : ThreadPoolWork.Pool} {pc : ThreadPoolWork.Pc}
    {q : Option ThreadPoolWork.Pc} (hstep : ThreadPoolWork.Step s pc s' q)
    (h : s.stop = true) : s'.stop = true := by
  cases hstep <;> first | exact h | rfl

theorem work_stopLock {s s' : ThreadPoolWork.Pool} {q : Option ThreadPoolWork.Pc}
    (hstep : ThreadPoolWork.Step s .stopLock s' q) : s'.stop = true := by
  cases hstep
  rfl

theorem elim_work_holds {held : Pc → Option Nat}
    (hwork : ∀ pc caller, held (.work pc caller) = none) (hshut : held .shutdown = none)
    (x : Nat) (q : Option ThreadPoolWork.Pc) (caller : Caller) :
    (q.elim caller.next fun pc' => some (.work pc' caller)).elim 0 (holds held x) = 0 := by
  cases q <;> cases caller <;> simp [Caller.next, holds, hwork, hshut]

section Step

variable {idle : Nat → Bool} {s s' : Pool} {pc : Pc} {q : Option Pc}
  (hstep : Step idle s pc s' q)

include hstep

theorem Step.mono :
    (s.work.stop = true → s'.work.stop = true) ∧
      (s.started = true → s'.started = true) := by
  cases hstep with
  | work _ hwork => exact ⟨work_stop hwork, id⟩
  | stop hwork => exact ⟨work_stop hwork, id⟩
  | startAll => exact ⟨id, fun _ => rfl⟩
  | _ => exact ⟨id, id⟩

/-- A worker takes the oldest continuation of the queue of a running pool. -/
theorem Step.takes :
    s'.taken = s.taken ∨
      ∃ c, pc = .run ∧ s.work.stop = false ∧ s.queue.pop = (s'.queue, some c) ∧
        s'.taken = s.taken ++ [c] := by
  cases hstep with
  | take hstop hpop => exact .inr ⟨_, rfl, hstop, hpop, rfl⟩
  | _ => exact .inl rfl

/-- A step of a `post` that has not pushed its continuation pushes it and
returns, or leaves the queue as it is. -/
theorem Step.posts {c : Nat} (hpc : posting pc = some c) :
    (s' = s.push c ∧ q = none) ∨
      (s'.queue = s.queue ∧ s'.posted = s.posted ∧
        (s'.thrown = s.thrown ++ [c] ∧ q = none ∨
          s'.thrown = s.thrown ∧ ∃ pc', q = some pc' ∧ posting pc' = some c)) := by
  cases hstep <;> simp_all [posting]

theorem Step.queue {queued : List Nat} (h : Queued s queued)
    (hfresh : ∀ c, posting pc = some c → c ∉ queued)
    (hdrained : s.work.stop = false → s.drained = []) : ∃ queued', Queued s' queued' := by
  obtain ⟨hq, hposted⟩ := h
  cases hstep with
  | pushStopped | push =>
      refine ⟨queued ++ [_], hq.push (hfresh _ rfl), ?_⟩
      simp [Pool.push, hposted]
  | take hstop hpop =>
      obtain ⟨rest, rfl, hrest⟩ := hq.of_pop hpop
      refine ⟨rest, hrest, ?_⟩
      simp [hposted, hdrained hstop]
  | drainTake hpop =>
      obtain ⟨rest, rfl, hrest⟩ := hq.of_pop hpop
      refine ⟨rest, hrest, ?_⟩
      simp [hposted]
  | _ => exact ⟨queued, hq, hposted⟩

theorem Step.threads (h : Threads s)
    (hpush : pushes pc = true → s.started = true ∨ s.work.stop = true)
    (hclose : closes pc = true → s.work.stop = true) : Threads s' := by
  obtain ⟨hpos, hle, hall, hposted, hdrained, hexited⟩ := h
  cases hstep with
  | work _ hwork =>
      exact ⟨hpos, hle, hall, fun hne => (hposted hne).imp_right (work_stop hwork),
        fun hne => work_stop hwork (hdrained hne), fun hne => work_stop hwork (hexited hne)⟩
  | stop hwork =>
      exact ⟨hpos, hle, hall, fun hne => (hposted hne).imp_right (work_stop hwork),
        fun hne => work_stop hwork (hdrained hne), fun hne => work_stop hwork (hexited hne)⟩
  | pushStopped hstop => exact ⟨hpos, hle, hall, fun _ => .inr hstop, hdrained, hexited⟩
  | push => exact ⟨hpos, hle, hall, fun _ => hpush rfl, hdrained, hexited⟩
  | startThrows hstarted hk =>
      refine ⟨hpos, Nat.le_of_lt hk, ?_, hposted, hdrained, hexited⟩
      intro hs
      simp [hstarted] at hs
  | startAll =>
      have hmax : max s.threads s.numThreads = s.numThreads := by omega
      exact ⟨hpos, Nat.le_of_eq hmax, fun _ => hmax, fun _ => .inl rfl, hdrained, hexited⟩
  | exit hstop => exact ⟨hpos, hle, hall, hposted, hdrained, fun _ => hstop⟩
  | drainTake => exact ⟨hpos, hle, hall, hposted, fun _ => hclose rfl, hexited⟩
  | _ => exact ⟨hpos, hle, hall, hposted, hdrained, hexited⟩

theorem Step.closing (hclose : closes pc = true → s.work.stop = true) {pc' : Pc}
    (hq : q = some pc') (hpc' : closes pc' = true) : s'.work.stop = true := by
  cases hstep with
  | @work pc caller w q _ hwork =>
      cases caller with
      | user =>
          cases q with
          | none => simp [Caller.next] at hq
          | some pc'' =>
              obtain rfl : Pc.work pc'' .user = pc' := by simpa using hq
              simp [closes] at hpc'
      | destructor => exact work_stop hwork (hclose rfl)
  | stop hwork => exact work_stopLock hwork
  | shutdown | drained | drainTake | skip | abandon | abandoned | destroy => exact hclose rfl
  | _ => simp at hq <;> subst hq <;> simp [closes] at hpc'

theorem Step.pushing {pc' : Pc} (hq : q = some pc') (hpc' : pushes pc' = true) :
    s'.started = true ∨ s'.work.stop = true := by
  cases hstep with
  | @work pc caller w q _ hwork =>
      cases q <;> cases caller <;> simp [Caller.next] at hq <;> subst hq <;>
        simp [pushes] at hpc'
  | postStarted hs => exact .inl hs
  | startNone hs => exact hs
  | startAll => exact .inl rfl
  | @drained last q _ hlast =>
      cases last <;> simp [hlast] at hq
      subst hq
      simp [pushes] at hpc'
  | _ => simp at hq <;> subst hq <;> simp [pushes] at hpc'

theorem Step.skips : s'.skipped = s.skipped ∨
    ∃ c, idle c = true ∧ s'.skipped = s.skipped ++ [c] := by
  cases hstep with
  | skip hidle => exact .inr ⟨_, hidle, rfl⟩
  | _ => exact .inl rfl

theorem Counts.step {x a b c : Nat}
    (h : Counts x s (a + holds posting x pc) (b + holds resuming x pc)
      (c + holds abandoning x pc)) :
    Counts x s' (a + q.elim 0 (holds posting x)) (b + q.elim 0 (holds resuming x))
      (c + q.elim 0 (holds abandoning x)) := by
  obtain ⟨hsubmitted, htaken, hdrained, hpending⟩ := h
  cases hstep with
  | work =>
      rw [elim_work_holds (fun _ _ => rfl) rfl, elim_work_holds (fun _ _ => rfl) rfl,
        elim_work_holds (fun _ _ => rfl) rfl]
      exact ⟨hsubmitted, htaken, hdrained, hpending⟩
  | @drained last q _ hlast =>
      subst hlast
      cases last <;> exact ⟨hsubmitted, htaken, hdrained, hpending⟩
  | _ =>
      constructor <;>
        simp only [holds, posting, resuming, abandoning, Pool.push, Option.elim,
          Option.toList_some, Option.toList_none, List.count_append, List.count_nil]
          at hsubmitted htaken hdrained hpending ⊢ <;>
        omega

end Step

theorem Counts.not_queued {s : Pool} {x n r a : Nat} {queued : List Nat}
    (h : Counts x s n r a) (hqueued : Queued s queued) (hn : 0 < n) : x ∉ queued := by
  have hposted : s.posted.count x = s.taken.count x + s.drained.count x + queued.count x := by
    rw [hqueued.2, List.count_append, List.count_append]
  have := h.submitted
  have := h.taken
  have := h.drained
  have := h.pending
  exact List.count_eq_zero.mp (by omega)

theorem Fate.exec {idle : Nat → Bool} {s s' : Pool} {t : Nat} {pc : Pc} {q : Option Pc}
    {l r : List (Frame Pc)} (h : Fate idle s (l ++ ⟨t, pc⟩ :: r))
    (hstep : Step idle s pc s' q) : Fate idle s' (l ++ q.toList.map (Frame.mk t) ++ r) := by
  obtain ⟨⟨queued, hqueued⟩, hcounts, hskipped, hthreads, hcloses, hpushes⟩ := h
  obtain ⟨hclosesRest, hclosesPc⟩ := forall_split.mp hcloses
  obtain ⟨hpushesRest, hpushesPc⟩ := forall_split.mp hpushes
  obtain ⟨hstop, hstarted⟩ := hstep.mono
  refine ⟨hstep.queue hqueued ?_ ?_, ?_, ?_, hstep.threads hthreads hpushesPc hclosesPc,
    forall_replace.mpr ⟨?_, ?_⟩, forall_replace.mpr ⟨?_, ?_⟩⟩
  · intro c hpc
    refine (hcounts c).not_queued hqueued ?_
    rw [total_split, holds, hpc]
    simp
  · intro hrunning
    by_contra hne
    simp [hthreads.drained hne] at hrunning
  · intro x
    have hx := hcounts x
    rw [total_split, total_split, total_split] at hx
    rw [total_replace, total_replace, total_replace]
    exact hx.step hstep
  · intro x hx
    rcases hstep.skips with hsame | ⟨c, hidle, hnew⟩
    · exact hskipped x (hsame ▸ hx)
    · rw [hnew] at hx
      rcases List.mem_append.mp hx with hx | hx
      · exact hskipped x hx
      · rw [List.mem_singleton.mp hx]
        exact hidle
  · exact fun f hf hpc => hstop (hclosesRest f hf hpc)
  · exact fun pc' hq hpc' => hstep.closing hclosesPc hq hpc'
  · exact fun f hf hpc => (hpushesRest f hf hpc).imp hstarted hstop
  · exact fun pc' hq hpc' => hstep.pushing hq hpc'

theorem Counts.enter {s s' : Pool} {q : Option Pc} {x a b c : Nat} (h : Counts x s a b c)
    (henter : Entered s s' q) :
    Counts x s' (a + q.elim 0 (holds posting x)) (b + q.elim 0 (holds resuming x))
      (c + q.elim 0 (holds abandoning x)) := by
  obtain ⟨hsubmitted, htaken, hdrained, hpending⟩ := h
  cases henter with
  | @post c hsettled =>
      refine ⟨?_, htaken, hdrained, ?_⟩
      · simp only [holds, posting, Option.elim, Option.toList_some, List.count_append]
        omega
      · simp only [settled, decide_eq_true_eq] at hsettled
        simp only [List.count_append]
        -- a post of another continuation does not count for `x`
        by_cases hx : c = x
        · subst hx
          simp only [List.count_singleton_self]
          omega
        · rw [List.count_singleton, beq_eq_false_iff_ne.mpr hx]
          simpa using hpending
  | @work e w q =>
      cases q <;> exact ⟨hsubmitted, htaken, hdrained, hpending⟩
  | _ => exact ⟨hsubmitted, htaken, hdrained, hpending⟩

theorem Entered.frame {s s' : Pool} {q : Option Pc} (henter : Entered s s' q) :
    (∀ queued, Queued s queued → Queued s' queued) ∧ s'.taken = s.taken ∧
      s'.skipped = s.skipped ∧ (Threads s → Threads s') ∧ s'.started = s.started ∧
      s'.work.stop = s.work.stop ∧
      ∀ pc, q = some pc → closes pc = false ∧ pushes pc = false := by
  cases henter with
  | work hwork =>
      have hstop := (ThreadPoolWork.enter_frame hwork).2.1
      refine ⟨fun _ => id, rfl, rfl, ?_, rfl, hstop, ?_⟩
      · rintro ⟨hpos, hle, hall, hposted, hdrained, hexited⟩
        rw [← hstop] at hposted hdrained hexited
        exact ⟨hpos, hle, hall, hposted, hdrained, hexited⟩
      · intro pc hpc
        obtain ⟨pc', -, rfl⟩ := Option.map_eq_some_iff.mp hpc
        exact ⟨rfl, rfl⟩
  | post | startWorker | destroy =>
      refine ⟨fun _ => id, rfl, rfl, fun h => ⟨h.1, h.2, h.3, h.4, h.5, h.6⟩, rfl, rfl, ?_⟩
      rintro pc ⟨⟩
      exact ⟨rfl, rfl⟩
  | inWorker => exact ⟨fun _ => id, rfl, rfl, id, rfl, rfl, nofun⟩

theorem Fate.enter {idle : Nat → Bool} {s s' : Pool} {t : Nat} {q : Option Pc}
    {fs : List (Frame Pc)} (h : Fate idle s fs) (henter : Entered s s' q) :
    Fate idle s' (q.toList.map (Frame.mk t) ++ fs) := by
  obtain ⟨⟨queued, hqueued⟩, hcounts, hskipped, hthreads, hcloses, hpushes⟩ := h
  obtain ⟨hqueue, -, hskip, hthr, hstarted, hstop, hnew⟩ := henter.frame
  refine ⟨⟨queued, hqueue queued hqueued⟩, ?_, hskip ▸ hskipped, hthr hthreads,
    forall_enter.mpr ⟨?_, ?_⟩, forall_enter.mpr ⟨?_, ?_⟩⟩
  · intro x
    rw [total_enter, total_enter, total_enter]
    exact (hcounts x).enter henter
  · rw [hstop]
    exact hcloses
  · intro pc hq hpc
    simp [(hnew pc hq).1] at hpc
  · rw [hstarted, hstop]
    exact hpushes
  · intro pc hq hpc
    simp [(hnew pc hq).2] at hpc

theorem fate_reachable {idle : Nat → Bool} {s : State Pool Pc} (h : Reachable idle s) :
    Fate idle s.shared s.frames := by
  have hpreserves : (machine idle).Preserves (fun _ _ => true) (Fate idle) := by
    apply Machine.Preserves.ofSteps
    · intro s l t pc r c s' q hI _ _ _ hexec
      exact hI.exec (exec_step (Option.ite_none_left_eq_some.mp hexec).2)
    · intro s fs t a s' q hI _ _ _ henter
      exact hI.enter (enter_entered (Option.ite_none_left_eq_some.mp henter).2)
  refine hpreserves.reachable (by rintro _ ⟨n, hardware, rfl⟩; rfl) ?_ h
  rintro _ ⟨n, hardware, rfl⟩
  refine ⟨⟨[], represents_empty, rfl⟩, fun x => ⟨rfl, rfl, rfl, Nat.zero_le _⟩, by simp [newPool],
    ⟨?_, Nat.zero_le _, nofun, nofun, nofun, nofun⟩, by simp, by simp⟩
  simp only [newPool]
  split <;> omega

/-- In every state that any run of a pool reaches, for every choice of the
handles that are null or no-op: every pushed continuation is, by its place in the
order of the pushes, taken, drained or in the queue, in this order; what is taken
is resumed once or about to be, what is drained is abandoned once or about to be,
and at most one post of a continuation is still pending; every call of `post`
throws, pushes or goes on, and leaves the queue as it is until it pushes and
returns; a stopped pool stays stopped and takes nothing; and a queue that is not
empty in a running pool has all its threads started and none of them gone. -/
theorem thread_pool_exactly_once_fate {idle : Nat → Bool} {s : State Pool Pc}
    (h : Reachable idle s) :
    (∃ queued, Represents s.shared.queue queued ∧
      s.shared.posted = s.shared.taken ++ s.shared.drained ++ queued ∧
      (∀ x, queued.count x + total (holds resuming x) s.frames +
        total (holds abandoning x) s.frames ≤ 1) ∧
      (queued ≠ [] → s.shared.work.stop = false →
        0 < s.shared.numThreads ∧ s.shared.threads = s.shared.numThreads ∧
          s.shared.exited = 0)) ∧
    (∀ x, s.shared.taken.count x =
      s.shared.resumed.count x + total (holds resuming x) s.frames) ∧
    (∀ x, idle x = false → s.shared.drained.count x =
      s.shared.abandoned.count x + total (holds abandoning x) s.frames) ∧
    (∀ x, s.shared.submitted.count x = s.shared.thrown.count x +
      s.shared.posted.count x + total (holds posting x) s.frames) ∧
    (∀ t choice pc c s', topPc t s.frames = some pc → posting pc = some c →
      (machine idle).step s (.run t choice) = some s' →
      s'.shared = s.shared.push c ∨
        s'.shared.queue = s.shared.queue ∧ s'.shared.posted = s.shared.posted ∧
          (s'.shared.thrown = s.shared.thrown ++ [c] ∨
            s'.shared.thrown = s.shared.thrown ∧
              ∃ pc', topPc t s'.frames = some pc' ∧ posting pc' = some c)) ∧
    (∀ e s', (machine idle).step s e = some s' → s.shared.work.stop = true →
      s'.shared.work.stop = true ∧ s'.shared.taken = s.shared.taken) := by
  obtain ⟨⟨queued, hqueued⟩, hcounts, hskipped, hthreads, -, -⟩ := fate_reachable h
  refine ⟨⟨queued, hqueued.1, hqueued.2, ?_, ?_⟩, fun x => (hcounts x).taken, ?_,
    fun x => (hcounts x).submitted, ?_, ?_⟩
  · intro x
    have hposted : s.shared.posted.count x =
        s.shared.taken.count x + s.shared.drained.count x + queued.count x := by
      rw [hqueued.2, List.count_append, List.count_append]
    obtain ⟨hsubmitted, htaken, hdrained, hpending⟩ := hcounts x
    omega
  · intro hne hrunning
    have hposted : s.shared.posted ≠ [] := by
      rw [hqueued.2]
      exact List.append_ne_nil_of_right_ne_nil _ hne
    have hstarted : s.shared.started = true :=
      (hthreads.posted hposted).resolve_right (by simp [hrunning])
    refine ⟨hthreads.positive, hthreads.all hstarted, ?_⟩
    by_contra hexited
    simp [hthreads.exited hexited] at hrunning
  · intro x hidle
    have hzero : s.shared.skipped.count x = 0 := by
      refine List.count_eq_zero.mpr fun hx => ?_
      simp [hskipped x hx] at hidle
    rw [(hcounts x).drained, hzero, Nat.add_zero]
  · intro t choice pc c s' htop hpc hstep
    rcases Machine.ofSteps_step_cases hstep with
      ⟨t', choice', l, pc', r, q, heq, hfs, hl, hexec, hfs'⟩ | ⟨t', a, q, heq, -, -⟩
    · obtain ⟨rfl, rfl⟩ : t = t' ∧ choice = choice' := by simpa using heq
      obtain rfl : pc' = pc := by
        rw [hfs, topPc_append hl] at htop
        simpa using htop
      rcases (exec_step (Option.ite_none_left_eq_some.mp hexec).2).posts hpc with
        ⟨hpush, -⟩ | ⟨hqueue, hposted, ⟨hthrown, -⟩ | ⟨hthrown, pc'', rfl, hpc''⟩⟩
      · exact .inl hpush
      · exact .inr ⟨hqueue, hposted, .inl hthrown⟩
      · refine .inr ⟨hqueue, hposted, .inr ⟨hthrown, pc'', ?_, hpc''⟩⟩
        rw [hfs']
        simpa using topPc_append hl
    · simp at heq
  · intro e s' hstep hstop
    rcases Machine.ofSteps_step_cases hstep with
      ⟨t, choice, l, pc, r, q, -, -, -, hexec, -⟩ | ⟨t, a, q, -, henter, -⟩
    · have hstep' := exec_step (Option.ite_none_left_eq_some.mp hexec).2
      refine ⟨hstep'.mono.1 hstop, ?_⟩
      rcases hstep'.takes with hsame | ⟨c, -, hrunning, -⟩
      · exact hsame
      · simp [hstop] at hrunning
    · obtain ⟨-, htaken, -, -, -, hsame, -⟩ :=
        (enter_entered (Option.ite_none_left_eq_some.mp henter).2).frame
      exact ⟨hsame ▸ hstop, htaken⟩

theorem reachable_of_runEvents (idle : Nat → Bool) (n hardware : Nat)
    (es : List (Event Choice Entry)) {s : State Pool Pc}
    (h : (machine idle).runEvents ⟨newPool n hardware, []⟩ es = some s) :
    Reachable idle s := by
  have hinit : Reachable idle ⟨newPool n hardware, []⟩ := .init ⟨n, hardware, rfl⟩
  exact hinit.runWhen es h

/-- The first post starts one of two threads and throws; the second one starts
the missing thread and pushes, as does a third post; then a worker takes the
older continuation and resumes it, and another one takes the younger. -/
def lazyStartRun : List (Event Choice Entry) :=
  [.enter 0 (.post 7), .run 0 .proceed, .run 0 .proceed, .run 0 (.throws 1),
    .enter 0 (.post 7), .run 0 .proceed, .run 0 .proceed, .run 0 .proceed, .run 0 .proceed,
    .enter 0 (.post 8), .run 0 .proceed, .run 0 .proceed,
    .enter 1 .startWorker, .run 1 .proceed, .run 1 .proceed, .enter 2 .startWorker,
    .run 2 .proceed]

theorem thread_pool_exactly_once_fate_lazyStart :
    ∃ s, (machine fun _ => false).runEvents ⟨newPool 2 4, []⟩ lazyStartRun = some s ∧
      s.shared.thrown = [7] ∧ s.shared.posted = [7, 8] ∧ s.shared.taken = [7, 8] ∧
      s.shared.resumed = [7] ∧ s.shared.threads = 2 ∧ ∀ x,
        s.shared.taken.count x = s.shared.resumed.count x + total (holds resuming x) s.frames :=
  ⟨_, rfl, rfl, rfl, rfl, rfl, rfl, (thread_pool_exactly_once_fate
    (reachable_of_runEvents (fun _ => false) 2 4 lazyStartRun rfl)).2.1⟩

end Capy.ThreadPool
