import Capy.AsyncMutexLock

namespace Capy.AsyncMutex

open Capy.CallStack

/-- The coroutines that own the lock: those that got it and have not called
`unlock()`, and the one it has been handed to. -/
def owners (s : Mutex) : List Nat :=
  s.holders ++ if s.alive then s.grantedTo.toList else []

/-- The activation is a call of `unlock()`. -/
def Pc.unlocks : Pc → Bool
  | .unlock | .grantNext | .unlockPosting => true
  | _ => false

/-- The awaiter is in the queue for the next `unlock()` or `~async_mutex`, or a
stop callback is about to post it. -/
def Pending (s : State Mutex Pc) (w : Nat) : Prop :=
  (w ∈ s.shared.waiters ∧ (s.shared.awaiter w).claimed = false) ∨
    ∃ f ∈ s.frames, f.pc.marks w = true

section Reachable

variable {quitter : Nat → Bool} {s : State Mutex Pc}

theorem owners_length (h : Reachable quitter s) : (owners s.shared).length ≤ 1 := by
  have hlock := (invariant_reachable h).lock
  unfold owners
  cases halive : s.shared.alive with
  | true =>
      have hle := hlock.token_le halive
      cases hto : s.shared.grantedTo <;>
        simp only [hto, if_true, Option.toList, Option.isSome, Bool.toNat_true,
          Bool.toNat_false, List.length_append, List.length_nil,
          List.length_singleton] at hle ⊢ <;> omega
  | false => simp [(hlock.drained halive).1]

theorem owners_of_unlocked (h : Reachable quitter s) (halive : s.shared.alive = true)
    (hfree : s.shared.locked = false) :
    owners s.shared = [] ∧ s.shared.waiters = [] := by
  have hlock := (invariant_reachable h).lock
  have htoken := hlock.token halive
  rw [hfree, Bool.toNat_false] at htoken
  refine ⟨?_, ?_⟩
  · have hholders : s.shared.holders = [] := List.eq_nil_of_length_eq_zero (by omega)
    cases hto : s.shared.grantedTo with
    | none => simp [owners, hholders, hto]
    | some w => simp [hto] at htoken
  · by_contra hne
    simp [hlock.waiting halive hne] at hfree

theorem posts_count_le (h : Reachable quitter s) (w : Nat) :
    s.shared.posts.count w ≤ 1 := by
  have hposts := ((invariant_reachable h).sound w).posts
  have hle : (view s.shared w).claimed.toNat ≤ 1 := Bool.toNat_le _
  simp only [view] at hposts hle
  omega

theorem posted_or_pending (h : Reachable quitter s) {w : Nat} (hw : w ∈ s.shared.enqueued)
    (hlive : (s.shared.awaiter w).phase ≠ .destroyed) :
    s.shared.posts.count w = 1 ∨ Pending s w := by
  have hsound := (invariant_reachable h).sound w
  have hposts := hsound.posts
  cases hc : (s.shared.awaiter w).claimed with
  | false =>
      obtain ⟨hq, -⟩ := hsound.pending (decide_eq_true hw) hc hlive
      exact .inr (.inl ⟨of_decide_eq_true hq, hc⟩)
  | true =>
      simp only [view, hc, Bool.toNat_true] at hposts
      by_cases hm : s.frames.countP (fun f => f.pc.marks w) = 0
      · exact .inl (by omega)
      · exact .inr (.inr (List.countP_pos_iff.mp (Nat.pos_of_ne_zero hm)))

theorem not_pending_of_destroyed (h : Reachable quitter s)
    (hdead : s.shared.alive = false) (hframes : s.frames = []) (w : Nat) :
    ¬ Pending s w := by
  have hdrained := ((invariant_reachable h).lock.drained hdead).2
  rintro (⟨hw, -⟩ | ⟨f, hf, -⟩)
  · have hne : s.shared.waiters ≠ [] := List.ne_nil_of_mem hw
    simpa [hframes] using hdrained hne
  · simp [hframes] at hf

/-- A lock that no `quitter` took away has an owner or is being handed on. -/
theorem owned_or_unlocking (h : Reachable quitter s) (hkept : s.shared.leaked = 0)
    (halive : s.shared.alive = true) (hlocked : s.shared.locked = true) :
    owners s.shared ≠ [] ∨ ∃ f ∈ s.frames, f.pc.unlocks = true := by
  have hlock := (invariant_reachable h).lock
  have htoken := hlock.token halive
  rw [hlocked, Bool.toNat_true, hkept] at htoken
  by_cases htransit : s.frames.countP (fun f => f.pc.inTransit) = 0
  · by_cases hagain : s.shared.again = true
    · right
      have hsome : s.shared.unlocking.isSome = true := by
        unfold Mutex.again at hagain
        cases hu : s.shared.unlocking <;> simp_all
      have hscope := hlock.scope halive
      rw [hsome, Bool.toNat_true] at hscope
      obtain ⟨f, hf, hpc⟩ := List.countP_pos_iff.mp (Nat.lt_of_lt_of_eq Nat.one_pos hscope.symm)
      refine ⟨f, hf, ?_⟩
      revert hpc
      cases f.pc <;> simp [Pc.inScope, Pc.unlocks]
    · left
      intro hnone
      simp only [owners, halive, if_true, List.append_eq_nil_iff] at hnone
      obtain ⟨hholders, hto⟩ := hnone
      cases hg : s.shared.grantedTo <;> simp_all
  · right
    obtain ⟨f, hf, hpc⟩ := List.countP_pos_iff.mp (Nat.pos_of_ne_zero htransit)
    refine ⟨f, hf, ?_⟩
    revert hpc
    cases f.pc <;> simp [Pc.inTransit, Pc.unlocks]

theorem result_iff (h : Reachable quitter s) {w : Nat} {ok : Bool}
    (hwaited : (s.shared.awaiter w).fast = false)
    (hresult : (s.shared.awaiter w).result = some ok) :
    ok = true ↔ w ∈ s.shared.grants ∧ w ∉ s.shared.revoked := by
  have hfinished := (((invariant_reachable h).sound w).finished ok hresult).2
  simpa [view, hwaited] using hfinished

end Reachable

/-- The step does not unwind a `quitter` that sees the stop request on resuming
from a `co_await` whose `await_ready` took the lock. -/
def keepsLock (quitter : Nat → Bool) (s : State Mutex Pc) : Event Unit Entry → Bool
  | .run t _ =>
      match topPc t s.frames with
      | some (.resume w) =>
          !(quitter w && (s.shared.awaiter w).stop && (s.shared.awaiter w).fast)
      | _ => true
  | .enter _ _ => true

theorem Step.leaked {quitter : Nat → Bool} {s s' : Mutex} {pc : Pc} {q : Option Pc}
    (hstep : Step quitter s pc s' q) :
    s'.leaked = s.leaked ∨ ∃ w, pc = .resume w ∧ quitter w = true ∧
      (s.awaiter w).stop = true ∧ (s.awaiter w).fast = true := by
  cases hstep <;> simp [callbackReturns, awaitResume, destroyAwaiter, *]
  all_goals split <;> rfl

theorem Entered.leaked {s s' : Mutex} {t : Nat} {e : Entry} {q : Option Pc}
    (henter : Entered s t e s' q) : s'.leaked = s.leaked := by
  cases henter <;> rfl

theorem leaked_eq_zero {quitter : Nat → Bool} {s : State Mutex Pc}
    (h : (machine quitter).ReachableWhen (keepsLock quitter) Initial s) :
    s.shared.leaked = 0 := by
  have hpreserves : (machine quitter).Preserves (keepsLock quitter)
      fun s _ => s.leaked = 0 := by
    apply Machine.Preserves.ofSteps
    · intro s l t pc r c s' q hI _ hl hok hexec
      rcases (exec_step hexec).leaked with hsame | ⟨w, rfl, hq, hstop, hfast⟩
      · exact hsame.trans hI
      · simp [keepsLock, topPc_append hl, hq, hstop, hfast] at hok
    · intro s fs t a s' q hI _ _ _ henter
      exact (enter_entered henter).leaked.trans hI
  refine hpreserves.reachableWhen initial_frames ?_ h
  rintro _ rfl
  rfl

theorem leaked_eq_zero_of_tasks {s : State Mutex Pc} (h : Reachable (fun _ => false) s) :
    s.shared.leaked = 0 := by
  have htasks : (machine fun _ => false).ReachableWhen (keepsLock fun _ => false) Initial s := by
    refine Machine.ReachableWhen.mono ?_ h
    intro s e _
    unfold keepsLock
    split
    · split <;> simp
    · rfl
  exact leaked_eq_zero htasks

/-- In every state that any run of an `async_mutex` among tasks reaches: at
most one coroutine owns the lock; an unlocked mutex has no owner and no waiter;
a suspended waiter is posted at most once, and has been posted or will be unless
it is destroyed first; a wait that has completed succeeded if and only if the
lock was handed to it and `~async_mutex` did not take it back before it
resumed; the lock goes to waiters in the order they queued; and a locked mutex
has an owner or an `unlock()` in progress. -/
theorem async_mutex_lock {s : State Mutex Pc} (h : Reachable (fun _ => false) s) :
    (owners s.shared).length ≤ 1 ∧
    (s.shared.alive = true → s.shared.locked = false →
      owners s.shared = [] ∧ s.shared.waiters = []) ∧
    (∀ w, s.shared.posts.count w ≤ 1) ∧
    (∀ w ∈ s.shared.enqueued, (s.shared.awaiter w).phase ≠ .destroyed →
      (s.shared.posts.count w = 1 ∨ Pending s w) ∧
      (s.shared.alive = false → s.frames = [] → s.shared.posts.count w = 1)) ∧
    (∀ w ok, (s.shared.awaiter w).fast = false →
      (s.shared.awaiter w).result = some ok →
      (ok = true ↔ w ∈ s.shared.grants ∧ w ∉ s.shared.revoked)) ∧
    (s.shared.grants ++ s.shared.waiters).Sublist s.shared.enqueued ∧
    s.shared.enqueued.Nodup ∧
    (s.shared.alive = true → s.shared.locked = true →
      owners s.shared ≠ [] ∨ ∃ f ∈ s.frames, f.pc.unlocks = true) := by
  have hfifo := (invariant_reachable h).fifo
  refine ⟨owners_length h, owners_of_unlocked h, posts_count_le h, ?_,
    fun w ok => result_iff h, hfifo.order, hfifo.nodup,
    owned_or_unlocking h (leaked_eq_zero_of_tasks h)⟩
  intro w hw hlive
  have hposted := posted_or_pending h hw hlive
  refine ⟨hposted, fun hdead hframes => ?_⟩
  exact hposted.resolve_right (not_pending_of_destroyed h hdead hframes w)

theorem reachable_of_runEvents (quitter : Nat → Bool) (es : List (Event Unit Entry))
    {s : State Mutex Pc} (h : (machine quitter).runEvents ⟨{}, []⟩ es = some s) :
    Reachable quitter s := by
  have hinit : Reachable quitter ⟨{}, []⟩ := .init rfl
  exact hinit.runWhen es h

/-- Coroutine 0 takes the lock, coroutine 1 waits, 0 unlocks and 1 is granted
the lock and posted. -/
def grantRun : List (Event Unit Entry) :=
  [.enter 0 (.lock 0), .run 0 (), .enter 0 (.lock 1), .run 0 (), .run 0 (),
    .enter 0 (.unlock 0), .run 0 (), .run 0 ()]

/-- The mutex of `grantRun` is destroyed before coroutine 1 resumes. -/
def revokeRun : List (Event Unit Entry) :=
  grantRun ++ [.run 0 (), .enter 0 .destroyMutex, .run 0 (), .enter 0 (.resume 1),
    .run 0 ()]

theorem async_mutex_lock_grantRun :
    ∃ s, (machine fun _ => false).runEvents ⟨{}, []⟩ grantRun = some s ∧
      owners s.shared = [1] ∧ (owners s.shared).length ≤ 1 :=
  ⟨_, rfl, rfl, (async_mutex_lock (reachable_of_runEvents _ grantRun rfl)).1⟩

theorem granted_wait_canceled :
    ¬ ∀ s, Reachable (fun _ => false) s → ∀ w ok, (s.shared.awaiter w).fast = false →
      (s.shared.awaiter w).result = some ok → (ok = true ↔ w ∈ s.shared.grants) := by
  intro hall
  have hw := hall _ (reachable_of_runEvents _ revokeRun rfl) 1 false rfl rfl
  revert hw
  decide

/-- In every state of every run whose steps all meet `keepsLock`, a mutex that no
coroutine holds or waits for, with no `unlock()` in progress, is unlocked. -/
theorem quitter_releases_lock {quitter : Nat → Bool} {s : State Mutex Pc}
    (h : (machine quitter).ReachableWhen (keepsLock quitter) Initial s)
    (halive : s.shared.alive = true) (hholders : s.shared.holders = [])
    (hwaiting : ∀ w, (s.shared.awaiter w).phase ≠ .suspended)
    (hunlocks : ∀ f ∈ s.frames, f.pc.unlocks = false) : s.shared.locked = false := by
  have hreach : Reachable quitter s := h.reachable
  by_contra hlocked
  rcases owned_or_unlocking hreach (leaked_eq_zero h) halive (by simpa using hlocked) with
    howned | ⟨f, hf, hpc⟩
  · obtain ⟨w, hto⟩ : ∃ w, s.shared.grantedTo = some w := by
      rw [← Option.isSome_iff_exists]
      by_contra hnone
      simp_all [owners]
    have hinv := invariant_reachable hreach
    obtain ⟨hg, hp⟩ := (hinv.grantee w).mp ⟨halive, hto⟩
    exact hwaiting w ((hinv.sound w).granted hg hp).1
  · simp [hunlocks f hf] at hpc

/-- A `quitter` is granted the lock by `unlock()`, sees the stop request when it
resumes, and its awaiter's destructor releases the lock. -/
def unwindRun : List (Event Unit Entry) :=
  grantRun ++ [.run 0 (), .enter 1 (.requestStop 1), .enter 1 (.stopCallback 1),
    .run 1 (), .enter 0 (.resume 1), .run 0 (), .run 0 (), .run 0 (), .run 0 ()]

theorem quitter_releases_lock_unwindRun :
    ∃ s, (machine fun _ => true).runWhen (keepsLock fun _ => true) ⟨{}, []⟩ unwindRun =
      some s ∧ s.shared.grants = [1] ∧ s.shared.locked = false := by
  refine ⟨_, rfl, rfl, ?_⟩
  have hinit : (machine fun _ => true).ReachableWhen (keepsLock fun _ => true) Initial
      ⟨{}, []⟩ := .init rfl
  refine quitter_releases_lock (hinit.runWhen unwindRun rfl) rfl rfl ?_ ?_
  · rintro (_ | _ | w) <;> exact nofun
  · decide

/-- A `quitter` whose stop has been requested takes a free mutex in
`await_ready` and is unwound by the stop sentinel. -/
def leakRun : List (Event Unit Entry) :=
  [.enter 1 (.requestStop 0), .enter 0 (.lock 0), .run 0 (), .run 0 ()]

theorem quitter_leaks_lock :
    ¬ ∀ quitter s, Reachable quitter s → s.shared.alive = true → s.shared.holders = [] →
      (∀ w, (s.shared.awaiter w).phase ≠ .suspended) →
      (∀ f ∈ s.frames, f.pc.unlocks = false) → s.shared.locked = false := by
  intro hall
  have hfree := hall (fun _ => true) _ (reachable_of_runEvents _ leakRun rfl) rfl rfl
    (by rintro (_ | w) <;> exact nofun) (by decide)
  exact nomatch hfree

end Capy.AsyncMutex
