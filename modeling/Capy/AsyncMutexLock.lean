import Capy.AsyncMutexAwaiter
import Mathlib.Data.List.Nodup

namespace Capy.AsyncMutex

open Capy.CallStack

/-- The activation has taken the lock back and not handed it on. -/
def Pc.inTransit : Pc → Bool
  | .unlock | .grantNext => true
  | _ => false

/-- The activation is an `unlock()` with a scope. -/
def Pc.inScope : Pc → Bool
  | .grantNext | .unlockPosting => true
  | _ => false

def Pc.destroys : Pc → Bool
  | .destroyLoop | .destroyPosting => true
  | _ => false

def Mutex.again (s : Mutex) : Bool := s.unlocking.elim false UnlockScope.again

/-- What the numbers of activations in transit, with a scope and in
`~async_mutex` say of the mutex. -/
structure LockOk (s : Mutex) (transit scopes destroying : Nat) : Prop where
  token : s.alive = true → s.holders.length + s.grantedTo.isSome.toNat + s.again.toNat +
    transit + s.leaked = s.locked.toNat
  scope : s.alive = true → scopes = s.unlocking.isSome.toNat
  scope_le : scopes ≤ s.unlocking.isSome.toNat
  gone : ∀ scope, s.unlocking = some scope → scope.gone = !s.alive
  waiting : s.alive = true → s.waiters ≠ [] → s.locked = true
  drained : s.alive = false → s.holders = [] ∧ (s.waiters ≠ [] → 0 < destroying)

/-- The awaiter that `granted_to_` points to is the one that has the flag. -/
def Grantee (s : Mutex) : Prop :=
  ∀ w, (s.alive = true ∧ s.grantedTo = some w) ↔
    (s.awaiter w).granted = true ∧ (s.awaiter w).phase ≠ .destroyed

theorem awaitResume_moves {s : Mutex} {w m : Nat} (hsound : Sound (view s w) m)
    (hgrantee : Grantee s) (hpc : PcOk s (.resume w)) :
    ((awaitResume s w).holders = s.holders ∧
      (awaitResume s w).grantedTo = s.grantedTo) ∨
    (s.alive = true ∧ s.grantedTo = some w ∧ (awaitResume s w).grantedTo = none ∧
      (awaitResume s w).holders = s.holders ++ [w]) := by
  obtain ⟨hr, hfast⟩ := hpc
  by_cases hg : (s.awaiter w).granted = true
  · right
    rcases hr with ⟨hp, -⟩ | ⟨hp, -⟩
    · have hlive : (view s w).phase ≠ .destroyed := by simp [hp]
      have hto := (hgrantee w).mpr ⟨hg, hlive⟩
      have hcan : (s.awaiter w).canceled = false := (hsound.granted hg hlive).2.1
      have hslow : (s.awaiter w).fast = false := hsound.not_fast (hsound.suspended hp)
      simp [awaitResume, hto, hg, hcan, hslow]
    · have hu := (hsound.unqueued (.inr hp)).2.2.2.1
      simp [view, hg] at hu
  · left
    have hstay : (s.awaiter w).canceled = true ∨ (s.awaiter w).fast = true := by
      rcases hr with ⟨hp, hpos⟩ | ⟨hp, hready⟩
      · rcases hsound.settled hpos hp with hset | hset
        · exact absurd hset hg
        · exact .inl hset
      · exact hready.symm
    rcases hstay with hstay | hstay <;> simp [awaitResume, hg, hstay]

theorem awaitResume_sublist (s : Mutex) (w : Nat) :
    (awaitResume s w).waiters.Sublist s.waiters := by
  simp only [awaitResume]
  split
  · exact List.erase_sublist
  · exact List.Sublist.refl _

theorem destroyAwaiter_sublist (s : Mutex) (w : Nat) :
    (destroyAwaiter s w).waiters.Sublist s.waiters := by
  simp only [destroyAwaiter]
  split
  · exact List.erase_sublist
  · exact List.Sublist.refl _

theorem LockOk.token_le {s : Mutex} {transit scopes destroying : Nat}
    (h : LockOk s transit scopes destroying) (halive : s.alive = true) :
    s.holders.length + s.grantedTo.isSome.toNat + s.again.toNat + transit + s.leaked ≤ 1 :=
  h.token halive ▸ Bool.toNat_le _

section LockMoves

variable {s : Mutex} {a b c : Nat}

theorem LockOk.resumeLeaks (h : LockOk s a b c) {w : Nat} (halive : s.alive = true)
    (hmem : w ∈ s.holders) :
    LockOk { s with holders := s.holders.erase w, leaked := s.leaked + 1 } a b c := by
  have hlen := List.length_erase_of_mem hmem
  have hpos := List.length_pos_of_mem hmem
  exact { h with
    token := fun ha => by
      have := h.token ha
      simp only [hlen, Mutex.again] at this ⊢
      omega
    drained := fun hdead => by simp [halive] at hdead }

theorem LockOk.resume (h : LockOk s a b c) {w m : Nat} (hw : Sound (view s w) m)
    (hgrantee : Grantee s) (hpc : PcOk s (.resume w)) : LockOk (awaitResume s w) a b c := by
  have hsub := awaitResume_sublist s w
  rcases awaitResume_moves hw hgrantee hpc with ⟨hh, hto⟩ | ⟨halive, hto, hto', hh⟩
  · exact { h with
      token := fun ha => by
        rw [hh, hto]
        exact h.token ha
      waiting := fun ha hne => h.waiting ha (ne_nil_of_sublist hsub hne)
      drained := fun hdead => by
        rw [hh]
        exact ⟨(h.drained hdead).1, fun hne =>
          (h.drained hdead).2 (ne_nil_of_sublist hsub hne)⟩ }
  · exact { h with
      token := fun ha => by
        have hold := h.token ha
        rw [hto', hh]
        simp only [awaitResume, Mutex.again, hto, Option.isSome, Bool.toNat_true,
          Bool.toNat_false, List.length_append, List.length_singleton] at hold ⊢
        omega
      waiting := fun ha hne => h.waiting ha (ne_nil_of_sublist hsub hne)
      drained := fun hdead => by simp [awaitResume, halive] at hdead }

theorem LockOk.dtorGranted (h : LockOk s a b c) {w : Nat}
    (hg : (s.awaiter w).granted = true) (halive : s.alive = true)
    (hto : s.grantedTo = some w) : LockOk (destroyAwaiter s w) (a + 1) b c := by
  have hsub := destroyAwaiter_sublist s w
  exact { h with
    token := fun ha => by
      have hold := h.token ha
      simp only [destroyAwaiter, Mutex.again, hg, if_true, hto, Option.isSome,
        Bool.toNat_true, Bool.toNat_false] at hold ⊢
      omega
    waiting := fun ha hne => h.waiting ha (ne_nil_of_sublist hsub hne)
    drained := fun hdead => by simp [destroyAwaiter, halive] at hdead }

theorem LockOk.dtor (h : LockOk s a b c) {w : Nat} (hg : (s.awaiter w).granted = false) :
    LockOk (destroyAwaiter s w) a b c := by
  have hsub := destroyAwaiter_sublist s w
  exact { h with
    token := fun ha => by simpa [destroyAwaiter, Mutex.again, hg] using h.token ha
    waiting := fun ha hne => h.waiting ha (ne_nil_of_sublist hsub hne)
    drained := fun hdead => ⟨(h.drained hdead).1, fun hne =>
      (h.drained hdead).2 (ne_nil_of_sublist hsub hne)⟩ }

theorem LockOk.unlockAgain (h : LockOk s (a + 1) b c) {scope : UnlockScope}
    (hscope : s.unlocking = some scope) (halive : s.alive = true) :
    LockOk { s with unlocking := some { scope with again := true } } a b c := by
  have hle := h.token_le halive
  have hgone := h.gone _ hscope
  exact { h with
    token := fun ha => by
      have := h.token ha
      simp only [Mutex.again, hscope, Option.elim, Bool.toNat_true] at this hle ⊢
      omega
    scope := fun ha => by simpa [hscope] using h.scope ha
    scope_le := by simpa [hscope] using h.scope_le
    gone := by
      rintro _ ⟨⟩
      exact hgone }

theorem LockOk.unlock (h : LockOk s a b c) (hscope : s.unlocking = none)
    (halive : s.alive = true) :
    LockOk { s with unlocking := some ⟨false, false⟩ } a (b + 1) c where
  token ha := by simpa [Mutex.again, hscope] using h.token ha
  scope ha := by simpa [hscope] using h.scope ha
  scope_le := by simpa [hscope] using h.scope_le
  gone := by
    rintro _ ⟨⟩
    simp [halive]
  waiting := h.waiting
  drained := h.drained

theorem LockOk.grants (h : LockOk s (a + 1) b c) {w : Nat} {rest : List Nat}
    (halive : s.alive = true) (hw : s.waiters = w :: rest) :
    LockOk { popFront s w rest with
      awaiter := (popFront s w rest).update w fun a => { a with granted := true }
      grantedTo := some w
      grants := s.grants ++ [w]
      posts := s.posts ++ [w] } a b c := by
  have hle := h.token_le halive
  exact { h with
    token := fun ha => by
      have := h.token ha
      cases hto : s.grantedTo <;>
        simp only [Mutex.again, hto, Option.isSome, Bool.toNat_true,
          Bool.toNat_false] at this hle ⊢ <;> omega
    waiting := fun ha _ => h.waiting ha (by simp [hw])
    drained := fun hdead => by simp [halive] at hdead }

theorem LockOk.releases (h : LockOk s (a + 1) (b + 1) c) (halive : s.alive = true)
    (hw : s.waiters = []) : LockOk { s with locked := false, unlocking := none } a b c := by
  have hle := h.token_le halive
  have hscopes := h.scope_le
  have hone : s.unlocking.isSome.toNat ≤ 1 := Bool.toNat_le _
  exact { h with
    token := fun ha => by
      have := h.token ha
      simp only [Mutex.again, Option.elim, Bool.toNat_false] at this hle ⊢
      omega
    scope := fun _ => by
      simp only [Option.isSome, Bool.toNat_false]
      omega
    scope_le := by
      simp only [Option.isSome, Bool.toNat_false]
      omega
    gone := by simp
    waiting := by simp [hw]
    drained := fun hdead => by simp [halive] at hdead }

theorem LockOk.postedGone (h : LockOk s a (b + 1) c) {scope : UnlockScope}
    (hscope : s.unlocking = some scope) (hgone : scope.gone = true) : LockOk s a b c := by
  have hdead := h.gone _ hscope
  exact { h with
    scope := fun ha => by simp [hgone, ha] at hdead
    scope_le := Nat.le_of_succ_le h.scope_le }

theorem LockOk.postedAgain (h : LockOk s a b c) {scope : UnlockScope}
    (hscope : s.unlocking = some scope) (hagain : scope.again = true) :
    LockOk { s with unlocking := some { scope with again := false } } (a + 1) b c := by
  have hold := h.gone _ hscope
  exact { h with
    token := fun ha => by
      have := h.token ha
      simp only [Mutex.again, hscope, hagain, Option.elim, Bool.toNat_true,
        Bool.toNat_false] at this ⊢
      omega
    scope := fun ha => by simpa [hscope] using h.scope ha
    scope_le := by simpa [hscope] using h.scope_le
    gone := by
      rintro _ ⟨⟩
      exact hold }

theorem LockOk.posted (h : LockOk s a (b + 1) c) {scope : UnlockScope}
    (hscope : s.unlocking = some scope) (hagain : scope.again = false) :
    LockOk { s with unlocking := none } a b c where
  token ha := by simpa [Mutex.again, hscope, hagain] using h.token ha
  scope ha := by simpa [hscope] using h.scope ha
  scope_le := by simpa [hscope] using h.scope_le
  gone := by simp
  waiting := h.waiting
  drained := h.drained

end LockMoves

theorem LockOk.step {quitter : Nat → Bool} {s s' : Mutex} {pc : Pc} {q : Option Pc}
    {a b c : Nat} (hstep : Step quitter s pc s' q)
    (h : LockOk s (a + pc.inTransit.toNat) (b + pc.inScope.toNat) (c + pc.destroys.toNat))
    (hpc : PcOk s pc) (hgrantee : Grantee s)
    (hsound : ∀ w, ∃ m, Sound (view s w) m) :
    LockOk s' (a + (q.elim false Pc.inTransit).toNat)
      (b + (q.elim false Pc.inScope).toNat) (c + (q.elim false Pc.destroys).toNat) := by
  cases hstep with
  | suspendStopped => exact { h with }
  | suspendQueued =>
      exact { h with
        waiting := fun _ _ => hpc.2.1
        drained := fun hdead => by simp [hpc.1] at hdead }
  | registerStopped => exact { h with }
  | register => exact { h with }
  | @cancelLost w inConstructor =>
      cases inConstructor
      · exact { h with }
      · exact { h with }
  | cancelClaims => exact { h with }
  | cancelMark => exact { h with }
  | @cancelReturns w inConstructor =>
      cases inConstructor
      · exact { h with }
      · exact { h with }
  | resumeLeaks _ _ hfast =>
      obtain ⟨halive, hmem⟩ := hpc.2 hfast
      exact h.resumeLeaks halive hmem
  | resumeUnwinds => exact { h with }
  | @resume w =>
      obtain ⟨m, hw⟩ := hsound w
      exact h.resume hw hgrantee hpc
  | @dtorGranted w hg =>
      obtain ⟨halive, hto⟩ := (hgrantee w).mpr ⟨hg, hpc.2⟩
      exact h.dtorGranted hg halive hto
  | dtor hg => exact h.dtor hg
  | unlockAgain hscope => exact h.unlockAgain hscope hpc
  | unlock hscope => exact h.unlock hscope hpc
  | grantSkips hw =>
      exact { h with
        waiting := fun ha _ => h.waiting ha (by simp [hw])
        drained := fun hdead => by simp [show s.alive = true from hpc] at hdead }
  | grants hw => exact h.grants hpc hw
  | releases hw => exact h.releases hpc hw
  | postedGone hscope hgone => exact h.postedGone hscope hgone
  | postedAgain hscope _ hagain => exact h.postedAgain hscope hagain
  | posted hscope _ hagain => exact h.posted hscope hagain
  | destroySkips hw =>
      exact { h with
        waiting := fun ha _ => h.waiting ha (by simp [hw])
        drained := fun hdead => ⟨(h.drained hdead).1, fun _ =>
          (h.drained hdead).2 (by simp [hw])⟩ }
  | destroyCancels hw =>
      exact { h with
        waiting := fun ha _ => h.waiting ha (by simp [hw])
        drained := fun hdead => ⟨(h.drained hdead).1, fun _ =>
          (h.drained hdead).2 (by simp [hw])⟩ }
  | destroyDone hw =>
      exact { h with
        drained := fun hdead => ⟨(h.drained hdead).1, fun hne => absurd hw hne⟩ }
  | destroyPosted => exact { h with }

theorem Grantee.update {s : Mutex} (h : Grantee s) {w : Nat} {f : Awaiter → Awaiter}
    (hgranted : (f (s.awaiter w)).granted = (s.awaiter w).granted)
    (hphase : (f (s.awaiter w)).phase = .destroyed ↔ (s.awaiter w).phase = .destroyed)
    (v : Nat) : (s.alive = true ∧ s.grantedTo = some v) ↔
      (s.update w f v).granted = true ∧ (s.update w f v).phase ≠ .destroyed := by
  rcases eq_or_ne v w with rfl | hv
  · rw [update_self, hgranted, Ne, hphase]
    exact h v
  · rw [update_of_ne s f hv]
    exact h v

theorem Grantee.clear {s : Mutex} (h : Grantee s) {w : Nat} {f : Awaiter → Awaiter}
    (hold : (s.awaiter w).phase ≠ .destroyed)
    (hnew : (f (s.awaiter w)).granted = false ∨ (f (s.awaiter w)).phase = .destroyed)
    (v : Nat) : (s.alive = true ∧
        (if (s.awaiter w).granted then none else s.grantedTo) = some v) ↔
      (s.update w f v).granted = true ∧ (s.update w f v).phase ≠ .destroyed := by
  have hw := h w
  have hv := h v
  rcases eq_or_ne v w with rfl | hne
  · rw [update_self]
    grind
  · rw [update_of_ne s f hne]
    grind

theorem Grantee.step {quitter : Nat → Bool} {s s' : Mutex} {pc : Pc} {q : Option Pc}
    {a b c : Nat} (hstep : Step quitter s pc s' q) (h : Grantee s) (hpc : PcOk s pc)
    (hlock : LockOk s (a + pc.inTransit.toNat) b c)
    (hqueued : ∀ w, w ∈ s.waiters → (s.awaiter w).phase ≠ .destroyed) : Grantee s' := by
  cases hstep with
  | suspendStopped => exact h.update rfl Iff.rfl
  | suspendQueued => exact h.update rfl (by simp [hpc.2.2.1])
  | registerStopped => exact h
  | register => exact h.update rfl Iff.rfl
  | @cancelLost w inConstructor =>
      cases inConstructor
      · exact h
      · exact h.update rfl Iff.rfl
  | cancelClaims => exact h.update rfl Iff.rfl
  | cancelMark => exact h.update rfl Iff.rfl
  | @cancelReturns w inConstructor =>
      cases inConstructor
      · exact h
      · exact h.update rfl Iff.rfl
  | resumeLeaks => exact h
  | resumeUnwinds => exact h
  | @resume w =>
      have hold : (s.awaiter w).phase ≠ .destroyed := by
        rcases hpc.1 with ⟨hp, -⟩ | ⟨hp, -⟩ <;> simp_all [view]
      exact h.clear hold (.inl rfl)
  | dtorGranted => exact h.clear hpc.2 (.inr rfl)
  | dtor => exact h.clear hpc.2 (.inr rfl)
  | unlockAgain => exact h
  | unlock => exact h
  | grantSkips => exact h.update rfl Iff.rfl
  | @grants w rest hw hc =>
      have hnone : s.grantedTo = none := by
        have hle := hlock.token_le hpc
        cases hto : s.grantedTo
        · rfl
        · simp only [hto, Option.isSome, Pc.inTransit, Bool.toNat_true] at hle
          omega
      intro v
      have hold := h v
      rcases eq_or_ne v w with rfl | hne
      · have := hqueued v (by simp [hw])
        simp_all [PcOk]
      · simp_all [hne.symm]
  | releases => exact h
  | postedGone => exact h
  | postedAgain => exact h
  | posted => exact h
  | destroySkips => exact h.update rfl Iff.rfl
  | @destroyCancels w rest hw hc =>
      intro v
      have hold := h v
      rcases eq_or_ne v w with rfl | hne <;> simp_all
  | destroyDone => exact h
  | destroyPosted => exact h

/-- What no step takes away: an awaiter stays queued once, and the mutex stays
alive or destroyed. -/
theorem Step.keeps {quitter : Nat → Bool} {s s' : Mutex} {pc : Pc} {q : Option Pc}
    (hstep : Step quitter s pc s' q) :
    s'.alive = s.alive ∧ s.enqueued ⊆ s'.enqueued := by
  cases hstep <;> simp [callbackReturns, awaitResume, destroyAwaiter]
  all_goals split <;> simp

theorem Step.next_ok {quitter : Nat → Bool} {s s' : Mutex} {pc pc' : Pc}
    (hstep : Step quitter s pc s' (some pc')) (hpc : PcOk s pc)
    (hgrantee : Grantee s)
    (hscope : ∀ scope, s.unlocking = some scope → scope.gone = !s.alive) :
    PcOk s' pc' := by
  cases hstep with
  | suspendStopped =>
      obtain ⟨-, -, hp, hf, -⟩ := hpc
      simp [PcOk, view, View.Resumable, hp, hf]
  | suspendQueued => simp [PcOk]
  | registerStopped => exact hpc
  | cancelClaims => exact hpc
  | cancelMark => exact hpc
  | resumeLeaks => rcases hpc.1 with ⟨hp, -⟩ | ⟨hp, -⟩ <;> simp_all [PcOk, view]
  | resumeUnwinds => rcases hpc.1 with ⟨hp, -⟩ | ⟨hp, -⟩ <;> simp_all [PcOk, view]
  | @dtorGranted w hg => exact ((hgrantee w).mpr ⟨hg, hpc.2⟩).1
  | unlock => exact hpc
  | grantSkips => exact hpc
  | grants => trivial
  | postedAgain hs hgone =>
      have := hscope _ hs
      simpa [PcOk, hgone] using this
  | destroySkips => exact hpc
  | destroyCancels => exact hpc
  | destroyPosted => exact hpc

/-- The activation is inside `post` or runs a stop callback. -/
def Pc.quiet (pc : Pc) : Prop := pc.foreign = true ∨ ∃ w, pc.runsCallback w = true

theorem PcOk.of_quiet {s s' : Mutex} {pc : Pc} (h : PcOk s pc) (hquiet : pc.quiet)
    (halive : s.alive = false → s'.alive = false) (hsub : s.enqueued ⊆ s'.enqueued) :
    PcOk s' pc := by
  rcases hquiet with hquiet | ⟨w, hquiet⟩ <;>
    cases pc <;> simp_all [Pc.foreign, Pc.runsCallback, PcOk]
  all_goals exact hsub h

/-- What a step of a stop callback leaves alone. -/
structure CallbackKeeps (s s' : Mutex) (w : Nat) : Prop where
  alive : s'.alive = s.alive
  locked : s'.locked = s.locked
  enqueued : s'.enqueued = s.enqueued
  holders : s'.holders = s.holders
  phase : ∀ v, (s'.awaiter v).phase = (s.awaiter v).phase
  fast : ∀ v, (s'.awaiter v).fast = (s.awaiter v).fast
  other : ∀ v, v ≠ w → (s'.awaiter v).canceled = (s.awaiter v).canceled
  canceled : ∀ v, (s.awaiter v).canceled = true → (s'.awaiter v).canceled = true
  posts : ∀ v, s.posts.count v ≤ s'.posts.count v

theorem CallbackKeeps.of_update {s : Mutex} {w : Nat} {f : Awaiter → Awaiter}
    {posts : List Nat} (hphase : (f (s.awaiter w)).phase = (s.awaiter w).phase)
    (hfast : (f (s.awaiter w)).fast = (s.awaiter w).fast)
    (hcanceled : (s.awaiter w).canceled = true → (f (s.awaiter w)).canceled = true)
    (hposts : ∀ v, s.posts.count v ≤ posts.count v) :
    CallbackKeeps s { s with posts := posts, awaiter := s.update w f } w where
  alive := rfl
  locked := rfl
  enqueued := rfl
  holders := rfl
  phase v := by rcases eq_or_ne v w with rfl | hv <;> simp [*]
  fast v := by rcases eq_or_ne v w with rfl | hv <;> simp [*]
  other v hv := by simp [hv]
  canceled v := by
    rcases eq_or_ne v w with rfl | hv
    · simpa using hcanceled
    · simp [hv]
  posts := hposts

theorem CallbackKeeps.returns (s : Mutex) (w : Nat) (inConstructor : Bool) :
    CallbackKeeps s (callbackReturns s w inConstructor) w := by
  cases inConstructor
  · constructor <;> simp [callbackReturns]
  · exact .of_update rfl rfl id fun _ => Nat.le_refl _

theorem Step.callback {quitter : Nat → Bool} {s s' : Mutex} {pc : Pc} {q : Option Pc}
    {w : Nat} (hstep : Step quitter s pc s' q) (hcallback : pc.runsCallback w = true) :
    CallbackKeeps s s' w := by
  cases hstep <;> simp only [Pc.runsCallback, decide_eq_true_eq, reduceCtorEq] at hcallback
  all_goals subst hcallback
  case cancelLost => exact .returns ..
  case cancelReturns => exact .returns ..
  case cancelClaims => exact .of_update rfl rfl id fun _ => Nat.le_refl _
  case cancelMark =>
    refine .of_update rfl rfl (fun _ => rfl) fun v => ?_
    simp [List.count_append]

theorem PcOk.of_callback {s s' : Mutex} {pc : Pc} {w : Nat} (h : PcOk s pc)
    (hkeeps : CallbackKeeps s s' w)
    (hw : (s.awaiter w).phase ≠ .starting ∨
      (s'.awaiter w).canceled = (s.awaiter w).canceled) : PcOk s' pc := by
  obtain ⟨halive, hlocked, henq, hholders, hphase, hfast, hother, hcan, hposts⟩ := hkeeps
  cases pc with
  | awaitSuspend v =>
      obtain ⟨ha, hl, hp, hf, hc⟩ := h
      have hsame : (s'.awaiter v).canceled = (s.awaiter v).canceled := by
        rcases eq_or_ne v w with rfl | hv
        · exact hw.resolve_left (absurd hp)
        · exact hother v hv
      simp [PcOk, halive, hlocked, hphase, hfast, hsame, ha, hl, hp, hf, hc]
  | resume v =>
      obtain ⟨hr, hholds⟩ := h
      refine ⟨?_, by simpa [halive, hholders, hfast] using hholds⟩
      rcases hr with ⟨hp, hpos⟩ | ⟨hp, hready⟩
      · exact .inl ⟨(hphase v).trans hp, Nat.lt_of_lt_of_le hpos (hposts v)⟩
      · refine .inr ⟨(hphase v).trans hp, ?_⟩
        exact hready.imp (hfast v).trans (hcan v)
  | dtor v =>
      obtain ⟨hfresh, hdestroyed⟩ := h
      exact ⟨(hphase v).symm ▸ hfresh, (hphase v).symm ▸ hdestroyed⟩
  | unlockPosting => trivial
  | _ => simpa [PcOk, halive, henq] using h

/-- The lock has been handed out in the order of the queue, and those who wait
are behind those who got it. -/
structure Fifo (s : Mutex) : Prop where
  order : (s.grants ++ s.waiters).Sublist s.enqueued
  nodup : s.enqueued.Nodup

theorem Fifo.waiters_nodup {s : Mutex} (h : Fifo s) : s.waiters.Nodup :=
  h.nodup.sublist ((List.sublist_append_right ..).trans h.order)

theorem Fifo.unlink {s s' : Mutex} (h : Fifo s) (hwaiters : s'.waiters.Sublist s.waiters)
    (hgrants : s'.grants = s.grants) (henqueued : s'.enqueued = s.enqueued) : Fifo s' where
  order := by
    rw [hgrants, henqueued]
    exact ((List.Sublist.refl _).append hwaiters).trans h.order
  nodup := henqueued ▸ h.nodup

theorem Fifo.step {quitter : Nat → Bool} {s s' : Mutex} {pc : Pc} {q : Option Pc}
    (hstep : Step quitter s pc s' q) (h : Fifo s) (hpc : PcOk s pc)
    (hsound : ∀ w, ∃ m, Sound (view s w) m) : Fifo s' := by
  cases hstep with
  | @suspendQueued w =>
      obtain ⟨m, hw⟩ := hsound w
      have hnew : w ∉ s.enqueued := by
        simpa [view] using (hw.unqueued (.inr hpc.2.2.1)).2.2.1
      refine ⟨?_, ?_⟩
      · simpa using h.order.append (List.Sublist.refl [w])
      · simpa [List.nodup_append] using ⟨h.nodup, fun a ha hwa => hnew (hwa ▸ ha)⟩
  | @grants w rest hw hc =>
      refine ⟨?_, h.nodup⟩
      simpa [hw] using h.order
  | @cancelLost w inConstructor =>
      cases inConstructor <;> exact ⟨h.order, h.nodup⟩
  | @cancelReturns w inConstructor =>
      cases inConstructor <;> exact ⟨h.order, h.nodup⟩
  | resume => exact h.unlink (awaitResume_sublist ..) rfl rfl
  | dtorGranted => exact h.unlink (destroyAwaiter_sublist ..) rfl rfl
  | dtor => exact h.unlink (destroyAwaiter_sublist ..) rfl rfl
  | grantSkips hw => exact h.unlink (by simp [hw]) rfl rfl
  | destroySkips hw => exact h.unlink (by simp [hw]) rfl rfl
  | destroyCancels hw => exact h.unlink (by simp [hw]) rfl rfl
  | _ => exact ⟨h.order, h.nodup⟩

theorem Step.stays_callback {quitter : Nat → Bool} {s s' : Mutex} {pc pc' : Pc} {w : Nat}
    (hstep : Step quitter s pc s' (some pc')) (hcallback : pc.runsCallback w = true) :
    pc'.runsCallback w = true := by
  cases hstep <;> simp_all [Pc.runsCallback]

theorem PcOk.enqueued {s : Mutex} {pc : Pc} {w : Nat} (h : PcOk s pc)
    (hcallback : pc.runsCallback w = true) : w ∈ s.enqueued := by
  cases pc <;> simp_all [Pc.runsCallback, PcOk]

/-- What every run of a mutex keeps. -/
structure Invariant (s : Mutex) (fs : List (Frame Pc)) : Prop where
  threads : ∀ f ∈ fs, f.thread = executorThread ∨ ∃ w, f.pc.runsCallback w = true
  pcs : ∀ f ∈ fs, PcOk s f.pc
  sound : ∀ w, Sound (view s w) (fs.countP fun f => f.pc.marks w)
  grantee : Grantee s
  fifo : Fifo s
  lock : LockOk s (fs.countP fun f => f.pc.inTransit) (fs.countP fun f => f.pc.inScope)
    (fs.countP fun f => f.pc.destroys)

theorem Invariant.exec {quitter : Nat → Bool} {s s' : Mutex} {t : Nat} {pc : Pc}
    {q : Option Pc} {l r : List (Frame Pc)} (h : Invariant s (l ++ ⟨t, pc⟩ :: r))
    (hst : (machine quitter).Stacked (l ++ ⟨t, pc⟩ :: r)) (hl : ∀ g ∈ l, g.thread ≠ t)
    (hstep : Step quitter s pc s' q) :
    Invariant s' (l ++ q.toList.map (Frame.mk t) ++ r) := by
  obtain ⟨hthreads, hpcs, hsound, hgrantee, hfifo, hlock⟩ := h
  obtain ⟨hthreadsRest, hthread⟩ := forall_split.mp hthreads
  obtain ⟨hpcsRest, hpc⟩ := forall_split.mp hpcs
  have hex : ∀ w, ∃ m, Sound (view s w) m := fun w => ⟨_, hsound w⟩
  have hlinked : ∀ w, w ∈ s.waiters → (s.awaiter w).inList = true ∧
      (s.awaiter w).phase ≠ .destroyed := by
    intro w hw
    exact (hsound w).queued.mp (decide_eq_true hw)
  rw [countP_split, countP_split, countP_split] at hlock
  constructor
  · refine forall_replace.mpr ⟨hthreadsRest, ?_⟩
    rintro pc' rfl
    rcases hthread with ht | ⟨w, hw⟩
    · exact .inl ht
    · exact .inr ⟨w, hstep.stays_callback hw⟩
  · refine forall_replace.mpr ⟨?_, ?_⟩
    · intro f hf
      have hold := hpcsRest f hf
      rcases hthread with ht | ⟨w, hw⟩
      · have hquiet : f.pc.quiet := by
          rcases hthreadsRest f hf with hft | hcallback
          · exact .inl (hst.rest_foreign hl hf (hft.trans ht.symm))
          · exact .inr hcallback
        obtain ⟨halive, hsub⟩ := hstep.keeps
        exact hold.of_quiet hquiet (fun hdead => halive.trans hdead) hsub
      · have hstarted := ((hsound w).started (decide_eq_true (hpc.enqueued hw))).2
        exact hold.of_callback (hstep.callback hw) (.inl hstarted)
    · rintro pc' rfl
      exact hstep.next_ok hpc hgrantee hlock.gone
  · intro w
    have hlives := hstep.lives hpc hfifo.waiters_nodup (fun w hw => (hlinked w hw).1) w
      ((l ++ r).countP fun f => f.pc.marks w)
    have hw := hsound w
    rw [countP_split] at hw
    rw [countP_replace]
    exact hw.lives hlives
  · exact hgrantee.step hstep hpc hlock fun w hw => (hlinked w hw).2
  · exact hfifo.step hstep hpc hex
  · rw [countP_replace, countP_replace, countP_replace]
    exact hlock.step hstep hpc hgrantee hex

theorem LockOk.enter {s s' : Mutex} {t : Nat} {e : Entry} {q : Option Pc} {a b c : Nat}
    (henter : Entered s t e s' q) (h : LockOk s a b c) :
    LockOk s' (a + (q.elim false Pc.inTransit).toNat)
      (b + (q.elim false Pc.inScope).toNat) (c + (q.elim false Pc.destroys).toNat) := by
  cases henter with
  | lockBusy => exact { h with }
  | lockFree halive _ hfree =>
      exact { h with
        token := fun ha => by
          have hold := h.token ha
          simp only [hfree, Mutex.again, Pc.inTransit, Option.elim, Bool.toNat_true,
            Bool.toNat_false, List.length_append, List.length_singleton] at hold ⊢
          omega
        waiting := fun _ _ => rfl
        drained := fun hdead => by simp [halive] at hdead }
  | resume => exact { h with }
  | destroy => exact { h with }
  | @unlock w halive hmem =>
      have hlen := List.length_erase_of_mem hmem
      have hpos := List.length_pos_of_mem hmem
      exact { h with
        token := fun ha => by
          have hold := h.token ha
          simp only [hlen, Mutex.again, Pc.inTransit, Option.elim, Bool.toNat_true] at hold ⊢
          omega
        drained := fun hdead => by simp [halive] at hdead }
  | destroyMutex halive hholders =>
      have hscope := h.scope halive
      exact { h with
        token := by simp
        scope := by simp
        scope_le := by simp [hscope, Pc.inScope]
        gone := by
          intro scope hs
          obtain ⟨old, -, rfl⟩ := Option.map_eq_some_iff.mp hs
          rfl
        waiting := by simp
        drained := fun _ => ⟨hholders, fun _ => by simp [Pc.destroys]⟩ }
  | requestStop => exact { h with }
  | stopCallback => exact { h with }

theorem Grantee.enter {s s' : Mutex} {t : Nat} {e : Entry} {q : Option Pc}
    (henter : Entered s t e s' q) (h : Grantee s) : Grantee s' := by
  cases henter with
  | lockBusy _ hp _ => exact h.update rfl (by simp [hp])
  | lockFree _ hp _ => exact h.update rfl (by simp [hp])
  | resume => exact h
  | destroy => exact h
  | unlock => exact h
  | destroyMutex halive =>
      intro v
      have hold := h v
      cases hto : s.grantedTo with
      | none => simp_all
      | some w =>
          rcases eq_or_ne v w with rfl | hne
          · simp_all
          · simp_all [hne.symm]
  | requestStop => exact h.update rfl Iff.rfl
  | stopCallback => exact h.update rfl Iff.rfl

theorem Fifo.enter {s s' : Mutex} {t : Nat} {e : Entry} {q : Option Pc}
    (henter : Entered s t e s' q) (h : Fifo s) : Fifo s' := by
  cases henter <;> exact ⟨h.order, h.nodup⟩

theorem Entered.next_ok {s s' : Mutex} {t : Nat} {e : Entry} {pc : Pc}
    (henter : Entered s t e s' (some pc)) (hsound : ∀ w, ∃ m, Sound (view s w) m) :
    PcOk s' pc := by
  cases henter with
  | @lockBusy w halive hp hlocked =>
      obtain ⟨m, hw⟩ := hsound w
      obtain ⟨hc, hf⟩ := hw.fresh hp
      simp_all [PcOk, view]
  | @lockFree w halive hp hfree => simp [PcOk, View.Resumable, view, halive]
  | @resume w hp hmem =>
      obtain ⟨m, hw⟩ := hsound w
      have hslow : (s.awaiter w).fast = false := hw.not_fast (hw.suspended hp)
      exact ⟨.inl ⟨hp, List.count_pos_iff.mpr hmem⟩, by simp [hslow]⟩
  | @destroy w hp => rcases hp with hp | hp <;> simp [PcOk, hp]
  | unlock halive => exact halive
  | destroyMutex => rfl
  | @stopCallback _ w hr =>
      obtain ⟨m, hw⟩ := hsound w
      simpa [PcOk, view] using hw.registered hr

theorem Entered.others_ok {s s' : Mutex} {t : Nat} {e : Entry} {q : Option Pc} {pc : Pc}
    (henter : Entered s t e s' q) (h : PcOk s pc)
    (hquiet : t = executorThread → pc.quiet) : PcOk s' pc := by
  cases henter with
  | requestStop =>
      exact h.of_callback (.of_update rfl rfl id fun _ => Nat.le_refl _) (.inr (by simp))
  | stopCallback =>
      exact h.of_callback (.of_update rfl rfl id fun _ => Nat.le_refl _) (.inr (by simp))
  | destroyMutex => exact h.of_quiet (hquiet rfl) (by simp) (List.Subset.refl _)
  | _ => exact h.of_quiet (hquiet rfl) id (List.Subset.refl _)

theorem Invariant.enter {s s' : Mutex} {fs : List (Frame Pc)} {t : Nat} {e : Entry}
    {q : Option Pc} (h : Invariant s fs)
    (hfree : ∀ f ∈ fs, f.thread = t → f.pc.foreign = true) (henter : Entered s t e s' q) :
    Invariant s' (q.toList.map (Frame.mk t) ++ fs) := by
  obtain ⟨hthreads, hpcs, hsound, hgrantee, hfifo, hlock⟩ := h
  have hex : ∀ w, ∃ m, Sound (view s w) m := fun w => ⟨_, hsound w⟩
  constructor
  · refine forall_enter.mpr ⟨hthreads, ?_⟩
    rintro pc rfl
    cases henter <;> simp [Pc.runsCallback]
  · refine forall_enter.mpr ⟨?_, ?_⟩
    · intro f hf
      refine henter.others_ok (hpcs f hf) ?_
      rintro rfl
      rcases hthreads f hf with hft | hcallback
      · exact .inl (hfree f hf hft)
      · exact .inr hcallback
    · rintro pc rfl
      exact henter.next_ok hex
  · intro w
    rw [countP_enter]
    refine (hsound w).lives (henter.lives ?_ w _)
    intro v halive hto
    obtain ⟨hg, hp⟩ := (hgrantee v).mp ⟨halive, hto⟩
    exact ⟨hg, ((hsound v).granted hg hp).1⟩
  · exact hgrantee.enter henter
  · exact hfifo.enter henter
  · rw [countP_enter, countP_enter, countP_enter]
    exact hlock.enter henter

theorem sound_initial (w : Nat) : Sound (view {} w) 0 := by
  constructor <;> simp [view]

theorem invariant_reachable {quitter : Nat → Bool} {s : State Mutex Pc}
    (h : Reachable quitter s) : Invariant s.shared s.frames := by
  have hpreserves : (machine quitter).Preserves (fun _ _ => true) Invariant := by
    apply Machine.Preserves.ofSteps
    · intro s l t pc r c s' q hI hst hl _ hexec
      exact hI.exec hst hl (exec_step hexec)
    · intro s fs t a s' q hI _ hfree _ henter
      exact hI.enter hfree (enter_entered henter)
  refine hpreserves.reachable initial_frames ?_ h
  rintro _ rfl
  refine ⟨by simp, by simp, fun w => sound_initial w, ?_, ⟨by simp, by simp⟩, ?_⟩
  · intro w
    simp
  · constructor <;> simp [Mutex.again]

end Capy.AsyncMutex
