import Capy.AsyncMutex

namespace Capy.AsyncMutex

open Capy.CallStack

/-- What the mutex knows of one awaiter. -/
structure View where
  claimed : Bool
  canceled : Bool
  granted : Bool
  inList : Bool
  registered : Bool
  fast : Bool
  phase : Phase
  result : Option Bool
  posts : Nat
  enqueued : Bool
  queued : Bool
  wasGranted : Bool
  wasRevoked : Bool

def view (s : Mutex) (w : Nat) : View where
  claimed := (s.awaiter w).claimed
  canceled := (s.awaiter w).canceled
  granted := (s.awaiter w).granted
  inList := (s.awaiter w).inList
  registered := (s.awaiter w).registered
  fast := (s.awaiter w).fast
  phase := (s.awaiter w).phase
  result := (s.awaiter w).result
  posts := s.posts.count w
  enqueued := w ∈ s.enqueued
  queued := w ∈ s.waiters
  wasGranted := w ∈ s.grants
  wasRevoked := w ∈ s.revoked

/-- The awaiter is ready for `await_resume`: posted while suspended, or not
suspended because it has the lock or saw the stop request. -/
def View.Resumable (x : View) : Prop :=
  (x.phase = .suspended ∧ 0 < x.posts) ∨
    (x.phase = .starting ∧ (x.fast = true ∨ x.canceled = true))

/-- What can happen to an awaiter; the numbers count the activations that have
claimed it and are going to post it. -/
inductive Life : View → Nat → View → Nat → Prop
  | start {x m} : x.phase = .fresh → Life x m { x with phase := .starting } m
  | take {x m} : x.phase = .fresh →
      Life x m { x with fast := true, phase := .starting } m
  | seeStop {x m} : x.phase = .starting → x.fast = false →
      Life x m { x with canceled := true } m
  | queue {x m} : x.phase = .starting → x.fast = false → x.canceled = false →
      Life x m { x with
        inList := true, phase := .suspended, enqueued := true, queued := true } m
  | register {x m} : x.enqueued = true → Life x m { x with registered := true } m
  | unregister {x m} : Life x m { x with registered := false } m
  | claim {x m} : x.enqueued = true → x.claimed = false →
      Life x m { x with claimed := true } (m + 1)
  | mark {x m} : x.enqueued = true →
      Life x (m + 1) { x with canceled := true, posts := x.posts + 1 } m
  | resume {x m active unlink} : x.Resumable →
      Life x m { x with
        granted := false
        registered := x.registered && !active
        inList := x.inList && !unlink
        queued := x.queued && !unlink
        phase := .done
        result := some !x.canceled } m
  | destroy {x m active} :
      Life x m { x with
        registered := x.registered && !active, queued := false, phase := .destroyed } m
  | skip {x m} : x.claimed = true →
      Life x m { x with inList := false, queued := false } m
  | grant {x m} : x.claimed = false → x.queued = true →
      Life x m { x with
        claimed := true, granted := true, inList := false, queued := false,
        posts := x.posts + 1, wasGranted := true } m
  | drop {x m} : x.claimed = false → x.queued = true →
      Life x m { x with
        claimed := true, canceled := true, inList := false, queued := false,
        posts := x.posts + 1 } m
  | revoke {x m} : x.granted = true → x.phase = .suspended →
      Life x m { x with granted := false, canceled := true, wasRevoked := true } m

/-- What holds of an awaiter that `marks` activations are going to post. -/
structure Sound (x : View) (marks : Nat) : Prop where
  posts : x.posts + marks = x.claimed.toNat
  fresh : x.phase = .fresh → x.canceled = false ∧ x.fast = false
  unqueued : x.phase = .fresh ∨ x.phase = .starting →
    x.claimed = false ∧ x.inList = false ∧ x.enqueued = false ∧ x.granted = false ∧
      x.result = none
  queued : x.queued = true ↔ x.inList = true ∧ x.phase ≠ .destroyed
  linked : x.inList = true → x.enqueued = true
  suspended : x.phase = .suspended → x.enqueued = true
  pending : x.enqueued = true → x.claimed = false → x.phase ≠ .destroyed →
    x.queued = true ∧ x.phase = .suspended ∧ x.canceled = false
  granted : x.granted = true → x.phase ≠ .destroyed →
    x.phase = .suspended ∧ x.canceled = false ∧ x.wasGranted = true ∧
      x.wasRevoked = false
  unclaimed : x.claimed = false → x.wasGranted = false ∧ x.wasRevoked = false
  marked : marks ≠ 0 → x.wasGranted = false
  canceled : x.canceled = true → x.wasGranted = false ∨ x.wasRevoked = true
  settled : 0 < x.posts → x.phase = .suspended → x.granted = true ∨ x.canceled = true
  registered : x.registered = true → x.enqueued = true
  fast : x.fast = true → x.canceled = false ∧ x.enqueued = false
  finished : ∀ ok, x.result = some ok → (x.phase = .done ∨ x.phase = .destroyed) ∧
    if x.fast then ok = true
    else (ok = true ↔ x.wasGranted = true ∧ x.wasRevoked = false)

theorem Sound.not_fast {x : View} {m : Nat} (h : Sound x m) (he : x.enqueued = true) :
    x.fast = false := by
  by_contra hf
  have := h.fast (by simpa using hf)
  simp_all

theorem Sound.started {x : View} {m : Nat} (h : Sound x m) (he : x.enqueued = true) :
    x.phase ≠ .fresh ∧ x.phase ≠ .starting := by
  constructor
  · intro hp
    have := h.unqueued (.inl hp)
    simp_all
  · intro hp
    have := h.unqueued (.inr hp)
    simp_all

theorem Sound.outcome {x : View} {m : Nat} (h : Sound x m) (hr : x.Resumable) {ok : Bool}
    (hok : (!x.canceled) = ok) :
    if x.fast then ok = true
    else (ok = true ↔ x.wasGranted = true ∧ x.wasRevoked = false) := by
  subst hok
  split
  · rename_i hf
    simp [h.fast hf]
  · rename_i hf
    rcases hr with ⟨hp, hpos⟩ | ⟨hp, hready⟩
    · rcases h.settled hpos hp with hg | hc
      · have := h.granted hg (by simp [hp])
        simp [this]
      · have := h.canceled hc
        grind
    · have hc : x.canceled = true := by simpa [hf] using hready
      have hu := h.unclaimed (h.unqueued (.inr hp)).1
      simp [hc, hu]

section Life

variable {x : View} {m : Nat}

theorem Sound.start (h : Sound x m) (hp : x.phase = .fresh) :
    Sound { x with phase := .starting } m := by
  have hu := h.unqueued (.inl hp)
  exact { h with
    fresh := by simp
    unqueued := fun _ => hu
    queued := by simpa [hp] using h.queued
    pending := by simp [hu]
    granted := by simp [hu]
    suspended := by simp
    settled := by simp
    finished := by simp [hu] }

theorem Sound.take (h : Sound x m) (hp : x.phase = .fresh) :
    Sound { x with fast := true, phase := .starting } m := by
  have hu := h.unqueued (.inl hp)
  exact { h with
    fresh := by simp
    unqueued := fun _ => hu
    queued := by simpa [hp] using h.queued
    pending := by simp [hu]
    granted := by simp [hu]
    suspended := by simp
    settled := by simp
    fast := fun _ => ⟨(h.fresh hp).1, by simp [hu]⟩
    finished := by simp [hu] }

theorem Sound.seeStop (h : Sound x m) (hp : x.phase = .starting) (hf : x.fast = false) :
    Sound { x with canceled := true } m := by
  have hu := h.unqueued (.inr hp)
  exact { h with
    fresh := by simp [hp]
    pending := by simp [hu]
    granted := by simp [hu]
    canceled := fun _ => .inl (h.unclaimed hu.1).1
    settled := by simp [hp]
    fast := by simp [hf] }

theorem Sound.queue (h : Sound x m) (hp : x.phase = .starting) (hf : x.fast = false)
    (hc : x.canceled = false) :
    Sound { x with
      inList := true, phase := .suspended, enqueued := true, queued := true } m := by
  have hu := h.unqueued (.inr hp)
  exact { h with
    fresh := by simp
    unqueued := by simp
    queued := by simp
    linked := by simp
    suspended := by simp
    pending := fun _ _ _ => ⟨rfl, rfl, hc⟩
    granted := by simp [hu]
    registered := fun _ => rfl
    settled := by
      intro hpos
      have hzero := h.posts
      simp only [hu.1, Bool.toNat_false] at hzero hpos
      omega
    fast := by simp [hf]
    finished := by simp [hu] }

theorem Sound.claim (h : Sound x m) (he : x.enqueued = true) (hc : x.claimed = false) :
    Sound { x with claimed := true } (m + 1) := by
  have hs := h.started he
  have hposts := h.posts
  simp only [hc, Bool.toNat_false] at hposts
  exact { h with
    posts := by simp only [Bool.toNat_true]; omega
    unqueued := by simp [hs]
    pending := by simp
    unclaimed := by simp
    marked := fun _ => (h.unclaimed hc).1 }

theorem Sound.mark (h : Sound x (m + 1)) (he : x.enqueued = true) :
    Sound { x with canceled := true, posts := x.posts + 1 } m := by
  have hs := h.started he
  have hposts := h.posts
  have hle : x.claimed.toNat ≤ 1 := Bool.toNat_le _
  have hc : x.claimed = true := by
    simpa [Nat.pos_iff_ne_zero] using (show 0 < x.claimed.toNat by omega)
  have hwas := h.marked (by omega)
  exact { h with
    posts := by simp only; omega
    fresh := by simp [hs]
    pending := by simp [hc]
    granted := fun hg hp => by simp [(h.granted hg hp).2.2.1] at hwas
    marked := by omega
    canceled := fun _ => .inl hwas
    settled := fun _ _ => .inr rfl
    fast := by simp [h.not_fast he] }

theorem Sound.resume (h : Sound x m) {active : Bool} {unlink : Bool} (hr : x.Resumable) :
    Sound { x with
      granted := false
      registered := x.registered && !active
      inList := x.inList && !unlink
      queued := x.queued && !unlink
      phase := .done
      result := some !x.canceled } m := by
  exact { h with
    fresh := by simp
    unqueued := by simp
    queued := by
      rcases hr with ⟨hp, -⟩ | ⟨hp, -⟩
      · have := h.queued
        grind
      · have := h.queued
        grind
    linked := fun hl => h.linked (by grind)
    suspended := by simp
    pending := fun he hc _ => by
      rcases hr with ⟨-, hpos⟩ | ⟨hp, -⟩
      · have hposts := h.posts
        simp only at hc
        simp only [hc, Bool.toNat_false] at hposts
        omega
      · exact absurd hp (h.started he).2
    granted := by simp
    settled := by simp
    registered := fun hreg => h.registered (by simp_all)
    finished := fun ok hok => ⟨.inl rfl, h.outcome hr (by simpa using hok)⟩ }

theorem Sound.destroy (h : Sound x m) {active : Bool} :
    Sound { x with
      registered := x.registered && !active, queued := false, phase := .destroyed } m := by
  exact { h with
    fresh := by simp
    unqueued := by simp
    queued := by simp
    suspended := by simp
    pending := by simp
    granted := by simp
    settled := by simp
    registered := fun hreg => h.registered (by simp_all)
    finished := fun ok hok => ⟨.inr rfl, (h.finished ok hok).2⟩ }

theorem Sound.skip (h : Sound x m) (hc : x.claimed = true) :
    Sound { x with inList := false, queued := false } m := by
  exact { h with
    unqueued := fun hp => by simp [(h.unqueued hp).1] at hc
    queued := by simp
    linked := by simp
    pending := by simp [hc] }

theorem Sound.grant (h : Sound x m) (hc : x.claimed = false) (hq : x.queued = true) :
    Sound { x with
      claimed := true, granted := true, inList := false, queued := false,
      posts := x.posts + 1, wasGranted := true } m := by
  have he := h.linked (h.queued.mp hq).1
  have hu := h.unclaimed hc
  obtain ⟨-, hp, hcan⟩ := h.pending he hc (h.queued.mp hq).2
  have hposts := h.posts
  simp only [hc, Bool.toNat_false] at hposts
  exact { h with
    posts := by simp only [Bool.toNat_true]; omega
    unqueued := by simp [hp]
    queued := by simp
    linked := by simp
    pending := by simp
    granted := fun _ _ => ⟨hp, hcan, rfl, hu.2⟩
    unclaimed := by simp
    marked := by omega
    canceled := by simp [hcan]
    settled := fun _ _ => .inl rfl
    finished := fun ok hok => by
      have := (h.finished ok hok).1
      simp [hp] at this }

theorem Sound.drop (h : Sound x m) (hc : x.claimed = false) (hq : x.queued = true) :
    Sound { x with
      claimed := true, canceled := true, inList := false, queued := false,
      posts := x.posts + 1 } m := by
  have he := h.linked (h.queued.mp hq).1
  have hu := h.unclaimed hc
  obtain ⟨-, hp, -⟩ := h.pending he hc (h.queued.mp hq).2
  have hposts := h.posts
  simp only [hc, Bool.toNat_false] at hposts
  exact { h with
    posts := by simp only [Bool.toNat_true]; omega
    fresh := by simp [hp]
    unqueued := by simp [hp]
    queued := by simp
    linked := by simp
    pending := by simp
    granted := fun hg hd => by
      have := (h.granted hg hd).2.2.1
      simp [hu] at this
    unclaimed := by simp
    canceled := fun _ => .inl hu.1
    settled := fun _ _ => .inr rfl
    fast := by simp [h.not_fast he] }

theorem Sound.revoke (h : Sound x m) (hg : x.granted = true) (hp : x.phase = .suspended) :
    Sound { x with granted := false, canceled := true, wasRevoked := true } m := by
  have hgr := h.granted hg (by simp [hp])
  have hc : x.claimed = true := by
    by_contra hc
    have := h.unclaimed (by simpa using hc)
    simp [hgr] at this
  exact { h with
    fresh := by simp [hp]
    unqueued := by simp [hp]
    pending := by simp [hc]
    granted := by simp
    unclaimed := by simp [hc]
    canceled := fun _ => .inr rfl
    settled := fun _ _ => .inr rfl
    fast := by simp [h.not_fast (h.suspended hp)]
    finished := fun ok hok => by
      have := (h.finished ok hok).1
      simp [hp] at this }

end Life

theorem Sound.life {x x' : View} {m m' : Nat} (h : Sound x m) (hlife : Life x m x' m') :
    Sound x' m' := by
  cases hlife with
  | start hp => exact h.start hp
  | take hp => exact h.take hp
  | seeStop hp hf => exact h.seeStop hp hf
  | queue hp hf hc => exact h.queue hp hf hc
  | register he => exact { h with registered := fun _ => he }
  | unregister => exact { h with registered := by simp }
  | claim he hc => exact h.claim he hc
  | mark he => exact h.mark he
  | resume hr => exact h.resume hr
  | destroy => exact h.destroy
  | skip hc => exact h.skip hc
  | grant hc hq => exact h.grant hc hq
  | drop hc hq => exact h.drop hc hq
  | revoke hg hp => exact h.revoke hg hp

/-- What holds of the mutex when an activation stands at a point. -/
def PcOk (s : Mutex) : Pc → Prop
  | .awaitSuspend w => s.alive = true ∧ s.locked = true ∧
      (s.awaiter w).phase = .starting ∧ (s.awaiter w).fast = false ∧
      (s.awaiter w).canceled = false
  | .register w | .cancel w _ | .cancelMark w _ | .cancelPosting w _ => w ∈ s.enqueued
  | .resume w => (view s w).Resumable ∧
      ((s.awaiter w).fast = true → s.alive = true ∧ w ∈ s.holders)
  | .dtor w => (s.awaiter w).phase ≠ .fresh ∧ (s.awaiter w).phase ≠ .destroyed
  | .unlock | .grantNext => s.alive = true
  | .unlockPosting => True
  | .destroyLoop | .destroyPosting => s.alive = false

/-- The activation has claimed `w` and is going to post it. -/
def Pc.marks (w : Nat) : Pc → Bool
  | .cancelMark v _ => v = w
  | _ => false

/-- The awaiter of another coroutine, or one event in the life of this one. -/
def Lives (x : View) (m : Nat) (x' : View) (m' : Nat) : Prop :=
  (x' = x ∧ m' = m) ∨ Life x m x' m'

theorem Sound.lives {x x' : View} {m m' : Nat} (h : Sound x m)
    (hlives : Lives x m x' m') : Sound x' m' := by
  rcases hlives with ⟨rfl, rfl⟩ | hlife
  · exact h
  · exact h.life hlife

@[simp] theorem update_self (s : Mutex) (w : Nat) (f : Awaiter → Awaiter) :
    s.update w f w = f (s.awaiter w) :=
  Function.update_self ..

@[simp] theorem update_of_ne (s : Mutex) {v w : Nat} (f : Awaiter → Awaiter)
    (h : v ≠ w) : s.update w f v = s.awaiter v :=
  Function.update_of_ne h ..

section Views

variable {s : Mutex} {v w : Nat} {rest : List Nat}

theorem view_awaitResume_self (hnodup : s.waiters.Nodup)
    (hlinked : w ∈ s.waiters → (s.awaiter w).inList = true) :
    view (awaitResume s w) w = { view s w with
      granted := false
      registered := (view s w).registered && !(s.awaiter w).active
      inList := (view s w).inList && !((s.awaiter w).active && (s.awaiter w).canceled)
      queued := (view s w).queued && !((s.awaiter w).active && (s.awaiter w).canceled)
      phase := .done
      result := some !(view s w).canceled } := by
  cases ha : (s.awaiter w).active <;> cases hc : (s.awaiter w).canceled <;>
    cases hl : (s.awaiter w).inList <;>
    simp_all [awaitResume, view, hnodup.mem_erase_iff]

theorem view_awaitResume_of_ne (hv : v ≠ w) :
    view (awaitResume s w) v = view s v := by
  cases ha : (s.awaiter w).active && (s.awaiter w).canceled && (s.awaiter w).inList <;>
    simp [awaitResume, view, hv, ha, List.mem_erase_of_ne hv]

theorem view_destroyAwaiter_self (hnodup : s.waiters.Nodup)
    (hlinked : w ∈ s.waiters → (s.awaiter w).inList = true) :
    view (destroyAwaiter s w) w = { view s w with
      registered := (view s w).registered && !(s.awaiter w).active
      queued := false
      phase := .destroyed } := by
  cases hl : (s.awaiter w).inList <;>
    simp_all [destroyAwaiter, view, hnodup.mem_erase_iff]

theorem view_destroyAwaiter_of_ne (hv : v ≠ w) :
    view (destroyAwaiter s w) v = view s v := by
  cases hl : (s.awaiter w).inList <;>
    simp [destroyAwaiter, view, hv, hl, List.mem_erase_of_ne hv]

theorem not_mem_rest (hnodup : s.waiters.Nodup) (hw : s.waiters = w :: rest) :
    w ∉ rest := by
  rw [hw] at hnodup
  exact (List.nodup_cons.mp hnodup).1

theorem view_popFront_self (hnodup : s.waiters.Nodup) (hw : s.waiters = w :: rest) :
    view (popFront s w rest) w =
      { view s w with inList := false, claimed := true, queued := false } := by
  have hrest := not_mem_rest hnodup hw
  simp [view, hrest]

theorem view_popFront_of_ne (hw : s.waiters = w :: rest) (hv : v ≠ w) :
    view (popFront s w rest) v = view s v := by
  simp [view, hv, hw]

end Views

theorem destroyAwaiter_lives {s : Mutex} (hnodup : s.waiters.Nodup) {w : Nat}
    (hlinked : w ∈ s.waiters → (s.awaiter w).inList = true) (v m : Nat) :
    Lives (view s v) m (view (destroyAwaiter s w) v) m := by
  rcases eq_or_ne v w with rfl | hv
  · rw [view_destroyAwaiter_self hnodup hlinked]
    exact .inr .destroy
  · exact .inl ⟨view_destroyAwaiter_of_ne hv, rfl⟩

theorem popFront_lives {s : Mutex} (hnodup : s.waiters.Nodup) {w : Nat} {rest : List Nat}
    (hw : s.waiters = w :: rest) (hc : (s.awaiter w).claimed = true) (v m : Nat) :
    Lives (view s v) m (view (popFront s w rest) v) m := by
  rcases eq_or_ne v w with rfl | hv
  · have hx : view (popFront s v rest) v =
        { view s v with inList := false, queued := false } := by
      rw [view_popFront_self hnodup hw]
      simp [view, hc]
    rw [hx]
    exact .inr (.skip hc)
  · exact .inl ⟨view_popFront_of_ne hw hv, rfl⟩

theorem Step.lives {quitter : Nat → Bool} {s s' : Mutex} {pc : Pc} {q : Option Pc}
    (hstep : Step quitter s pc s' q) (hpc : PcOk s pc) (hnodup : s.waiters.Nodup)
    (hlinked : ∀ w, w ∈ s.waiters → (s.awaiter w).inList = true) (v m : Nat) :
    Lives (view s v) (m + (pc.marks v).toNat) (view s' v)
      (m + (q.elim false (Pc.marks v)).toNat) := by
  cases hstep with
  | @suspendStopped w hstop =>
      obtain ⟨-, -, hp, hf, -⟩ := hpc
      rcases eq_or_ne v w with rfl | hv
      · right
        simpa [view, Pc.marks] using Life.seeStop (x := view s v) (m := m) hp hf
      · left
        simp [view, hv, Pc.marks]
  | @suspendQueued w =>
      obtain ⟨-, -, hp, hf, hc⟩ := hpc
      rcases eq_or_ne v w with rfl | hv
      · right
        simpa [view, Pc.marks] using Life.queue (x := view s v) (m := m) hp hf hc
      · left
        simp [view, hv, Pc.marks]
  | registerStopped => exact .inl ⟨rfl, rfl⟩
  | @register w =>
      rcases eq_or_ne v w with rfl | hv
      · right
        have he : (view s v).enqueued = true := decide_eq_true hpc
        simpa [view, Pc.marks] using Life.register (x := view s v) (m := m) he
      · left
        simp [view, hv, Pc.marks]
  | @cancelLost w b hc =>
      left
      rcases eq_or_ne v w with rfl | hv <;> cases b <;>
        simp [callbackReturns, view, Pc.marks, *]
  | @cancelClaims w b hc =>
      rcases eq_or_ne v w with rfl | hv
      · right
        have he : (view s v).enqueued = true := decide_eq_true hpc
        simpa [view, Pc.marks] using Life.claim (x := view s v) (m := m) he hc
      · left
        simp [view, hv, hv.symm, Pc.marks]
  | @cancelMark w b =>
      rcases eq_or_ne v w with rfl | hv
      · right
        have he : (view s v).enqueued = true := decide_eq_true hpc
        simpa [view, Pc.marks] using Life.mark (x := view s v) (m := m) he
      · left
        simp [view, hv, hv.symm, Pc.marks]
  | @cancelReturns w b =>
      left
      rcases eq_or_ne v w with rfl | hv <;> cases b <;>
        simp [callbackReturns, view, Pc.marks, *]
  | resumeLeaks => exact .inl ⟨rfl, rfl⟩
  | resumeUnwinds => exact .inl ⟨rfl, rfl⟩
  | @resume w =>
      rcases eq_or_ne v w with rfl | hv
      · rw [view_awaitResume_self hnodup (hlinked v)]
        exact .inr (.resume hpc.1)
      · exact .inl ⟨view_awaitResume_of_ne hv, rfl⟩
  | @dtorGranted w hg => exact destroyAwaiter_lives hnodup (hlinked w) v m
  | @dtor w hg => exact destroyAwaiter_lives hnodup (hlinked w) v m
  | unlockAgain => exact .inl ⟨rfl, rfl⟩
  | unlock => exact .inl ⟨rfl, rfl⟩
  | grantSkips hw hc => exact popFront_lives hnodup hw hc v m
  | @grants w rest hw hc =>
      have hqueued : (view s w).queued = true := by simp [view, hw]
      have hrest := not_mem_rest hnodup hw
      rcases eq_or_ne v w with rfl | hv
      · right
        simpa [popFront, view, Pc.marks, hrest] using
          Life.grant (x := view s v) (m := m) hc hqueued
      · left
        simp [popFront, view, hv, hv.symm, hw, Pc.marks]
  | releases => exact .inl ⟨rfl, rfl⟩
  | postedGone => exact .inl ⟨rfl, rfl⟩
  | postedAgain => exact .inl ⟨rfl, rfl⟩
  | posted => exact .inl ⟨rfl, rfl⟩
  | destroySkips hw hc => exact popFront_lives hnodup hw hc v m
  | @destroyCancels w rest hw hc =>
      have hqueued : (view s w).queued = true := by simp [view, hw]
      have hrest := not_mem_rest hnodup hw
      rcases eq_or_ne v w with rfl | hv
      · right
        simpa [popFront, view, Pc.marks, hrest] using
          Life.drop (x := view s v) (m := m) hc hqueued
      · left
        simp [popFront, view, hv, hv.symm, hw, Pc.marks]
  | destroyDone => exact .inl ⟨rfl, rfl⟩
  | destroyPosted => exact .inl ⟨rfl, rfl⟩

theorem Entered.lives {s s' : Mutex} {t : Nat} {e : Entry} {q : Option Pc}
    (henter : Entered s t e s' q)
    (hgranted : ∀ w, s.alive = true → s.grantedTo = some w →
      (s.awaiter w).granted = true ∧ (s.awaiter w).phase = .suspended) (v m : Nat) :
    Lives (view s v) m (view s' v) (m + (q.elim false (Pc.marks v)).toNat) := by
  cases henter with
  | @lockBusy w _ hp _ =>
      rcases eq_or_ne v w with rfl | hv
      · right
        simpa [view, Pc.marks] using Life.start (x := view s v) (m := m) hp
      · left
        simp [view, hv, Pc.marks]
  | @lockFree w _ hp _ =>
      rcases eq_or_ne v w with rfl | hv
      · right
        simpa [view, Pc.marks] using Life.take (x := view s v) (m := m) hp
      · left
        simp [view, hv, Pc.marks]
  | resume => exact .inl ⟨rfl, rfl⟩
  | destroy => exact .inl ⟨rfl, rfl⟩
  | unlock => exact .inl ⟨rfl, rfl⟩
  | destroyMutex halive hholders =>
      cases hto : s.grantedTo with
      | none =>
          left
          simp [view, hto, Pc.marks]
      | some w =>
          obtain ⟨hg, hp⟩ := hgranted w halive hto
          rcases eq_or_ne v w with rfl | hv
          · right
            simpa [AsyncMutex.destroyMutex, view, hto, Pc.marks] using
              Life.revoke (x := view s v) (m := m) hg hp
          · left
            simp [view, hto, hv, Pc.marks]
  | @requestStop _ w =>
      left
      rcases eq_or_ne v w with rfl | hv <;> simp [view, *]
  | @stopCallback _ w hr =>
      rcases eq_or_ne v w with rfl | hv
      · right
        simpa [view, Pc.marks] using Life.unregister (x := view s v) (m := m)
      · left
        simp [view, hv, Pc.marks]

end Capy.AsyncMutex
