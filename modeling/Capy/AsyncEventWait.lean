import Capy.AsyncEvent

namespace Capy.AsyncEvent

open Capy.CallStack

structure Trace where
  claimed : Bool
  canceled : Bool
  list : Option Link
  registered : Bool
  phase : Phase
  ready : Bool
  queued : Bool
  claims : List Claimer
  posts : Nat
  result : Option Bool

def trace (a : Awaiter) : Trace where
  claimed := a.claimed
  canceled := a.canceled
  list := a.list
  registered := a.registered
  phase := a.phase
  ready := a.ready
  queued := a.queued
  claims := a.claims
  posts := a.posts
  result := a.result

/-- The waiter is in the list of a call of `set()`. -/
def Trace.inSet (x : Trace) : Bool :=
  match x.list with
  | some (.set _) => true
  | _ => false

/-- The awaiter is ready for `await_resume`: posted while suspended, or not
suspended because the event was set or a stop request seen. -/
def Trace.Resumable (x : Trace) : Prop :=
  (x.phase = .suspended ∧ 0 < x.posts) ∨
    (x.phase = .starting ∧ (x.ready = true ∨ x.canceled = true))

/-- What can happen to a wait; the numbers count the stop callbacks that have
claimed it and are going to post it. -/
inductive Life : Trace → Nat → Trace → Nat → Prop
  | start {x m} : x.phase = .fresh → Life x m { x with phase := .starting } m
  | startReady {x m} : x.phase = .fresh →
      Life x m { x with ready := true, phase := .starting } m
  | seeStop {x m} : x.phase = .starting → x.ready = false →
      Life x m { x with canceled := true } m
  | queue {x m} : x.phase = .starting → x.ready = false → x.canceled = false →
      Life x m { x with list := some .event, queued := true, phase := .suspended } m
  | register {x m} : x.queued = true → Life x m { x with registered := true } m
  | unregister {x m} : Life x m { x with registered := false } m
  | claimStop {x m} : x.queued = true → x.claimed = false →
      Life x m { x with claimed := true, claims := x.claims ++ [.stop] } (m + 1)
  | mark {x m} : x.queued = true →
      Life x (m + 1) { x with canceled := true, posts := x.posts + 1 } m
  | skip {x m} : x.claimed = true → x.list = some .event → x.phase ≠ .destroyed →
      Life x m { x with list := none } m
  | claimSet {x m k} : x.claimed = false → x.list = some .event → x.phase ≠ .destroyed →
      Life x m { x with
        claimed := true, claims := x.claims ++ [.set k], list := some (.set k) } m
  | postSet {x m k} : x.list = some (.set k) → x.phase ≠ .destroyed →
      Life x m { x with list := none, posts := x.posts + 1 } m
  | drop {x m} : x.claimed = false → x.list = some .event → x.phase ≠ .destroyed →
      Life x m { x with
        claimed := true, claims := x.claims ++ [.destructor], canceled := true,
        list := none, posts := x.posts + 1 } m
  | resume {x m active} : x.Resumable →
      Life x m { x with
        registered := x.registered && !active
        list := if x.canceled then none else x.list
        phase := .done
        result := some !x.canceled } m
  | destroy {x m active} :
      Life x m { x with registered := x.registered && !active, phase := .destroyed } m

/-- What holds of a wait that `marks` stop callbacks are going to post. -/
structure Sound (x : Trace) (marks : Nat) : Prop where
  claims_length : x.claims.length = x.claimed.toNat
  posts : x.phase ≠ .destroyed → x.posts + marks + x.inSet.toNat = x.claimed.toNat
  posts_le : x.posts + marks ≤ x.claimed.toNat
  fresh : x.phase = .fresh → x.canceled = false ∧ x.ready = false
  unqueued : x.phase = .fresh ∨ x.phase = .starting →
    x.claimed = false ∧ x.list = none ∧ x.queued = false ∧ x.result = none
  pending : x.queued = true → x.claimed = false → x.phase ≠ .destroyed →
    x.list = some .event ∧ x.phase = .suspended ∧ x.canceled = false
  linked : x.list ≠ none → x.queued = true
  suspended : x.phase = .suspended → x.queued = true
  registered : x.registered = true → x.queued = true
  ready : x.ready = true → x.canceled = false ∧ x.queued = false
  marked : marks ≠ 0 → x.claims = [.stop]
  inEvent : x.list = some .event → x.phase ≠ .destroyed → x.claims = [] ∨ x.claims = [.stop]
  inSet : ∀ k, x.list = some (.set k) → x.phase ≠ .destroyed →
    x.claims = [.set k] ∧ x.canceled = false ∧ x.phase = .suspended
  settled : 0 < x.posts → x.phase = .suspended →
    x.canceled = true ∨ ∃ k, x.claims = [.set k]
  canceled : x.canceled = true → ∀ k, .set k ∉ x.claims
  finished : ∀ ok, x.result = some ok → (x.phase = .done ∨ x.phase = .destroyed) ∧
    (ok = true ↔ x.ready = true ∨ ∃ k, .set k ∈ x.claims)

section Consequences

variable {x : Trace} {m : Nat}

theorem Sound.claims_nil (h : Sound x m) (hc : x.claimed = false) : x.claims = [] :=
  List.eq_nil_of_length_eq_zero (by simp [h.claims_length, hc])

theorem Sound.not_ready (h : Sound x m) (hq : x.queued = true) : x.ready = false := by
  by_contra hr
  have := (h.ready (by simpa using hr)).2
  simp [hq] at this

theorem Sound.started (h : Sound x m) (hq : x.queued = true) :
    x.phase ≠ .fresh ∧ x.phase ≠ .starting := by
  constructor
  · intro hp
    have := (h.unqueued (.inl hp)).2.2.1
    simp [hq] at this
  · intro hp
    have := (h.unqueued (.inr hp)).2.2.1
    simp [hq] at this

theorem Sound.outcome (h : Sound x m) (hr : x.Resumable) :
    x.canceled = false ↔ x.ready = true ∨ ∃ k, .set k ∈ x.claims := by
  rcases hr with ⟨hp, hpos⟩ | ⟨hp, hready⟩
  · have hslow := h.not_ready (h.suspended hp)
    rcases h.settled hpos hp with hc | ⟨k, hk⟩
    · simp [hc, hslow, h.canceled hc]
    · have hc : x.canceled = false := by
        by_contra hc
        exact h.canceled (by simpa using hc) k (by simp [hk])
      simp [hc, hk]
  · have hnil := h.claims_nil (h.unqueued (.inr hp)).1
    rcases hready with hready | hc
    · simp [(h.ready hready).1, hready]
    · have hslow : x.ready = false := by
        by_contra hready
        have := (h.ready (by simpa using hready)).1
        simp [hc] at this
      simp [hc, hslow, hnil]

end Consequences

section Life

variable {x : Trace} {m : Nat}

theorem Sound.start (h : Sound x m) (hp : x.phase = .fresh) :
    Sound { x with phase := .starting } m := by
  have hu := h.unqueued (.inl hp)
  exact { h with
    posts := fun _ => h.posts (by simp [hp])
    fresh := by simp
    unqueued := fun _ => hu
    pending := by simp [hu]
    suspended := by simp
    inEvent := by simp [hu]
    inSet := by simp [hu]
    settled := by simp
    finished := by simp [hu] }

theorem Sound.startReady (h : Sound x m) (hp : x.phase = .fresh) :
    Sound { x with ready := true, phase := .starting } m := by
  have hu := h.unqueued (.inl hp)
  have hf := h.fresh hp
  exact { h with
    posts := fun _ => h.posts (by simp [hp])
    fresh := by simp
    unqueued := fun _ => hu
    pending := by simp [hu]
    suspended := by simp
    ready := fun _ => ⟨hf.1, hu.2.2.1⟩
    inEvent := by simp [hu]
    inSet := by simp [hu]
    settled := by simp
    finished := by simp [hu] }

theorem Sound.seeStop (h : Sound x m) (hp : x.phase = .starting) (hr : x.ready = false) :
    Sound { x with canceled := true } m := by
  have hu := h.unqueued (.inr hp)
  have hnil := h.claims_nil hu.1
  exact { h with
    fresh := by simp [hp]
    pending := by simp [hu]
    ready := by simp [hr]
    inSet := by simp [hu]
    settled := by simp [hp]
    canceled := by simp [hnil] }

theorem Sound.queue (h : Sound x m) (hp : x.phase = .starting) (hr : x.ready = false)
    (hc : x.canceled = false) :
    Sound { x with list := some .event, queued := true, phase := .suspended } m := by
  have hu := h.unqueued (.inr hp)
  have hnil := h.claims_nil hu.1
  have hposts := h.posts (by simp [hp])
  have hle := h.posts_le
  simp only [hu.1, Bool.toNat_false] at hposts hle
  exact { h with
    posts := fun _ => by
      simp only [Trace.inSet, hu.1, Bool.toNat_false]
      omega
    fresh := by simp
    unqueued := by simp
    pending := fun _ _ _ => ⟨rfl, rfl, hc⟩
    linked := fun _ => rfl
    suspended := fun _ => rfl
    registered := fun _ => rfl
    ready := by simp [hr]
    inEvent := fun _ _ => .inl hnil
    inSet := by simp
    settled := by
      intro hpos
      simp only at hpos
      omega
    finished := by simp [hu] }

theorem Sound.claimStop (h : Sound x m) (hq : x.queued = true) (hc : x.claimed = false) :
    Sound { x with claimed := true, claims := x.claims ++ [.stop] } (m + 1) := by
  have hs := h.started hq
  have hnil := h.claims_nil hc
  have hle := h.posts_le
  simp only [hc, Bool.toNat_false] at hle
  exact { h with
    claims_length := by simp [hnil]
    posts := fun hp => by
      have hposts := h.posts hp
      simp only [hc, Bool.toNat_false] at hposts
      simp only [Trace.inSet, Bool.toNat_true] at hposts ⊢
      omega
    posts_le := by
      simp only [Bool.toNat_true]
      omega
    unqueued := by simp [hs]
    pending := by simp
    marked := by simp [hnil]
    inEvent := by simp [hnil]
    inSet := fun k hl hp => by
      have := (h.inSet k hl hp).1
      simp [hnil] at this
    settled := fun hpos => by
      simp only at hpos
      omega
    canceled := by simp [hnil]
    finished := by simpa [hnil] using h.finished }

theorem Sound.mark (h : Sound x (m + 1)) (hq : x.queued = true) :
    Sound { x with canceled := true, posts := x.posts + 1 } m := by
  have hs := h.started hq
  have hle := h.posts_le
  have hstop := h.marked (by simp)
  have hone : x.claimed.toNat ≤ 1 := Bool.toNat_le _
  have hc : x.claimed = true := by
    simpa [Nat.pos_iff_ne_zero] using (show 0 < x.claimed.toNat by omega)
  exact { h with
    posts := fun hp => by
      have hposts := h.posts hp
      simp only [Trace.inSet] at hposts ⊢
      omega
    posts_le := by
      simp only
      omega
    fresh := by simp [hs]
    pending := by simp [hc]
    ready := by simp [h.not_ready hq]
    marked := fun _ => hstop
    inSet := fun k hl hp => by
      have := (h.inSet k hl hp).1
      simp [hstop] at this
    settled := fun _ _ => .inl rfl
    canceled := by simp [hstop] }

theorem Sound.skip (h : Sound x m) (hc : x.claimed = true) (hl : x.list = some .event) :
    Sound { x with list := none } m := by
  exact { h with
    posts := fun hp => by simpa [Trace.inSet, hl] using h.posts hp
    unqueued := fun hp => by
      obtain ⟨hu, -, hq, hr⟩ := h.unqueued hp
      exact ⟨hu, rfl, hq, hr⟩
    pending := by simp [hc]
    linked := by simp
    inEvent := by simp
    inSet := by simp }

theorem Sound.claimSet (h : Sound x m) {k : Nat} (hc : x.claimed = false)
    (hl : x.list = some .event) (hp : x.phase ≠ .destroyed) :
    Sound { x with
      claimed := true, claims := x.claims ++ [.set k], list := some (.set k) } m := by
  have hq := h.linked (by simp [hl])
  have hnil := h.claims_nil hc
  obtain ⟨-, hsus, hcan⟩ := h.pending hq hc hp
  have hposts := h.posts hp
  simp only [hc, Bool.toNat_false] at hposts
  exact { h with
    claims_length := by simp [hnil]
    posts := fun _ => by
      simp only [Trace.inSet, Bool.toNat_true]
      omega
    posts_le := by
      simp only [Bool.toNat_true]
      omega
    unqueued := by simp [hsus]
    pending := by simp
    linked := fun _ => hq
    marked := by omega
    inEvent := by simp
    inSet := by
      rintro k ⟨⟩ -
      exact ⟨by simp [hnil], hcan, hsus⟩
    settled := fun hpos => by
      simp only at hpos
      omega
    canceled := by simp [hcan]
    finished := fun ok hok => by
      have := (h.finished ok hok).1
      simp [hsus] at this }

theorem Sound.postSet (h : Sound x m) {k : Nat} (hl : x.list = some (.set k))
    (hp : x.phase ≠ .destroyed) :
    Sound { x with list := none, posts := x.posts + 1 } m := by
  obtain ⟨hk, hcan, hsus⟩ := h.inSet k hl hp
  have hposts := h.posts hp
  simp only [Trace.inSet, hl, Bool.toNat_true] at hposts
  have hc : x.claimed = true := by
    by_contra hc
    simp [h.claims_nil (by simpa using hc)] at hk
  exact { h with
    posts := fun _ => by
      simp only [Trace.inSet, Bool.toNat_false]
      omega
    posts_le := by
      simp only
      omega
    unqueued := by simp [hsus]
    pending := by simp [hc]
    linked := by simp
    inEvent := by simp
    inSet := by simp
    settled := fun _ _ => .inr ⟨k, hk⟩ }

theorem Sound.drop (h : Sound x m) (hc : x.claimed = false) (hl : x.list = some .event)
    (hp : x.phase ≠ .destroyed) :
    Sound { x with
      claimed := true, claims := x.claims ++ [.destructor], canceled := true,
      list := none, posts := x.posts + 1 } m := by
  have hq := h.linked (by simp [hl])
  have hnil := h.claims_nil hc
  obtain ⟨-, hsus, -⟩ := h.pending hq hc hp
  have hposts := h.posts hp
  simp only [Trace.inSet, hl, hc, Bool.toNat_false] at hposts
  exact { h with
    claims_length := by simp [hnil]
    posts := fun _ => by
      simp only [Trace.inSet, Bool.toNat_true, Bool.toNat_false]
      omega
    posts_le := by
      simp only [Bool.toNat_true]
      omega
    fresh := by simp [hsus]
    unqueued := by simp [hsus]
    pending := by simp
    linked := by simp
    ready := by simp [h.not_ready hq]
    marked := by omega
    inEvent := by simp
    inSet := by simp
    settled := fun _ _ => .inl rfl
    canceled := by simp [hnil]
    finished := fun ok hok => by
      have := (h.finished ok hok).1
      simp [hsus] at this }

theorem Sound.resume (h : Sound x m) {active : Bool} (hr : x.Resumable) :
    Sound { x with
      registered := x.registered && !active
      list := if x.canceled then none else x.list
      phase := .done
      result := some !x.canceled } m := by
  have hp : x.phase ≠ .destroyed := by rcases hr with ⟨hp, -⟩ | ⟨hp, -⟩ <;> simp [hp]
  have hout : x.inSet = false := by
    have hposts := h.posts hp
    have hone : x.claimed.toNat ≤ 1 := Bool.toNat_le _
    rcases hr with ⟨-, hpos⟩ | ⟨hstart, -⟩
    · cases hin : x.inSet
      · rfl
      · simp only [hin, Bool.toNat_true] at hposts
        omega
    · simp [Trace.inSet, h.unqueued (.inr hstart)]
  have hlist : ∀ k, x.list ≠ some (.set k) := by
    intro k hk
    simp [Trace.inSet, hk] at hout
  exact { h with
    posts := fun _ => by
      have hposts := h.posts hp
      cases hc : x.canceled <;> simp_all [Trace.inSet]
    fresh := by simp
    unqueued := by simp
    pending := fun hq hc _ => by
      rcases hr with ⟨-, hpos⟩ | ⟨hstart, -⟩
      · have hle := h.posts_le
        simp only at hc
        simp only [hc, Bool.toNat_false] at hle
        omega
      · exact absurd hstart (h.started hq).2
    linked := fun hl => h.linked (by grind)
    suspended := by simp
    registered := fun hreg => h.registered (by simp_all)
    inEvent := fun hl _ => h.inEvent (by grind) hp
    inSet := fun k hl => absurd (by grind) (hlist k)
    settled := by simp
    finished := fun ok hok => by
      refine ⟨.inl rfl, ?_⟩
      have hcan := h.outcome hr
      simp only [Option.some.injEq] at hok
      rw [← hok, ← hcan]
      simp }

theorem Sound.destroy (h : Sound x m) {active : Bool} :
    Sound { x with registered := x.registered && !active, phase := .destroyed } m := by
  exact { h with
    posts := by simp
    fresh := by simp
    unqueued := by simp
    pending := by simp
    suspended := by simp
    registered := fun hreg => h.registered (by simp_all)
    inEvent := by simp
    inSet := by simp
    settled := by simp
    finished := fun ok hok => ⟨.inr rfl, (h.finished ok hok).2⟩ }

end Life

theorem Sound.life {x x' : Trace} {m m' : Nat} (h : Sound x m) (hlife : Life x m x' m') :
    Sound x' m' := by
  cases hlife with
  | start hp => exact h.start hp
  | startReady hp => exact h.startReady hp
  | seeStop hp hr => exact h.seeStop hp hr
  | queue hp hr hc => exact h.queue hp hr hc
  | register hq => exact { h with registered := fun _ => hq }
  | unregister => exact { h with registered := by simp }
  | claimStop hq hc => exact h.claimStop hq hc
  | mark hq => exact h.mark hq
  | skip hc hl _ => exact h.skip hc hl
  | claimSet hc hl hp => exact h.claimSet hc hl hp
  | postSet hl hp => exact h.postSet hl hp
  | drop hc hl hp => exact h.drop hc hl hp
  | resume hr => exact h.resume hr
  | destroy => exact h.destroy

end Capy.AsyncEvent
