import Capy.AsyncEventWait
import Mathlib.Data.List.Nodup

namespace Capy.AsyncEvent

open Capy.CallStack

/-- A waiter's `list_` is the list it is linked into. -/
structure Links (s : Event) : Prop where
  event : ∀ w, w ∈ s.waiters ↔
    (s.awaiter w).list = some .event ∧ (s.awaiter w).phase ≠ .destroyed
  set : ∀ w k, w ∈ s.claimed k ↔
    (s.awaiter w).list = some (.set k) ∧ (s.awaiter w).phase ≠ .destroyed
  event_nodup : s.waiters.Nodup
  set_nodup : ∀ k, (s.claimed k).Nodup

/-- Call `k` of `set()` claimed the waiter, which was not destroyed before it
was posted. -/
def Awaiter.keptBy (k : Nat) (a : Awaiter) : Bool :=
  a.claims = [.set k] && !(a.phase = .destroyed && a.posts = 0)

/-- What call `k` of `set()` has done with the waiters `ws`. -/
structure Batch (s : Event) (k : Nat) (ws : List Nat) : Prop where
  claims : ∀ w ∈ ws, (s.awaiter w).claims = [.set k] ∨ (s.awaiter w).claims = [.stop]
  posted : s.posted k ++ s.claimed k = ws.filter fun w => (s.awaiter w).keptBy k

/-- What holds of the event when an activation stands at a point. -/
def PcOk (s : Event) : Pc → Prop
  | .awaitSuspend w => s.alive = true ∧ (s.awaiter w).phase = .starting ∧
      (s.awaiter w).ready = false ∧ (s.awaiter w).canceled = false
  | .register w | .cancel w _ | .cancelMark w _ | .cancelPosting w _ =>
      (s.awaiter w).queued = true
  | .resume w => (trace (s.awaiter w)).Resumable
  | .dtor w => (s.awaiter w).phase ≠ .destroyed
  | .claimAll k => s.alive = true ∧ k < s.calls ∧
      ∃ taken, s.linked k = taken ++ s.waiters ∧ Batch s k taken
  | .setLoop k | .setPosting k => k < s.calls
  | .destroyLoop | .destroyPosting => s.alive = false

def Pc.marks (w : Nat) : Pc → Bool
  | .cancelMark v _ => v = w
  | _ => false

def Lives (x : Trace) (m : Nat) (x' : Trace) (m' : Nat) : Prop :=
  (x' = x ∧ m' = m) ∨ Life x m x' m'

theorem Sound.lives {x x' : Trace} {m m' : Nat} (h : Sound x m)
    (hlives : Lives x m x' m') : Sound x' m' := by
  rcases hlives with ⟨rfl, rfl⟩ | hlife
  · exact h
  · exact h.life hlife

@[simp] theorem update_self (s : Event) (w : Nat) (f : Awaiter → Awaiter) :
    s.update w f w = f (s.awaiter w) :=
  Function.update_self ..

@[simp] theorem update_of_ne (s : Event) {v w : Nat} (f : Awaiter → Awaiter)
    (h : v ≠ w) : s.update w f v = s.awaiter v :=
  Function.update_of_ne h ..

theorem lives_update {s : Event} {w m m' v : Nat} {f : Awaiter → Awaiter}
    (h : v = w → Lives (trace (s.awaiter v)) m (trace (f (s.awaiter v))) m')
    (hm : v ≠ w → m' = m) :
    Lives (trace (s.awaiter v)) m (trace (s.update w f v)) m' := by
  rcases eq_or_ne v w with rfl | hv
  · rw [update_self]
    exact h rfl
  · rw [update_of_ne s f hv]
    exact .inl ⟨rfl, hm hv⟩

theorem callbackReturns_lives (s : Event) (w : Nat) (inConstructor : Bool) (m v : Nat) :
    Lives (trace (s.awaiter v)) m
      (trace ((callbackReturns s w inConstructor).awaiter v)) m := by
  cases inConstructor
  · exact .inl ⟨rfl, rfl⟩
  · exact lives_update (fun _ => .inl ⟨rfl, rfl⟩) fun _ => rfl

theorem Step.lives {s s' : Event} {pc : Pc} {q : Option Pc} (hstep : Step s pc s' q)
    (hpc : PcOk s pc) (hlinks : Links s) (v m : Nat) :
    Lives (trace (s.awaiter v)) (m + (pc.marks v).toNat) (trace (s'.awaiter v))
      (m + (q.elim false (Pc.marks v)).toNat) := by
  cases hstep with
  | suspendStopped =>
      exact lives_update (by rintro rfl; exact .inr (.seeStop hpc.2.1 hpc.2.2.1))
        fun _ => rfl
  | suspendQueued =>
      exact lives_update
        (by rintro rfl; exact .inr (.queue hpc.2.1 hpc.2.2.1 hpc.2.2.2)) fun _ => rfl
  | registerStopped => exact .inl ⟨rfl, rfl⟩
  | register => exact lives_update (by rintro rfl; exact .inr (.register hpc)) fun _ => rfl
  | cancelLost => exact callbackReturns_lives ..
  | cancelClaims hc =>
      refine lives_update ?_ fun hv => by simp [Pc.marks, hv.symm]
      rintro rfl
      simp only [Pc.marks, Option.elim, decide_true, Bool.toNat_true, Bool.toNat_false]
      exact .inr (.claimStop hpc hc)
  | cancelMark =>
      refine lives_update ?_ fun hv => by simp [Pc.marks, hv.symm]
      rintro rfl
      simp only [Pc.marks, Option.elim, decide_true, Bool.toNat_true, Bool.toNat_false]
      exact .inr (.mark hpc)
  | cancelReturns => exact callbackReturns_lives ..
  | resume => exact lives_update (by rintro rfl; exact .inr (.resume hpc)) fun _ => rfl
  | dtor => exact lives_update (by rintro rfl; exact .inr .destroy) fun _ => rfl
  | @claimSkips k w rest hw hc =>
      obtain ⟨hl, hp⟩ := (hlinks.event w).mp (by simp [hw])
      exact lives_update (by rintro rfl; exact .inr (.skip hc hl hp)) fun _ => rfl
  | @claims k w rest hw hc =>
      obtain ⟨hl, hp⟩ := (hlinks.event w).mp (by simp [hw])
      exact lives_update (by rintro rfl; exact .inr (.claimSet hc hl hp)) fun _ => rfl
  | claimed => exact .inl ⟨rfl, rfl⟩
  | @posts k w rest hw =>
      obtain ⟨hl, hp⟩ := (hlinks.set w k).mp (by simp [hw])
      exact lives_update (by rintro rfl; exact .inr (.postSet hl hp)) fun _ => rfl
  | setDone => exact .inl ⟨rfl, rfl⟩
  | posted => exact .inl ⟨rfl, rfl⟩
  | @destroySkips w rest hw hc =>
      obtain ⟨hl, hp⟩ := (hlinks.event w).mp (by simp [hw])
      exact lives_update (by rintro rfl; exact .inr (.skip hc hl hp)) fun _ => rfl
  | @destroyCancels w rest hw hc =>
      obtain ⟨hl, hp⟩ := (hlinks.event w).mp (by simp [hw])
      exact lives_update (by rintro rfl; exact .inr (.drop hc hl hp)) fun _ => rfl
  | destroyDone => exact .inl ⟨rfl, rfl⟩
  | destroyPosted => exact .inl ⟨rfl, rfl⟩

theorem Entered.lives {s s' : Event} {t : Nat} {e : Entry} {q : Option Pc}
    (henter : Entered s t e s' q) (v m : Nat) :
    Lives (trace (s.awaiter v)) m (trace (s'.awaiter v))
      (m + (q.elim false (Pc.marks v)).toNat) := by
  cases henter with
  | waitReady hp =>
      exact lives_update (by rintro rfl; exact .inr (.startReady hp)) fun _ => rfl
  | wait _ hp => exact lives_update (by rintro rfl; exact .inr (.start hp)) fun _ => rfl
  | requestStop => exact lives_update (fun _ => .inl ⟨rfl, rfl⟩) fun _ => rfl
  | stopCallback => exact lives_update (fun _ => .inr .unregister) fun _ => rfl
  | _ => exact .inl ⟨rfl, rfl⟩

theorem Links.waiters_live {s : Event} (h : Links s) {w : Nat} {rest : List Nat}
    (hw : s.waiters = w :: rest) :
    (s.awaiter w).list = some .event ∧ (s.awaiter w).phase ≠ .destroyed :=
  (h.event w).mp (by simp [hw])

theorem Links.update {s : Event} (h : Links s) {w : Nat} {f : Awaiter → Awaiter}
    (hlist : (f (s.awaiter w)).list = (s.awaiter w).list)
    (hphase : (f (s.awaiter w)).phase = .destroyed ↔ (s.awaiter w).phase = .destroyed) :
    Links { s with awaiter := s.update w f } := by
  have hlinked : ∀ v link,
      ((s.update w f v).list = some link ∧ (s.update w f v).phase ≠ .destroyed) ↔
        (s.awaiter v).list = some link ∧ (s.awaiter v).phase ≠ .destroyed := by
    intro v link
    rcases eq_or_ne v w with rfl | hv
    · rw [update_self, hlist, Ne, hphase]
    · rw [update_of_ne s f hv]
  constructor
  · intro v
    rw [hlinked]
    exact h.event v
  · intro v k
    rw [hlinked]
    exact h.set v k
  · exact h.event_nodup
  · exact h.set_nodup

theorem Links.popEvent {s : Event} (h : Links s) {w : Nat} {rest : List Nat}
    {f : Awaiter → Awaiter} (hw : s.waiters = w :: rest)
    (hlist : (f (s.awaiter w)).list = none) :
    Links { s with waiters := rest, awaiter := s.update w f } := by
  obtain ⟨hold, hlive⟩ := h.waiters_live hw
  have hnodup := h.event_nodup
  rw [hw, List.nodup_cons] at hnodup
  constructor
  · intro v
    have hv := h.event v
    rcases eq_or_ne v w with rfl | hne
    · simp [hnodup.1, hlist]
    · simpa [hne, hw] using hv
  · intro v k
    have hv := h.set v k
    rcases eq_or_ne v w with rfl | hne
    · simp [hv, hlist, hold]
    · simpa [hne] using hv
  · exact hnodup.2
  · exact h.set_nodup

theorem unlink_event {s : Event} {w : Nat} (h : (s.awaiter w).list = some .event) :
    unlink s w = { s with waiters := s.waiters.erase w } := by
  simp [unlink, h]

theorem unlink_set {s : Event} {w k : Nat} (h : (s.awaiter w).list = some (.set k)) :
    unlink s w =
      { s with claimed := Function.update s.claimed k ((s.claimed k).erase w) } := by
  simp [unlink, h]

theorem unlink_none {s : Event} {w : Nat} (h : (s.awaiter w).list = none) :
    unlink s w = s := by
  simp [unlink, h]

theorem unlink_sublist (s : Event) (w : Nat) :
    (unlink s w).waiters.Sublist s.waiters ∧
      ∀ k, ((unlink s w).claimed k).Sublist (s.claimed k) := by
  cases hl : (s.awaiter w).list with
  | none =>
      rw [unlink_none hl]
      exact ⟨.refl _, fun _ => .refl _⟩
  | some link =>
      cases link with
      | event =>
          rw [unlink_event hl]
          exact ⟨List.erase_sublist, fun _ => .refl _⟩
      | set j =>
          rw [unlink_set hl]
          refine ⟨.refl _, fun k => ?_⟩
          rcases eq_or_ne k j with rfl | hk
          · simpa using List.erase_sublist
          · simp [hk]

theorem unlink_same (s : Event) (w : Nat) :
    (unlink s w).linked = s.linked ∧ (unlink s w).suspended = s.suspended ∧
      (unlink s w).posted = s.posted ∧ (unlink s w).alive = s.alive ∧
      (unlink s w).calls = s.calls := by
  unfold unlink
  split <;> simp

theorem Links.unlink {s : Event} (h : Links s) {w : Nat} {f : Awaiter → Awaiter}
    (hlive : (s.awaiter w).phase ≠ .destroyed)
    (hgone : (f (s.awaiter w)).list = none ∨ (f (s.awaiter w)).phase = .destroyed) :
    Links { AsyncEvent.unlink s w with awaiter := s.update w f } := by
  have hout : ∀ link, ¬((f (s.awaiter w)).list = some link ∧
      (f (s.awaiter w)).phase ≠ .destroyed) := by
    rintro link ⟨hl, hp⟩
    rcases hgone with hgone | hgone
    · simp [hgone] at hl
    · exact hp hgone
  have hevent : ∀ v, v ∈ (AsyncEvent.unlink s w).waiters ↔ v ≠ w ∧ v ∈ s.waiters := by
    intro v
    cases hl : (s.awaiter w).list with
    | none =>
        have := h.event w
        rw [unlink_none hl]
        grind
    | some link =>
        cases link with
        | event => rw [unlink_event hl, h.event_nodup.mem_erase_iff]
        | set k =>
            have := h.event w
            rw [unlink_set hl]
            grind
  have hset : ∀ v k, v ∈ (AsyncEvent.unlink s w).claimed k ↔ v ≠ w ∧ v ∈ s.claimed k := by
    intro v k
    have hw := h.set w k
    cases hl : (s.awaiter w).list with
    | none =>
        rw [unlink_none hl]
        grind
    | some link =>
        cases link with
        | event =>
            rw [unlink_event hl]
            grind
        | set j =>
            rw [unlink_set hl]
            rcases eq_or_ne k j with rfl | hk
            · simp [(h.set_nodup k).mem_erase_iff]
            · simp only [Function.update_of_ne hk]
              grind
  constructor
  · intro v
    rw [hevent]
    rcases eq_or_ne v w with rfl | hne
    · simpa using hout .event
    · simpa [hne] using h.event v
  · intro v k
    rw [hset]
    rcases eq_or_ne v w with rfl | hne
    · simpa using hout (.set k)
    · simpa [hne] using h.set v k
  · exact h.event_nodup.sublist (unlink_sublist s w).1
  · exact fun k => (h.set_nodup k).sublist ((unlink_sublist s w).2 k)

theorem awaitResume_links {s : Event} (h : Links s) {w : Nat}
    (hpc : PcOk s (.resume w)) : Links (awaitResume s w) := by
  have hlive : (s.awaiter w).phase ≠ .destroyed := by
    rcases hpc with ⟨hp, -⟩ | ⟨hp, -⟩ <;> simp_all [trace]
  unfold awaitResume
  split
  · rename_i hc
    exact h.unlink hlive (.inl (by simp [hc]))
  · rename_i hc
    exact h.update (by simp [hc]) (by simp [hlive])

theorem callbackReturns_links {s : Event} (h : Links s) (w : Nat) (inConstructor : Bool) :
    Links (callbackReturns s w inConstructor) := by
  cases inConstructor
  · exact h
  · exact h.update rfl Iff.rfl

theorem Links.queue {s : Event} (h : Links s) {w : Nat}
    (hnone : (s.awaiter w).list = none) :
    Links { s with
      waiters := s.waiters ++ [w]
      suspended := s.suspended ++ [w]
      awaiter := s.update w fun a =>
        { a with list := some .event, queued := true, phase := .suspended } } := by
  have hnew : w ∉ s.waiters := by
    rw [h.event]
    simp [hnone]
  constructor
  · intro v
    have hv := h.event v
    rcases eq_or_ne v w with rfl | hne
    · simp
    · simpa [hne] using hv
  · intro v k
    have hv := h.set v k
    rcases eq_or_ne v w with rfl | hne
    · simp_all
    · simpa [hne] using hv
  · simpa using h.event_nodup.concat hnew
  · exact h.set_nodup

theorem Links.claim {s : Event} (h : Links s) {k w : Nat} {rest : List Nat}
    (hw : s.waiters = w :: rest) :
    Links { s with
      waiters := rest
      claimed := Function.update s.claimed k (s.claimed k ++ [w])
      awaiter := s.update w fun a =>
        { a with
          claimed := true
          claims := a.claims ++ [.set k]
          list := some (.set k) } } := by
  obtain ⟨hl, hp⟩ := h.waiters_live hw
  have hnodup := h.event_nodup
  rw [hw, List.nodup_cons] at hnodup
  have hnew : ∀ j, w ∉ s.claimed j := by
    intro j
    rw [h.set]
    simp [hl]
  constructor
  · intro v
    have hv := h.event v
    rcases eq_or_ne v w with rfl | hne
    · simp [hnodup.1]
    · simpa [hne, hw] using hv
  · intro v j
    have hv := h.set v j
    rcases eq_or_ne v w with rfl | hne
    · rcases eq_or_ne j k with rfl | hj
      · simpa using hp
      · simp [hj, hj.symm, hnew]
    · rcases eq_or_ne j k with rfl | hj
      · simpa [hne] using hv
      · simpa [hne, hj] using hv
  · exact hnodup.2
  · intro j
    rcases eq_or_ne j k with rfl | hj
    · simpa using (h.set_nodup j).concat (hnew j)
    · simpa [hj] using h.set_nodup j

theorem Links.post {s : Event} (h : Links s) {k w : Nat} {rest : List Nat}
    (hw : s.claimed k = w :: rest) :
    Links { s with
      claimed := Function.update s.claimed k rest
      posted := Function.update s.posted k (s.posted k ++ [w])
      awaiter := s.update w fun a => { a with list := none, posts := a.posts + 1 } } := by
  obtain ⟨hl, hp⟩ := (h.set w k).mp (by simp [hw])
  have hnodup := h.set_nodup k
  rw [hw, List.nodup_cons] at hnodup
  constructor
  · intro v
    have hv := h.event v
    rcases eq_or_ne v w with rfl | hne
    · simp_all
    · simpa [hne] using hv
  · intro v j
    have hv := h.set v j
    rcases eq_or_ne v w with rfl | hne
    · rcases eq_or_ne j k with rfl | hj
      · simp [hnodup.1]
      · simp_all [hj.symm]
    · rcases eq_or_ne j k with rfl | hj
      · simpa [hne, hw] using hv
      · simpa [hne, hj] using hv
  · exact h.event_nodup
  · intro j
    rcases eq_or_ne j k with rfl | hj
    · simpa using hnodup.2
    · simpa [hj] using h.set_nodup j

theorem Links.step {s s' : Event} {pc : Pc} {q : Option Pc} (hstep : Step s pc s' q)
    (h : Links s) (hpc : PcOk s pc) (hsound : ∀ w, ∃ m, Sound (trace (s.awaiter w)) m) :
    Links s' := by
  cases hstep with
  | suspendStopped => exact h.update rfl Iff.rfl
  | @suspendQueued w =>
      obtain ⟨m, hw⟩ := hsound w
      exact h.queue (hw.unqueued (.inr hpc.2.1)).2.1
  | registerStopped => exact h
  | register => exact h.update rfl Iff.rfl
  | cancelLost => exact callbackReturns_links h ..
  | cancelClaims => exact h.update rfl Iff.rfl
  | cancelMark => exact h.update rfl Iff.rfl
  | cancelReturns => exact callbackReturns_links h ..
  | resume => exact awaitResume_links h hpc
  | dtor => exact h.unlink hpc (.inr rfl)
  | claimSkips hw => exact h.popEvent hw rfl
  | claims hw => exact h.claim hw
  | claimed => exact h
  | posts hw => exact h.post hw
  | setDone => exact h
  | posted => exact h
  | destroySkips hw => exact h.popEvent hw rfl
  | destroyCancels hw => exact h.popEvent hw rfl
  | destroyDone => exact h
  | destroyPosted => exact h

theorem Links.enter {s s' : Event} {t : Nat} {e : Entry} {q : Option Pc}
    (henter : Entered s t e s' q) (h : Links s) : Links s' := by
  cases henter with
  | waitReady hp => exact h.update rfl (by simp [hp])
  | wait _ hp => exact h.update rfl (by simp [hp])
  | requestStop => exact h.update rfl Iff.rfl
  | stopCallback => exact h.update rfl Iff.rfl
  | _ => exact ⟨h.event, h.set, h.event_nodup, h.set_nodup⟩

end Capy.AsyncEvent
