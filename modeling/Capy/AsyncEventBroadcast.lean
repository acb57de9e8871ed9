import Capy.AsyncEventLists

namespace Capy.AsyncEvent

open Capy.CallStack

/-- The waiters are in the order they suspended in. -/
structure Ordered (s : Event) : Prop where
  waiters : s.waiters.Sublist s.suspended
  linked : ∀ k, (s.linked k).Sublist s.suspended
  nodup : s.suspended.Nodup
  queued : ∀ w ∈ s.suspended, (s.awaiter w).queued = true

theorem Lives.queued {x x' : Trace} {m m' : Nat} (h : Lives x m x' m')
    (hq : x.queued = true) : x'.queued = true := by
  rcases h with ⟨rfl, -⟩ | hlife
  · exact hq
  · cases hlife <;> first | exact hq | rfl

theorem Ordered.keep {s s' : Event} (h : Ordered s)
    (hwaiters : s'.waiters.Sublist s.waiters) (hlinked : s'.linked = s.linked)
    (hsuspended : s'.suspended = s.suspended)
    (hqueued : ∀ w, (s.awaiter w).queued = true → (s'.awaiter w).queued = true) :
    Ordered s' := by
  constructor
  · exact hsuspended ▸ hwaiters.trans h.waiters
  · exact hsuspended ▸ hlinked ▸ h.linked
  · exact hsuspended ▸ h.nodup
  · rw [hsuspended]
    exact fun w hw => hqueued w (h.queued w hw)

theorem Ordered.step {s s' : Event} {pc : Pc} {q : Option Pc} (hstep : Step s pc s' q)
    (h : Ordered s) (hpc : PcOk s pc) (hsound : ∀ w, ∃ m, Sound (trace (s.awaiter w)) m)
    (hqueued : ∀ w, (s.awaiter w).queued = true → (s'.awaiter w).queued = true) :
    Ordered s' := by
  cases hstep with
  | @suspendQueued w =>
      obtain ⟨m, hw⟩ := hsound w
      have hnew : w ∉ s.suspended := by
        intro hmem
        have := (hw.unqueued (.inr hpc.2.1)).2.2.1
        simp [trace, h.queued w hmem] at this
      constructor
      · exact h.waiters.append (List.Sublist.refl [w])
      · exact fun k => (h.linked k).trans (List.sublist_append_left ..)
      · simpa using h.nodup.concat hnew
      · intro v hv
        rcases eq_or_ne v w with rfl | hne
        · simp
        · exact hqueued v (h.queued v (by simpa [hne] using hv))
  | @cancelLost w inConstructor =>
      cases inConstructor <;> exact h.keep (.refl _) rfl rfl hqueued
  | @cancelReturns w inConstructor =>
      cases inConstructor <;> exact h.keep (.refl _) rfl rfl hqueued
  | @resume w =>
      refine h.keep ?_ ?_ ?_ hqueued
      · simp only [awaitResume]
        split
        · exact (unlink_sublist s w).1
        · exact .refl _
      · simp only [awaitResume]
        split
        · exact (unlink_same s w).1
        · rfl
      · simp only [awaitResume]
        split
        · exact (unlink_same s w).2.1
        · rfl
  | @dtor w =>
      exact h.keep (unlink_sublist s w).1 (unlink_same s w).1 (unlink_same s w).2.1 hqueued
  | claimSkips hw => exact h.keep (by simp [hw]) rfl rfl hqueued
  | claims hw => exact h.keep (by simp [hw]) rfl rfl hqueued
  | destroySkips hw => exact h.keep (by simp [hw]) rfl rfl hqueued
  | destroyCancels hw => exact h.keep (by simp [hw]) rfl rfl hqueued
  | _ => exact h.keep (.refl _) rfl rfl hqueued

theorem Ordered.enter {s s' : Event} {t : Nat} {e : Entry} {q : Option Pc}
    (henter : Entered s t e s' q) (h : Ordered s)
    (hqueued : ∀ w, (s.awaiter w).queued = true → (s'.awaiter w).queued = true) :
    Ordered s' := by
  cases henter with
  | set =>
      refine ⟨h.waiters, fun k => ?_, h.nodup, h.queued⟩
      rcases eq_or_ne k s.calls with rfl | hk
      · simpa using h.waiters
      · simpa [hk] using h.linked k
  | _ => exact h.keep (.refl _) rfl rfl hqueued

section Batches

variable {s s' : Event} {k : Nat} {ws : List Nat}

theorem Batch.congr (h : Batch s k ws)
    (hposted : s'.posted k ++ s'.claimed k = s.posted k ++ s.claimed k)
    (hsame : ∀ w ∈ ws, (s'.awaiter w).claims = (s.awaiter w).claims ∧
      (s'.awaiter w).keptBy k = (s.awaiter w).keptBy k) : Batch s' k ws := by
  constructor
  · intro w hw
    rw [(hsame w hw).1]
    exact h.claims w hw
  · rw [hposted, h.posted]
    exact List.filter_congr fun w hw => (hsame w hw).2.symm

theorem Batch.update (h : Batch s k ws) {w : Nat} {f : Awaiter → Awaiter}
    {waiters suspended : List Nat}
    (hsame : w ∈ ws → (f (s.awaiter w)).claims = (s.awaiter w).claims ∧
      (f (s.awaiter w)).keptBy k = (s.awaiter w).keptBy k) :
    Batch { s with
      waiters := waiters, suspended := suspended, awaiter := s.update w f } k ws := by
  refine h.congr rfl fun v hv => ?_
  rcases eq_or_ne v w with rfl | hne
  · simpa using hsame hv
  · simp [hne]

theorem Batch.not_mem (h : Batch s k ws) {w m : Nat}
    (hsound : Sound (trace (s.awaiter w)) m) (hc : (s.awaiter w).claimed = false) :
    w ∉ ws := by
  intro hw
  have hnil : (s.awaiter w).claims = [] := hsound.claims_nil hc
  rcases h.claims w hw with hclaims | hclaims <;> simp [hnil] at hclaims

/-- A waiter that has been claimed by a call of `set()`, not posted and not
destroyed is in the list of that call. -/
theorem Sound.in_claimed {x : Trace} {m : Nat} (h : Sound x m) (hlive : x.phase ≠ .destroyed)
    (hclaims : x.claims = [.set k]) (hposts : x.posts = 0) : x.list = some (.set k) := by
  have hmarks : m = 0 := by
    by_contra hm
    simp [h.marked hm] at hclaims
  have hc : x.claimed = true := by
    by_contra hc
    simp [h.claims_nil (by simpa using hc)] at hclaims
  have hcount := h.posts hlive
  simp only [hposts, hmarks, hc, Bool.toNat_true] at hcount
  have hin : x.inSet = true := by
    cases hin : x.inSet
    · simp [hin] at hcount
    · rfl
  cases hl : x.list with
  | none => simp [Trace.inSet, hl] at hin
  | some link =>
      cases link with
      | event => simp [Trace.inSet, hl] at hin
      | set j =>
          have hj := (h.inSet j hl hlive).1
          rw [hclaims] at hj
          simp_all

theorem Batch.destroy (h : Batch s k ws) (hws : ws.Nodup) (hlinks : Links s) {w m : Nat}
    (hsound : Sound (trace (s.awaiter w)) m) (hlive : (s.awaiter w).phase ≠ .destroyed) :
    Batch (destroyAwaiter s w) k ws := by
  have hclaims : ∀ v, ((destroyAwaiter s w).awaiter v).claims = (s.awaiter v).claims := by
    intro v
    rcases eq_or_ne v w with rfl | hne <;> simp [destroyAwaiter, *]
  have hother : ∀ v, v ≠ w →
      ((destroyAwaiter s w).awaiter v).keptBy k = (s.awaiter v).keptBy k := by
    intro v hne
    simp [destroyAwaiter, hne]
  by_cases hin : w ∈ s.claimed k
  · obtain ⟨hl, -⟩ := (hlinks.set w k).mp hin
    have hnodup : (s.posted k ++ s.claimed k).Nodup := h.posted ▸ hws.filter _
    have hout : w ∉ s.posted k := fun hmem =>
      List.disjoint_of_nodup_append hnodup hmem hin
    have hposts : (s.awaiter w).posts = 0 := by
      have hcount := hsound.posts hlive
      have hone : (s.awaiter w).claimed.toNat ≤ 1 := Bool.toNat_le _
      simp only [trace, Trace.inSet, hl, Bool.toNat_true] at hcount
      omega
    constructor
    · exact fun v hv => hclaims v ▸ h.claims v hv
    · calc (destroyAwaiter s w).posted k ++ (destroyAwaiter s w).claimed k
          = (s.posted k ++ s.claimed k).erase w := by
            simp [destroyAwaiter, unlink_set hl, List.erase_append_right _ hout]
        _ = (ws.filter fun v => (s.awaiter v).keptBy k).filter (· != w) := by
            rw [hnodup.erase_eq_filter, h.posted]
        _ = ws.filter fun v => ((destroyAwaiter s w).awaiter v).keptBy k := by
            rw [List.filter_filter]
            refine List.filter_congr fun v _ => ?_
            rcases eq_or_ne v w with rfl | hne
            · simp [destroyAwaiter, Awaiter.keptBy, hposts]
            · simp [hother v hne, hne]
  · refine h.congr ?_ fun v _ => ⟨hclaims v, ?_⟩
    · cases hl : (s.awaiter w).list with
      | none => simp [destroyAwaiter, unlink_none hl]
      | some link =>
          cases link with
          | event => simp [destroyAwaiter, unlink_event hl]
          | set j =>
              have hj : k ≠ j := by
                rintro rfl
                exact hin ((hlinks.set w k).mpr ⟨hl, hlive⟩)
              simp [destroyAwaiter, unlink_set hl, hj]
    · rcases eq_or_ne v w with rfl | hne
      · have hpost : (s.awaiter v).claims = [.set k] → (s.awaiter v).posts ≠ 0 := by
          intro hc hp
          exact hin ((hlinks.set v k).mpr ⟨hsound.in_claimed hlive hc hp, hlive⟩)
        by_cases hc : (s.awaiter v).claims = [.set k]
        · simp [destroyAwaiter, Awaiter.keptBy, hc, hpost hc]
        · simp [destroyAwaiter, Awaiter.keptBy, hc]
      · exact hother v hne

theorem Batch.resume (h : Batch s k ws) {w m : Nat}
    (hsound : Sound (trace (s.awaiter w)) m) (hpc : PcOk s (.resume w)) :
    Batch (awaitResume s w) k ws := by
  have hlive : (s.awaiter w).phase ≠ .destroyed := by
    rcases hpc with ⟨hp, -⟩ | ⟨hp, -⟩ <;> simp_all [trace]
  refine h.congr ?_ fun v _ => ?_
  · simp only [awaitResume]
    split
    · rename_i hc
      cases hl : (s.awaiter w).list with
      | none => rw [unlink_none hl]
      | some link =>
          cases link with
          | event => rw [unlink_event hl]
          | set j =>
              have := (hsound.inSet j hl hlive).2.1
              simp [trace, hc] at this
    · rfl
  · rcases eq_or_ne v w with rfl | hne
    · simp [awaitResume, Awaiter.keptBy, hlive]
    · simp [awaitResume, hne]

theorem Step.batch {pc : Pc} {q : Option Pc} (hstep : Step s pc s' q)
    (hpc : PcOk s pc) (hlinks : Links s)
    (hsound : ∀ w, ∃ m, Sound (trace (s.awaiter w)) m)
    (hmark : ∀ w, pc.marks w = true → (s.awaiter w).claims = [.stop])
    (hne : pc ≠ .claimAll k) (hws : ws.Nodup) (h : Batch s k ws) : Batch s' k ws := by
  have hout : ∀ w, (s.awaiter w).claimed = false → w ∉ ws := by
    intro w hc
    obtain ⟨m, hw⟩ := hsound w
    exact h.not_mem hw hc
  cases hstep with
  | suspendStopped => exact h.update fun _ => ⟨rfl, rfl⟩
  | suspendQueued => exact h.update fun _ => ⟨rfl, by simp [Awaiter.keptBy, hpc.2.1]⟩
  | registerStopped => exact h
  | register => exact h.update fun _ => ⟨rfl, rfl⟩
  | @cancelLost w inConstructor =>
      cases inConstructor
      · exact h
      · exact h.update fun _ => ⟨rfl, rfl⟩
  | cancelClaims hc => exact h.update fun hw => absurd hw (hout _ hc)
  | @cancelMark w b =>
      have hstop := hmark w (by simp [Pc.marks])
      exact h.update fun _ => ⟨rfl, by simp [Awaiter.keptBy, hstop]⟩
  | @cancelReturns w inConstructor =>
      cases inConstructor
      · exact h
      · exact h.update fun _ => ⟨rfl, rfl⟩
  | @resume w =>
      obtain ⟨m, hw⟩ := hsound w
      exact h.resume hw hpc
  | @dtor w =>
      obtain ⟨m, hw⟩ := hsound w
      exact h.destroy hws hlinks hw hpc
  | claimSkips hw => exact h.update fun _ => ⟨rfl, rfl⟩
  | @claims j w rest hw hc =>
      have hk : k ≠ j := by
        rintro rfl
        exact hne rfl
      refine h.congr (by simp [hk]) fun v hv => ?_
      have hvw : v ≠ w := by
        rintro rfl
        exact hout v hc hv
      simp [hvw]
  | claimed => exact h
  | @posts j w rest hw =>
      obtain ⟨-, hlive⟩ := (hlinks.set w j).mp (by simp [hw])
      refine h.congr ?_ fun v _ => ?_
      · rcases eq_or_ne k j with rfl | hk
        · simp [hw]
        · simp [hk]
      · rcases eq_or_ne v w with rfl | hvw
        · simp [Awaiter.keptBy, hlive]
        · simp [hvw]
  | setDone => exact h
  | posted => exact h
  | destroySkips hw => exact h.update fun _ => ⟨rfl, rfl⟩
  | destroyCancels hw hc => exact h.update fun hw => absurd hw (hout _ hc)
  | destroyDone => exact h
  | destroyPosted => exact h

theorem Entered.batch {t : Nat} {e : Entry} {q : Option Pc} (henter : Entered s t e s' q)
    (h : Batch s k ws) : Batch s' k ws := by
  cases henter with
  | waitReady hp => exact h.update fun _ => ⟨rfl, by simp [Awaiter.keptBy, hp]⟩
  | wait _ hp => exact h.update fun _ => ⟨rfl, by simp [Awaiter.keptBy, hp]⟩
  | requestStop => exact h.update fun _ => ⟨rfl, rfl⟩
  | stopCallback => exact h.update fun _ => ⟨rfl, rfl⟩
  | _ => exact ⟨h.claims, h.posted⟩

theorem claimSkips_batch {w m : Nat} {rest : List Nat} (hw : s.waiters = w :: rest)
    (hc : (s.awaiter w).claimed = true) (hlinks : Links s)
    (hsound : Sound (trace (s.awaiter w)) m) (h : Batch s k ws) :
    Batch { s with
      waiters := rest
      awaiter := s.update w fun a => { a with list := none } } k (ws ++ [w]) := by
  obtain ⟨hl, hlive⟩ := hlinks.waiters_live hw
  have hstop : (s.awaiter w).claims = [.stop] := by
    rcases hsound.inEvent hl hlive with hnil | hstop
    · have := hsound.claims_length
      simp only [trace] at hnil this
      simp [hnil, hc] at this
    · exact hstop
  obtain ⟨hclaims, hposted⟩ : Batch { s with
      waiters := rest
      awaiter := s.update w fun a => { a with list := none } } k ws :=
    h.update fun _ => ⟨rfl, rfl⟩
  constructor
  · intro v hv
    rcases List.mem_append.mp hv with hv | hv
    · exact hclaims v hv
    · obtain rfl := List.mem_singleton.mp hv
      exact .inr (by simpa using hstop)
  · rw [List.filter_append, ← hposted]
    simp [Awaiter.keptBy, hstop]

theorem claims_batch {w m : Nat} {rest : List Nat} (hw : s.waiters = w :: rest)
    (hc : (s.awaiter w).claimed = false) (hlinks : Links s)
    (hsound : Sound (trace (s.awaiter w)) m) (h : Batch s k ws) :
    Batch { s with
      waiters := rest
      claimed := Function.update s.claimed k (s.claimed k ++ [w])
      awaiter := s.update w fun a =>
        { a with
          claimed := true
          claims := a.claims ++ [.set k]
          list := some (.set k) } } k (ws ++ [w]) := by
  obtain ⟨-, hlive⟩ := hlinks.waiters_live hw
  have hnil : (s.awaiter w).claims = [] := hsound.claims_nil hc
  have hout : ∀ v ∈ ws, v ≠ w := by
    rintro v hv rfl
    exact h.not_mem hsound hc hv
  constructor
  · intro v hv
    rcases List.mem_append.mp hv with hv | hv
    · simpa [hout v hv] using h.claims v hv
    · obtain rfl := List.mem_singleton.mp hv
      simp [hnil]
  · simp only [Function.update_self, ← List.append_assoc, h.posted, List.filter_append]
    congr 1
    · exact List.filter_congr fun v hv => by simp [hout v hv]
    · simp [Awaiter.keptBy, hnil, hlive]

end Batches

/-- The activation is a call of `set()` with list `k`. -/
def Pc.ofSet (k : Nat) : Pc → Bool
  | .claimAll j | .setLoop j | .setPosting j => j = k
  | _ => false

def Pc.destroys : Pc → Bool
  | .destroyLoop | .destroyPosting => true
  | _ => false

/-- What the calls of `set()` and `~async_event` on the stack still have to
empty, and the lists of the calls of `set()` to come. -/
structure Emptied (s : Event) (fs : List (Frame Pc)) : Prop where
  set : ∀ k, s.claimed k ≠ [] → ∃ f ∈ fs, f.pc.ofSet k = true
  destroy : s.alive = false → s.waiters ≠ [] → ∃ f ∈ fs, f.pc.destroys = true
  unused : ∀ k, s.calls ≤ k → s.linked k = [] ∧ s.posted k = [] ∧ s.claimed k = []

theorem Step.keeps {s s' : Event} {pc : Pc} {q : Option Pc} (hstep : Step s pc s' q) :
    s'.alive = s.alive ∧ s'.calls = s.calls ∧ s'.linked = s.linked := by
  cases hstep with
  | @cancelLost w inConstructor => cases inConstructor <;> exact ⟨rfl, rfl, rfl⟩
  | @cancelReturns w inConstructor => cases inConstructor <;> exact ⟨rfl, rfl, rfl⟩
  | @resume w =>
      obtain ⟨hlinked, -, -, halive, hcalls⟩ := unlink_same s w
      simp only [awaitResume]
      split
      · exact ⟨halive, hcalls, hlinked⟩
      · exact ⟨rfl, rfl, rfl⟩
  | @dtor w =>
      obtain ⟨hlinked, -, -, halive, hcalls⟩ := unlink_same s w
      exact ⟨halive, hcalls, hlinked⟩
  | _ => exact ⟨rfl, rfl, rfl⟩

theorem Step.claimed_cases {s s' : Event} {pc : Pc} {q : Option Pc}
    (hstep : Step s pc s' q) (k : Nat) :
    pc.ofSet k = true ∨ (s'.posted k = s.posted k ∧
      (s'.claimed k).Sublist (s.claimed k)) := by
  cases hstep with
  | @cancelLost w inConstructor => cases inConstructor <;> exact .inr ⟨rfl, .refl _⟩
  | @cancelReturns w inConstructor => cases inConstructor <;> exact .inr ⟨rfl, .refl _⟩
  | @resume w =>
      right
      simp only [awaitResume]
      split
      · exact ⟨congrFun (unlink_same s w).2.2.1 k, (unlink_sublist s w).2 k⟩
      · exact ⟨rfl, .refl _⟩
  | @dtor w => exact .inr ⟨congrFun (unlink_same s w).2.2.1 k, (unlink_sublist s w).2 k⟩
  | @claims j w rest hw hc =>
      rcases eq_or_ne k j with rfl | hk
      · exact .inl (by simp [Pc.ofSet])
      · exact .inr (by simp [hk])
  | @posts j w rest hw =>
      rcases eq_or_ne k j with rfl | hk
      · exact .inl (by simp [Pc.ofSet])
      · exact .inr (by simp [hk])
  | _ => exact .inr ⟨rfl, .refl _⟩

theorem Step.stays_set {s s' : Event} {pc : Pc} {q : Option Pc} (hstep : Step s pc s' q)
    {k : Nat} (h : pc.ofSet k = true) (hne : s'.claimed k ≠ []) :
    ∃ pc', q = some pc' ∧ pc'.ofSet k = true := by
  cases hstep <;> simp_all [Pc.ofSet]

theorem Step.waiters_cases {s s' : Event} {pc : Pc} {q : Option Pc}
    (hstep : Step s pc s' q) :
    (∃ w, pc = .awaitSuspend w) ∨ s'.waiters.Sublist s.waiters := by
  cases hstep with
  | suspendQueued => exact .inl ⟨_, rfl⟩
  | @cancelLost w inConstructor => cases inConstructor <;> exact .inr (.refl _)
  | @cancelReturns w inConstructor => cases inConstructor <;> exact .inr (.refl _)
  | @resume w =>
      right
      simp only [awaitResume]
      split
      · exact (unlink_sublist s w).1
      · exact .refl _
  | @dtor w => exact .inr (unlink_sublist s w).1
  | claimSkips hw => exact .inr (by simp [hw])
  | claims hw => exact .inr (by simp [hw])
  | destroySkips hw => exact .inr (by simp [hw])
  | destroyCancels hw => exact .inr (by simp [hw])
  | _ => exact .inr (.refl _)

theorem Step.stays_destroying {s s' : Event} {pc : Pc} {q : Option Pc}
    (hstep : Step s pc s' q) (h : pc.destroys = true) (hne : s'.waiters ≠ []) :
    ∃ pc', q = some pc' ∧ pc'.destroys = true := by
  cases hstep <;> simp_all [Pc.destroys]

theorem Emptied.step {s s' : Event} {t : Nat} {pc : Pc} {q : Option Pc}
    {l r : List (Frame Pc)} (hstep : Step s pc s' q)
    (h : Emptied s (l ++ ⟨t, pc⟩ :: r)) (hpc : PcOk s pc) :
    Emptied s' (l ++ q.toList.map (Frame.mk t) ++ r) := by
  obtain ⟨halive, hcalls, hlinked⟩ := hstep.keeps
  constructor
  · intro k hne
    have hold : pc.ofSet k = true ∨ ∃ f ∈ l ++ ⟨t, pc⟩ :: r, f.pc.ofSet k = true :=
      (hstep.claimed_cases k).imp_right fun hsub => h.set k (ne_nil_of_sublist hsub.2 hne)
    exact exists_replace (p := fun pc : Pc => pc.ofSet k = true)
      (hold.elim (fun hpc => ⟨⟨t, pc⟩, by simp, hpc⟩) id) fun hset => hstep.stays_set hset hne
  · intro hdead hne
    rw [halive] at hdead
    have hsub : s'.waiters.Sublist s.waiters := by
      rcases hstep.waiters_cases with ⟨w, rfl⟩ | hsub
      · simp [hpc.1] at hdead
      · exact hsub
    exact exists_replace (p := fun pc : Pc => pc.destroys = true)
      (h.destroy hdead (ne_nil_of_sublist hsub hne))
      fun hdestroys => hstep.stays_destroying hdestroys hne
  · intro k hk
    rw [hcalls] at hk
    obtain ⟨hnone, hposted, hclaimed⟩ := h.unused k hk
    rcases hstep.claimed_cases k with hset | ⟨hposted', hsub⟩
    · have hlt : k < s.calls := by
        cases pc <;> simp_all [Pc.ofSet, PcOk]
      omega
    · rw [hclaimed, List.sublist_nil] at hsub
      exact ⟨by rw [hlinked, hnone], hposted'.trans hposted, hsub⟩

theorem Emptied.enter {s s' : Event} {fs : List (Frame Pc)} {t : Nat} {e : Entry}
    {q : Option Pc} (henter : Entered s t e s' q) (h : Emptied s fs) :
    Emptied s' (q.toList.map (Frame.mk t) ++ fs) := by
  have hset : ∀ k, s.claimed k ≠ [] →
      ∃ f ∈ q.toList.map (Frame.mk t) ++ fs, f.pc.ofSet k = true := by
    intro k hne
    obtain ⟨f, hf, hk⟩ := h.set k hne
    exact ⟨f, List.mem_append_right _ hf, hk⟩
  have hdestroy : s.alive = false → s.waiters ≠ [] →
      ∃ f ∈ q.toList.map (Frame.mk t) ++ fs, f.pc.destroys = true := by
    intro hdead hne
    obtain ⟨f, hf, hk⟩ := h.destroy hdead hne
    exact ⟨f, List.mem_append_right _ hf, hk⟩
  cases henter with
  | set =>
      refine ⟨hset, hdestroy, fun k hk => ?_⟩
      simp only at hk
      have hne : k ≠ s.calls := by omega
      simpa [hne] using h.unused k (by omega)
  | destroyEvent =>
      refine ⟨hset, fun _ _ => ?_, h.unused⟩
      exact ⟨⟨executorThread, .destroyLoop⟩, by simp, rfl⟩
  | _ => exact ⟨hset, hdestroy, h.unused⟩

/-- The activation is inside `post` or runs a stop callback. -/
def Pc.quiet (pc : Pc) : Prop := pc.foreign = true ∨ ∃ w, pc.runsCallback w = true

theorem PcOk.of_quiet {s s' : Event} {pc : Pc} (h : PcOk s pc) (hquiet : pc.quiet)
    (halive : s.alive = false → s'.alive = false) (hcalls : s.calls ≤ s'.calls)
    (hqueued : ∀ w, (s.awaiter w).queued = true → (s'.awaiter w).queued = true) :
    PcOk s' pc := by
  rcases hquiet with hquiet | ⟨w, hquiet⟩ <;>
    cases pc <;> simp only [Pc.foreign, Pc.runsCallback, reduceCtorEq] at hquiet
  all_goals first
    | exact hqueued _ h
    | exact Nat.lt_of_lt_of_le h hcalls
    | exact halive h

/-- What a step of a stop callback leaves alone. -/
structure CallbackKeeps (s s' : Event) (w : Nat) : Prop where
  alive : s'.alive = s.alive
  calls : s'.calls = s.calls
  waiters : s'.waiters = s.waiters
  linked : s'.linked = s.linked
  phase : ∀ v, (s'.awaiter v).phase = (s.awaiter v).phase
  ready : ∀ v, (s'.awaiter v).ready = (s.awaiter v).ready
  queued : ∀ v, (s'.awaiter v).queued = (s.awaiter v).queued
  other : ∀ v, v ≠ w → (s'.awaiter v).canceled = (s.awaiter v).canceled
  canceled : ∀ v, (s.awaiter v).canceled = true → (s'.awaiter v).canceled = true
  posts : ∀ v, (s.awaiter v).posts ≤ (s'.awaiter v).posts

theorem CallbackKeeps.of_update {s : Event} {w : Nat} {f : Awaiter → Awaiter}
    (hphase : (f (s.awaiter w)).phase = (s.awaiter w).phase)
    (hready : (f (s.awaiter w)).ready = (s.awaiter w).ready)
    (hqueued : (f (s.awaiter w)).queued = (s.awaiter w).queued)
    (hcanceled : (s.awaiter w).canceled = true → (f (s.awaiter w)).canceled = true)
    (hposts : (s.awaiter w).posts ≤ (f (s.awaiter w)).posts) :
    CallbackKeeps s { s with awaiter := s.update w f } w where
  alive := rfl
  calls := rfl
  waiters := rfl
  linked := rfl
  phase v := by rcases eq_or_ne v w with rfl | hv <;> simp [*]
  ready v := by rcases eq_or_ne v w with rfl | hv <;> simp [*]
  queued v := by rcases eq_or_ne v w with rfl | hv <;> simp [*]
  other v hv := by simp [hv]
  canceled v := by
    rcases eq_or_ne v w with rfl | hv
    · simpa using hcanceled
    · simp [hv]
  posts v := by rcases eq_or_ne v w with rfl | hv <;> simp [*]

theorem CallbackKeeps.returns (s : Event) (w : Nat) (inConstructor : Bool) :
    CallbackKeeps s (callbackReturns s w inConstructor) w := by
  cases inConstructor
  · constructor <;> simp [callbackReturns]
  · exact .of_update rfl rfl rfl id (Nat.le_refl _)

theorem Step.callback {s s' : Event} {pc : Pc} {q : Option Pc} {w : Nat}
    (hstep : Step s pc s' q) (hcallback : pc.runsCallback w = true) :
    CallbackKeeps s s' w := by
  cases hstep <;> simp only [Pc.runsCallback, decide_eq_true_eq, reduceCtorEq] at hcallback
  all_goals subst hcallback
  case cancelLost => exact .returns ..
  case cancelReturns => exact .returns ..
  case cancelClaims => exact .of_update rfl rfl rfl id (Nat.le_refl _)
  case cancelMark => exact .of_update rfl rfl rfl (fun _ => rfl) (Nat.le_succ _)

theorem PcOk.of_callback {s s' : Event} {pc : Pc} {w : Nat} (h : PcOk s pc)
    (hkeeps : CallbackKeeps s s' w)
    (hw : (s.awaiter w).phase ≠ .starting ∨
      (s'.awaiter w).canceled = (s.awaiter w).canceled)
    (hbatch : ∀ k ws, pc = .claimAll k → ws.Sublist (s.linked k) → Batch s k ws →
      Batch s' k ws) : PcOk s' pc := by
  obtain ⟨halive, hcalls, hwaiters, hlinked, hphase, hready, hqueued, hother, hcan,
    hposts⟩ := hkeeps
  cases pc with
  | awaitSuspend v =>
      obtain ⟨ha, hp, hr, hc⟩ := h
      have hsame : (s'.awaiter v).canceled = (s.awaiter v).canceled := by
        rcases eq_or_ne v w with rfl | hv
        · exact hw.resolve_left (absurd hp)
        · exact hother v hv
      simp [PcOk, halive, hphase, hready, hsame, ha, hp, hr, hc]
  | resume v =>
      rcases h with ⟨hp, hpos⟩ | ⟨hp, hr⟩
      · exact .inl ⟨(hphase v).trans hp, Nat.lt_of_lt_of_le hpos (hposts v)⟩
      · exact .inr ⟨(hphase v).trans hp, hr.imp (hready v).trans (hcan v)⟩
  | claimAll k =>
      obtain ⟨ha, hk, taken, htaken, hb⟩ := h
      refine ⟨halive.trans ha, hcalls ▸ hk, taken, ?_, ?_⟩
      · rw [hlinked, hwaiters, htaken]
      · exact hbatch k taken rfl (htaken ▸ List.sublist_append_left ..) hb
  | _ => simpa [PcOk, halive, hcalls, hphase, hqueued] using h

theorem Step.stays_callback {s s' : Event} {pc pc' : Pc} {w : Nat}
    (hstep : Step s pc s' (some pc')) (hcallback : pc.runsCallback w = true) :
    pc'.runsCallback w = true := by
  cases hstep <;> simp_all [Pc.runsCallback]

theorem PcOk.queued {s : Event} {pc : Pc} {w : Nat} (h : PcOk s pc)
    (hcallback : pc.runsCallback w = true) : (s.awaiter w).queued = true := by
  cases pc <;> simp_all [Pc.runsCallback, PcOk]

theorem Step.next_ok {s s' : Event} {pc pc' : Pc} (hstep : Step s pc s' (some pc'))
    (hpc : PcOk s pc) (hlinks : Links s)
    (hsound : ∀ w, ∃ m, Sound (trace (s.awaiter w)) m) : PcOk s' pc' := by
  cases hstep with
  | suspendStopped => simp [PcOk, trace, Trace.Resumable, hpc.2.1]
  | suspendQueued => simp [PcOk]
  | registerStopped => exact hpc
  | cancelClaims => simpa [PcOk] using hpc
  | cancelMark => simpa [PcOk] using hpc
  | @claimSkips k w rest hw hc =>
      obtain ⟨ha, hk, taken, htaken, hb⟩ := hpc
      obtain ⟨m, hs⟩ := hsound w
      exact ⟨ha, hk, taken ++ [w], by simp [htaken, hw], claimSkips_batch hw hc hlinks hs hb⟩
  | @claims k w rest hw hc =>
      obtain ⟨ha, hk, taken, htaken, hb⟩ := hpc
      obtain ⟨m, hs⟩ := hsound w
      exact ⟨ha, hk, taken ++ [w], by simp [htaken, hw], claims_batch hw hc hlinks hs hb⟩
  | claimed => exact hpc.2.1
  | posts => exact hpc
  | posted => exact hpc
  | destroySkips => exact hpc
  | destroyCancels => exact hpc
  | destroyPosted => exact hpc

end Capy.AsyncEvent
