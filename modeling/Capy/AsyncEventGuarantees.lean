import Capy.AsyncEventBroadcast

namespace Capy.AsyncEvent

open Capy.CallStack

/-- What every run of an event keeps. -/
structure Invariant (s : Event) (fs : List (Frame Pc)) : Prop where
  threads : ∀ f ∈ fs, f.thread = executorThread ∨ ∃ w, f.pc.runsCallback w = true
  pcs : ∀ f ∈ fs, PcOk s f.pc
  sound : ∀ w, Sound (trace (s.awaiter w)) (fs.countP fun f => f.pc.marks w)
  links : Links s
  ordered : Ordered s
  emptied : Emptied s fs
  batches : ∀ k, (∀ f ∈ fs, f.pc ≠ .claimAll k) → Batch s k (s.linked k)

theorem Invariant.marked {s : Event} {fs : List (Frame Pc)} (h : Invariant s fs)
    {f : Frame Pc} (hf : f ∈ fs) {w : Nat} (hmark : f.pc.marks w = true) :
    (s.awaiter w).claims = [.stop] := by
  refine (h.sound w).marked ?_
  have hpos : 0 < fs.countP fun f => f.pc.marks w := List.countP_pos_iff.mpr ⟨f, hf, hmark⟩
  omega

theorem Invariant.exec {s s' : Event} {t : Nat} {pc : Pc} {q : Option Pc}
    {l r : List (Frame Pc)} (h : Invariant s (l ++ ⟨t, pc⟩ :: r))
    (hst : machine.Stacked (l ++ ⟨t, pc⟩ :: r)) (hl : ∀ g ∈ l, g.thread ≠ t)
    (hstep : Step s pc s' q) : Invariant s' (l ++ q.toList.map (Frame.mk t) ++ r) := by
  have hmark : ∀ w, pc.marks w = true → (s.awaiter w).claims = [.stop] :=
    fun w hw => h.marked (f := ⟨t, pc⟩) (by simp) hw
  obtain ⟨hthreads, hpcs, hsound, hlinks, hordered, hemptied, hbatches⟩ := h
  obtain ⟨hthreadsRest, hthread⟩ := forall_split.mp hthreads
  obtain ⟨hpcsRest, hpc⟩ := forall_split.mp hpcs
  have hex : ∀ w, ∃ m, Sound (trace (s.awaiter w)) m := fun w => ⟨_, hsound w⟩
  have hlives := fun w => hstep.lives hpc hlinks w ((l ++ r).countP fun f => f.pc.marks w)
  have hqueued : ∀ w, (s.awaiter w).queued = true → (s'.awaiter w).queued = true :=
    fun w hw => (hlives w).queued hw
  have hnodup : ∀ k, (s.linked k).Nodup := fun k => hordered.nodup.sublist (hordered.linked k)
  obtain ⟨halive, hcalls, hlinked⟩ := hstep.keeps
  constructor
  · refine forall_replace.mpr ⟨hthreadsRest, ?_⟩
    rintro pc' rfl
    rcases hthread with ht | ⟨w, hw⟩
    · exact .inl ht
    · exact .inr ⟨w, hstep.stays_callback hw⟩
  · refine forall_replace.mpr ⟨?_, ?_⟩
    · intro f hf
      have hold := hpcsRest f hf
      rcases hthread with ht | ⟨w, hw⟩
      · have hquiet : f.pc.quiet := by
          rcases hthreadsRest f hf with hft | hcallback
          · exact .inl (hst.rest_foreign hl hf (hft.trans ht.symm))
          · exact .inr hcallback
        exact hold.of_quiet hquiet (fun hdead => halive.trans hdead) (Nat.le_of_eq hcalls.symm)
          hqueued
      · have hstarted := ((hsound w).started (hpc.queued hw)).2
        refine hold.of_callback (hstep.callback hw) (.inl hstarted) ?_
        intro k ws _ hws hb
        have hne : pc ≠ .claimAll k := by
          rintro rfl
          simp [Pc.runsCallback] at hw
        exact hstep.batch hpc hlinks hex hmark hne ((hnodup k).sublist hws) hb
    · rintro pc' rfl
      exact hstep.next_ok hpc hlinks hex
  · intro w
    have hw := hsound w
    rw [countP_split] at hw
    rw [countP_replace]
    exact hw.lives (hlives w)
  · exact hlinks.step hstep hpc hex
  · exact hordered.step hstep hpc hex hqueued
  · exact hemptied.step hstep hpc
  · intro k hnone
    obtain ⟨hrest, hnext⟩ := forall_replace.mp hnone
    rw [hlinked]
    by_cases hk : pc = .claimAll k
    · subst hk
      cases hstep with
      | claimSkips => exact absurd rfl (hnext _ rfl)
      | claims => exact absurd rfl (hnext _ rfl)
      | claimed hw =>
          obtain ⟨-, -, taken, htaken, hb⟩ := hpc
          rw [hw, List.append_nil] at htaken
          exact htaken ▸ hb
    · exact hstep.batch hpc hlinks hex hmark hk (hnodup k)
        (hbatches k (forall_split.mpr ⟨hrest, hk⟩))

theorem Entered.next_ok {s s' : Event} {t : Nat} {e : Entry} {pc : Pc}
    (henter : Entered s t e s' (some pc))
    (hsound : ∀ w, ∃ m, Sound (trace (s.awaiter w)) m)
    (hunused : ∀ k, s.calls ≤ k → s.linked k = [] ∧ s.posted k = [] ∧ s.claimed k = []) :
    PcOk s' pc := by
  cases henter with
  | waitReady => simp [PcOk, trace, Trace.Resumable]
  | @wait w halive hp hset =>
      obtain ⟨m, hw⟩ := hsound w
      obtain ⟨hc, hr⟩ := hw.fresh hp
      simp_all [PcOk, trace]
  | resume hp hpos => exact .inl ⟨hp, hpos⟩
  | destroy hp => rcases hp with hp | hp <;> simp [PcOk, hp]
  | set halive =>
      obtain ⟨-, hposted, hclaimed⟩ := hunused s.calls (Nat.le_refl _)
      refine ⟨halive, Nat.lt_succ_self _, [], by simp, by simp, ?_⟩
      simp [hposted, hclaimed]
  | destroyEvent => rfl
  | @stopCallback _ w hr =>
      obtain ⟨m, hw⟩ := hsound w
      simpa [PcOk, trace] using hw.registered hr

theorem Entered.others_ok {s s' : Event} {t : Nat} {e : Entry} {q : Option Pc} {pc : Pc}
    (henter : Entered s t e s' q) (h : PcOk s pc)
    (hquiet : t = executorThread → pc.quiet)
    (hqueued : ∀ w, (s.awaiter w).queued = true → (s'.awaiter w).queued = true) :
    PcOk s' pc := by
  have hbatch : ∀ k ws, pc = .claimAll k → ws.Sublist (s.linked k) → Batch s k ws →
      Batch s' k ws := fun _ _ _ _ hb => henter.batch hb
  cases henter with
  | requestStop =>
      exact h.of_callback (.of_update rfl rfl rfl id (Nat.le_refl _)) (.inr (by simp)) hbatch
  | stopCallback =>
      exact h.of_callback (.of_update rfl rfl rfl id (Nat.le_refl _)) (.inr (by simp)) hbatch
  | set => exact h.of_quiet (hquiet rfl) id (Nat.le_succ _) hqueued
  | destroyEvent => exact h.of_quiet (hquiet rfl) (fun _ => rfl) (Nat.le_refl _) hqueued
  | _ => exact h.of_quiet (hquiet rfl) id (Nat.le_refl _) hqueued

theorem Invariant.enter {s s' : Event} {fs : List (Frame Pc)} {t : Nat} {e : Entry}
    {q : Option Pc} (h : Invariant s fs)
    (hfree : ∀ f ∈ fs, f.thread = t → f.pc.foreign = true) (henter : Entered s t e s' q) :
    Invariant s' (q.toList.map (Frame.mk t) ++ fs) := by
  obtain ⟨hthreads, hpcs, hsound, hlinks, hordered, hemptied, hbatches⟩ := h
  have hex : ∀ w, ∃ m, Sound (trace (s.awaiter w)) m := fun w => ⟨_, hsound w⟩
  have hlives := fun w => henter.lives w (fs.countP fun f => f.pc.marks w)
  have hqueued : ∀ w, (s.awaiter w).queued = true → (s'.awaiter w).queued = true :=
    fun w hw => (hlives w).queued hw
  constructor
  · refine forall_enter.mpr ⟨hthreads, ?_⟩
    rintro pc rfl
    cases henter <;> simp [Pc.runsCallback]
  · refine forall_enter.mpr ⟨?_, ?_⟩
    · intro f hf
      refine henter.others_ok (hpcs f hf) ?_ hqueued
      rintro rfl
      rcases hthreads f hf with hft | hcallback
      · exact .inl (hfree f hf hft)
      · exact .inr hcallback
    · rintro pc rfl
      exact henter.next_ok hex hemptied.unused
  · intro w
    rw [countP_enter]
    exact (hsound w).lives (hlives w)
  · exact hlinks.enter henter
  · exact hordered.enter henter hqueued
  · exact hemptied.enter henter
  · intro k hnone
    obtain ⟨hold, hnext⟩ := forall_enter.mp hnone
    have hb := henter.batch (hbatches k hold)
    cases henter with
    | set =>
        have hk : k ≠ s.calls := by
          rintro rfl
          exact hnext _ rfl rfl
        simpa [hk] using hb
    | _ => exact hb

theorem sound_initial : Sound (trace {}) 0 := by
  constructor <;> simp [trace, Trace.inSet]

theorem invariant_reachable {s : State Event Pc} (h : Reachable s) :
    Invariant s.shared s.frames := by
  have hpreserves : machine.Preserves (fun _ _ => true) Invariant := by
    apply Machine.Preserves.ofSteps
    · intro s l t pc r c s' q hI hst hl _ hexec
      exact hI.exec hst hl (exec_step hexec)
    · intro s fs t a s' q hI _ hfree _ henter
      exact hI.enter hfree (enter_entered henter)
  refine hpreserves.reachable initial_frames ?_ h
  rintro _ rfl
  refine ⟨by simp, by simp, fun w => sound_initial, ?_, ?_, ?_, ?_⟩
  · constructor <;> simp
  · constructor <;> simp
  · constructor <;> simp
  · exact fun k _ => ⟨by simp, by simp⟩

theorem reachable_of_runEvents (es : List (CallStack.Event Unit Entry))
    {s : State Event Pc} (h : machine.runEvents ⟨{}, []⟩ es = some s) : Reachable s := by
  have hinit : Reachable ⟨{}, []⟩ := .init rfl
  exact hinit.runWhen es h

end Capy.AsyncEvent
