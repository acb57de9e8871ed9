import Capy.AsyncWakerSlot

namespace Capy.AsyncWaker

open Capy.CallStack

theorem Step.wake_returns {s s' : Waker} {fs : List (Frame Pc)} {t : Nat} {pc : Pc}
    (hstep : Step s fs t pc s' none) (hpc : PcOk s pc) (hwake : pc.inWake = true) :
    s'.st = .token ∨ ∃ w, pc = .wakePosting w ∧ .wake ∈ (s'.awaiter w).claims := by
  cases hstep <;> simp_all [Pc.inWake, PcOk]

/-- The activation has claimed `w` and is going to post it. -/
def Pc.postsNext (s : Waker) (w : Nat) : Pc → Bool
  | .cancelMark v _ | .wakeMark v | .destroyMark v => v = w
  | .wakeDereg | .destroyDereg => s.waiter = some w
  | _ => false

/-- A call of `wake()` that finds `st_` armed leaves it so or claims the waiter. -/
theorem Step.wake_claims {s s' : Waker} {fs : List (Frame Pc)} {t : Nat} {pc : Pc}
    {q : Option Pc} (hstep : Step s fs t pc s' q) (hwake : pc.inWake = true)
    (harmed : s.st = .armed) (hwaiter : ∃ w, s.current = some w ∧ s.waiter = some w) :
    s'.st = .armed ∨ ∃ w, s.current = some w ∧ .wake ∈ (s'.awaiter w).claims ∧
      ∃ pc', q = some pc' ∧ pc'.postsNext s' w = true := by
  obtain ⟨w, hcurrent, hwaiter⟩ := hwaiter
  cases hstep with
  | wakeClaims =>
      refine .inr ⟨w, hcurrent, ?_, .wakeDereg, rfl, ?_⟩
      · simp [claimWaiter, hwaiter]
      · simp [claimWaiter, hwaiter, Pc.postsNext]
  | wakeLatches hempty => simp [hempty] at harmed
  | _ => first
    | exact .inl harmed
    | simp [Pc.inWake] at hwake

theorem Step.takes_token {s s' : Waker} {fs : List (Frame Pc)} {t : Nat} {pc : Pc}
    {q : Option Pc} {n m : Nat} (hstep : Step s fs t pc s' q) (hpc : PcOk s pc)
    (hslot : Slot s n m) (htoken : s.st = .token) (htaken : s'.st ≠ .token) :
    ∃ w, (pc = .awaitReady w ∨ pc = .consume w) ∧ (s'.awaiter w).consumed = true := by
  have harming := hslot.arming
  cases hstep with
  | @readyToken w => exact ⟨w, .inl rfl, by simp⟩
  | @consume w => exact ⟨w, .inr rfl, by simp⟩
  | unarm =>
      have hst := harming.mpr (slot_eq hpc.1 hpc.2)
      simp [htoken] at hst
  | publish =>
      have hst := harming.mpr (slot_eq hpc.1 hpc.2.1)
      simp [htoken] at hst
  | @cancelLost w inConstructor _ _ hret =>
      cases inConstructor <;> obtain ⟨rfl, rfl⟩ := Prod.mk.inj hret
      · exact absurd htoken htaken
      · exact absurd htoken htaken
  | @cancelReturns w inConstructor _ _ hret =>
      cases inConstructor <;> obtain ⟨rfl, rfl⟩ := Prod.mk.inj hret
      · exact absurd htoken htaken
      · exact absurd htoken htaken
  | _ => simp_all

theorem consumed_of_update {s : Waker} {v w : Nat} {f : Awaiter → Awaiter}
    (h : (s.update w f v).consumed = true) (hf : ∀ a, (f a).consumed = a.consumed) :
    (s.awaiter v).consumed = true := by
  rcases eq_or_ne v w with rfl | hne
  · rwa [update_self, hf] at h
  · rwa [update_of_ne _ _ hne] at h

theorem Step.consumes {s s' : Waker} {fs : List (Frame Pc)} {t : Nat} {pc : Pc}
    {q : Option Pc} (hstep : Step s fs t pc s' q) (hpc : PcOk s pc) {v : Nat}
    (hconsumed : (s'.awaiter v).consumed = true) :
    (s.awaiter v).consumed = true ∨ s.st = .token ∧ s'.st = .empty := by
  cases hstep with
  | readyToken htoken => exact .inr ⟨htoken, rfl⟩
  | consume => exact .inr ⟨hpc.2.2, rfl⟩
  | @cancelLost _ inConstructor _ _ hret | @cancelReturns _ inConstructor _ _ hret =>
      cases inConstructor <;> obtain ⟨rfl, rfl⟩ := Prod.mk.inj hret
      · exact .inl hconsumed
      · exact .inl (consumed_of_update hconsumed fun _ => rfl)
  | wakeClaims | destroyClaims =>
      unfold claimWaiter at hconsumed
      split at hconsumed
      · exact .inl (consumed_of_update hconsumed fun _ => rfl)
      · exact .inl hconsumed
  | _ =>
    first
    | exact .inl hconsumed
    | exact .inl (consumed_of_update hconsumed fun _ => rfl)

theorem Entered.consumed {s s' : Waker} {fs : List (Frame Pc)} {t : Nat} {e : Entry}
    {q : Option Pc} (henter : Entered s fs t e s' q) {v : Nat}
    (hconsumed : (s'.awaiter v).consumed = true) : (s.awaiter v).consumed = true := by
  cases henter with
  | wake | destroyWaker => exact hconsumed
  | _ => exact consumed_of_update hconsumed fun _ => rfl

theorem Entered.st {s s' : Waker} {fs : List (Frame Pc)} {t : Nat} {e : Entry}
    {q : Option Pc} (henter : Entered s fs t e s' q) (htoken : s.st = .token) :
    s'.st = .token := by
  cases henter <;> simp [htoken, destroyAwaiter]

theorem PcOk.postsNext {s : Waker} {pc : Pc} {w : Nat} (hok : PcOk s pc)
    (hclaims : pc.claims = true) (hcurrent : s.current = some w) :
    pc.postsNext s w = true := by
  have hsame : ∀ v, s.current = some v → v = w := fun v hv =>
    Option.some.inj (hv.symm.trans hcurrent)
  cases pc with
  | cancelMark v _ => exact decide_eq_true (hsame v hok.2.1)
  | wakeMark v => exact decide_eq_true (hsame v hok.1)
  | destroyMark v => exact decide_eq_true (hsame v hok.1)
  | wakeDereg =>
      obtain ⟨v, hwaiter, hv, -⟩ := hok
      exact decide_eq_true (hsame v hv ▸ hwaiter)
  | destroyDereg =>
      obtain ⟨v, hwaiter, hv, -⟩ := hok
      exact decide_eq_true (hsame v hv ▸ hwaiter)
  | _ => simp [Pc.claims] at hclaims

theorem PcOk.awaitResume {s : Waker} {pc : Pc} {w : Nat} (hok : PcOk s pc)
    (hwaits : pc.waits = true) (hcurrent : s.current = some w)
    (hp : (s.awaiter w).phase = .settled) : pc = .awaitResume w := by
  cases pc with
  | awaitResume v => rw [Option.some.inj (hcurrent.symm.trans hok.1)]
  | cancelLoop v inConstructor => cases inConstructor <;> simp_all [Pc.waits, PcOk]
  | _ => simp_all [Pc.waits, PcOk]

section Reachable

variable {s : State Waker Pc}

theorem postsNext_of_claimed (h : Reachable s) {w : Nat}
    (hp : (s.shared.awaiter w).phase = .claimed) :
    ∃ f ∈ s.frames, f.pc.postsNext s.shared w = true := by
  have hinv := invariant_reachable h
  have hcurrent := (hinv.slot.busy w).mp (by simp [hp, Phase.busy])
  have hclaims := hinv.slot.claims
  rw [slot_eq hcurrent hp] at hclaims
  obtain ⟨f, hf, hpc⟩ := List.countP_pos_iff.mp
    (Nat.lt_of_lt_of_eq Nat.one_pos hclaims.symm)
  exact ⟨f, hf, (hinv.pcs f hf).postsNext hpc hcurrent⟩

theorem awaitResume_of_settled (h : Reachable s) {w : Nat}
    (hp : (s.shared.awaiter w).phase = .settled) :
    ∃ f ∈ s.frames, f.pc = .awaitResume w := by
  have hinv := invariant_reachable h
  have hcurrent := (hinv.slot.busy w).mp (by simp [hp, Phase.busy])
  have hwaits := hinv.slot.waits
  rw [slot_eq hcurrent hp] at hwaits
  obtain ⟨f, hf, hpc⟩ := List.countP_pos_iff.mp
    (Nat.lt_of_lt_of_eq Nat.one_pos hwaits.symm)
  refine ⟨f, hf, ?_⟩
  exact (hinv.pcs f hf).awaitResume hpc hcurrent hp

theorem wait_attended (h : Reachable s) {w : Nat} (hcurrent : s.shared.current = some w) :
    s.shared.st = .armed ∧ (s.shared.awaiter w).claims = [] ∨ (s.shared.awaiter w).posts = 1 ∨
      ∃ f ∈ s.frames, f.pc.waits = true ∨ f.pc.postsNext s.shared w = true := by
  have hinv := invariant_reachable h
  have hsound := hinv.sound w
  have hbusy := (hinv.slot.busy w).mpr hcurrent
  have hwaiting (p : Phase) (hp : (s.shared.awaiter w).phase = p) (hwaits : p.waits = true) :
      ∃ f ∈ s.frames, f.pc.waits = true ∨ f.pc.postsNext s.shared w = true := by
    have hcount := hinv.slot.waits
    rw [slot_eq hcurrent hp, Option.elim_some, hwaits] at hcount
    obtain ⟨f, hf, hpc⟩ := List.countP_pos_iff.mp (Nat.lt_of_lt_of_eq Nat.one_pos hcount.symm)
    exact ⟨f, hf, .inl hpc⟩
  cases hp : (s.shared.awaiter w).phase with
  | fresh | done | destroyed => simp [hp, Phase.busy] at hbusy
  | starting | settled | arming | resuming => exact .inr (.inr (hwaiting _ hp rfl))
  | armed =>
      simp only [Sound, trace, hp] at hsound
      exact .inl ⟨hinv.slot.armed.mpr (slot_eq hcurrent hp), hsound.1.2.2.2.1⟩
  | claimed =>
      obtain ⟨f, hf, hpc⟩ := postsNext_of_claimed h hp
      exact .inr (.inr ⟨f, hf, .inr hpc⟩)
  | posted =>
      simp only [Sound, trace, hp] at hsound
      exact .inr (.inl hsound.1.2.2.1)

end Reachable

/-- In every state that any run of an `async_waker` reaches: a wait is posted at
most once, just once when it was claimed and its claimer is through, and never
unless claimed; a wait that is neither posted nor about to be, and whose coroutine
does not run, sleeps with `st_` armed; a `wake()` that finds `st_` armed leaves it so
or claims the waiter; one that returns has found or left a token, or has
claimed and posted a waiter, whose wait then reports success; a token is taken
only by a wait, which reports success; a wait reports cancellation if and only if a
stop callback or `~async_waker` claimed it or it saw the stop request before it was
armed; and one that reports success was claimed by a `wake()` or took a token. -/
theorem async_waker_wakeups {s : State Waker Pc} (h : Reachable s) :
    (∀ w, (s.shared.awaiter w).posts ≤ 1 ∧
      ((s.shared.awaiter w).claims ≠ [] → (s.shared.awaiter w).posts = 1 ∨
        ∃ f ∈ s.frames, f.pc.postsNext s.shared w = true) ∧
      ((s.shared.awaiter w).posts = 1 → (s.shared.awaiter w).claims ≠ [])) ∧
    (∀ w, s.shared.current = some w →
      s.shared.st = .armed ∧ (s.shared.awaiter w).claims = [] ∨
        (s.shared.awaiter w).posts = 1 ∨
        ∃ f ∈ s.frames, f.pc.waits = true ∨ f.pc.postsNext s.shared w = true) ∧
    (∀ t c s' pc, machine.step s (.run t c) = some s' → topPc t s.frames = some pc →
      pc.inWake = true → s.shared.st = .armed → s'.shared.st = .armed ∨
        ∃ w, s.shared.current = some w ∧ .wake ∈ (s'.shared.awaiter w).claims ∧
          ∃ f ∈ s'.frames, f.thread = t ∧ f.pc.postsNext s'.shared w = true) ∧
    (∀ t c s' pc, machine.step s (.run t c) = some s' → topPc t s.frames = some pc →
      pc.inWake = true → s'.frames.length < s.frames.length →
      s'.shared.st = .token ∨
        ∃ w, pc = .wakePosting w ∧ .wake ∈ (s'.shared.awaiter w).claims) ∧
    (∀ w ok, .wake ∈ (s.shared.awaiter w).claims →
      (s.shared.awaiter w).result = some ok → ok = true) ∧
    (∀ e s', machine.step s e = some s' → s.shared.st = .token →
      s'.shared.st ≠ .token → ∃ t c w, e = .run t c ∧
        (topPc t s.frames = some (.awaitReady w) ∨
          topPc t s.frames = some (.consume w)) ∧
        (s'.shared.awaiter w).consumed = true) ∧
    (∀ w, (s.shared.awaiter w).consumed = true →
      (s.shared.awaiter w).result = some true ∨
        ∃ f ∈ s.frames, f.pc = .awaitResume w) ∧
    (∀ w ok, (s.shared.awaiter w).result = some ok →
      (ok = false ↔ .stop ∈ (s.shared.awaiter w).claims ∨
        .destructor ∈ (s.shared.awaiter w).claims ∨
        (s.shared.awaiter w).sawStop = true)) ∧
    (∀ w, (s.shared.awaiter w).result = some true →
      .wake ∈ (s.shared.awaiter w).claims ∨ (s.shared.awaiter w).consumed = true) ∧
    (∀ e s' w, machine.step s e = some s' → (s'.shared.awaiter w).consumed = true →
      (s.shared.awaiter w).consumed = true ∨
        s.shared.st = .token ∧ s'.shared.st = .empty) := by
  have hinv := invariant_reachable h
  refine ⟨?_, fun w => wait_attended h, ?_, ?_, fun w ok hwake => (hinv.sound w).woken hwake, ?_,
    ?_, fun w ok => (hinv.sound w).canceled_iff, fun w => (hinv.sound w).succeeds, ?_⟩
  · intro w
    obtain ⟨hle, hclaimed, hposted⟩ := (hinv.sound w).posts
    exact ⟨hle, fun hne => (hclaimed hne).imp_right (postsNext_of_claimed h), hposted⟩
  · intro t c s' pc hstep htop hwake harmed
    rcases Machine.ofSteps_step_cases hstep with
      ⟨_, _, l, pc', r, q, ⟨⟩, hfs, hl, hexec, hfs'⟩ | ⟨_, _, _, ⟨⟩, -⟩
    rw [hfs, topPc_append hl] at htop
    obtain rfl := Option.some.inj htop
    obtain ⟨v, hv, hwaiter, -⟩ := hinv.slot.armed_waiter harmed
    rcases (exec_step hexec).wake_claims hwake harmed ⟨v, hv, hwaiter⟩ with
      hst | ⟨w, hw, hclaims, pc, rfl, hposts⟩
    · exact .inl hst
    · exact .inr ⟨w, hw, hclaims, ⟨t, pc⟩, by simp [hfs'], rfl, hposts⟩
  · intro t c s' pc hstep htop hwake hlength
    rcases Machine.ofSteps_step_cases hstep with
      ⟨_, _, l, pc', r, q, ⟨⟩, hfs, hl, hexec, hfs'⟩ | ⟨_, _, _, ⟨⟩, -⟩
    rw [hfs, topPc_append hl] at htop
    obtain rfl := Option.some.inj htop
    have hpc := hinv.pcs ⟨t, pc'⟩ (by simp [hfs])
    cases q with
    | none => exact (exec_step hexec).wake_returns hpc hwake
    | some pc => simp [hfs, hfs'] at hlength
  · intro e s' hstep htoken htaken
    rcases Machine.ofSteps_step_cases hstep with
      ⟨t, c, l, pc, r, q, rfl, hfs, hl, hexec, -⟩ | ⟨t, a, q, rfl, henter, -⟩
    · have hpc := hinv.pcs ⟨t, pc⟩ (by simp [hfs])
      obtain ⟨w, hw, hconsumed⟩ :=
        (exec_step hexec).takes_token hpc hinv.slot htoken htaken
      refine ⟨t, c, w, rfl, ?_, hconsumed⟩
      rw [hfs, topPc_append hl]
      exact hw.imp (congrArg some) (congrArg some)
    · exact absurd ((enter_entered henter).st htoken) htaken
  · intro w hconsumed
    rcases (hinv.sound w).consumed hconsumed with hp | hr
    · exact .inr (awaitResume_of_settled h hp)
    · exact .inl hr
  · intro e s' w hstep hconsumed
    rcases Machine.ofSteps_step_cases hstep with
      ⟨t, c, l, pc, r, q, rfl, hfs, hl, hexec, -⟩ | ⟨t, a, q, rfl, henter, -⟩
    · have hpc := hinv.pcs ⟨t, pc⟩ (by simp [hfs])
      exact (exec_step hexec).consumes hpc hconsumed
    · exact .inl ((enter_entered henter).consumed hconsumed)

theorem reachable_of_runEvents (es : List (Event Bool Entry)) {s : State Waker Pc}
    (h : machine.runEvents ⟨{}, []⟩ es = some s) : Reachable s := by
  have hinit : Reachable ⟨{}, []⟩ := .init rfl
  exact hinit.runWhen es h

/-- A wait arms, `wake()` finds it armed, the stop callback claims it first, and
the `wake()` goes round again and latches its token. -/
def racingRun : List (Event Bool Entry) :=
  [.enter 0 (.wait 0), .run 0 false, .run 0 false, .run 0 false, .run 0 false,
    .run 0 false, .run 0 false, .enter 1 .wake, .run 1 false, .enter 2 (.requestStop 0),
    .enter 2 (.stopCallback 0), .run 2 false, .run 2 false, .run 1 false, .run 1 false,
    .run 1 false, .run 2 false, .enter 0 (.resume 0), .run 0 false]

theorem async_waker_wakeups_racingRun :
    ∃ s, machine.runEvents ⟨{}, []⟩ racingRun = some s ∧ s.shared.st = .token ∧
      (s.shared.awaiter 0).result = some false ∧ (s.shared.awaiter 0).posts ≤ 1 :=
  ⟨_, rfl, rfl, rfl,
    ((async_waker_wakeups (reachable_of_runEvents racingRun rfl)).1 0).1⟩

end Capy.AsyncWaker
