import Capy.FrameAllocatorSound

namespace Capy.FrameAllocator

open Capy.CallStack

/-- Whenever a statement of the body of a `task`, a `quitter` or a `write_now`
operation runs, the thread's slot is the allocator of its context. -/
def InWindow (s : State Shared Pc) : Prop :=
  ∀ t c x, statementOf (stackOf t s.frames) = some c → s.shared.coros c = some x →
    x.kind.guarded = true → x.env = some (s.shared.slots t)

theorem Shared.Fits.statement {s : Shared} {v : Option Slot} {pcs : List Pc} (h : s.Fits v pcs)
    {c : Nat} {x : Coro} (hc : statementOf pcs = some c) (hx : s.coros c = some x)
    (hg : x.kind.guarded = true) : x.env = v := by
  induction pcs with
  | nil => simp [statementOf] at hc
  | cons pc pcs ih =>
      rcases pc with ⟨how, c', _ | ⟨launch, ls⟩⟩ | ⟨_ | ⟨launch, ls⟩⟩ | ⟨how, c'⟩
      · obtain rfl : c' = c := by simpa [statementOf] using hc
        obtain ⟨y, hy, hguarded⟩ := h.1
        obtain rfl : x = y := Option.some.inj (hx.symm.trans hy)
        obtain ⟨e, he, hsettled⟩ := hguarded hg
        exact he.trans hsettled.symm
      · simp [statementOf] at hc
      · exact ih h.2 hc
      · simp [statementOf] at hc
      · simp [statementOf] at hc

theorem Sound.inWindow {s : State Shared Pc} (h : Sound s.shared s.frames) : InWindow s :=
  fun t _ _ hc hx hg => (h.windows t).statement hc hx hg

theorem not_inWindow_of_start {s s' : Shared} {t : Nat} {how : How} {d : Nat} {q : Option Pc}
    {fs : List (Frame Pc)} (hk : s.Kept) (hstart : startsInWindow s t d = false)
    (hresume : s.resume t how d = some (s', q))
    (hfs : stackOf t fs = q.toList ++ (stackOf t fs).tail) : ¬ InWindow ⟨s', fs⟩ := by
  intro hin
  unfold Shared.resume at hresume
  split at hresume
  · simp at hresume
  · rename_i x hx
    split at hresume
    · obtain ⟨rfl, rfl⟩ := Prod.mk.inj (Option.some.inj hresume)
      have hwrite : (x.kind = .writeNow ∧ x.point = .initial) ∧ x.env ≠ some (s.slots t) := by
        simpa [startsInWindow, hx, and_assoc] using hstart
      obtain ⟨⟨hkind, hpoint⟩, henv⟩ := hwrite
      have hnil : x.launches = [] := (hk.parked d x hx).2 hpoint
      have hc : statementOf (stackOf t fs) = some d := by
        rw [hfs, hnil]
        rfl
      have hheld := hin t d _ hc (Shared.setCoro_coros_self ..) (by simp [hkind, Kind.guarded])
      rw [Shared.setCoro_slots, Shared.setSlot_slots_self] at hheld
      exact henv (by simpa [Coro.resumeSlot, hkind, hpoint, Kind.setsSlot] using hheld)
    · simp at hresume

theorem resumed_of_run {s : State Shared Pc} {t : Nat} {a : Action}
    (h : keepsWindow s (.run t a) = false) :
    ∃ d, resumed s (.run t a) = some d ∧ startsInWindow s.shared t d = false := by
  cases hd : resumed s (.run t a) with
  | none => simp [keepsWindow, hd] at h
  | some d => exact ⟨d, rfl, by simpa [keepsWindow, hd, thread] using h⟩

theorem not_inWindow_run {s s' : Shared} {t : Nat} {pc : Pc} {a : Action} {q : Option Pc}
    {l r : List (Frame Pc)} (h : Sound s (l ++ ⟨t, pc⟩ :: r)) (hl : ∀ g ∈ l, g.thread ≠ t)
    (hok : keepsWindow ⟨s, l ++ ⟨t, pc⟩ :: r⟩ (.run t a) = false)
    (hexec : exec s t pc a = some (s', q)) :
    ¬ InWindow ⟨s', l ++ q.toList.map (Frame.mk t) ++ r⟩ := by
  obtain ⟨d, hd, hstart⟩ := resumed_of_run hok
  have hfs : ∀ {how ls}, q = some (.body how d ls) →
      stackOf t (l ++ q.toList.map (Frame.mk t) ++ r) =
        q.toList ++ (stackOf t (l ++ q.toList.map (Frame.mk t) ++ r)).tail := by
    rintro how ls rfl
    rw [stackOf_replace hl]
    rfl
  cases a <;> simp only [resumed, reduceCtorEq, Option.some.injEq] at hd
  case transfer d' =>
    subst hd
    cases pc with
    | suspending how c =>
        obtain ⟨x, -, hq, -⟩ := Shared.resume_cases h.kept hexec
        exact not_inWindow_of_start h.kept hstart hexec (hfs hq)
    | body how c ls => simp [exec] at hexec
    | plain ls => simp [exec] at hexec
  case finish =>
    rw [topPc_append hl] at hd
    cases pc with
    | suspending how c => simp [exec] at hexec
    | plain ls => simp [exec] at hexec
    | body how c ls =>
        obtain ⟨x, hx, ha⟩ := Option.bind_eq_some_iff.mp hd
        cases ls with
        | cons launch ls => simp [exec] at hexec
        | nil =>
            simp only [exec, hx] at hexec
            split at hexec
            · rename_i hrunning
              split at hexec
              case h_2 hnone => simp [show x.continuation = some d from ha] at hnone
              rename_i a ha'
              obtain rfl : a = d := Option.some.inj (ha'.symm.trans ha)
              have hev := evolves_finish (t := t) hx hrunning
              have hne : a ≠ c := by
                rintro rfl
                simp [startsInWindow, hx, hrunning] at hstart
              obtain ⟨y, -, hq, -⟩ := Shared.resume_cases (hev.kept h.kept) hexec
              refine not_inWindow_of_start (hev.kept h.kept) ?_ hexec (hfs hq)
              rw [startsInWindow, Shared.setCoro_coros_of_ne hne]
              exact hstart
            · simp at hexec

theorem not_inWindow_enter {s s' : Shared} {t : Nat} {a : Entry} {q : Option Pc}
    {fs : List (Frame Pc)} (h : Sound s fs) (hok : keepsWindow ⟨s, fs⟩ (.enter t a) = false)
    (henter : enter s fs t a = some (s', q)) :
    ¬ InWindow ⟨s', q.toList.map (Frame.mk t) ++ fs⟩ := by
  have hfs : ∀ {pc}, q = some pc → stackOf t (q.toList.map (Frame.mk t) ++ fs) =
      q.toList ++ (stackOf t (q.toList.map (Frame.mk t) ++ fs)).tail := by
    rintro pc rfl
    rw [stackOf_enter]
    rfl
  cases a with
  | call => simp [keepsWindow, resumed] at hok
  | setDefaultResource r => simp [keepsWindow, resumed] at hok
  | safeResume d =>
      have hstart : startsInWindow s t d = false := by
        simpa [keepsWindow, resumed, thread] using hok
      obtain ⟨x, -, hq, -⟩ := Shared.resume_cases h.kept henter
      exact not_inWindow_of_start h.kept hstart henter (hfs hq)
  | resume d =>
      have hstart : startsInWindow s t d = false := by
        simpa [keepsWindow, resumed, thread] using hok
      simp only [FrameAllocator.enter] at henter
      split at henter
      · obtain ⟨x, -, hq, -⟩ := Shared.resume_cases h.kept henter
        exact not_inWindow_of_start h.kept hstart henter (hfs hq)
      · simp at henter
  | destroy d =>
      simp only [FrameAllocator.enter] at henter
      split at henter
      · rename_i x hx
        split at henter
        · obtain ⟨rfl, rfl⟩ := Prod.mk.inj (Option.some.inj henter)
          have hwrong : relied s (stackOf t fs) = true ∧
              unwind (s.slots t) x.launches ≠ s.slots t := by
            simpa [keepsWindow, resumed, tearsDownOutsideWindow, hx] using hok
          obtain ⟨hrelied, hslot⟩ := hwrong
          obtain ⟨c, hc, hrelied⟩ := (Option.any_eq_true ..).mp hrelied
          obtain ⟨y, hy, hg⟩ := (Option.any_eq_true ..).mp hrelied
          have henv : y.env = some (s.slots t) := (h.windows t).statement hc hy hg
          intro hin
          have hdestroyed : ∃ y', (s.destroy t d).coros c = some y' ∧ y'.kind = y.kind ∧
              y'.env = y.env := by
            rcases eq_or_ne c d with rfl | hne
            · obtain rfl : x = y := Option.some.inj (hx.symm.trans hy)
              exact ⟨_, Shared.destroy_coros_self hx, rfl, rfl⟩
            · exact ⟨y, (Shared.destroy_coros_of_ne hne).trans hy, rfl, rfl⟩
          obtain ⟨y', hy', hkind, henv'⟩ := hdestroyed
          have hheld := hin t c y' hc hy' (by rw [hkind]; exact hg)
          rw [henv', henv] at hheld
          rw [Shared.destroy_slots_self hx] at hheld
          exact hslot (Option.some.inj hheld).symm
        · simp at henter
      · simp at henter

/-- A step after which every statement has its allocator in the slot is one at which
no missed point is reached. -/
theorem inWindow_step_iff {s s' : State Shared Pc} {e : Event Action Entry}
    (h : Sound s.shared s.frames) (hstep : machine.step s e = some s') :
    InWindow s' ↔ keepsWindow s e = true := by
  obtain ⟨sh, fs⟩ := s
  obtain ⟨sh', fs'⟩ := s'
  rcases Machine.ofSteps_step_cases hstep with
    ⟨t, a, l, pc, r, q, rfl, hfs, hl, hexec, hfs'⟩ | ⟨t, a, q, rfl, henter, hfs'⟩
  · dsimp only at h hfs hfs' hexec
    subst hfs hfs'
    refine ⟨fun hin => ?_, fun hok => (exec_sound h hl hok hexec).inWindow⟩
    by_contra hok
    exact not_inWindow_run h hl (by simpa using hok) hexec hin
  · dsimp only at h hfs' henter
    subst hfs'
    refine ⟨fun hin => ?_, fun hok => (enter_sound h hok henter).inWindow⟩
    by_contra hok
    exact not_inWindow_enter h (by simpa using hok) henter hin

/-- A child that a body awaits outside of launch expressions is started in its own
window, unless `run` gave it another allocator. -/
theorem startsInWindow_of_lend {s s' : Shared} {t c d : Nat} {how : How} {k : Option Nat}
    {x y : Coro} {q : Option Pc} (hholds : s.Holds (some (s.slots t)) (.body how c []))
    (hx : s.coros c = some x) (hg : x.kind.guarded = true) (hy : s.coros d = some y)
    (hgiven : y.given = none) (hexec : exec s t (.body how c []) (.lend d k) = some (s', q)) :
    startsInWindow s' t d = true := by
  obtain ⟨x', hx', hguarded⟩ := hholds
  obtain rfl : x = x' := Option.some.inj (hx.symm.trans hx')
  obtain ⟨e, he, hsettled⟩ := hguarded hg
  have hslot : s.slots t = e := Option.some.inj hsettled
  simp only [exec, hx, hy, he] at hexec
  split at hexec
  · obtain ⟨rfl, -⟩ := Prod.mk.inj (Option.some.inj hexec)
    cases k <;> simp [startsInWindow, hgiven, hslot]
  · simp at hexec

/-- In every run that misses no point, the slot of a thread is the allocator of the
statement that runs on it, every scope leaves the slot as it found it, and the
storage of a frame goes back once, to the resource it came from. The next step keeps
the slots right exactly when it misses no point either. -/
theorem frame_allocator_window_iff {s : State Shared Pc}
    (h : machine.ReachableWhen keepsWindow Initial s) :
    InWindow s ∧
      (∀ e ∈ s.shared.exits, e.left = e.found) ∧
      (∀ d x b, s.shared.coros d = some x → x.block = some b →
        s.shared.returnsOf d = if x.point = .destroyed then [some b.allocation] else []) ∧
      ∀ e s', machine.step s e = some s' → (InWindow s' ↔ keepsWindow s e = true) := by
  have hsound := sound_reachable h
  refine ⟨hsound.inWindow, hsound.kept.exits, ?_, fun e s' => inWindow_step_iff hsound⟩
  intro d x b hx hb
  rw [hsound.kept.returned d, hx, Option.elim_some, Coro.returns, hb]

def start : State Shared Pc := ⟨{ defaultResource := recycling }, []⟩

/-- Plain code on thread `t` runs `run_async(ex, mr)(f())`, with the trampoline `k` and
the task `d`, which the executor takes. -/
def launchTask (t : Nat) (mr : Slot) (k d : Nat) : List (Event Action Entry) :=
  [.enter t .call, .run t (.runAsync mr k), .run t (.create .task 64 d), .run t (.startTask d),
    .run t .dispatchReturns, .run t .leaveRunAsync, .run t .ret]

/-- A task awaits a `write_now` operation, which is resumed on another thread, and
the task goes on there. -/
def awaitedWrite : List (Event Action Entry) :=
  launchTask 0 (some 1) 0 1 ++
    [.enter 1 (.safeResume 1), .run 1 (.create .writeNow 64 2), .run 1 (.lend 2 none),
      .run 1 (.transfer 2), .run 1 .suspend, .run 1 .ret, .enter 2 (.safeResume 2), .run 2 .finish]

theorem frame_allocator_window_iff_awaitedWrite :
    ∃ s, machine.runWhen keepsWindow start awaitedWrite = some s ∧
      s.shared.slots 2 = some 1 ∧ InWindow s := by
  obtain ⟨s, hs⟩ : ∃ s, machine.runWhen keepsWindow start awaitedWrite = some s := ⟨_, rfl⟩
  have hslot : (machine.runWhen keepsWindow start awaitedWrite).map (fun s => s.shared.slots 2) =
      some (some 1) := rfl
  have hreach : machine.ReachableWhen keepsWindow Initial s :=
    Machine.ReachableWhen.runWhen (.init ⟨rfl, recycling, rfl⟩) awaitedWrite hs
  rw [hs] at hslot
  exact ⟨s, hs, Option.some.inj hslot, (frame_allocator_window_iff hreach).1⟩

/-- A task awaits `when_all` with a `write_now` operation, whose runner is resumed on a
thread with a null slot. -/
def writeFromRunner : List (Event Action Entry) :=
  launchTask 0 (some 1) 0 1 ++
    [.enter 1 (.safeResume 1), .run 1 (.create .writeNow 64 2), .run 1 .suspend,
      .run 1 (.makeRunner 3), .run 1 .ret, .enter 2 (.safeResume 3), .run 2 (.lend 2 none),
      .run 2 (.transfer 2)]

/-- A statement of one task destroys another that is suspended inside the task
argument of `run(ex, mr)`. -/
def tornDownInArgument : List (Event Action Entry) :=
  launchTask 0 (some 1) 0 1 ++
    [.enter 1 (.safeResume 1), .run 1 (.run (some 2)), .run 1 .suspend, .run 1 .ret] ++
    launchTask 0 (some 3) 2 3 ++ [.enter 2 (.safeResume 3), .enter 2 (.destroy 1)]

theorem statements_outside_window :
    (∃ s, machine.runEvents start writeFromRunner = some s ∧ ¬ InWindow s) ∧
      ∃ s, machine.runEvents start tornDownInArgument = some s ∧ ¬ InWindow s := by
  refine ⟨⟨_, rfl, fun h => ?_⟩, ⟨_, rfl, fun h => ?_⟩⟩
  · have henv : some (some 1) = some (none : Slot) := h 2 2 _ rfl rfl rfl
    simp at henv
  · have henv : some (some 3) = some (some 1 : Slot) := h 2 3 _ rfl rfl rfl
    simp at henv

end Capy.FrameAllocator
