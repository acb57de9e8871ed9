import Capy.ExecutionContextServices

namespace Capy.ExecutionContext

open Capy.CallStack

/-- The activation is of a `use_service` or `make_service` that has registered
nothing. -/
def unregistered : Pc → Bool
  | .find _ _ | .create _ _ | .register _ _ _ | .discard _ _ _ => true
  | _ => false

section Step

variable {s s' : Context} {pc : Pc} {q : Option Pc} (hstep : Step s pc s' q)

include hstep

theorem Step.services :
    s'.services = s.services ∨
      (∃ p, pc = .destroy ∧ s.services = p :: s'.services ∧
        s'.removed = s.removed ++ [p.id]) ∨
      ∃ call f id, pc = .register call f id ∧ s'.services = ⟨id, f.t0, f.t1⟩ :: s.services := by
  cases hstep with
  | @found call | @discarded call => cases call <;> exact .inl rfl
  | register => exact .inr (.inr ⟨_, _, _, rfl, rfl⟩)
  | destroy hservices => exact .inr (.inl ⟨_, rfl, hservices, rfl⟩)
  | _ => exact .inl rfl

theorem Step.throws (hthrew : s'.threw ≠ s.threw) :
    unregistered pc = true ∧ s'.services = s.services := by
  cases hstep with
  | @found call | @discarded call =>
      cases call with
      | useService => exact absurd rfl hthrew
      | makeService => exact ⟨rfl, rfl⟩
  | createThrows => exact ⟨rfl, rfl⟩
  | _ => exact absurd rfl hthrew

theorem Step.unregistered {pc' : Pc} (hq : q = some pc') (hpc' : unregistered pc' = true) :
    unregistered pc = true ∧ s'.services = s.services := by
  cases hstep with
  | missing | create | lost => exact ⟨rfl, rfl⟩
  | register =>
      split_ifs at hq
      obtain rfl := Option.some.inj hq
      simp [ExecutionContext.unregistered] at hpc'
  | found | createThrows | discarded | lateDone | shutdownAgain | walkEnd | destroyEnd =>
      simp at hq
  | lateShutdown | shutdown | walk | walkNext | destroy | destructed =>
      obtain rfl := Option.some.inj hq
      simp [ExecutionContext.unregistered] at hpc'

theorem Step.present :
    s'.present = s.present ∧ s'.shutdown = s.shutdown ∨
      s.shutdown = false ∧ s'.present = ids s := by
  cases hstep with
  | @found call | @discarded call => cases call <;> exact .inl ⟨rfl, rfl⟩
  | shutdown hshut => exact .inr ⟨hshut, rfl⟩
  | _ => exact .inl ⟨rfl, rfl⟩

end Step

theorem idempotent_eq_true {pc : Pc} (h : idempotent pc = true) :
    closing pc = true ∧ ∀ l, remaining l pc = [] := by
  cases pc <;> simp [idempotent] at h <;> exact ⟨rfl, fun _ => rfl⟩

/-- When `destroy()` has returned no call holds an object and no service waits for
its `shutdown()`. -/
theorem total_of_idempotent {fs : List (Frame Pc)} (h : ∀ f ∈ fs, idempotent f.pc = true)
    (l : List Nat) (x : Nat) :
    total (holds held x) fs = 0 ∧ total (holds late x) fs = 0 ∧ toWalk l fs = [] := by
  refine ⟨Nat.eq_zero_of_not_pos fun hpos => ?_, Nat.eq_zero_of_not_pos fun hpos => ?_,
    List.flatMap_eq_nil_iff.mpr fun f hf => (idempotent_eq_true (h f hf)).2 l⟩
  · obtain ⟨f, hf, hw⟩ := total_pos_iff.mp hpos
    have hzero := (holds_of_closing (idempotent_eq_true (h f hf)).1 x).1
    omega
  · obtain ⟨f, hf, hw⟩ := total_pos_iff.mp hpos
    have hzero := (holds_of_closing (idempotent_eq_true (h f hf)).1 x).2
    omega

theorem Services.counts {s : Context} {fs : List (Frame Pc)} (h : Services s fs) (x : Nat) :
    s.shutDown.count x ≤ s.registered.count x ∧
      s.registered.count x + s.discarded.count x ≤ 1 ∧
      s.removed.count x ≤ s.registered.count x := by
  obtain ⟨hcreated, hregistered⟩ := h.objects x
  have hone := h.count_created x
  refine ⟨?_, by omega, by omega⟩
  cases hshut : s.shutdown with
  | false => simp [(h.before hshut).1]
  | true =>
      have := (h.shut x).registered hshut
      omega

/-- In every state that any run of a context reaches: no service is shut down
twice, deleted before it was shut down or deleted twice, and no object is both
registered and discarded; once the shutdown has started and every call has
returned, every registered service has been shut down; the walk shuts down a
prefix of the services that were registered when it started, last registered
first, and all of them by its end; the container holds services in reverse order
of registration, and only `destroy()` takes one out, its first; a call changes
the container only by registering its own service, after which it does not throw;
and when `destroy()` has returned the container is empty, every object created is
deleted once and every service registered was shut down once. -/
theorem service_lifecycle {s : State Context Pc} (h : Reachable s) :
    (∀ x, s.shared.shutDown.count x ≤ 1 ∧
      s.shared.removed.count x ≤ s.shared.shutDown.count x ∧
      (s.shared.removed ++ s.shared.discarded).count x ≤ 1 ∧
      (x ∈ s.shared.discarded → x ∉ s.shared.registered)) ∧
    (s.shared.shutdown = true → s.frames = [] →
      ∀ x ∈ s.shared.registered, s.shared.shutDown.count x = 1) ∧
    (s.shared.walked <+: s.shared.present ∧ s.shared.walked.Sublist s.shared.shutDown ∧
      s.shared.present.reverse <+: s.shared.registered ∧
      (s.shared.shutdown = true → (∀ f ∈ s.frames, walking f.pc = none) →
        s.shared.walked = s.shared.present)) ∧
    (∀ e s', machine.step s e = some s' →
      (s.shared.shutdown = true → s'.shared.present = s.shared.present) ∧
      (s.shared.shutdown = false → s'.shared.shutdown = true →
        s'.shared.present = s.shared.registered.reverse)) ∧
    (ids s.shared).Sublist s.shared.registered.reverse ∧
    (∀ e s', machine.step s e = some s' →
      s'.shared = s.shared ∨
      ∃ l t pc q r, s.frames = l ++ ⟨t, pc⟩ :: r ∧
        s'.frames = l ++ q.toList.map (Frame.mk t) ++ r ∧
        (s'.shared.services = s.shared.services ∨
          (s.frames = [⟨t, .destroy⟩] ∧ ∃ p, s.shared.services = p :: s'.shared.services ∧
            s'.shared.removed = s.shared.removed ++ [p.id]) ∨
          ∃ call f id, pc = .register call f id ∧
            s'.shared.services = ⟨id, f.t0, f.t1⟩ :: s.shared.services) ∧
        (s'.shared.threw ≠ s.shared.threw →
          unregistered pc = true ∧ s'.shared.services = s.shared.services) ∧
        (∀ pc', q = some pc' → unregistered pc' = true →
          unregistered pc = true ∧ s'.shared.services = s.shared.services)) ∧
    (s.shared.destroyed = true →
      s.shared.services = [] ∧
      (∀ x ∈ s.shared.created, (s.shared.removed ++ s.shared.discarded).count x = 1) ∧
      ∀ x ∈ s.shared.registered,
        s.shared.shutDown.count x = 1 ∧ s.shared.removed.count x = 1) := by
  have hI := services_reachable h
  have hcounts := hI.counts
  have hpositive : ∀ x ∈ s.shared.registered, s.shared.registered.count x = 1 := by
    intro x hx
    have := hcounts x
    have := List.count_pos_iff.mpr hx
    omega
  refine ⟨fun x => ?_, ?_, ⟨?_, hI.walks, hI.present, ?_⟩, ?_, hI.order, ?_, ?_⟩
  · obtain ⟨hshut, hone, hremoved⟩ := hcounts x
    rw [List.count_append]
    refine ⟨by omega, (hI.shut x).removed, by omega, fun hd hr => ?_⟩
    have := List.count_pos_iff.mpr hd
    have := List.count_pos_iff.mpr hr
    omega
  · intro hshut hidle x hx
    have hcount := (hI.shut x).registered hshut
    rw [hidle, hpositive x hx] at hcount
    simpa [total, toWalk] using hcount.symm
  · cases hshut : s.shared.shutdown with
    | false => simp [(hI.before hshut).2.2.1]
    | true => exact ⟨_, hI.walked hshut⟩
  · intro hshut hnone
    have hdone : toWalk (ids s.shared) s.frames = [] := by
      refine List.flatMap_eq_nil_iff.mpr fun f hf => ?_
      have hpc := hnone f hf
      cases hf : f.pc with
      | walk p => cases p <;> simp_all [walking, remaining]
      | walkBody id => simp [hf, walking] at hpc
      | _ => rfl
    rw [← hI.walked hshut, hdone, List.append_nil]
  · intro e s' hstep
    rcases Machine.ofSteps_step_cases hstep with
      ⟨t, c, l, pc, r, q, -, hfs, -, hexec, -⟩ | ⟨t, a, q, -, henter, -⟩
    · rcases (exec_step hexec).present with ⟨hpresent, hflag⟩ | ⟨hopen, hpresent⟩
      · refine ⟨fun _ => hpresent, fun hopen hshut => ?_⟩
        simp [hflag, hopen] at hshut
      · refine ⟨fun hshut => ?_, fun _ _ => ?_⟩
        · simp [hopen] at hshut
        · rw [hpresent, (hI.before hopen).2.2.2]
    · obtain ⟨hsame, -⟩ := enter_entered henter
      rw [hsame]
      exact ⟨fun _ => rfl, fun hopen hshut => by simp [hopen] at hshut⟩
  · intro e s' hstep
    rcases Machine.ofSteps_step_cases hstep with
      ⟨t, c, l, pc, r, q, -, hfs, hl, hexec, hfs'⟩ | ⟨t, a, q, -, henter, -⟩
    · have hst := exec_step hexec
      refine .inr ⟨l, t, pc, q, r, hfs, hfs', ?_, hst.throws, fun pc' hq => hst.unregistered hq⟩
      rcases hst.services with hsame | ⟨p, rfl, hcons, hremoved⟩ | hregister
      · exact .inl hsame
      · have hexclusive := hI.exclusive
        rw [hfs] at hexclusive
        obtain ⟨rfl, rfl⟩ := hexclusive.alone hl rfl
        exact .inr (.inl ⟨hfs, p, hcons, hremoved⟩)
      · exact .inr (.inr hregister)
    · exact .inl (enter_entered henter).1
  · intro hdestroyed
    obtain ⟨hshut, hempty, hidle⟩ := hI.destroyed hdestroyed
    refine ⟨hempty, fun x hx => ?_, fun x hx => ?_⟩
    · have hcreated := (hI.objects x).created
      have hone := hI.count_created x
      have hpos := List.count_pos_iff.mpr hx
      rw [(total_of_idempotent hidle (ids s.shared) x).1] at hcreated
      simp only [ids, hempty, List.map_nil, List.count_nil] at hcreated
      rw [List.count_append]
      omega
    · obtain ⟨-, hlate, hwalk⟩ := total_of_idempotent hidle (ids s.shared) x
      have hcount := (hI.shut x).registered hshut
      have hregistered := (hI.objects x).registered
      rw [hlate, hwalk, hpositive x hx] at hcount
      rw [hpositive x hx] at hregistered
      simp only [ids, hempty, List.map_nil, List.count_nil] at hcount hregistered
      omega

theorem reachable_of_runEvents (es : List (Event Bool Entry)) {s : State Context Pc}
    (h : machine.runEvents ⟨newContext, []⟩ es = some s) : Reachable s := by
  have hinit : Reachable ⟨newContext, []⟩ := .init rfl
  exact hinit.runWhen es h

/-- A call that creates and registers a service, from its start to its return. -/
def createRun (c : Call) (f : Factory) (nested : List (Event Bool Entry)) :
    List (Event Bool Entry) :=
  [.enter 0 (.call c f), .run 0 false] ++ nested ++ [.run 0 false, .run 0 false]

/-- A constructor creates service 0 before its own service 1 is registered, and a
`make_service` throws. In the walk the `shutdown()` of service 1 creates service
2, whose destructor creates service 3. -/
def nestedRun : List (Event Bool Entry) :=
  createRun .useService ⟨1, 1⟩ (createRun .useService ⟨2, 2⟩ []) ++
    [.enter 0 (.call .makeService ⟨5, 2⟩), .run 0 false] ++
    [.enter 0 .shutdown, .run 0 false, .run 0 false] ++
    createRun .makeService ⟨3, 3⟩ [] ++ List.replicate 6 (.run 0 false) ++
    [.enter 0 .destroy, .run 0 false] ++
    createRun .useService ⟨4, 4⟩ [] ++ List.replicate 10 (.run 0 false)

theorem service_lifecycle_nested :
    ∃ s, machine.runEvents ⟨newContext, []⟩ nestedRun = some s ∧
      s.shared.destroyed = true ∧ s.shared.registered = [0, 1, 2, 3] ∧
      s.shared.shutDown = [1, 2, 0, 3] ∧ s.shared.walked = [1, 0] ∧
      s.shared.removed = [2, 3, 1, 0] ∧ s.shared.threw = [⟨5, 2⟩] ∧
      s.shared.services = [] :=
  ⟨_, rfl, rfl, rfl, rfl, rfl, rfl, rfl,
    ((service_lifecycle (reachable_of_runEvents nestedRun rfl)).2.2.2.2.2.2 rfl).1⟩

end Capy.ExecutionContext
