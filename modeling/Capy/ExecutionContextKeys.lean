import Capy.ExecutionContextServices

namespace Capy.ExecutionContext

open Capy.CallStack

/-- The two services carry no type index in common. -/
def Apart (p q : Service) : Prop := ∀ ti, ¬(p.carries ti = true ∧ q.carries ti = true)

/-- No type index is carried by two services of the container. -/
def UniqueKeys (s : Context) : Prop := s.services.Pairwise Apart

/-- The step does not register, in a `use_service`, a service whose `key_type` a
registered service carries: `use_service_impl` looks only for the type itself. -/
def keyFree (s : State Context Pc) : Event Bool Entry → Bool
  | .run t _ =>
      match topPc t s.frames with
      | some (.register .useService f _) =>
          taken s.shared .useService f || (findImpl s.shared f.t1).isNone
      | _ => true
  | .enter _ _ => true

theorem findImpl_eq_none {s : Context} {ti : Nat} :
    findImpl s ti = none ↔ ∀ p ∈ s.services, p.carries ti = false := by
  simp [findImpl]

theorem apart_of_findImpl {s : Context} {id : Nat} {f : Factory} (h0 : findImpl s f.t0 = none)
    (h1 : findImpl s f.t1 = none) : ∀ p ∈ s.services, Apart ⟨id, f.t0, f.t1⟩ p := by
  rintro p hp ti ⟨hnew, hold⟩
  simp only [Service.carries, decide_eq_true_eq] at hnew
  rcases hnew with rfl | rfl
  · simp [findImpl_eq_none.mp h0 p hp] at hold
  · simp [findImpl_eq_none.mp h1 p hp] at hold

theorem taken_makeService {s : Context} {f : Factory} (h : taken s .makeService f = false) :
    findImpl s f.t0 = none ∧ findImpl s f.t1 = none := by
  simp only [taken, Bool.or_eq_false_iff, Option.isSome_eq_false_iff, Option.isNone_iff_eq_none,
    Bool.and_eq_false_iff, decide_eq_false_iff_not, ne_eq, not_not] at h
  obtain ⟨h0, heq | h1⟩ := h
  · exact ⟨h0, heq ▸ h0⟩
  · exact ⟨h0, h1⟩

theorem taken_useService {s : Context} {f : Factory} (h : taken s .useService f = false) :
    findImpl s f.t0 = none := by
  simpa [taken] using h

theorem Step.container {s s' : Context} {pc : Pc} {q : Option Pc} (hstep : Step s pc s' q) :
    s'.services <:+ s.services ∨
      ∃ call f id, pc = .register call f id ∧ taken s call f = false ∧
        s'.services = ⟨id, f.t0, f.t1⟩ :: s.services := by
  cases hstep with
  | @found call | @discarded call => cases call <;> exact .inl List.suffix_rfl
  | register hfree => exact .inr ⟨_, _, _, rfl, hfree, rfl⟩
  | destroy hservices =>
      rw [hservices]
      exact .inl (List.suffix_cons _ _)
  | _ => exact .inl List.suffix_rfl

theorem UniqueKeys.exec {s s' : Context} {l r : List (Frame Pc)} {t : Nat} {pc : Pc}
    {q : Option Pc} {c : Bool} (h : UniqueKeys s) (hl : ∀ g ∈ l, g.thread ≠ t)
    (hok : keyFree ⟨s, l ++ ⟨t, pc⟩ :: r⟩ (.run t c) = true) (hstep : Step s pc s' q) :
    UniqueKeys s' := by
  rcases hstep.container with hsuffix | ⟨call, f, id, rfl, hfree, hcons⟩
  · exact List.Pairwise.sublist hsuffix.sublist h
  · rw [UniqueKeys, hcons]
    refine List.pairwise_cons.mpr ⟨?_, h⟩
    cases call with
    | makeService =>
        obtain ⟨h0, h1⟩ := taken_makeService hfree
        exact apart_of_findImpl h0 h1
    | useService =>
        simp only [keyFree, topPc_append hl, hfree, Bool.false_or, Option.isNone_iff_eq_none]
          at hok
        exact apart_of_findImpl (taken_useService hfree) hok

theorem uniqueKeys_reachable {s : State Context Pc}
    (h : machine.ReachableWhen keyFree Initial s) : UniqueKeys s.shared := by
  have hpreserves : machine.Preserves keyFree fun s _ => UniqueKeys s := by
    apply Machine.Preserves.ofSteps
    · intro s l t pc r c s' q hI _ hl hok hexec
      exact UniqueKeys.exec hI hl hok (exec_step hexec)
    · intro s fs t a s' q hI _ _ _ henter
      obtain ⟨rfl, -⟩ := enter_entered henter
      exact hI
  refine hpreserves.reachableWhen (by rintro _ rfl; rfl) ?_ h
  rintro _ rfl
  exact List.Pairwise.nil

theorem UniqueKeys.findImpl_eq {s : Context} (h : UniqueKeys s) {p : Service}
    (hp : p ∈ s.services) {ti : Nat} (hcarries : p.carries ti = true) :
    findImpl s ti = some p := by
  unfold UniqueKeys at h
  unfold findImpl
  generalize s.services = l at h hp
  induction l with
  | nil => simp at hp
  | cons a rest ih =>
      obtain ⟨ha, hrest⟩ := List.pairwise_cons.mp h
      rcases List.mem_cons.mp hp with rfl | hp
      · exact List.find?_cons_of_pos hcarries
      · have hother : ¬a.carries ti = true := fun hcarries' => ha p hp ti ⟨hcarries', hcarries⟩
        simpa [hother] using ih hrest hp

theorem Step.registers {s s' : Context} {call : Call} {f : Factory} {id : Nat}
    {q : Option Pc} (hstep : Step s (.register call f id) s' q)
    (hfree : taken s call f = false) : s'.services = ⟨id, f.t0, f.t1⟩ :: s.services := by
  cases hstep with
  | lost htaken => simp [hfree] at htaken
  | register => rfl

/-- A step that is not `keyFree` registers a service beside another one that
carries its `key_type`. -/
theorem not_uniqueKeys_of_not_keyFree {s s' : State Context Pc} {e : Event Bool Entry}
    (hok : keyFree s e = false) (hstep : machine.step s e = some s') :
    ¬UniqueKeys s'.shared := by
  rcases Machine.ofSteps_step_cases hstep with
    ⟨t, c, l, pc, r, q, rfl, hfs, hl, hexec, -⟩ | ⟨t, a, q, rfl, -, -⟩
  · simp only [keyFree, hfs, topPc_append hl] at hok
    split at hok
    · rename_i f id heq
      obtain rfl := Option.some.inj heq
      simp only [Bool.or_eq_false_iff, Option.isNone_eq_false_iff, Option.isSome_iff_exists]
        at hok
      obtain ⟨hfree, p, hp⟩ := hok
      have hcarries : p.carries f.t1 = true := by simpa using List.find?_some hp
      rw [UniqueKeys, (exec_step hexec).registers hfree]
      intro hunique
      refine (List.pairwise_cons.mp hunique).1 p (List.mem_of_find?_eq_some hp) f.t1 ⟨?_, hcarries⟩
      simp [Service.carries]
    · simp at hok
  · simp [keyFree] at hok

/-- In every state of a run whose steps are all `keyFree`, no type index is carried
by two of the registered services, and a lookup under an index of a registered
service finds that service. Any step that is not `keyFree` leads to a state where
two registered services carry the same index. -/
theorem service_keys_unique_when (s : State Context Pc) :
    (machine.ReachableWhen keyFree Initial s →
      UniqueKeys s.shared ∧
      ∀ p ∈ s.shared.services, ∀ ti, p.carries ti = true → findImpl s.shared ti = some p) ∧
    (∀ s' e, keyFree s e = false → machine.step s e = some s' → ¬UniqueKeys s'.shared) := by
  constructor
  · intro hs
    have hunique := uniqueKeys_reachable hs
    exact ⟨hunique, fun p hp ti hcarries => hunique.findImpl_eq hp hcarries⟩
  · intro s' e hok hstep
    exact not_uniqueKeys_of_not_keyFree hok hstep

/-- A `make_service` with a `key_type`, and a `use_service` of another type. -/
def keyedRun : List (Event Bool Entry) :=
  [.enter 0 (.call .makeService ⟨1, 9⟩), .run 0 false, .run 0 false, .run 0 false,
    .enter 1 (.call .useService ⟨2, 2⟩), .run 1 false, .run 1 false, .run 1 false]

theorem service_keys_unique_when_keyed :
    ∃ s, machine.runWhen keyFree ⟨newContext, []⟩ keyedRun = some s ∧
      s.shared.services = [⟨1, 2, 2⟩, ⟨0, 1, 9⟩] ∧ findImpl s.shared 9 = some ⟨0, 1, 9⟩ := by
  have hinit : machine.ReachableWhen keyFree Initial ⟨newContext, []⟩ := .init rfl
  exact ⟨_, rfl, rfl, ((service_keys_unique_when _).1 (hinit.runWhen keyedRun rfl)).2 ⟨0, 1, 9⟩
    (.tail _ (.head _)) 9 rfl⟩

/-- Two types with the same `key_type`, both created by `use_service`. -/
def sharedKeyRun : List (Event Bool Entry) :=
  [.enter 0 (.call .useService ⟨1, 9⟩), .run 0 false, .run 0 false, .run 0 false,
    .enter 0 (.call .useService ⟨2, 9⟩), .run 0 false, .run 0 false, .run 0 false]

/-- Both services are registered under the key, and a lookup that found the first
one now finds the second. -/
theorem use_service_sharedKey :
    ∃ s s' p p', Reachable s ∧ Reachable s' ∧
      findImpl s.shared 9 = some p ∧ findImpl s'.shared 9 = some p' ∧ p.id ≠ p'.id ∧
      p ∈ s'.shared.services ∧ p' ∈ s'.shared.services ∧ ¬UniqueKeys s'.shared := by
  have hinit : Reachable ⟨newContext, []⟩ := .init rfl
  refine ⟨_, _, ⟨0, 1, 9⟩, ⟨1, 2, 9⟩, hinit.runWhen (sharedKeyRun.take 4) rfl,
    hinit.runWhen sharedKeyRun rfl, rfl, rfl, by decide, .tail _ (.head _), .head _,
    fun h => ?_⟩
  exact (List.pairwise_cons.mp h).1 ⟨0, 1, 9⟩ (.head _) 9 ⟨rfl, rfl⟩

end Capy.ExecutionContext
