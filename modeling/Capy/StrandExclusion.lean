import Capy.StrandService

namespace Capy.StrandExclusion

open Capy.CallStack
open Capy.StrandService

/-- The activation owns the strand: it won an enqueue and has neither posted
an invoker nor given the strand up, or it is an invoker that has not unlocked. -/
def ownsStrand : Pc → Bool
  | .postInvoker _ | .withdraw _ | .repostInvoker _ | .abandonPending _ => true
  | .setDispatchThread | .takeAll | .dispatchBatch _ _ | .tryUnlock => true
  | _ => false

def inDispatchBatch : Pc → Bool
  | .dispatchBatch _ _ => true
  | _ => false

/-- The activation is an invoker, from its first step to its last. -/
def runsInvoker : Pc → Bool
  | .setDispatchThread | .takeAll | .dispatchBatch _ _ => true
  | .tryUnlock | .clearDispatchThread => true
  | _ => false

/-- With `n` activations that own the strand: no more than one owner, queued
invokers included, and `locked_` says so while the strand is open. -/
structure Ownership (s : Strand) (n : Nat) : Prop where
  unique : s.queued + n ≤ 1
  locked : s.service = true → 0 < s.queued + n → s.locked = true
  idle : s.service = true → s.locked = false → s.pending = []

theorem Ownership.mono {s s' : Strand} {n n' : Nat} (h : Ownership s n)
    (howners : s'.queued + n' ≤ s.queued + n) (hservice : s'.service = s.service)
    (hlocked : s'.locked = s.locked) (hpending : s.pending = [] → s'.pending = []) :
    Ownership s' n' := by
  refine ⟨Nat.le_trans howners h.unique, fun hopen hpos => ?_, fun hopen hfree => ?_⟩
  · rw [hlocked]
    exact h.locked (hservice ▸ hopen) (by omega)
  · exact hpending (h.idle (hservice ▸ hopen) (hlocked ▸ hfree))

theorem Ownership.release {s s' : Strand} {k : Nat} (h : Ownership s (k + 1))
    (hqueued : s'.queued = s.queued) (hpending : s'.pending = []) : Ownership s' k := by
  have hunique := h.unique
  exact ⟨by omega, fun _ hpos => by omega, fun _ _ => hpending⟩

theorem Ownership.step {s s' : Strand} {t k : Nat} {pc : Pc} {q : Option Pc}
    (h : Ownership s (k + (ownsStrand pc).toNat)) (hstep : Step s t pc s' q) :
    Ownership s' (k + (q.elim false ownsStrand).toNat) := by
  cases hstep with
  | enqueuePush hopen hlocked =>
      exact ⟨h.unique, fun _ _ => hlocked, fun _ hfree => by simp [hlocked] at hfree⟩
  | enqueueWin hopen hfree =>
      -- an open strand that is not locked has no owner
      have hnone : ¬0 < s.queued + k := fun hpos => by simpa [hfree] using h.locked hopen hpos
      exact ⟨by simp only [Option.elim, ownsStrand, Bool.toNat_true]; omega,
        fun _ _ => rfl, nofun⟩
  | withdrawAlone _ hlast => exact h.release rfl hlast
  | abandonPendingOpen => exact h.release rfl rfl
  | unlock hempty => exact h.release rfl hempty
  | shutdownLinked => exact ⟨h.unique, nofun, fun _ _ => rfl⟩
  | postSucceeds => exact h.mono (by simp [ownsStrand]; omega) rfl rfl id
  | repostSucceeds => exact h.mono (by simp [ownsStrand]; omega) rfl rfl id
  | withdrawFollowed => exact h.mono (Nat.le_refl _) rfl rfl (by simp +contextual)
  | takeAll => exact h.mono (Nat.le_refl _) rfl rfl fun _ => rfl
  | destroyTake => exact h.mono (Nat.le_refl _) rfl rfl fun _ => rfl
  | _ => exact h.mono (by simp [ownsStrand]) rfl rfl id

theorem Ownership.enter {s s' : Strand} {fs : List (Frame Pc)} {t n : Nat}
    {q : Option Pc} (h : Ownership s n) (henter : Entered s fs t s' q) :
    Ownership s' (n + (q.elim false ownsStrand).toNat) := by
  cases henter with
  | invoke hqueued => exact h.mono (by simp [ownsStrand]; omega) rfl rfl id
  | dropInvoker hqueued => exact h.mono (by simp) rfl rfl id
  | _ => exact h.mono (by simp [ownsStrand]) rfl rfl id

/-- How many activations own the strand. -/
def ownersOf (fs : List (Frame Pc)) : Nat := fs.countP fun f => ownsStrand f.pc

theorem Ownership.exec_frames {s s' : Strand} {t : Nat} {pc : Pc} {q : Option Pc}
    {l r : List (Frame Pc)} (h : Ownership s (ownersOf (l ++ ⟨t, pc⟩ :: r)))
    (hstep : Step s t pc s' q) :
    Ownership s' (ownersOf (l ++ q.toList.map (Frame.mk t) ++ r)) := by
  rw [ownersOf, countP_split] at h
  rw [ownersOf, countP_replace]
  exact h.step hstep

theorem Ownership.enter_frames {s s' : Strand} {fs : List (Frame Pc)} {t : Nat}
    {q : Option Pc} (h : Ownership s (ownersOf fs)) (henter : Entered s fs t s' q) :
    Ownership s' (ownersOf (q.toList.map (Frame.mk t) ++ fs)) := by
  rw [ownersOf, countP_enter]
  exact h.enter henter

theorem ownership_preserves {ok : State Strand Pc → Event Outcome Entry → Bool} :
    machine.Preserves ok fun s fs => Ownership s (ownersOf fs) := by
  apply Machine.Preserves.ofSteps
  · intro s l t pc r c s' q h _ _ _ hexec
    exact h.exec_frames (exec_step hexec)
  · intro s fs t a s' q h _ _ _ henter
    exact h.enter_frames (enter_entered henter)

theorem ownership_initial (s : State Strand Pc) (h : Initial s) :
    Ownership s.shared (ownersOf []) := by
  obtain ⟨b, rfl⟩ := h
  constructor <;> cases b <;> simp [createImplementation, ownersOf]

theorem ownership_reachable {s : State Strand Pc} (h : Reachable s) :
    Ownership s.shared (ownersOf s.frames) :=
  ownership_preserves.reachable initial_frames ownership_initial h

/-- The invoker has stored its thread id and not reached `try_unlock`. -/
def hasStoredId : Pc → Bool
  | .takeAll | .dispatchBatch _ _ => true
  | _ => false

theorem enter_keepsId {s s' : Strand} {fs : List (Frame Pc)} {t : Nat}
    {q : Option Pc} (henter : Entered s fs t s' q) :
    s'.dispatchThread = s.dispatchThread ∧
      ∀ pc, q = some pc → hasStoredId pc = false := by
  cases henter <;> simp [hasStoredId]

/-- `dispatch_thread_` only ever names a thread that runs an invoker. -/
def IdOfInvoker (s : Strand) (fs : List (Frame Pc)) : Prop :=
  ∀ t, s.dispatchThread = some t → ∃ f ∈ fs, f.thread = t ∧ runsInvoker f.pc = true

theorem Step.invoker {s s' : Strand} {t : Nat} {pc : Pc} {q : Option Pc}
    (hstep : Step s t pc s' q) :
    s'.dispatchThread = none ∨
      (∃ pc', s'.dispatchThread = some t ∧ q = some pc' ∧ runsInvoker pc' = true) ∨
      (s'.dispatchThread = s.dispatchThread ∧
        (runsInvoker pc = true → ∃ pc', q = some pc' ∧ runsInvoker pc' = true)) := by
  cases hstep <;> simp [runsInvoker]

theorem idOfInvoker_preserves {ok : State Strand Pc → Event Outcome Entry → Bool} :
    machine.Preserves ok IdOfInvoker := by
  apply Machine.Preserves.ofSteps
  · intro s l t pc r c s' q h _ _ _ hexec u hu
    rcases Step.invoker (exec_step hexec) with hnone | ⟨pc', hset, rfl, hinv⟩ | ⟨hsame, hkeep⟩
    · simp [hnone] at hu
    · obtain rfl : t = u := by simpa [hset] using hu
      exact ⟨⟨t, pc'⟩, mem_replace.mpr (.inr ⟨pc', rfl, rfl⟩), rfl, hinv⟩
    · obtain ⟨f, hf, hfu, hinv⟩ := h u (hsame ▸ hu)
      rcases mem_split.mp hf with hf | rfl
      · exact ⟨f, mem_replace.mpr (.inl hf), hfu, hinv⟩
      · obtain ⟨pc', rfl, hinv'⟩ := hkeep hinv
        exact ⟨⟨t, pc'⟩, mem_replace.mpr (.inr ⟨pc', rfl, rfl⟩), hfu, hinv'⟩
  · intro s fs t a s' q h _ _ _ henter u hu
    obtain ⟨f, hf, hfu, hinv⟩ := h u ((enter_keepsId (enter_entered henter)).1 ▸ hu)
    exact ⟨f, mem_enter.mpr (.inl hf), hfu, hinv⟩

theorem idOfInvoker_reachable {s : State Strand Pc} (h : Reachable s) :
    IdOfInvoker s.shared s.frames := by
  refine idOfInvoker_preserves.reachable initial_frames ?_ h
  rintro _ ⟨b, rfl⟩ t ht
  simp [createImplementation] at ht

theorem foreign_of_runsInvoker {pc : Pc} (hinv : runsInvoker pc = true)
    (hforeign : pc.foreign = true) : inDispatchBatch pc = true := by
  cases pc <;> simp_all [runsInvoker, Pc.foreign, inDispatchBatch]

theorem inlined_step {s s' : Strand} {t u c : Nat} {pc : Pc} {q : Option Pc}
    (hstep : Step s t pc s' q) (hin : s'.inlined = s.inlined ++ [(c, u)]) :
    pc = .dispatch c ∧ t = u ∧ s.dispatchThread = some t := by
  cases hstep <;> simp_all

theorem entered_inlined {s s' : Strand} {fs : List (Frame Pc)} {t : Nat}
    {q : Option Pc} (henter : Entered s fs t s' q) : s'.inlined = s.inlined := by
  cases henter <;> rfl

/-- A dispatch that returns the handle runs above the invoker that its thread
is draining the strand with. -/
theorem inlined_inDispatchBatch {s s' : State Strand Pc}
    {e : Event Outcome Entry} {c t : Nat} (h : Reachable s)
    (hstep : machine.step s e = some s')
    (hin : s'.shared.inlined = s.shared.inlined ++ [(c, t)]) :
    ∃ f ∈ s.frames, f.thread = t ∧ inDispatchBatch f.pc = true := by
  rcases Machine.ofSteps_step_cases hstep with
    ⟨u, o, l, pc, r, q, rfl, hfs, hl, hexec, -⟩ | ⟨u, a, q, rfl, henter, -⟩
  · obtain ⟨rfl, rfl, hid⟩ := inlined_step (exec_step hexec) hin
    obtain ⟨f, hf, hft, hinv⟩ := idOfInvoker_reachable h _ hid
    have htop : (⟨u, .dispatch c⟩ : Frame Pc) ∈ s.frames := by simp [hfs]
    have hne : f ≠ ⟨u, .dispatch c⟩ := by
      rintro rfl
      simp [runsInvoker] at hinv
    have hst : machine.Stacked s.frames :=
      Machine.ReachableWhen.stacked initial_frames h
    rcases hst.foreign_of_thread_eq hf htop hft hne with hforeign | hforeign
    · exact ⟨f, hf, hft, foreign_of_runsInvoker hinv hforeign⟩
    · simp [machine, Machine.ofSteps, Pc.foreign] at hforeign
  · rw [entered_inlined (enter_entered henter)] at hin
    simp at hin

/-- In every state that any run of a strand reaches, at most one activation is
inside `dispatch_batch`; at most one owner exists among the queued invokers,
the invokers that have not unlocked and the posters that won an enqueue and
have neither posted an invoker nor given the strand up, and `locked_` is set
while there is one and the strand is open; and dispatch returns the handle
only on a thread that is inside `dispatch_batch`. -/
theorem strand_mutual_exclusion {s : State Strand Pc} (h : Reachable s) :
    (s.frames.countP fun f => inDispatchBatch f.pc) ≤ 1 ∧
    s.shared.queued + (s.frames.countP fun f => ownsStrand f.pc) ≤ 1 ∧
    (s.shared.service = true →
      0 < s.shared.queued + (s.frames.countP fun f => ownsStrand f.pc) →
      s.shared.locked = true) ∧
    ∀ e s' c t, machine.step s e = some s' →
      s'.shared.inlined = s.shared.inlined ++ [(c, t)] →
      ∃ f ∈ s.frames, f.thread = t ∧ inDispatchBatch f.pc = true := by
  obtain ⟨hunique, hlocked, -⟩ := ownership_reachable h
  have hle : (s.frames.countP fun f => inDispatchBatch f.pc) ≤ ownersOf s.frames := by
    apply List.countP_mono_left
    intro f _ hf
    revert hf
    cases f.pc <;> simp [inDispatchBatch, ownsStrand]
  refine ⟨by omega, hunique, hlocked, ?_⟩
  intro e s' c t hstep hin
  exact inlined_inDispatchBatch h hstep hin

/-- Thread 1 posts continuation 7, and thread 2 runs its invoker up to the
resumption of that continuation. -/
def resumingRun : List (Event Outcome Entry) :=
  [.enter 1 (.post 7), .run 1 .succeeds, .run 1 .succeeds, .run 1 .succeeds,
    .run 1 .succeeds, .enter 2 .invoke, .run 2 .succeeds, .run 2 .succeeds,
    .run 2 .succeeds]

theorem strand_mutual_exclusion_resuming :
    ∃ s, machine.runEvents ⟨createImplementation false, []⟩ resumingRun = some s ∧
      (s.frames.countP fun f => inDispatchBatch f.pc) = 1 ∧
      s.shared.queued + (s.frames.countP fun f => ownsStrand f.pc) ≤ 1 :=
  ⟨_, rfl, rfl, (strand_mutual_exclusion
    (reachable_of_runEvents false resumingRun rfl)).2.1⟩

/-- A poster between a winning enqueue and the end of `post_or_withdraw` that
has posted no invoker. -/
def postsWithoutInvoker : Pc → Bool
  | .postInvoker _ | .withdraw _ | .repostInvoker _ | .abandonPending _ => true
  | .abandonBatch _ (.abandonPending _) | .rethrow _ false => true
  | _ => false

/-- Invokers queued or running, and posters up to the end of
`post_or_withdraw`. -/
def claimants (s : State Strand Pc) : Nat :=
  s.shared.queued +
    s.frames.countP fun f => runsInvoker f.pc || postsWithoutInvoker f.pc

/-- A poster whose inner post threw, with nothing behind its continuation, has
unlocked the strand and is still inside `post_or_withdraw`; an invoker that has
unlocked is still running until it has cleared its id. -/
theorem claimant_without_lock :
    ¬ ∀ s, Reachable s → claimants s ≤ 1 ∧
      (s.shared.service = true → 0 < claimants s → s.shared.locked = true) := by
  intro h
  have hreach : Reachable ⟨{ createImplementation false with
      submitted := [(7, 1)], enqueued := [7] }, [⟨1, .rethrow 7 false⟩]⟩ :=
    reachable_of_runEvents false
      [.enter 1 (.post 7), .run 1 .succeeds, .run 1 .succeeds, .run 1 .throws,
        .run 1 .succeeds] rfl
  have hlocked := (h _ hreach).2
  revert hlocked
  decide

/-- A thread clears `dispatch_thread_` only while no invoker that has stored
its id is short of its `try_unlock`. -/
def clearsUnshared (s : State Strand Pc) : Event Outcome Entry → Bool
  | .run t _ =>
      topPc t s.frames != some .clearDispatchThread ||
        s.frames.all fun f => !hasStoredId f.pc
  | .enter _ _ => true

/-- An invoker that has stored its id finds it in `dispatch_thread_`. -/
def IdKept (s : Strand) (fs : List (Frame Pc)) : Prop :=
  Ownership s (ownersOf fs) ∧
    ∀ f ∈ fs, hasStoredId f.pc = true → s.dispatchThread = some f.thread

theorem Step.keepsId {s s' : Strand} {t : Nat} {pc : Pc} {q : Option Pc}
    (hstep : Step s t pc s' q) :
    (pc = .setDispatchThread ∧ s'.dispatchThread = some t) ∨
      (pc = .clearDispatchThread ∧ q = none) ∨
      (s'.dispatchThread = s.dispatchThread ∧
        ∀ pc', q = some pc' → hasStoredId pc' = true → hasStoredId pc = true) := by
  cases hstep <;> simp [hasStoredId]

theorem hasStoredId_ownsStrand {pc : Pc} (h : hasStoredId pc = true) :
    ownsStrand pc = true := by
  cases pc <;> simp_all [hasStoredId, ownsStrand]

theorem Ownership.rest_not_owner {s : Strand} {t : Nat} {pc : Pc}
    {l r : List (Frame Pc)} (h : Ownership s (ownersOf (l ++ ⟨t, pc⟩ :: r)))
    (hpc : ownsStrand pc = true) : ∀ f ∈ l ++ r, ownsStrand f.pc = false := by
  have hle : (l ++ ⟨t, pc⟩ :: r).countP (fun f => ownsStrand f.pc) ≤ 1 := by
    have hunique := h.unique
    unfold ownersOf at hunique
    omega
  exact rest_of_countP_le_one hle hpc

theorem idKept_preserves : machine.Preserves clearsUnshared IdKept := by
  apply Machine.Preserves.ofSteps
  · intro s l t pc r c s' q ⟨hown, hid⟩ _ hl hok hexec
    refine ⟨hown.exec_frames (exec_step hexec), ?_⟩
    intro f hf hstored
    rcases Step.keepsId (exec_step hexec) with ⟨rfl, hset⟩ | ⟨rfl, rfl⟩ | ⟨hsame, hkeep⟩
    · rcases mem_replace.mp hf with hf | ⟨pc', -, rfl⟩
      · have howner := hown.rest_not_owner rfl f hf
        simp [hasStoredId_ownsStrand hstored] at howner
      · exact hset
    · have hall : (l ++ ⟨t, .clearDispatchThread⟩ :: r).all
          (fun f => !hasStoredId f.pc) = true := by
        simpa [clearsUnshared, topPc_append hl] using hok
      have hmem : f ∈ l ++ ⟨t, .clearDispatchThread⟩ :: r := by
        rcases mem_replace.mp hf with hf | ⟨_, hnone, -⟩
        · exact mem_split.mpr (.inl hf)
        · simp at hnone
      have := List.all_eq_true.mp hall f hmem
      simp [hstored] at this
    · rw [hsame]
      rcases mem_replace.mp hf with hf | ⟨pc', hq, rfl⟩
      · exact hid f (mem_split.mpr (.inl hf)) hstored
      · exact hid ⟨t, pc⟩ (mem_split.mpr (.inr rfl)) (hkeep pc' hq hstored)
  · intro s fs t a s' q ⟨hown, hid⟩ _ _ _ henter
    have hentered := enter_entered henter
    refine ⟨hown.enter_frames hentered, ?_⟩
    intro f hf hstored
    obtain ⟨hsame, hnew⟩ := enter_keepsId hentered
    rw [hsame]
    rcases mem_enter.mp hf with hf | ⟨pc, hq, rfl⟩
    · exact hid f hf hstored
    · simp [hnew pc hq] at hstored

/-- In every run in which no thread clears `dispatch_thread_` while an invoker
that has stored its id is short of its `try_unlock`, and in every state in
which a thread is resuming a continuation inside `dispatch_batch`, exactly that
thread is told that the strand runs on it, so a dispatch there returns the
handle. -/
theorem strand_self_identification {s : State Strand Pc} {t x : Nat}
    {rest : List Nat} (h : machine.ReachableWhen clearsUnshared Initial s)
    (hin : ⟨t, .dispatchBatch (some x) rest⟩ ∈ s.frames) :
    (∀ u, runningInThisThread s.shared u = true ↔ u = t) ∧
    ∀ c o, exec s.shared t (.dispatch c) o =
      some ({ s.shared with inlined := s.shared.inlined ++ [(c, t)] }, none) := by
  have hkept : IdKept s.shared s.frames := by
    refine idKept_preserves.reachableWhen initial_frames ?_ h
    intro s hs
    exact ⟨ownership_initial s hs, by simp⟩
  have hid : s.shared.dispatchThread = some t := hkept.2 _ hin rfl
  refine ⟨?_, ?_⟩
  · intro u
    simp [runningInThisThread, hid, eq_comm]
  · intro c o
    simp [exec, hid]

theorem strand_self_identification_resuming :
    ∃ s, machine.runWhen clearsUnshared ⟨createImplementation false, []⟩
        resumingRun = some s ∧
      ⟨2, .dispatchBatch (some 7) []⟩ ∈ s.frames ∧
      runningInThisThread s.shared 2 = true := by
  refine ⟨_, rfl, by decide, ?_⟩
  have hin : (⟨2, .dispatchBatch (some 7) []⟩ : Frame Pc) ∈
      [(⟨2, .dispatchBatch (some 7) []⟩ : Frame Pc)] := by simp
  exact ((strand_self_identification
    (Machine.ReachableWhen.runWhen (.init ⟨false, rfl⟩) resumingRun rfl)
    hin).1 2).mpr rfl

/-- The invoker of thread 2 unlocks; thread 1 posts again, and thread 3 runs
the next invoker up to the resumption of its continuation; only then does
thread 2 clear `dispatch_thread_`. -/
theorem strand_id_overwritten :
    ∃ s, Reachable s ∧ ⟨3, .dispatchBatch (some 8) []⟩ ∈ s.frames ∧
      runningInThisThread s.shared 3 = false := by
  let later : List (Event Outcome Entry) :=
    [.run 2 .succeeds, .run 2 .succeeds, .enter 1 (.post 8), .run 1 .succeeds,
      .run 1 .succeeds, .run 1 .succeeds, .run 1 .succeeds, .enter 3 .invoke,
      .run 3 .succeeds, .run 3 .succeeds, .run 3 .succeeds, .run 2 .succeeds]
  refine ⟨_, reachable_of_runEvents false (resumingRun ++ later) rfl, by decide, by decide⟩

end Capy.StrandExclusion
