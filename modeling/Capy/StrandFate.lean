import Mathlib.Data.List.Nodup
import Capy.StrandExclusion

namespace Capy.StrandFate

open Capy.CallStack
open Capy.StrandService
open Capy.StrandExclusion

/-- The continuation that the caller of `abandon_batch` rethrows for. -/
def rethrown : AbandonFor → List Nat
  | .abandonPending c => [c]
  | _ => []

/-- The continuation that its own submitting call has in hand: not yet
enqueued, or taken back by `withdraw`. -/
def ownHeld : Pc → List Nat
  | .dispatch c | .enqueue c | .enqueueLocked c => [c]
  | .repostInvoker c | .reposted c | .abandonPending c | .rethrow c _ => [c]
  | .abandonBatch _ caller => rethrown caller
  | _ => []

/-- The continuations of a taken batch that are neither resumed nor abandoned. -/
def batchHeld : Pc → List Nat
  | .abandonBatch batch _ => batch
  | .dispatchBatch _ rest => rest
  | _ => []

/-- How often the activation holds `x`. -/
def holding (x : Nat) (pc : Pc) : Nat := (ownHeld pc).count x + (batchHeld pc).count x

/-- Every place a submitted continuation can be, with `n` counting the hands
of the activations. -/
def Conserved (x : Nat) (s : Strand) (n : Nat) : Prop :=
  s.pending.count x + n + s.resumed.count x + s.abandoned.count x +
      (s.handedBack.map Prod.fst).count x + (s.inlined.map Prod.fst).count x =
    (s.submitted.map Prod.fst).count x

/-- The continuation that a call enqueued and has no invoker posted for. -/
def awaitsInvoker : Pc → Option Nat
  | .postInvoker c | .withdraw c => some c
  | _ => none

theorem Conserved.step {x : Nat} {s s' : Strand} {t k : Nat} {pc : Pc} {q : Option Pc}
    (h : Conserved x s (k + holding x pc))
    (hfront : ∀ c, awaitsInvoker pc = some c → s.service = true →
      ∃ rest, s.pending = c :: rest)
    (hstep : Step s t pc s' q) : Conserved x s' (k + q.elim 0 (holding x)) := by
  unfold Conserved at h ⊢
  cases hstep
  case withdrawAlone c hopen _ =>
    obtain ⟨rest, hpending⟩ := hfront c rfl hopen
    simp only [hpending, List.tail_cons, holding, ownHeld, batchHeld, Option.elim,
      List.count_cons, List.count_nil] at h ⊢
    omega
  case withdrawFollowed c hopen _ =>
    obtain ⟨rest, hpending⟩ := hfront c rfl hopen
    simp only [hpending, List.tail_cons, holding, ownHeld, batchHeld, Option.elim,
      List.count_cons, List.count_nil] at h ⊢
    omega
  case abandonDone k hk =>
    cases k <;> simp_all [holding, ownHeld, batchHeld, rethrown]
  all_goals
    simp only [holding, ownHeld, batchHeld, rethrown, Option.elim, List.count_append,
      List.count_cons, List.count_nil, List.map_append, List.map_cons,
      List.map_nil] at h ⊢
    omega

theorem Conserved.enter {x : Nat} {s s' : Strand} {fs : List (Frame Pc)} {t n : Nat}
    {q : Option Pc} (h : Conserved x s n) (henter : Entered s fs t s' q) :
    Conserved x s' (n + q.elim 0 (holding x)) := by
  unfold Conserved at h ⊢
  cases henter <;>
    simp only [holding, ownHeld, batchHeld, Option.elim, List.count_append,
      List.count_cons, List.count_nil, List.map_append, List.map_cons,
      List.map_nil] <;> omega

/-- `~strand_impl` starts only when nothing else can reach the strand, and the
strand stays unreachable. -/
structure Unreferenced (s : Strand) (fs : List (Frame Pc)) : Prop where
  queued : s.destroyed = true → s.queued = 0
  frames : s.destroyed = true → ∀ f ∈ fs, f.pc.holdsImpl = false

/-- The activation is in `~strand_impl`, before it empties the queue. -/
def destroys : Pc → Bool
  | .destroyLoad | .destroyUnlink | .destroyTake => true
  | _ => false

/-- How the strand closes. -/
structure Closing (s : Strand) (fs : List (Frame Pc)) : Prop where
  closed : s.service = false → s.pending = []
  unlinked : s.linked = false → s.destroyed = false → s.service = false
  shut : s.shutdown = true → (∀ f ∈ fs, f.pc ≠ .shutdownImpl) → s.linked = false
  emptied : s.destroyed = true → (∀ f ∈ fs, destroys f.pc = false) → s.pending = []
  started : ∀ f ∈ fs, destroys f.pc = true → s.destroyed = true

theorem Step.unreferenced {s s' : Strand} {t : Nat} {pc : Pc} {q : Option Pc}
    (hstep : Step s t pc s' q) :
    s'.destroyed = s.destroyed ∧ (pc.holdsImpl = false →
      s'.queued = s.queued ∧ ∀ pc', q = some pc' → pc'.holdsImpl = false) := by
  refine ⟨by cases hstep <;> rfl, ?_⟩
  cases hstep <;> simp [Pc.holdsImpl, AbandonFor.holdsImpl]

theorem Unreferenced.exec {s s' : Strand} {t : Nat} {pc : Pc} {q : Option Pc}
    {l r : List (Frame Pc)} (h : Unreferenced s (l ++ ⟨t, pc⟩ :: r))
    (hstep : Step s t pc s' q) :
    Unreferenced s' (l ++ q.toList.map (Frame.mk t) ++ r) := by
  have hpc : s.destroyed = true → pc.holdsImpl = false := fun hd =>
    h.frames hd ⟨t, pc⟩ (mem_split.mpr (.inr rfl))
  obtain ⟨hdestroyed, hkeep⟩ := Step.unreferenced hstep
  constructor
  · intro hd
    rw [hdestroyed] at hd
    rw [(hkeep (hpc hd)).1]
    exact h.queued hd
  · intro hd f hf
    rw [hdestroyed] at hd
    rcases mem_replace.mp hf with hf | ⟨pc', hq, rfl⟩
    · exact h.frames hd f (mem_split.mpr (.inl hf))
    · exact (hkeep (hpc hd)).2 pc' hq

theorem Unreferenced.enter {s s' : Strand} {fs : List (Frame Pc)} {t : Nat}
    {q : Option Pc} (h : Unreferenced s fs) (henter : Entered s fs t s' q) :
    Unreferenced s' (q.toList.map (Frame.mk t) ++ fs) := by
  cases henter with
  | post hlive => exact ⟨fun hd => by simp [hlive] at hd, fun hd => by simp [hlive] at hd⟩
  | dispatch hlive => exact ⟨fun hd => by simp [hlive] at hd, fun hd => by simp [hlive] at hd⟩
  | invoke hpos =>
      exact ⟨fun hd => by simp [h.queued hd], fun hd => by simp [h.queued hd] at hpos⟩
  | dropInvoker hpos => exact ⟨fun hd => by simp [h.queued hd], h.frames⟩
  | shutdown =>
      exact ⟨h.queued, fun hd => forall_enter.mpr ⟨h.frames hd, by simp [Pc.holdsImpl]⟩⟩
  | destroy _ hqueued hframes =>
      exact ⟨fun _ => hqueued, fun _ => forall_enter.mpr ⟨hframes, by simp [Pc.holdsImpl]⟩⟩

theorem Step.closing {s s' : Strand} {t : Nat} {pc : Pc} {q : Option Pc}
    (hstep : Step s t pc s' q) :
    s'.shutdown = s.shutdown ∧ s'.destroyed = s.destroyed ∧
      (s.linked = false → s'.linked = false) ∧
      (s'.service = s.service ∧ (s'.linked = s.linked ∨ destroys pc = true) ∨
        s'.service = false ∧ s'.pending = []) ∧
      (pc = .shutdownImpl → s'.linked = false) ∧
      (s.service = false → s.pending = [] → s'.pending = []) ∧
      (pc.holdsImpl = false → s.pending = [] → s'.pending = []) ∧
      (∀ pc', q = some pc' → pc' ≠ .shutdownImpl ∧
        (destroys pc' = true → destroys pc = true)) ∧
      (destroys pc = true → s'.pending = [] ∨ ∃ pc', q = some pc' ∧ destroys pc' = true) := by
  cases hstep <;> simp_all [destroys, Pc.holdsImpl]

theorem Closing.exec {s s' : Strand} {t : Nat} {pc : Pc} {q : Option Pc}
    {l r : List (Frame Pc)} (h : Closing s (l ++ ⟨t, pc⟩ :: r))
    (hun : Unreferenced s (l ++ ⟨t, pc⟩ :: r)) (hstep : Step s t pc s' q) :
    Closing s' (l ++ q.toList.map (Frame.mk t) ++ r) := by
  obtain ⟨hclosed, hunlinked, hshut, hemptied, hstarted⟩ := h
  rw [forall_split] at hshut hemptied hstarted
  obtain ⟨hsd, hde, hlink, hservice, hshutImpl, hkeep, hkeep', hnext, hlast⟩ :=
    Step.closing hstep
  have hpc : s.destroyed = true → pc.holdsImpl = false := fun hd =>
    hun.frames hd ⟨t, pc⟩ (mem_split.mpr (.inr rfl))
  constructor
  · intro hs
    rcases hservice with ⟨hsame, -⟩ | ⟨-, hp⟩
    · rw [hsame] at hs
      exact hkeep hs (hclosed hs)
    · exact hp
  · intro hl hd
    rw [hde] at hd
    rcases hservice with ⟨hsame, hl' | hdes⟩ | ⟨hs, -⟩
    · rw [hsame]
      exact hunlinked (hl' ▸ hl) hd
    · simp [hstarted.2 hdes] at hd
    · exact hs
  · intro hs hall
    rw [hsd] at hs
    by_cases hpc' : pc = .shutdownImpl
    · exact hshutImpl hpc'
    · exact hlink (hshut hs ⟨(forall_replace.mp hall).1, hpc'⟩)
  · intro hd hall
    rw [hde] at hd
    obtain ⟨hrest, hnew⟩ := forall_replace.mp hall
    cases hdes : destroys pc with
    | false => exact hkeep' (hpc hd) (hemptied hd ⟨hrest, hdes⟩)
    | true =>
        rcases hlast hdes with hp | ⟨pc', hq, hdes'⟩
        · exact hp
        · simp [hnew pc' hq] at hdes'
  · rw [hde]
    refine forall_replace.mpr ⟨hstarted.1, ?_⟩
    intro pc' hq hdes
    exact hstarted.2 ((hnext pc' hq).2 hdes)

theorem Closing.enter {s s' : Strand} {fs : List (Frame Pc)} {t : Nat}
    {q : Option Pc} (h : Closing s fs) (henter : Entered s fs t s' q) :
    Closing s' (q.toList.map (Frame.mk t) ++ fs) := by
  obtain ⟨hclosed, hunlinked, hshut, hemptied, hstarted⟩ := h
  cases henter with
  | shutdown =>
      exact ⟨hclosed, hunlinked, fun _ hall => absurd rfl ((forall_enter.mp hall).2 _ rfl),
        fun hd hall => hemptied hd (forall_enter.mp hall).1,
        forall_enter.mpr ⟨hstarted, by simp [destroys]⟩⟩
  | destroy =>
      exact ⟨hclosed, nofun, fun hs hall => hshut hs (forall_enter.mp hall).1,
        fun _ hall => absurd ((forall_enter.mp hall).2 _ rfl) (by simp [destroys]),
        forall_enter.mpr ⟨fun _ _ _ => rfl, fun _ _ _ => rfl⟩⟩
  | _ =>
      exact ⟨hclosed, hunlinked, fun hs hall => hshut hs (forall_enter.mp hall).1,
        fun hd hall => hemptied hd (forall_enter.mp hall).1,
        forall_enter.mpr ⟨hstarted, by simp [destroys]⟩⟩

/-- A continuation whose call has no invoker posted is still first in an open
strand's queue. -/
def FrontKept (s : Strand) (fs : List (Frame Pc)) : Prop :=
  ∀ f ∈ fs, ∀ c, awaitsInvoker f.pc = some c → s.service = true →
    ∃ rest, s.pending = c :: rest

theorem awaitsInvoker_ownsStrand {pc : Pc} {c : Nat} (h : awaitsInvoker pc = some c) :
    ownsStrand pc = true := by
  cases pc <;> simp_all [awaitsInvoker, ownsStrand]

theorem Step.service {s s' : Strand} {t : Nat} {pc : Pc} {q : Option Pc}
    (hstep : Step s t pc s' q) (hopen : s'.service = true) : s.service = true := by
  cases hstep
  case shutdownLinked => simp at hopen
  all_goals exact hopen

theorem Step.front {s s' : Strand} {t c : Nat} {pc : Pc} {q : Option Pc}
    {rest : List Nat} (hstep : Step s t pc s' q) (hpc : ownsStrand pc = false)
    (hlocked : s.service = true → s.locked = true) (hdestroy : destroys pc = false)
    (hopen : s'.service = true) (hpending : s.pending = c :: rest) :
    ∃ rest', s'.pending = c :: rest' := by
  cases hstep <;> simp_all [ownsStrand, destroys]

theorem Step.front_own {s s' : Strand} {t c : Nat} {pc pc' : Pc}
    (hstep : Step s t pc s' (some pc'))
    (hidle : s.service = true → s.locked = false → s.pending = [])
    (hold : ∀ c, awaitsInvoker pc = some c → s.service = true →
      ∃ rest, s.pending = c :: rest)
    (hc : awaitsInvoker pc' = some c) (hopen : s'.service = true) :
    ∃ rest, s'.pending = c :: rest := by
  cases hstep <;> simp only [awaitsInvoker, reduceCtorEq, Option.some.injEq] at hc
  case enqueueWin c' hs hl =>
    subst hc
    exact ⟨[], by simp [hidle hs hl]⟩
  case postThrows c' => exact hold c (by simp [awaitsInvoker, hc]) hopen

theorem FrontKept.exec {s s' : Strand} {t : Nat} {pc : Pc} {q : Option Pc}
    {l r : List (Frame Pc)} (h : FrontKept s (l ++ ⟨t, pc⟩ :: r))
    (hown : Ownership s (ownersOf (l ++ ⟨t, pc⟩ :: r)))
    (hun : Unreferenced s (l ++ ⟨t, pc⟩ :: r))
    (hclosing : Closing s (l ++ ⟨t, pc⟩ :: r)) (hstep : Step s t pc s' q) :
    FrontKept s' (l ++ q.toList.map (Frame.mk t) ++ r) := by
  refine forall_replace.mpr ⟨?_, ?_⟩
  · intro f hf c hc hopen
    have hf' : f ∈ l ++ ⟨t, pc⟩ :: r := mem_split.mpr (.inl hf)
    obtain ⟨rest, hpending⟩ := h f hf' c hc (Step.service hstep hopen)
    have hfown := awaitsInvoker_ownsStrand hc
    have hpc : ownsStrand pc = false := by
      by_contra hpc
      have hrest := hown.rest_not_owner (by simpa using hpc) f hf
      simp [hfown] at hrest
    refine Step.front hstep hpc ?_ ?_ hopen hpending
    · intro hs
      refine hown.locked hs ?_
      have : 0 < ownersOf (l ++ ⟨t, pc⟩ :: r) :=
        List.countP_pos_iff.mpr ⟨f, hf', hfown⟩
      omega
    · by_contra hd
      have hdestroyed := hclosing.started ⟨t, pc⟩ (mem_split.mpr (.inr rfl))
        (by simpa using hd)
      have hholds := hun.frames hdestroyed f hf'
      revert hc hholds
      cases f.pc <;> simp [awaitsInvoker, Pc.holdsImpl]
  · intro pc' hq c hc hopen
    subst hq
    exact Step.front_own hstep hown.idle (h ⟨t, pc⟩ (mem_split.mpr (.inr rfl))) hc hopen

theorem FrontKept.enter {s s' : Strand} {fs : List (Frame Pc)} {t : Nat}
    {q : Option Pc} (h : FrontKept s fs) (henter : Entered s fs t s' q) :
    FrontKept s' (q.toList.map (Frame.mk t) ++ fs) := by
  refine forall_enter.mpr ⟨?_, ?_⟩
  · cases henter <;> exact h
  · cases henter <;> simp [awaitsInvoker]

/-- The continuation that an activation submits. -/
def submits : Pc → Option Nat
  | .dispatch c | .enqueue c | .enqueueLocked c => some c
  | .postInvoker c | .withdraw c | .repostInvoker c | .reposted c => some c
  | .abandonPending c | .rethrow c _ => some c
  | .abandonBatch _ caller => (rethrown caller).head?
  | _ => none

/-- A call works on the continuation it was given, and only that call hands it
back. -/
structure OwnCalls (s : Strand) (fs : List (Frame Pc)) : Prop where
  frames : ∀ f ∈ fs, ∀ c, submits f.pc = some c → (c, f.thread) ∈ s.submitted
  handedBack : ∀ p ∈ s.handedBack, p ∈ s.submitted
  nodup : (s.submitted.map Prod.fst).Nodup

theorem Step.submits {s s' : Strand} {t : Nat} {pc : Pc} {q : Option Pc}
    (hstep : Step s t pc s' q) :
    s'.submitted = s.submitted ∧
      (∀ pc' c, q = some pc' → submits pc' = some c → submits pc = some c) ∧
      ∀ p ∈ s'.handedBack, p ∈ s.handedBack ∨ ∃ c, submits pc = some c ∧ p = (c, t) := by
  refine ⟨by cases hstep <;> rfl, ?_, ?_⟩
  · rintro pc' c rfl
    cases hstep <;> simp [StrandFate.submits, rethrown]
  · intro p hp
    cases hstep
    case rethrow c b => simpa [StrandFate.submits] using hp
    all_goals exact .inl hp

theorem OwnCalls.exec {s s' : Strand} {t : Nat} {pc : Pc} {q : Option Pc}
    {l r : List (Frame Pc)} (h : OwnCalls s (l ++ ⟨t, pc⟩ :: r))
    (hstep : Step s t pc s' q) :
    OwnCalls s' (l ++ q.toList.map (Frame.mk t) ++ r) := by
  obtain ⟨hframes, hback, hnodup⟩ := h
  obtain ⟨hrest, hpc⟩ := forall_split.mp hframes
  obtain ⟨hsub, hnext, hnew⟩ := Step.submits hstep
  constructor
  · rw [hsub]
    refine forall_replace.mpr ⟨hrest, ?_⟩
    intro pc' hq c hc
    exact hpc c (hnext pc' c hq hc)
  · rw [hsub]
    intro p hp
    rcases hnew p hp with hp | ⟨c, hc, rfl⟩
    · exact hback p hp
    · exact hpc c hc
  · rwa [hsub]

theorem OwnCalls.submit {s : Strand} {fs : List (Frame Pc)} {t c : Nat} {pc : Pc}
    (h : OwnCalls s fs) (hfresh : c ∉ s.submitted.map Prod.fst) (hpc : submits pc = some c) :
    OwnCalls { s with submitted := s.submitted ++ [(c, t)] } (⟨t, pc⟩ :: fs) where
  frames := by
    refine List.forall_mem_cons.mpr ⟨?_, ?_⟩
    · intro d hd
      obtain rfl := Option.some.inj (hpc.symm.trans hd)
      exact List.mem_append_right _ (List.mem_singleton_self _)
    · intro f hf d hd
      exact List.mem_append_left _ (h.frames f hf d hd)
  handedBack p hp := List.mem_append_left _ (h.handedBack p hp)
  nodup := by
    rw [List.map_append, List.map_singleton, ← List.concat_eq_append]
    exact h.nodup.concat hfresh

theorem OwnCalls.enter {s s' : Strand} {fs : List (Frame Pc)} {t : Nat}
    {q : Option Pc} (h : OwnCalls s fs) (henter : Entered s fs t s' q) :
    OwnCalls s' (q.toList.map (Frame.mk t) ++ fs) := by
  cases henter with
  | post _ hfresh => exact h.submit hfresh rfl
  | dispatch _ hfresh => exact h.submit hfresh rfl
  | invoke => exact ⟨forall_enter.mpr ⟨h.frames, by simp [submits]⟩, h.handedBack, h.nodup⟩
  | dropInvoker => exact ⟨h.frames, h.handedBack, h.nodup⟩
  | shutdown => exact ⟨forall_enter.mpr ⟨h.frames, by simp [submits]⟩, h.handedBack, h.nodup⟩
  | destroy => exact ⟨forall_enter.mpr ⟨h.frames, by simp [submits]⟩, h.handedBack, h.nodup⟩

/-- What an invoker has taken and not yet resumed. -/
def draining : Pc → List Nat
  | .dispatchBatch _ rest => rest
  | _ => []

/-- Resumed, then taken, then pending continuations follow the order of the
enqueue critical sections. -/
def InOrder (s : Strand) (taken : List Nat) : Prop :=
  (s.resumed ++ taken ++ s.pending).Sublist s.enqueued

/-- A step either moves nothing between the resumed and the taken
continuations, or it is one of the strand's owner. -/
theorem Step.inOrder {s s' : Strand} {t : Nat} {pc : Pc} {q : Option Pc}
    (hstep : Step s t pc s' q) :
    (draining pc = [] ∧ q.elim [] draining = [] ∧
      ∀ taken, InOrder s taken → InOrder s' taken) ∨
    (ownsStrand pc = true ∧
      (InOrder s (draining pc) → InOrder s' (q.elim [] draining))) := by
  cases hstep
  case takeAll => exact .inr ⟨rfl, by simp [InOrder, draining]⟩
  case resumeOne => exact .inr ⟨rfl, by simp [InOrder, draining]⟩
  case batchDone => exact .inr ⟨rfl, by simp [InOrder, draining]⟩
  case enqueuePush =>
    refine .inl ⟨rfl, rfl, fun taken h => ?_⟩
    simpa [InOrder] using h.append_right _
  case enqueueWin =>
    refine .inl ⟨rfl, rfl, fun taken h => ?_⟩
    simpa [InOrder] using h.append_right _
  case withdrawAlone =>
    refine .inl ⟨rfl, rfl, fun taken h => ?_⟩
    exact (List.Sublist.append_left (List.tail_sublist _) _).trans h
  case withdrawFollowed =>
    refine .inl ⟨rfl, rfl, fun taken h => ?_⟩
    exact (List.Sublist.append_left (List.tail_sublist _) _).trans h
  case abandonPendingOpen =>
    refine .inl ⟨rfl, rfl, fun taken h => ?_⟩
    exact (List.Sublist.append_left (List.nil_sublist _) _).trans h
  case shutdownLinked =>
    refine .inl ⟨rfl, rfl, fun taken h => ?_⟩
    exact (List.Sublist.append_left (List.nil_sublist _) _).trans h
  case destroyTake =>
    refine .inl ⟨rfl, rfl, fun taken h => ?_⟩
    exact (List.Sublist.append_left (List.nil_sublist _) _).trans h
  all_goals exact .inl ⟨rfl, rfl, fun _ h => h⟩

/-- What all invokers together have taken and not yet resumed. -/
def allDraining (fs : List (Frame Pc)) : List Nat := fs.flatMap fun f => draining f.pc

theorem allDraining_of_not_owner {fs : List (Frame Pc)}
    (h : ∀ f ∈ fs, ownsStrand f.pc = false) : allDraining fs = [] := by
  apply List.flatMap_eq_nil_iff.mpr
  intro f hf
  have hown := h f hf
  revert hown
  cases f.pc <;> simp [ownsStrand, draining]

theorem inOrder_exec {s s' : Strand} {t : Nat} {pc : Pc} {q : Option Pc}
    {l r : List (Frame Pc)} (h : InOrder s (allDraining (l ++ ⟨t, pc⟩ :: r)))
    (hown : Ownership s (ownersOf (l ++ ⟨t, pc⟩ :: r))) (hstep : Step s t pc s' q) :
    InOrder s' (allDraining (l ++ q.toList.map (Frame.mk t) ++ r)) := by
  have hold : allDraining (l ++ ⟨t, pc⟩ :: r) =
      allDraining l ++ draining pc ++ allDraining r := by
    simp [allDraining]
  have hnew : allDraining (l ++ q.toList.map (Frame.mk t) ++ r) =
      allDraining l ++ q.elim [] draining ++ allDraining r := by
    cases q <;> simp [allDraining]
  rw [hold] at h
  rw [hnew]
  rcases Step.inOrder hstep with ⟨hpc, hq, hkeep⟩ | ⟨hpc, hmove⟩
  · rw [hpc] at h
    rw [hq]
    exact hkeep _ h
  · have hrest := hown.rest_not_owner hpc
    have hl : allDraining l = [] :=
      allDraining_of_not_owner fun f hf => hrest f (List.mem_append_left _ hf)
    have hr : allDraining r = [] :=
      allDraining_of_not_owner fun f hf => hrest f (List.mem_append_right _ hf)
    rw [hl, hr] at h ⊢
    simpa using hmove (by simpa using h)

theorem inOrder_enter {s s' : Strand} {fs : List (Frame Pc)} {t : Nat}
    {q : Option Pc} (h : InOrder s (allDraining fs)) (henter : Entered s fs t s' q) :
    InOrder s' (allDraining (q.toList.map (Frame.mk t) ++ fs)) := by
  cases henter <;> simpa [InOrder, allDraining, draining] using h

/-- How often the activation is still going to enqueue `x`. -/
def enqueuing (x : Nat) : Pc → Nat
  | .dispatch c | .enqueue c | .enqueueLocked c => [c].count x
  | _ => 0

/-- No continuation is enqueued twice, with `n` counting the enqueues to come. -/
def EnqueuedOnce (x : Nat) (s : Strand) (n : Nat) : Prop :=
  s.enqueued.count x + n ≤ (s.submitted.map Prod.fst).count x

theorem EnqueuedOnce.step {x : Nat} {s s' : Strand} {t k : Nat} {pc : Pc}
    {q : Option Pc} (h : EnqueuedOnce x s (k + enqueuing x pc))
    (hstep : Step s t pc s' q) : EnqueuedOnce x s' (k + q.elim 0 (enqueuing x)) := by
  unfold EnqueuedOnce at h ⊢
  cases hstep <;> simp only [enqueuing, Option.elim, List.count_append] at h ⊢ <;> omega

theorem EnqueuedOnce.enter {x : Nat} {s s' : Strand} {fs : List (Frame Pc)} {t n : Nat}
    {q : Option Pc} (h : EnqueuedOnce x s n) (henter : Entered s fs t s' q) :
    EnqueuedOnce x s' (n + q.elim 0 (enqueuing x)) := by
  unfold EnqueuedOnce at h ⊢
  cases henter <;> simp only [enqueuing, Option.elim, List.map_append, List.map_cons,
    List.map_nil, List.count_append] <;> omega

/-- All that a run keeps about the continuations of a strand. -/
structure Fates (s : Strand) (fs : List (Frame Pc)) : Prop where
  ownership : Ownership s (ownersOf fs)
  unreferenced : Unreferenced s fs
  closing : Closing s fs
  front : FrontKept s fs
  calls : OwnCalls s fs
  conserved : ∀ x, Conserved x s (total (holding x) fs)
  enqueuedOnce : ∀ x, EnqueuedOnce x s (total (enqueuing x) fs)
  inOrder : InOrder s (allDraining fs)

theorem fates_preserves {ok : State Strand Pc → Event Outcome Entry → Bool} :
    machine.Preserves ok Fates := by
  apply Machine.Preserves.ofSteps
  · intro s l t pc r c s' q h _ _ _ hexec
    have hstep := exec_step hexec
    refine ⟨h.ownership.exec_frames hstep, h.unreferenced.exec hstep,
      h.closing.exec h.unreferenced hstep,
      h.front.exec h.ownership h.unreferenced h.closing hstep,
      h.calls.exec hstep, ?_, ?_, inOrder_exec h.inOrder h.ownership hstep⟩
    · intro x
      have hx := h.conserved x
      rw [total_split] at hx
      rw [total_replace]
      exact hx.step (h.front ⟨t, pc⟩ (mem_split.mpr (.inr rfl))) hstep
    · intro x
      have hx := h.enqueuedOnce x
      rw [total_split] at hx
      rw [total_replace]
      exact hx.step hstep
  · intro s fs t a s' q h _ _ _ henter
    have hentered := enter_entered henter
    refine ⟨h.ownership.enter_frames hentered, h.unreferenced.enter hentered,
      h.closing.enter hentered, h.front.enter hentered, h.calls.enter hentered, ?_, ?_,
      inOrder_enter h.inOrder hentered⟩
    · intro x
      rw [total_enter]
      exact (h.conserved x).enter hentered
    · intro x
      rw [total_enter]
      exact (h.enqueuedOnce x).enter hentered

theorem fates_initial (s : State Strand Pc) (h : Initial s) : Fates s.shared [] := by
  have hown := ownership_initial s h
  obtain ⟨b, rfl⟩ := h
  refine ⟨hown, ⟨by simp [createImplementation], by simp⟩, ?_, by simp [FrontKept],
    ⟨by simp, by simp [createImplementation], by simp [createImplementation]⟩, ?_, ?_, ?_⟩
  · constructor <;> cases b <;> simp [createImplementation]
  · intro x
    simp [Conserved, createImplementation, total]
  · intro x
    simp [EnqueuedOnce, createImplementation, total]
  · simp [InOrder, createImplementation, allDraining]

theorem fates_reachable {s : State Strand Pc} (h : Reachable s) :
    Fates s.shared s.frames :=
  fates_preserves.reachable initial_frames fates_initial h

/-- `x` has been resumed, abandoned or handed back, or its dispatch returned
its handle. -/
def settled (s : Strand) (x : Nat) : Prop :=
  x ∈ s.resumed ∨ x ∈ s.abandoned ∨ x ∈ s.handedBack.map Prod.fst ∨
    x ∈ s.inlined.map Prod.fst

instance (s : Strand) (x : Nat) : Decidable (settled s x) :=
  inferInstanceAs (Decidable (_ ∨ _ ∨ _ ∨ _))

theorem ownHeld_submits {pc : Pc} {x : Nat} (h : x ∈ ownHeld pc) :
    submits pc = some x := by
  cases pc <;> simp_all [ownHeld, submits]
  case abandonBatch batch caller => cases caller <;> simp_all [rethrown]

/-- A submitted continuation without a fate is in the queue, in a batch, or in
the hand of the call that submitted it. -/
theorem Fates.located {s : Strand} {fs : List (Frame Pc)} (h : Fates s fs)
    {x t : Nat} (hsub : (x, t) ∈ s.submitted) (hset : ¬ settled s x) :
    x ∈ s.pending ∨ (∃ f ∈ fs, x ∈ batchHeld f.pc) ∨
      ∃ f ∈ fs, x ∈ ownHeld f.pc ∧ f.thread = t := by
  have hpos : 0 < (s.submitted.map Prod.fst).count x :=
    List.count_pos_iff.mpr (List.mem_map.mpr ⟨(x, t), hsub, rfl⟩)
  simp only [settled, not_or] at hset
  obtain ⟨hr, ha, hb, hi⟩ := hset
  have hc := h.conserved x
  unfold Conserved at hc
  rw [List.count_eq_zero_of_not_mem hr, List.count_eq_zero_of_not_mem ha,
    List.count_eq_zero_of_not_mem hb, List.count_eq_zero_of_not_mem hi] at hc
  by_cases hp : x ∈ s.pending
  · exact .inl hp
  · rw [List.count_eq_zero_of_not_mem hp] at hc
    obtain ⟨f, hf, hheld⟩ := total_pos_iff.mp (show 0 < total (holding x) fs by omega)
    by_cases hbatch : x ∈ batchHeld f.pc
    · exact .inr (.inl ⟨f, hf, hbatch⟩)
    · rw [holding, List.count_eq_zero_of_not_mem hbatch] at hheld
      have hown : x ∈ ownHeld f.pc := List.count_pos_iff.mp hheld
      have hcall := h.calls.frames f hf x (ownHeld_submits hown)
      have heq := List.inj_on_of_nodup_map h.calls.nodup hcall hsub rfl
      exact .inr (.inr ⟨f, hf, hown, (Prod.mk.inj heq).2⟩)

/-- In every state that any run of a strand reaches: a continuation has at most
one fate, and has it once; it is handed back only by the call that submitted
it; `withdraw` on an open strand finds its continuation first in the queue; a
submitted continuation without a fate is in `pending_`, in a taken batch, or in
the hand of the call that submitted it; continuations are resumed in the order
of their enqueue critical sections; and `pending_` is empty after the shutdown
of the strand and after its destructor. -/
theorem strand_exactly_once_fifo {s : State Strand Pc} (h : Reachable s) :
    (∀ x, s.shared.resumed.count x + s.shared.abandoned.count x +
        (s.shared.handedBack.map Prod.fst).count x +
        (s.shared.inlined.map Prod.fst).count x ≤ 1) ∧
    (∀ p ∈ s.shared.handedBack, p ∈ s.shared.submitted) ∧
    (∀ f ∈ s.frames, ∀ c, f.pc = .withdraw c → s.shared.service = true →
      ∃ rest, s.shared.pending = c :: rest) ∧
    (∀ x t, (x, t) ∈ s.shared.submitted → ¬ settled s.shared x →
      x ∈ s.shared.pending ∨ (∃ f ∈ s.frames, x ∈ batchHeld f.pc) ∨
        ∃ f ∈ s.frames, x ∈ ownHeld f.pc ∧ f.thread = t) ∧
    (s.shared.enqueued.Nodup ∧ s.shared.resumed.Sublist s.shared.enqueued) ∧
    (s.shared.shutdown = true → (∀ f ∈ s.frames, f.pc ≠ .shutdownImpl) →
      s.shared.destroyed = false → s.shared.pending = []) ∧
    (s.shared.destroyed = true → (∀ f ∈ s.frames, destroys f.pc = false) →
      s.shared.pending = []) := by
  have hf := fates_reachable h
  have hone : ∀ x, (s.shared.submitted.map Prod.fst).count x ≤ 1 :=
    fun x => List.nodup_iff_count_le_one.mp hf.calls.nodup x
  refine ⟨?_, hf.calls.handedBack, ?_, fun x t => hf.located, ⟨?_, ?_⟩, ?_,
    hf.closing.emptied⟩
  · intro x
    have hx := hf.conserved x
    unfold Conserved at hx
    have := hone x
    omega
  · intro f hmem c hc
    exact hf.front f hmem c (by simp [hc, awaitsInvoker])
  · refine List.nodup_iff_count_le_one.mpr fun x => ?_
    have hx := hf.enqueuedOnce x
    unfold EnqueuedOnce at hx
    have := hone x
    omega
  · have hsub := hf.inOrder
    rw [InOrder, List.append_assoc] at hsub
    exact (List.sublist_append_left _ _).trans hsub
  · intro hshut hpast hd
    exact hf.closing.closed (hf.closing.unlinked (hf.closing.shut hshut hpast) hd)

/-- Thread 1 posts 7 and 8, thread 2 runs their invoker up to the resumption of 8, and
thread 3 has posted 9 behind them. -/
def queuedRun : List (Event Outcome Entry) :=
  [.enter 1 (.post 7), .run 1 .succeeds, .run 1 .succeeds, .run 1 .succeeds, .run 1 .succeeds,
    .enter 1 (.post 8), .run 1 .succeeds, .run 1 .succeeds, .enter 2 .invoke, .run 2 .succeeds,
    .run 2 .succeeds, .run 2 .succeeds, .enter 3 (.post 9), .run 3 .succeeds, .run 3 .succeeds,
    .run 2 .succeeds]

theorem strand_exactly_once_fifo_queued :
    ∃ s, machine.runEvents ⟨createImplementation false, []⟩ queuedRun = some s ∧
      s.shared.resumed = [7, 8] ∧ s.shared.enqueued = [7, 8, 9] ∧
      s.shared.resumed.Sublist s.shared.enqueued ∧
      (9 ∈ s.shared.pending ∨ (∃ f ∈ s.frames, 9 ∈ batchHeld f.pc) ∨
        ∃ f ∈ s.frames, 9 ∈ ownHeld f.pc ∧ f.thread = 3) := by
  obtain ⟨s, hs, hresumed, henqueued, hsubmitted, hsettled⟩ : ∃ s,
      machine.runEvents ⟨createImplementation false, []⟩ queuedRun = some s ∧
        s.shared.resumed = [7, 8] ∧ s.shared.enqueued = [7, 8, 9] ∧
        (9, 3) ∈ s.shared.submitted ∧ ¬ settled s.shared 9 :=
    ⟨_, rfl, rfl, rfl, by decide, by decide⟩
  obtain ⟨-, -, -, hwaits, ⟨-, hfifo⟩, -⟩ :=
    strand_exactly_once_fifo (reachable_of_runEvents false queuedRun hs)
  exact ⟨s, hs, hresumed, henqueued, hfifo, hwaits 9 3 hsubmitted hsettled⟩

/-- Between its `withdraw` and the end of its call, a continuation is in no
queue and no batch, and no invoker exists that could hold it. -/
theorem withdrawn_in_no_queue :
    ∃ s, Reachable s ∧ (7, 1) ∈ s.shared.submitted ∧ ¬ settled s.shared 7 ∧
      7 ∉ s.shared.pending ∧ (∀ f ∈ s.frames, 7 ∉ batchHeld f.pc) ∧
      s.shared.queued = 0 ∧ ∀ f ∈ s.frames, runsInvoker f.pc = false :=
  ⟨_, reachable_of_runEvents false
    [.enter 1 (.post 7), .run 1 .succeeds, .run 1 .succeeds, .run 1 .throws,
      .run 1 .succeeds] rfl, by decide, by decide, by decide, by decide, rfl, by decide⟩

end Capy.StrandFate
