import Mathlib.Algebra.GroupWithZero.Nat
import Mathlib.Data.List.Basic
import Mathlib.Data.List.Pairwise

/-!
Threads with call stacks over a shared state. One list holds the activations
of every thread, newest first, so the running activation of a thread is the
first one of that thread. An activation that is inside code the model does not
describe is foreign: only above such an activation, or on an empty stack, can
a thread start another call.
-/

namespace Capy.CallStack

/-- One activation: the thread it is on and where it stands. -/
structure Frame (Pc : Type*) where
  thread : Nat
  pc : Pc
  deriving DecidableEq

/-- The code of a system of threads. `exec` is one atomic step of the running
activation of a thread: the new shared state and the activations that take its
place, newest first (none when it returns). `enter` is what the environment
may start on a thread that is idle or inside foreign code. -/
structure Machine (σ Pc Choice Entry : Type*) where
  foreign : Pc → Bool
  exec : σ → List (Frame Pc) → Nat → Pc → Choice → Option (σ × List Pc)
  enter : σ → List (Frame Pc) → Nat → Entry → Option (σ × List Pc)
  exec_foreign : ∀ {s fs t pc c s' pcs},
    exec s fs t pc c = some (s', pcs) → ∀ p ∈ pcs.tail, foreign p = true
  enter_foreign : ∀ {s fs t e s' pcs},
    enter s fs t e = some (s', pcs) → ∀ p ∈ pcs.tail, foreign p = true

/-- A machine whose activations never call one another. -/
def Machine.ofSteps {σ Pc Choice Entry : Type*} (foreign : Pc → Bool)
    (exec : σ → List (Frame Pc) → Nat → Pc → Choice → Option (σ × Option Pc))
    (enter : σ → List (Frame Pc) → Nat → Entry → Option (σ × Option Pc)) :
    Machine σ Pc Choice Entry where
  foreign := foreign
  exec s fs t pc c := (exec s fs t pc c).map fun p => (p.1, p.2.toList)
  enter s fs t e := (enter s fs t e).map fun p => (p.1, p.2.toList)
  exec_foreign h p hp := by
    obtain ⟨⟨_, q⟩, -, heq⟩ := Option.map_eq_some_iff.mp h
    obtain ⟨-, rfl⟩ := Prod.mk.inj heq
    cases q <;> simp at hp
  enter_foreign h p hp := by
    obtain ⟨⟨_, q⟩, -, heq⟩ := Option.map_eq_some_iff.mp h
    obtain ⟨-, rfl⟩ := Prod.mk.inj heq
    cases q <;> simp at hp

inductive Event (Choice Entry : Type*) where
  | run (t : Nat) (c : Choice)
  | enter (t : Nat) (e : Entry)

structure State (σ Pc : Type*) where
  shared : σ
  frames : List (Frame Pc)

theorem ne_nil_of_sublist {α : Type*} {l l' : List α} (h : l'.Sublist l) (hne : l' ≠ []) :
    l ≠ [] := by
  rintro rfl
  exact hne (List.sublist_nil.mp h)

variable {σ Pc Choice Entry : Type*}

/-- The frames before the running frame of a thread, that frame, and the
frames after it. -/
def splitTop (t : Nat) :
    List (Frame Pc) → Option (List (Frame Pc) × Frame Pc × List (Frame Pc))
  | [] => none
  | f :: fs =>
      if f.thread = t then some ([], f, fs)
      else (splitTop t fs).map fun p => (f :: p.1, p.2)

theorem splitTop_eq_some {t : Nat} {fs l r : List (Frame Pc)} {f : Frame Pc}
    (h : splitTop t fs = some (l, f, r)) :
    fs = l ++ f :: r ∧ f.thread = t ∧ ∀ g ∈ l, g.thread ≠ t := by
  induction fs generalizing l with
  | nil => simp [splitTop] at h
  | cons g fs ih =>
      simp only [splitTop] at h
      split at h
      · rename_i ht
        simp only [Option.some.injEq, Prod.mk.injEq] at h
        obtain ⟨rfl, rfl, rfl⟩ := h
        exact ⟨rfl, ht, by simp⟩
      · rename_i ht
        obtain ⟨⟨l', p⟩, hp, heq⟩ := Option.map_eq_some_iff.mp h
        simp only [Prod.mk.injEq] at heq
        obtain ⟨rfl, rfl⟩ := heq
        obtain ⟨rfl, hf, hl⟩ := ih hp
        refine ⟨rfl, hf, ?_⟩
        intro k hk
        rcases List.mem_cons.mp hk with rfl | hk
        · exact ht
        · exact hl k hk

theorem splitTop_append {t : Nat} {l r : List (Frame Pc)} {f : Frame Pc}
    (hf : f.thread = t) (hl : ∀ g ∈ l, g.thread ≠ t) :
    splitTop t (l ++ f :: r) = some (l, f, r) := by
  induction l with
  | nil => simp [splitTop, hf]
  | cons g l ih =>
      have hg : g.thread ≠ t := hl g (by simp)
      simp [splitTop, hg, ih fun k hk => hl k (by simp [hk])]

theorem splitTop_eq_none {t : Nat} {fs : List (Frame Pc)}
    (h : splitTop t fs = none) : ∀ g ∈ fs, g.thread ≠ t := by
  induction fs with
  | nil => simp
  | cons f fs ih =>
      simp only [splitTop] at h
      split at h
      · simp at h
      · rename_i ht
        intro g hg
        rcases List.mem_cons.mp hg with rfl | hg
        · exact ht
        · exact ih (Option.map_eq_none_iff.mp h) g hg

/-- Where the running activation of a thread stands. -/
def topPc (t : Nat) (fs : List (Frame Pc)) : Option Pc :=
  (splitTop t fs).map fun p => p.2.1.pc

theorem topPc_append {t : Nat} {l r : List (Frame Pc)} {pc : Pc}
    (hl : ∀ g ∈ l, g.thread ≠ t) : topPc t (l ++ ⟨t, pc⟩ :: r) = some pc := by
  have hf : (⟨t, pc⟩ : Frame Pc).thread = t := rfl
  rw [topPc, splitTop_append hf hl]
  rfl

/-- The activations of one thread, newest first. -/
def stackOf (t : Nat) (fs : List (Frame Pc)) : List Pc :=
  (fs.filter fun f => f.thread = t).map Frame.pc

theorem stackOf_append (t : Nat) (l r : List (Frame Pc)) :
    stackOf t (l ++ r) = stackOf t l ++ stackOf t r := by
  simp [stackOf]

theorem stackOf_eq_nil {t : Nat} {fs : List (Frame Pc)} (h : ∀ f ∈ fs, f.thread ≠ t) :
    stackOf t fs = [] := by
  simpa [stackOf] using h

theorem stackOf_map_mk (t : Nat) (pcs : List Pc) : stackOf t (pcs.map (Frame.mk t)) = pcs := by
  induction pcs with
  | nil => rfl
  | cons pc pcs ih => simpa [stackOf] using ih

theorem stackOf_map_mk_of_ne {t u : Nat} (h : t ≠ u) (pcs : List Pc) :
    stackOf u (pcs.map (Frame.mk t)) = [] := by
  refine stackOf_eq_nil fun f hf => ?_
  obtain ⟨pc, -, rfl⟩ := List.mem_map.mp hf
  exact h

theorem topPc_eq_head (t : Nat) (fs : List (Frame Pc)) : topPc t fs = (stackOf t fs).head? := by
  rw [topPc]
  cases h : splitTop t fs with
  | none =>
      rw [stackOf_eq_nil (splitTop_eq_none h)]
      rfl
  | some p =>
      obtain ⟨l, ⟨u, pc⟩, r⟩ := p
      obtain ⟨rfl, rfl, hl⟩ := splitTop_eq_some h
      rw [stackOf_append, stackOf_eq_nil hl]
      simp [stackOf]

/-- The sum of a weight over the activations. -/
def total (w : Pc → Nat) (fs : List (Frame Pc)) : Nat := (fs.map fun f => w f.pc).sum

section Replace

variable {t : Nat} {pc : Pc} {q : Option Pc} {l r fs : List (Frame Pc)}

theorem mem_split {f : Frame Pc} :
    f ∈ l ++ ⟨t, pc⟩ :: r ↔ f ∈ l ++ r ∨ f = ⟨t, pc⟩ := by
  simp only [List.mem_append, List.mem_cons]
  tauto

theorem mem_replace {f : Frame Pc} :
    f ∈ l ++ q.toList.map (Frame.mk t) ++ r ↔
      f ∈ l ++ r ∨ ∃ pc, q = some pc ∧ f = ⟨t, pc⟩ := by
  cases q <;> simp only [Option.toList, List.map_nil, List.map_cons,
    List.mem_append, List.mem_cons, List.not_mem_nil] <;> grind

theorem mem_enter {f : Frame Pc} :
    f ∈ q.toList.map (Frame.mk t) ++ fs ↔
      f ∈ fs ∨ ∃ pc, q = some pc ∧ f = ⟨t, pc⟩ := by
  cases q <;> simp only [Option.toList, List.map_nil, List.map_cons,
    List.mem_append, List.mem_cons, List.not_mem_nil] <;> grind

theorem forall_split {P : Frame Pc → Prop} :
    (∀ f ∈ l ++ ⟨t, pc⟩ :: r, P f) ↔ (∀ f ∈ l ++ r, P f) ∧ P ⟨t, pc⟩ := by
  simp only [mem_split, or_imp, forall_and, forall_eq]

theorem forall_replace {P : Frame Pc → Prop} :
    (∀ f ∈ l ++ q.toList.map (Frame.mk t) ++ r, P f) ↔
      (∀ f ∈ l ++ r, P f) ∧ ∀ pc, q = some pc → P ⟨t, pc⟩ := by
  simp only [mem_replace, or_imp, forall_and, forall_exists_index, and_imp]
  refine and_congr_right fun _ => ⟨fun h pc hq => h _ pc hq rfl, ?_⟩
  rintro h f pc hq rfl
  exact h pc hq

theorem forall_enter {P : Frame Pc → Prop} :
    (∀ f ∈ q.toList.map (Frame.mk t) ++ fs, P f) ↔
      (∀ f ∈ fs, P f) ∧ ∀ pc, q = some pc → P ⟨t, pc⟩ := by
  simpa using forall_replace (l := []) (r := fs)

theorem exists_replace {p : Pc → Prop} (h : ∃ f ∈ l ++ ⟨t, pc⟩ :: r, p f.pc)
    (hstays : p pc → ∃ pc', q = some pc' ∧ p pc') :
    ∃ f ∈ l ++ q.toList.map (Frame.mk t) ++ r, p f.pc := by
  obtain ⟨f, hf, hp⟩ := h
  rcases mem_split.mp hf with hf | rfl
  · exact ⟨f, mem_replace.mpr (.inl hf), hp⟩
  · obtain ⟨pc', hq, hp'⟩ := hstays hp
    exact ⟨⟨t, pc'⟩, mem_replace.mpr (.inr ⟨pc', hq, rfl⟩), hp'⟩

theorem stackOf_split (hl : ∀ g ∈ l, g.thread ≠ t) :
    stackOf t (l ++ ⟨t, pc⟩ :: r) = pc :: stackOf t r := by
  rw [stackOf_append, stackOf_eq_nil hl]
  simp [stackOf]

theorem stackOf_replace (hl : ∀ g ∈ l, g.thread ≠ t) :
    stackOf t (l ++ q.toList.map (Frame.mk t) ++ r) = q.toList ++ stackOf t r := by
  rw [stackOf_append, stackOf_append, stackOf_eq_nil hl, stackOf_map_mk]
  rfl

theorem stackOf_replace_of_ne {u : Nat} (h : t ≠ u) (pc : Pc) :
    stackOf u (l ++ q.toList.map (Frame.mk t) ++ r) = stackOf u (l ++ ⟨t, pc⟩ :: r) := by
  rw [stackOf_append, stackOf_append, stackOf_append, stackOf_map_mk_of_ne h]
  simp [stackOf, h]

theorem stackOf_enter : stackOf t (q.toList.map (Frame.mk t) ++ fs) = q.toList ++ stackOf t fs := by
  rw [stackOf_append, stackOf_map_mk]

theorem stackOf_enter_of_ne {u : Nat} (h : t ≠ u) :
    stackOf u (q.toList.map (Frame.mk t) ++ fs) = stackOf u fs := by
  rw [stackOf_append, stackOf_map_mk_of_ne h]
  rfl

theorem countP_split (p : Frame Pc → Bool) :
    (l ++ ⟨t, pc⟩ :: r).countP p = (l ++ r).countP p + (p ⟨t, pc⟩).toNat := by
  cases h : p ⟨t, pc⟩
  · simp [h]
  · simp [h]
    omega

theorem rest_of_countP_le_one {p : Frame Pc → Bool}
    (h : (l ++ ⟨t, pc⟩ :: r).countP p ≤ 1) (hpc : p ⟨t, pc⟩ = true) :
    ∀ f ∈ l ++ r, p f = false := by
  rw [countP_split, hpc, Bool.toNat_true] at h
  intro f hf
  have hzero : (l ++ r).countP p = 0 := by omega
  simpa using List.countP_eq_zero.mp hzero f hf

theorem countP_replace (p : Frame Pc → Bool) :
    (l ++ q.toList.map (Frame.mk t) ++ r).countP p =
      (l ++ r).countP p + (q.elim false fun pc => p ⟨t, pc⟩).toNat := by
  cases q with
  | none => simp
  | some pc =>
      cases h : p ⟨t, pc⟩
      · simp [h]
      · simp [h]
        omega

theorem countP_enter (p : Frame Pc → Bool) :
    (q.toList.map (Frame.mk t) ++ fs).countP p =
      fs.countP p + (q.elim false fun pc => p ⟨t, pc⟩).toNat := by
  cases q with
  | none => simp
  | some pc => cases h : p ⟨t, pc⟩ <;> simp [h]

theorem total_split (w : Pc → Nat) :
    total w (l ++ ⟨t, pc⟩ :: r) = total w (l ++ r) + w pc := by
  simp only [total, List.map_append, List.map_cons, List.sum_append, List.sum_cons]
  omega

theorem total_replace (w : Pc → Nat) :
    total w (l ++ q.toList.map (Frame.mk t) ++ r) =
      total w (l ++ r) + q.elim 0 w := by
  cases q with
  | none => simp [total]
  | some pc =>
      simp [total]
      omega

theorem total_enter (w : Pc → Nat) :
    total w (q.toList.map (Frame.mk t) ++ fs) = total w fs + q.elim 0 w := by
  cases q with
  | none => simp [total]
  | some pc =>
      simp [total]
      omega

theorem total_pos_iff {w : Pc → Nat} :
    0 < total w fs ↔ ∃ f ∈ fs, 0 < w f.pc := by
  induction fs with
  | nil => simp [total]
  | cons f fs ih =>
      simp only [total, List.map_cons, List.sum_cons, List.mem_cons,
        exists_eq_or_imp] at ih ⊢
      rw [← ih]
      omega

end Replace

namespace Machine

variable (M : Machine σ Pc Choice Entry)

/-- A thread can start a call when it is idle or inside foreign code. -/
def free (t : Nat) (fs : List (Frame Pc)) : Bool :=
  match splitTop t fs with
  | none => true
  | some (_, f, _) => M.foreign f.pc

def step (s : State σ Pc) : Event Choice Entry → Option (State σ Pc)
  | .run t c =>
      match splitTop t s.frames with
      | none => none
      | some (l, f, r) =>
          (M.exec s.shared s.frames t f.pc c).map fun p =>
            ⟨p.1, l ++ p.2.map (Frame.mk t) ++ r⟩
  | .enter t e =>
      if M.free t s.frames then
        (M.enter s.shared s.frames t e).map fun p =>
          ⟨p.1, p.2.map (Frame.mk t) ++ s.frames⟩
      else none

/-- Run a list of events; `none` as soon as one of them does not meet `ok` or
is not enabled. -/
def runWhen (ok : State σ Pc → Event Choice Entry → Bool) (s : State σ Pc) :
    List (Event Choice Entry) → Option (State σ Pc)
  | [] => some s
  | e :: es =>
      if ok s e then (M.step s e).bind fun s' => runWhen ok s' es else none

def runEvents : State σ Pc → List (Event Choice Entry) → Option (State σ Pc) :=
  M.runWhen fun _ _ => true

/-- The states that runs from `init` reach when every step meets `ok`. -/
inductive ReachableWhen (ok : State σ Pc → Event Choice Entry → Bool)
    (init : State σ Pc → Prop) : State σ Pc → Prop
  | init {s} : init s → ReachableWhen ok init s
  | step {s s' e} : ReachableWhen ok init s → ok s e = true →
      M.step s e = some s' → ReachableWhen ok init s'

/-- The states that runs from `init` reach. -/
def Reachable (init : State σ Pc → Prop) : State σ Pc → Prop :=
  M.ReachableWhen (fun _ _ => true) init

variable {M}

theorem ReachableWhen.mono {ok ok' : State σ Pc → Event Choice Entry → Bool}
    {init : State σ Pc → Prop} {s : State σ Pc}
    (hok : ∀ s e, ok s e = true → ok' s e = true)
    (h : M.ReachableWhen ok init s) : M.ReachableWhen ok' init s := by
  induction h with
  | init hi => exact .init hi
  | step _ he hstep ih => exact .step ih (hok _ _ he) hstep

theorem ReachableWhen.reachable {ok : State σ Pc → Event Choice Entry → Bool}
    {init : State σ Pc → Prop} {s : State σ Pc}
    (h : M.ReachableWhen ok init s) : M.Reachable init s :=
  h.mono fun _ _ _ => rfl

theorem ReachableWhen.runWhen {ok : State σ Pc → Event Choice Entry → Bool}
    {init : State σ Pc → Prop} {s s' : State σ Pc} (hs : M.ReachableWhen ok init s)
    (es : List (Event Choice Entry)) (h : M.runWhen ok s es = some s') :
    M.ReachableWhen ok init s' := by
  induction es generalizing s with
  | nil =>
      obtain rfl : s = s' := by simpa [Machine.runWhen] using h
      exact hs
  | cons e es ih =>
      simp only [Machine.runWhen] at h
      split at h
      · rename_i hok
        obtain ⟨t, ht, hrest⟩ := Option.bind_eq_some_iff.mp h
        exact ih (.step hs hok ht) hrest
      · simp at h

/-- Below a newer activation of the same thread every activation is inside
foreign code. -/
def Stacked (M : Machine σ Pc Choice Entry) (fs : List (Frame Pc)) : Prop :=
  fs.Pairwise fun newer older =>
    newer.thread = older.thread → M.foreign older.pc = true

theorem free_foreign {t : Nat} {fs : List (Frame Pc)} (hst : M.Stacked fs)
    (h : M.free t fs = true) : ∀ f ∈ fs, f.thread = t → M.foreign f.pc = true := by
  intro f hf hft
  unfold free at h
  split at h
  · rename_i hnone
    exact absurd hft (splitTop_eq_none hnone f hf)
  · rename_i l g r hsome
    obtain ⟨rfl, hg, hl⟩ := splitTop_eq_some hsome
    rcases List.mem_append.mp hf with hf | hf
    · exact absurd hft (hl f hf)
    · rcases List.mem_cons.mp hf with rfl | hf
      · exact h
      · have hr := (List.pairwise_append.mp hst).2.1
        exact (List.pairwise_cons.mp hr).1 f hf (hg.trans hft.symm)

theorem Stacked.foreign_of_thread_eq {fs : List (Frame Pc)} (hst : M.Stacked fs)
    {f g : Frame Pc} (hf : f ∈ fs) (hg : g ∈ fs) (hfg : f.thread = g.thread)
    (hne : f ≠ g) : M.foreign f.pc = true ∨ M.foreign g.pc = true := by
  induction fs with
  | nil => simp at hf
  | cons k fs ih =>
      obtain ⟨hk, hfs⟩ := List.pairwise_cons.mp hst
      rcases List.mem_cons.mp hf with rfl | hf'
      · rcases List.mem_cons.mp hg with rfl | hg'
        · exact absurd rfl hne
        · exact .inr (hk g hg' hfg)
      · rcases List.mem_cons.mp hg with rfl | hg'
        · exact .inl (hk f hf' hfg.symm)
        · exact ih hfs hf' hg'

theorem Stacked.rest_foreign {l r : List (Frame Pc)} {t : Nat} {pc : Pc}
    (hst : M.Stacked (l ++ ⟨t, pc⟩ :: r)) (hl : ∀ g ∈ l, g.thread ≠ t) {f : Frame Pc}
    (hf : f ∈ l ++ r) (hft : f.thread = t) : M.foreign f.pc = true := by
  rcases List.mem_append.mp hf with hf | hf
  · exact absurd hft (hl f hf)
  · have hr := (List.pairwise_append.mp hst).2.1
    exact (List.pairwise_cons.mp hr).1 f hf hft.symm

/-- What one step of a machine does: it runs the newest activation of a
thread, or starts a call on a thread that has none or is in foreign code. -/
theorem step_cases {s s' : State σ Pc} {e : Event Choice Entry}
    (h : M.step s e = some s') :
    (∃ t c l f r pcs, e = .run t c ∧ s.frames = l ++ f :: r ∧ f.thread = t ∧
      (∀ g ∈ l, g.thread ≠ t) ∧
      M.exec s.shared s.frames t f.pc c = some (s'.shared, pcs) ∧
      s'.frames = l ++ pcs.map (Frame.mk t) ++ r) ∨
    (∃ t a pcs, e = .enter t a ∧ M.free t s.frames = true ∧
      M.enter s.shared s.frames t a = some (s'.shared, pcs) ∧
      s'.frames = pcs.map (Frame.mk t) ++ s.frames) := by
  cases e with
  | run t c =>
      left
      simp only [step] at h
      split at h
      · simp at h
      · rename_i l f r hsplit
        obtain ⟨⟨σ', pcs⟩, hexec, rfl⟩ := Option.map_eq_some_iff.mp h
        obtain ⟨hfs, hft, hl⟩ := splitTop_eq_some hsplit
        exact ⟨t, c, l, f, r, pcs, rfl, hfs, hft, hl, hexec, rfl⟩
  | enter t a =>
      right
      simp only [step] at h
      split at h
      · rename_i hfree
        obtain ⟨⟨σ', pcs⟩, henter, rfl⟩ := Option.map_eq_some_iff.mp h
        exact ⟨t, a, pcs, rfl, hfree, henter, rfl⟩
      · simp at h

theorem ofSteps_step_cases {foreign : Pc → Bool}
    {exec : σ → List (Frame Pc) → Nat → Pc → Choice → Option (σ × Option Pc)}
    {enter : σ → List (Frame Pc) → Nat → Entry → Option (σ × Option Pc)}
    {s s' : State σ Pc} {e : Event Choice Entry}
    (h : (Machine.ofSteps foreign exec enter).step s e = some s') :
    (∃ t c l pc r q, e = .run t c ∧ s.frames = l ++ ⟨t, pc⟩ :: r ∧
      (∀ g ∈ l, g.thread ≠ t) ∧
      exec s.shared s.frames t pc c = some (s'.shared, q) ∧
      s'.frames = l ++ q.toList.map (Frame.mk t) ++ r) ∨
    (∃ t a q, e = .enter t a ∧
      enter s.shared s.frames t a = some (s'.shared, q) ∧
      s'.frames = q.toList.map (Frame.mk t) ++ s.frames) := by
  rcases step_cases h with
    ⟨t, c, l, ⟨u, pc⟩, r, pcs, rfl, hfs, hft, hl, hexec, hfs'⟩ |
    ⟨t, a, pcs, rfl, -, henter, hfs'⟩
  · obtain ⟨⟨_, q⟩, hq, heq⟩ := Option.map_eq_some_iff.mp hexec
    obtain ⟨rfl, rfl⟩ := Prod.mk.inj heq
    obtain rfl : u = t := hft
    exact .inl ⟨u, c, l, pc, r, q, rfl, hfs, hl, hq, hfs'⟩
  · obtain ⟨⟨_, q⟩, hq, heq⟩ := Option.map_eq_some_iff.mp henter
    obtain ⟨rfl, rfl⟩ := Prod.mk.inj heq
    exact .inr ⟨t, a, q, rfl, hq, hfs'⟩

theorem ofSteps_step_enabled {foreign : Pc → Bool}
    {exec : σ → List (Frame Pc) → Nat → Pc → Choice → Option (σ × Option Pc)}
    {enter : σ → List (Frame Pc) → Nat → Entry → Option (σ × Option Pc)}
    {s : State σ Pc} {t : Nat} {pc : Pc} {c : Choice} (htop : topPc t s.frames = some pc)
    (hexec : (exec s.shared s.frames t pc c).isSome = true) :
    ((Machine.ofSteps foreign exec enter).step s (.run t c)).isSome = true := by
  obtain ⟨⟨l, f, r⟩, hsplit, rfl⟩ := Option.map_eq_some_iff.mp htop
  simpa [Machine.step, hsplit, Machine.ofSteps] using hexec

theorem stacked_map_mk {t : Nat} {pcs : List Pc}
    (h : ∀ p ∈ pcs.tail, M.foreign p = true) :
    M.Stacked (pcs.map (Frame.mk t)) := by
  cases pcs with
  | nil => exact List.Pairwise.nil
  | cons p ps =>
      rw [List.tail_cons] at h
      have hall : ∀ f ∈ ps.map (Frame.mk t), M.foreign f.pc = true := by
        intro f hf
        obtain ⟨q, hq, rfl⟩ := List.mem_map.mp hf
        exact h q hq
      rw [List.map_cons, Stacked, List.pairwise_cons]
      refine ⟨fun f hf _ => hall f hf, ?_⟩
      exact List.pairwise_of_forall_mem_list fun _ _ g hg _ => hall g hg

theorem Stacked.step {s s' : State σ Pc} {e : Event Choice Entry}
    (hst : M.Stacked s.frames) (h : M.step s e = some s') :
    M.Stacked s'.frames := by
  rcases step_cases h with
    ⟨t, c, l, f, r, pcs, rfl, hfs, hft, hl, hexec, hfs'⟩ |
    ⟨t, a, pcs, rfl, hfree, henter, hfs'⟩
  · rw [hfs']
    rw [hfs] at hst
    obtain ⟨hstl, hstr, hlr⟩ := List.pairwise_append.mp hst
    obtain ⟨hf, hstr⟩ := List.pairwise_cons.mp hstr
    refine List.pairwise_append.mpr ⟨List.pairwise_append.mpr
      ⟨hstl, stacked_map_mk (M.exec_foreign hexec), ?_⟩, hstr, ?_⟩
    · intro g hg k hk hgk
      obtain ⟨p, _, rfl⟩ := List.mem_map.mp hk
      exact absurd hgk (hl g hg)
    · intro g hg k hk hgk
      rcases List.mem_append.mp hg with hg | hg
      · exact hlr g hg k (List.mem_cons_of_mem _ hk) hgk
      · obtain ⟨p, _, rfl⟩ := List.mem_map.mp hg
        exact hf k hk (hft.trans hgk)
  · rw [hfs']
    refine List.pairwise_append.mpr
      ⟨stacked_map_mk (M.enter_foreign henter), hst, ?_⟩
    intro g hg k hk hgk
    obtain ⟨p, _, rfl⟩ := List.mem_map.mp hg
    exact free_foreign hst hfree k hk hgk.symm

theorem ReachableWhen.stacked {ok : State σ Pc → Event Choice Entry → Bool}
    {init : State σ Pc → Prop} (hinit : ∀ s, init s → s.frames = [])
    {s : State σ Pc} (h : M.ReachableWhen ok init s) : M.Stacked s.frames := by
  induction h with
  | init hi =>
      rw [hinit _ hi]
      exact List.Pairwise.nil
  | step _ _ hstep ih => exact ih.step hstep

/-- A predicate that every step meeting `ok` keeps, given that the call stacks
are well formed. -/
structure Preserves (M : Machine σ Pc Choice Entry)
    (ok : State σ Pc → Event Choice Entry → Bool)
    (I : σ → List (Frame Pc) → Prop) : Prop where
  exec : ∀ {s l t pc r c s' pcs}, I s (l ++ ⟨t, pc⟩ :: r) →
    M.Stacked (l ++ ⟨t, pc⟩ :: r) → (∀ g ∈ l, g.thread ≠ t) →
    ok ⟨s, l ++ ⟨t, pc⟩ :: r⟩ (.run t c) = true →
    M.exec s (l ++ ⟨t, pc⟩ :: r) t pc c = some (s', pcs) →
    I s' (l ++ pcs.map (Frame.mk t) ++ r)
  enter : ∀ {s fs t a s' pcs}, I s fs → M.Stacked fs →
    (∀ f ∈ fs, f.thread = t → M.foreign f.pc = true) →
    ok ⟨s, fs⟩ (.enter t a) = true → M.enter s fs t a = some (s', pcs) →
    I s' (pcs.map (Frame.mk t) ++ fs)

theorem Preserves.ofSteps {foreign : Pc → Bool}
    {exec : σ → List (Frame Pc) → Nat → Pc → Choice → Option (σ × Option Pc)}
    {enter : σ → List (Frame Pc) → Nat → Entry → Option (σ × Option Pc)}
    {ok : State σ Pc → Event Choice Entry → Bool}
    {I : σ → List (Frame Pc) → Prop}
    (hexec : ∀ {s l t pc r c s' q}, I s (l ++ ⟨t, pc⟩ :: r) →
      (Machine.ofSteps foreign exec enter).Stacked (l ++ ⟨t, pc⟩ :: r) →
      (∀ g ∈ l, g.thread ≠ t) → ok ⟨s, l ++ ⟨t, pc⟩ :: r⟩ (.run t c) = true →
      exec s (l ++ ⟨t, pc⟩ :: r) t pc c = some (s', q) →
      I s' (l ++ q.toList.map (Frame.mk t) ++ r))
    (henter : ∀ {s fs t a s' q}, I s fs →
      (Machine.ofSteps foreign exec enter).Stacked fs →
      (∀ f ∈ fs, f.thread = t → foreign f.pc = true) →
      ok ⟨s, fs⟩ (.enter t a) = true → enter s fs t a = some (s', q) →
      I s' (q.toList.map (Frame.mk t) ++ fs)) :
    (Machine.ofSteps foreign exec enter).Preserves ok I where
  exec hI hst hl hok h := by
    obtain ⟨⟨_, q⟩, hq, heq⟩ := Option.map_eq_some_iff.mp h
    obtain ⟨rfl, rfl⟩ := Prod.mk.inj heq
    exact hexec hI hst hl hok hq
  enter hI hst hfree hok h := by
    obtain ⟨⟨_, q⟩, hq, heq⟩ := Option.map_eq_some_iff.mp h
    obtain ⟨rfl, rfl⟩ := Prod.mk.inj heq
    exact henter hI hst hfree hok hq

theorem Preserves.reachableWhen {ok : State σ Pc → Event Choice Entry → Bool}
    {I : σ → List (Frame Pc) → Prop} (hI : M.Preserves ok I)
    {init : State σ Pc → Prop} (hempty : ∀ s, init s → s.frames = [])
    (hinit : ∀ s, init s → I s.shared [])
    {s : State σ Pc} (h : M.ReachableWhen ok init s) : I s.shared s.frames := by
  induction h with
  | init hi =>
      rw [hempty _ hi]
      exact hinit _ hi
  | @step s s' e hs hok hstep ih =>
      have hst := hs.stacked hempty
      obtain ⟨sh, fs⟩ := s
      rcases step_cases hstep with
        ⟨t, c, l, f, r, pcs, rfl, hfs, rfl, hl, hexec, hfs'⟩ |
        ⟨t, a, pcs, rfl, hfree, henter, hfs'⟩
      · simp only at hfs hexec ih hst
        subst hfs
        rw [hfs']
        exact hI.exec ih hst hl hok hexec
      · rw [hfs']
        exact hI.enter ih hst (free_foreign hst hfree) hok henter

theorem Preserves.reachable {I : σ → List (Frame Pc) → Prop}
    (hI : M.Preserves (fun _ _ => true) I)
    {init : State σ Pc → Prop} (hempty : ∀ s, init s → s.frames = [])
    (hinit : ∀ s, init s → I s.shared [])
    {s : State σ Pc} (h : M.Reachable init s) : I s.shared s.frames :=
  hI.reachableWhen hempty hinit h

end Machine

end Capy.CallStack
