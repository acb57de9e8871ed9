import Capy.CallStack

namespace Capy.CallStack.Machine

variable {σ Pc Choice Entry : Type*} {M : Machine σ Pc Choice Entry}

/-- No event of the kind `p` is enabled. -/
def Quiescent (M : Machine σ Pc Choice Entry) (p : Event Choice Entry → Bool)
    (s : State σ Pc) : Prop :=
  ∀ e, p e = true → M.step s e = none

/-- A number that every event of the kind `p` lowers in a state that meets `I`. -/
structure Variant (M : Machine σ Pc Choice Entry) (I : State σ Pc → Prop)
    (p : Event Choice Entry → Bool) where
  value : State σ Pc → Nat
  closed : ∀ {s s' e}, I s → p e = true → M.step s e = some s' → I s'
  falls : ∀ {s s' e}, I s → p e = true → M.step s e = some s' → value s' < value s

theorem ReachableWhen.runEvents {ok : State σ Pc → Event Choice Entry → Bool}
    {init : State σ Pc → Prop} {p : Event Choice Entry → Bool}
    (hp : ∀ s e, p e = true → ok s e = true) {s s' : State σ Pc}
    {es : List (Event Choice Entry)} (hs : M.ReachableWhen ok init s)
    (hes : ∀ e ∈ es, p e = true) (h : M.runEvents s es = some s') :
    M.ReachableWhen ok init s' := by
  induction es generalizing s with
  | nil =>
      obtain rfl : s = s' := by simpa [Machine.runEvents, Machine.runWhen] using h
      exact hs
  | cons e es ih =>
      obtain ⟨he, hes⟩ := List.forall_mem_cons.mp hes
      obtain ⟨t, ht, hrest⟩ := Option.bind_eq_some_iff.mp h
      exact ih (.step hs (hp _ _ he) ht) hes hrest

namespace Variant

variable {I : State σ Pc → Prop} {p : Event Choice Entry → Bool}

theorem length_le (Φ : M.Variant I p) {s s' : State σ Pc} (hs : I s)
    {es : List (Event Choice Entry)} (hes : ∀ e ∈ es, p e = true)
    (h : M.runEvents s es = some s') : es.length ≤ Φ.value s := by
  induction es generalizing s with
  | nil => exact Nat.zero_le _
  | cons e es ih =>
      obtain ⟨he, hes⟩ := List.forall_mem_cons.mp hes
      obtain ⟨t, ht, hrest⟩ := Option.bind_eq_some_iff.mp h
      have hfalls := Φ.falls hs he ht
      have htail := ih (Φ.closed hs he ht) hes hrest
      rw [List.length_cons]
      omega

/-- As long as an event of the kind `p` is enabled it can be taken, and that
comes to an end. -/
theorem exists_quiescent (Φ : M.Variant I p) {s : State σ Pc} (hs : I s) :
    ∃ es s', (∀ e ∈ es, p e = true) ∧ M.runEvents s es = some s' ∧ M.Quiescent p s' := by
  induction hn : Φ.value s using Nat.strongRecOn generalizing s with
  | _ n ih =>
      by_cases hq : M.Quiescent p s
      · exact ⟨[], s, by simp, rfl, hq⟩
      · unfold Quiescent at hq
        push Not at hq
        obtain ⟨e, he, hstep⟩ := hq
        obtain ⟨t, ht⟩ := Option.ne_none_iff_exists'.mp hstep
        have hfalls := Φ.falls hs he ht
        obtain ⟨es, s', hes, hrun, hquiet⟩ :=
          ih (Φ.value t) (by omega) (Φ.closed hs he ht) rfl
        refine ⟨e :: es, s', List.forall_mem_cons.mpr ⟨he, hes⟩, ?_, hquiet⟩
        simpa [runEvents, Machine.runWhen, ht] using hrun

end Variant

/-- A potential on the states that meet `I`, and the credit an event brings. -/
structure Potential (M : Machine σ Pc Choice Entry) (I : State σ Pc → Prop)
    (credit : Event Choice Entry → Nat) where
  value : State σ Pc → Nat
  closed : ∀ {s s' e}, I s → M.step s e = some s' → I s'
  pays : ∀ {s s' e}, I s → M.step s e = some s' → value s' + 1 ≤ value s + credit e

variable {I : State σ Pc → Prop} {credit : Event Choice Entry → Nat}

namespace Potential

theorem length_add_le (Φ : M.Potential I credit) {ok : State σ Pc → Event Choice Entry → Bool}
    {s s' : State σ Pc} (hs : I s) (es : List (Event Choice Entry))
    (h : M.runWhen ok s es = some s') :
    es.length + Φ.value s' ≤ Φ.value s + (es.map credit).sum := by
  induction es generalizing s with
  | nil =>
      obtain rfl : s = s' := by simpa [Machine.runWhen] using h
      simp
  | cons e es ih =>
      simp only [Machine.runWhen] at h
      split at h
      · obtain ⟨t, ht, hrest⟩ := Option.bind_eq_some_iff.mp h
        have hhead := Φ.pays hs ht
        have htail := ih (Φ.closed hs ht) hrest
        simp only [List.length_cons, List.map_cons, List.sum_cons]
        omega
      · simp at h

/-- Events that bring no credit lower the potential. -/
def variant (Φ : M.Potential I credit) {p : Event Choice Entry → Bool}
    (hp : ∀ e, p e = true → credit e = 0) : M.Variant I p where
  value := Φ.value
  closed hs _ hstep := Φ.closed hs hstep
  falls {s s' e} hs he hstep := by
    have hpay := Φ.pays hs hstep
    rw [hp e he] at hpay
    omega

end Potential

theorem Stacked.topPc_eq {fs : List (Frame Pc)} (hst : M.Stacked fs) {f : Frame Pc} (hf : f ∈ fs)
    (hpc : M.foreign f.pc = false) : topPc f.thread fs = some f.pc := by
  obtain ⟨l, r, rfl⟩ := List.append_of_mem hf
  refine topPc_append fun g hg hthread => ?_
  have hforeign := (List.pairwise_append.mp hst).2.2 g hg f (by simp) hthread
  simp [hpc] at hforeign

theorem exists_topPc {fs : List (Frame Pc)} {f : Frame Pc} (hf : f ∈ fs) :
    ∃ pc, topPc f.thread fs = some pc ∧ ⟨f.thread, pc⟩ ∈ fs := by
  cases hsplit : splitTop f.thread fs with
  | none => exact absurd rfl (splitTop_eq_none hsplit f hf)
  | some p =>
      obtain ⟨l, ⟨u, pc⟩, r⟩ := p
      obtain ⟨rfl, hu, -⟩ := splitTop_eq_some hsplit
      obtain rfl : u = f.thread := hu
      exact ⟨pc, by rw [topPc, hsplit]; rfl, by simp⟩

theorem mem_of_topPc {t : Nat} {pc : Pc} {fs : List (Frame Pc)} (h : topPc t fs = some pc) :
    ⟨t, pc⟩ ∈ fs := by
  obtain ⟨⟨l, ⟨u, pc'⟩, r⟩, hsplit, heq⟩ := Option.map_eq_some_iff.mp h
  obtain ⟨rfl, rfl, -⟩ := splitTop_eq_some hsplit
  simp only at heq
  simp [heq]

theorem Quiescent.exec_eq_none {foreign : Pc → Bool}
    {exec : σ → List (Frame Pc) → Nat → Pc → Choice → Option (σ × Option Pc)}
    {enter : σ → List (Frame Pc) → Nat → Entry → Option (σ × Option Pc)}
    {p : Event Choice Entry → Bool} {s : State σ Pc}
    (h : (Machine.ofSteps foreign exec enter).Quiescent p s) {t : Nat} {pc : Pc} {c : Choice}
    (htop : topPc t s.frames = some pc) (hp : p (.run t c) = true) :
    exec s.shared s.frames t pc c = none := by
  by_contra hexec
  have hstep : ((Machine.ofSteps foreign exec enter).step s (.run t c)).isSome = true :=
    ofSteps_step_enabled htop (Option.isSome_iff_ne_none.mpr hexec)
  rw [h _ hp] at hstep
  simp at hstep

theorem Quiescent.frames_eq_nil {foreign : Pc → Bool}
    {exec : σ → List (Frame Pc) → Nat → Pc → Choice → Option (σ × Option Pc)}
    {enter : σ → List (Frame Pc) → Nat → Entry → Option (σ × Option Pc)}
    {p : Event Choice Entry → Bool} {s : State σ Pc}
    (h : (Machine.ofSteps foreign exec enter).Quiescent p s)
    (hrun : ∀ t pc, ∃ c, p (.run t c) = true ∧
      (exec s.shared s.frames t pc c).isSome = true) : s.frames = [] := by
  refine List.eq_nil_iff_forall_not_mem.mpr fun f hf => ?_
  obtain ⟨pc, htop, -⟩ := exists_topPc hf
  obtain ⟨c, hpc, hexec⟩ := hrun f.thread pc
  simp [h.exec_eq_none htop hpc] at hexec

end Capy.CallStack.Machine
