import Capy.CallStack

namespace Capy.CallStack

variable {σ σ' Pc Pc' Choice Choice' Entry Entry' : Type*}

def Frame.map (link : Pc → Pc') (f : Frame Pc) : Frame Pc' := ⟨f.thread, link f.pc⟩

theorem map_frame_mk (link : Pc → Pc') (t : Nat) (pcs : List Pc) :
    (pcs.map (Frame.mk t)).map (Frame.map link) = (pcs.map link).map (Frame.mk t) := by
  simp [Frame.map]

theorem splitTop_map (link : Pc → Pc') (t : Nat) (fs : List (Frame Pc)) :
    splitTop t (fs.map (Frame.map link)) =
      (splitTop t fs).map fun p =>
        (p.1.map (Frame.map link), p.2.1.map link, p.2.2.map (Frame.map link)) := by
  induction fs with
  | nil => rfl
  | cons f fs ih =>
      simp only [List.map_cons, splitTop, ih]
      split
      · rename_i ht
        have ht' : f.thread = t := ht
        simp [ht']
      · rename_i ht
        have ht' : f.thread ≠ t := ht
        simp only [ht', if_false, Option.map_map]
        rfl

/-- The machine `C` refines the machine `A`: `link` tells where an activation of
`C` stands, and `R` relates the shared states while `I` holds of the abstract
one. Every step of `C`, and every call that it starts, is one of `A` or leaves the
state of `A` alone. -/
structure Refines (C : Machine σ' Pc' Choice' Entry') (A : Machine σ Pc Choice Entry)
    (link : Pc → Pc') (R : σ' → σ → List (Frame Pc) → Prop) (I : State σ Pc → Prop) :
    Prop where
  foreign : ∀ pc, C.foreign (link pc) = A.foreign pc
  exec : ∀ {s a l t pc r c s' pcs'}, R s a (l ++ ⟨t, pc⟩ :: r) → I ⟨a, l ++ ⟨t, pc⟩ :: r⟩ →
    C.exec s ((l ++ ⟨t, pc⟩ :: r).map (Frame.map link)) t (link pc) c = some (s', pcs') →
    (∃ c' a' pcs, A.exec a (l ++ ⟨t, pc⟩ :: r) t pc c' = some (a', pcs) ∧ pcs' = pcs.map link ∧
      R s' a' (l ++ pcs.map (Frame.mk t) ++ r)) ∨
    pcs' = [link pc] ∧ R s' a (l ++ ⟨t, pc⟩ :: r)
  enter : ∀ {s a fs t e s' pcs'}, R s a fs → I ⟨a, fs⟩ →
    C.enter s (fs.map (Frame.map link)) t e = some (s', pcs') →
    (∃ e' a' pcs, A.enter a fs t e' = some (a', pcs) ∧ pcs' = pcs.map link ∧
      R s' a' (pcs.map (Frame.mk t) ++ fs)) ∨
    pcs' = [] ∧ R s' a fs

variable {C : Machine σ' Pc' Choice' Entry'} {A : Machine σ Pc Choice Entry} {link : Pc → Pc'}
  {R : σ' → σ → List (Frame Pc) → Prop} {I : State σ Pc → Prop}

namespace Refines

/-- The refinement of machines whose activations never call one another. -/
theorem ofSteps {foreign : Pc → Bool} {foreign' : Pc' → Bool}
    {exec : σ → List (Frame Pc) → Nat → Pc → Choice → Option (σ × Option Pc)}
    {enter : σ → List (Frame Pc) → Nat → Entry → Option (σ × Option Pc)}
    {exec' : σ' → List (Frame Pc') → Nat → Pc' → Choice' → Option (σ' × Option Pc')}
    {enter' : σ' → List (Frame Pc') → Nat → Entry' → Option (σ' × Option Pc')}
    (hforeign : ∀ pc, foreign' (link pc) = foreign pc)
    (hexec : ∀ {s a l t pc r c s' q'}, R s a (l ++ ⟨t, pc⟩ :: r) → I ⟨a, l ++ ⟨t, pc⟩ :: r⟩ →
      exec' s ((l ++ ⟨t, pc⟩ :: r).map (Frame.map link)) t (link pc) c = some (s', q') →
      (∃ c' a' q, exec a (l ++ ⟨t, pc⟩ :: r) t pc c' = some (a', q) ∧ q' = q.map link ∧
        R s' a' (l ++ q.toList.map (Frame.mk t) ++ r)) ∨
      q' = some (link pc) ∧ R s' a (l ++ ⟨t, pc⟩ :: r))
    (henter : ∀ {s a fs t e s' q'}, R s a fs → I ⟨a, fs⟩ →
      enter' s (fs.map (Frame.map link)) t e = some (s', q') →
      (∃ e' a' q, enter a fs t e' = some (a', q) ∧ q' = q.map link ∧
        R s' a' (q.toList.map (Frame.mk t) ++ fs)) ∨ q' = none ∧ R s' a fs) :
    Refines (Machine.ofSteps foreign' exec' enter') (Machine.ofSteps foreign exec enter)
      link R I where
  foreign := hforeign
  exec hR hI h := by
    obtain ⟨⟨_, q'⟩, hq', heq⟩ := Option.map_eq_some_iff.mp h
    obtain ⟨rfl, rfl⟩ := Prod.mk.inj heq
    rcases hexec hR hI hq' with ⟨c', a', q, hq, rfl, hR'⟩ | ⟨rfl, hR'⟩
    · refine .inl ⟨c', a', q.toList, ?_, ?_, hR'⟩
      · simp [Machine.ofSteps, hq]
      · cases q <;> rfl
    · exact .inr ⟨rfl, hR'⟩
  enter hR hI h := by
    obtain ⟨⟨_, q'⟩, hq', heq⟩ := Option.map_eq_some_iff.mp h
    obtain ⟨rfl, rfl⟩ := Prod.mk.inj heq
    rcases henter hR hI hq' with ⟨e', a', q, hq, rfl, hR'⟩ | ⟨rfl, hR'⟩
    · refine .inl ⟨e', a', q.toList, ?_, ?_, hR'⟩
      · simp [Machine.ofSteps, hq]
      · cases q <;> rfl
    · exact .inr ⟨rfl, hR'⟩

theorem free_eq (h : Refines C A link R I) (t : Nat) (fs : List (Frame Pc)) :
    C.free t (fs.map (Frame.map link)) = A.free t fs := by
  unfold Machine.free
  rw [splitTop_map]
  cases splitTop t fs with
  | none => rfl
  | some p => exact h.foreign p.2.1.pc

/-- The concrete state stands for the abstract one. -/
def Represents (link : Pc → Pc') (R : σ' → σ → List (Frame Pc) → Prop) (s : State σ' Pc')
    (a : State σ Pc) : Prop :=
  s.frames = a.frames.map (Frame.map link) ∧ R s.shared a.shared a.frames

theorem run_or_stutter (h : Refines C A link R I) {s s' : State σ' Pc'} {a : State σ Pc}
    {t : Nat} {c : Choice'} (hrep : Represents link R s a) (hI : I a)
    (hstep : C.step s (.run t c) = some s') :
    (∃ c' a', A.step a (.run t c') = some a' ∧ Represents link R s' a') ∨
      Represents link R s' a := by
  obtain ⟨sh, fs⟩ := s
  obtain ⟨ash, afs⟩ := a
  obtain ⟨rfl, hR⟩ := hrep
  simp only [Machine.step, splitTop_map] at hstep
  cases hsplit : splitTop t afs with
  | none => simp [hsplit] at hstep
  | some p =>
      obtain ⟨l, ⟨u, pc⟩, r⟩ := p
      obtain ⟨rfl, hu, -⟩ := splitTop_eq_some hsplit
      obtain rfl : u = t := hu
      simp only [hsplit, Option.map_some] at hstep
      obtain ⟨⟨sh', pcs'⟩, hexec, rfl⟩ := Option.map_eq_some_iff.mp hstep
      rcases h.exec hR hI hexec with ⟨c', ash', pcs, haexec, rfl, hR'⟩ | ⟨rfl, hR'⟩
      · refine .inl ⟨c', ⟨ash', l ++ pcs.map (Frame.mk u) ++ r⟩, ?_, ?_, hR'⟩
        · simp [Machine.step, hsplit, haexec]
        · rw [List.map_append, List.map_append, map_frame_mk]
      · refine .inr ⟨?_, hR'⟩
        simp [Frame.map]

theorem enter_or_stutter (h : Refines C A link R I) {s s' : State σ' Pc'} {a : State σ Pc}
    {t : Nat} {e : Entry'} (hrep : Represents link R s a) (hI : I a)
    (hstep : C.step s (.enter t e) = some s') :
    (∃ e' a', A.step a (.enter t e') = some a' ∧ Represents link R s' a') ∨
      Represents link R s' a := by
  obtain ⟨sh, fs⟩ := s
  obtain ⟨ash, afs⟩ := a
  obtain ⟨rfl, hR⟩ := hrep
  simp only [Machine.step, h.free_eq] at hstep
  cases hfree : A.free t afs with
  | false => simp [hfree] at hstep
  | true =>
      simp only [hfree, if_true] at hstep
      obtain ⟨⟨sh', pcs'⟩, henter, rfl⟩ := Option.map_eq_some_iff.mp hstep
      rcases h.enter hR hI henter with ⟨e', ash', pcs, haenter, rfl, hR'⟩ | ⟨rfl, hR'⟩
      · refine .inl ⟨e', ⟨ash', pcs.map (Frame.mk t) ++ afs⟩, ?_, ?_, hR'⟩
        · simp [Machine.step, hfree, haenter]
        · rw [List.map_append, map_frame_mk]
      · exact .inr ⟨rfl, hR'⟩

theorem step (h : Refines C A link R I) {s s' : State σ' Pc'} {a : State σ Pc}
    {e : Event Choice' Entry'} (hrep : Represents link R s a) (hI : I a)
    (hstep : C.step s e = some s') :
    (∃ e' a', A.step a e' = some a' ∧ Represents link R s' a') ∨ Represents link R s' a := by
  cases e with
  | run t c =>
      rcases h.run_or_stutter hrep hI hstep with ⟨c', a', hastep, hrep'⟩ | hrep'
      · exact .inl ⟨_, a', hastep, hrep'⟩
      · exact .inr hrep'
  | enter t e =>
      rcases h.enter_or_stutter hrep hI hstep with ⟨e', a', hastep, hrep'⟩ | hrep'
      · exact .inl ⟨_, a', hastep, hrep'⟩
      · exact .inr hrep'

/-- Whatever the concrete machine reaches stands for something that the abstract
one reaches. -/
theorem reachable (h : Refines C A link R I) {init' : State σ' Pc' → Prop}
    {init : State σ Pc → Prop} (hinit : ∀ s, init' s → ∃ a, init a ∧ Represents link R s a)
    (hI : ∀ a, A.Reachable init a → I a) {s : State σ' Pc'} (hs : C.Reachable init' s) :
    ∃ a, A.Reachable init a ∧ Represents link R s a := by
  induction hs with
  | init hi =>
      obtain ⟨a, ha, hrep⟩ := hinit _ hi
      exact ⟨a, .init ha, hrep⟩
  | step _ _ hstep ih =>
      obtain ⟨a, ha, hrep⟩ := ih
      rcases h.step hrep (hI a ha) hstep with ⟨e', a', hastep, hrep'⟩ | hrep'
      · exact ⟨a', .step ha rfl hastep, hrep'⟩
      · exact ⟨a, ha, hrep'⟩

end Refines

end Capy.CallStack
