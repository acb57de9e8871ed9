import Capy.CallStack

namespace Capy.CallStack

variable {σ Pc Pc' Choice Entry : Type*}

/-- The activations of the component, where `proj` tells what one of the system is. -/
def projectFrames (proj : Pc' → Option Pc) (fs : List (Frame Pc')) : List (Frame Pc) :=
  fs.filterMap fun f => (proj f.pc).map (Frame.mk f.thread)

section

variable {proj : Pc' → Option Pc} {l r fs : List (Frame Pc')} {t : Nat}

theorem projectFrames_append :
    projectFrames proj (l ++ r) = projectFrames proj l ++ projectFrames proj r :=
  List.filterMap_append

theorem projectFrames_split {pc : Pc'} :
    projectFrames proj (l ++ ⟨t, pc⟩ :: r) =
      projectFrames proj l ++ (proj pc).toList.map (Frame.mk t) ++ projectFrames proj r := by
  rw [projectFrames_append]
  cases hpc : proj pc <;> simp [projectFrames, hpc]

theorem projectFrames_replace {q : Option Pc'} :
    projectFrames proj (l ++ q.toList.map (Frame.mk t) ++ r) =
      projectFrames proj l ++ (q.bind proj).toList.map (Frame.mk t) ++ projectFrames proj r := by
  cases q with
  | none => simp [projectFrames_append]
  | some pc => simpa using projectFrames_split

theorem projectFrames_enter {q : Option Pc'} :
    projectFrames proj (q.toList.map (Frame.mk t) ++ fs) =
      (q.bind proj).toList.map (Frame.mk t) ++ projectFrames proj fs := by
  have h : projectFrames proj ([] ++ q.toList.map (Frame.mk t) ++ fs) = _ := projectFrames_replace
  simpa [projectFrames] using h

theorem mem_projectFrames {pc : Pc} :
    ⟨t, pc⟩ ∈ projectFrames proj fs ↔ ∃ pc', ⟨t, pc'⟩ ∈ fs ∧ proj pc' = some pc := by
  simp only [projectFrames, List.mem_filterMap, Option.map_eq_some_iff]
  constructor
  · rintro ⟨⟨u, pc'⟩, hf, pc₀, hpc, heq⟩
    obtain ⟨rfl, rfl⟩ : u = t ∧ pc₀ = pc := by simpa using heq
    exact ⟨pc', hf, hpc⟩
  · rintro ⟨pc', hf, hpc⟩
    exact ⟨⟨t, pc'⟩, hf, pc, hpc, rfl⟩

theorem projectFrames_congr {proj' : Pc' → Option Pc} (h : ∀ f ∈ fs, proj f.pc = proj' f.pc) :
    projectFrames proj fs = projectFrames proj' fs := by
  refine List.filterMap_congr fun f hf => ?_
  rw [h f hf]

theorem projectFrames_eq_nil (h : ∀ f ∈ fs, proj f.pc = none) : projectFrames proj fs = [] := by
  refine List.filterMap_eq_nil_iff.mpr fun f hf => ?_
  rw [h f hf, Option.map_none]

theorem projectFrames_thread_ne (hl : ∀ g ∈ l, g.thread ≠ t) :
    ∀ g ∈ projectFrames proj l, g.thread ≠ t := by
  rintro ⟨u, pc⟩ hg
  obtain ⟨pc', hf, -⟩ := mem_projectFrames.mp hg
  exact hl _ hf

theorem projectFrames_foreign {foreign : Pc → Bool} {foreign' : Pc' → Bool}
    (hproj : ∀ pc pc', proj pc = some pc' → foreign' pc = true → foreign pc' = true)
    (h : ∀ f ∈ fs, f.thread = t → foreign' f.pc = true) :
    ∀ f ∈ projectFrames proj fs, f.thread = t → foreign f.pc = true := by
  rintro ⟨u, pc⟩ hf ht
  obtain ⟨pc', hf', hpc⟩ := mem_projectFrames.mp hf
  exact hproj pc' pc hpc (h _ hf' ht)

end

namespace Machine

theorem free_of_step {M : Machine σ Pc Choice Entry} {s s' : State σ Pc} {t : Nat} {e : Entry}
    (h : M.step s (.enter t e) = some s') : M.free t s.frames = true := by
  by_contra hfree
  simp [step, hfree] at h

variable {foreign : Pc → Bool}
  {exec : σ → List (Frame Pc) → Nat → Pc → Choice → Option (σ × Option Pc)}
  {enter : σ → List (Frame Pc) → Nat → Entry → Option (σ × Option Pc)}
  {init : State σ Pc → Prop}

theorem run_top {s : State σ Pc} {s' : σ} {t : Nat} {pc pc' : Pc} {c : Choice}
    (htop : topPc t s.frames = some pc)
    (hexec : exec s.shared s.frames t pc c = some (s', some pc')) :
    ∃ fs, (ofSteps foreign exec enter).step s (.run t c) = some ⟨s', fs⟩ ∧
      topPc t fs = some pc' := by
  obtain ⟨⟨l, ⟨u, pc₀⟩, r⟩, hsplit, rfl⟩ := Option.map_eq_some_iff.mp htop
  obtain ⟨-, hu, hl⟩ := splitTop_eq_some hsplit
  obtain rfl : u = t := hu
  refine ⟨l ++ ⟨u, pc'⟩ :: r, ?_, topPc_append hl⟩
  simp only [step, hsplit]
  simp [ofSteps, hexec]

theorem Reachable.run {s s' : σ} {l r : List (Frame Pc)} {t : Nat} {pc : Pc} {c : Choice}
    {q : Option Pc}
    (h : (ofSteps foreign exec enter).Reachable init
      ⟨s, l ++ (some pc).toList.map (Frame.mk t) ++ r⟩)
    (hl : ∀ g ∈ l, g.thread ≠ t)
    (hexec : exec s (l ++ ⟨t, pc⟩ :: r) t pc c = some (s', q)) :
    (ofSteps foreign exec enter).Reachable init ⟨s', l ++ q.toList.map (Frame.mk t) ++ r⟩ := by
  have hframes : l ++ (some pc).toList.map (Frame.mk t) ++ r = l ++ ⟨t, pc⟩ :: r := by simp
  rw [hframes] at h
  have hsplit := splitTop_append (f := ⟨t, pc⟩) (r := r) rfl hl
  have hstep : (ofSteps foreign exec enter).step ⟨s, l ++ ⟨t, pc⟩ :: r⟩ (.run t c) =
      some ⟨s', l ++ q.toList.map (Frame.mk t) ++ r⟩ := by
    simp only [step, hsplit]
    simp [ofSteps, hexec]
  exact .step h rfl hstep

theorem Reachable.call {s s' : σ} {fs : List (Frame Pc)} {t : Nat} {e : Entry}
    {q : Option Pc} (h : (ofSteps foreign exec enter).Reachable init ⟨s, fs⟩)
    (hforeign : ∀ f ∈ fs, f.thread = t → foreign f.pc = true)
    (henter : enter s fs t e = some (s', q)) :
    (ofSteps foreign exec enter).Reachable init ⟨s', q.toList.map (Frame.mk t) ++ fs⟩ := by
  have hfree : (ofSteps foreign exec enter).free t fs = true := by
    cases hsplit : splitTop t fs with
    | none => simp [free, hsplit]
    | some p =>
        obtain ⟨hfs, hthread, -⟩ := splitTop_eq_some hsplit
        have htop : foreign p.2.1.pc = true := hforeign p.2.1 (by simp [hfs]) hthread
        simp only [free, hsplit]
        exact htop
  have hstep : (ofSteps foreign exec enter).step ⟨s, fs⟩ (.enter t e) =
      some ⟨s', q.toList.map (Frame.mk t) ++ fs⟩ := by
    simp only [step, hfree, if_true]
    simp [ofSteps, henter]
  exact .step h rfl hstep

end Machine

end Capy.CallStack
