import Mathlib.Data.List.Nodup
import Capy.Coroutine

namespace Capy.Coroutine

open Capy.DirectStyle

variable {S Op V E : Type*}

/-- A promise whose body has neither returned nor thrown. -/
def fresh (env : Nat) (kind : Kind) (h : Handle) : Promise V E :=
  ((Promise.new kind).setContinuation h).setEnvironment (some env)

/-- The frames that wait above frame `f`, which goes back to `h` when it ends:
each awaits the next one below it. -/
inductive Callers (heap : Nat → Option (Frame S V E)) (env : Nat) :
    Nat → Handle → List (Kind × (Result V E → S)) → List Nat → Prop
  | owner : Callers heap env 0 .owner [] []
  | frame {f p h kind k cs ids} :
      heap p = some ⟨fresh env kind h, .atChild f true k⟩ → p < f →
      Callers heap env p h cs ids → Callers heap env f (.frame p) ((kind, k) :: cs) (p :: ids)

theorem Callers.congr {heap heap' : Nat → Option (Frame S V E)} {env f : Nat} {h : Handle}
    {cs : List (Kind × (Result V E → S))} {ids : List Nat} (hcs : Callers heap env f h cs ids)
    (heq : ∀ i, i < f → heap' i = heap i) : Callers heap' env f h cs ids := by
  induction hcs with
  | owner => exact .owner
  | frame hp hlt _ ih =>
      exact .frame ((heq _ hlt).trans hp) hlt (ih fun i hi => heq i (Nat.lt_trans hi hlt))

theorem Callers.update {heap : Nat → Option (Frame S V E)} {env f g : Nat} {h : Handle}
    {cs : List (Kind × (Result V E → S))} {ids : List Nat} (hcs : Callers heap env f h cs ids)
    (hle : f ≤ g) (fr : Option (Frame S V E)) :
    Callers (Function.update heap g fr) env f h cs ids := by
  refine hcs.congr fun i hi => ?_
  have hne : i ≠ g := by omega
  exact Function.update_of_ne hne ..

/-- The live frames are the frames of the chain, and every other frame there has
been was freed once. -/
structure Kept (heap : Nat → Option (Frame S V E)) (next : Nat) (freed ids : List Nat) :
    Prop where
  live : ∀ i, heap i ≠ none ↔ i ∈ ids
  made : ∀ i, i < next ↔ i ∈ ids ∨ i ∈ freed
  nodup : (ids ++ freed).Nodup

namespace Kept

variable {heap : Nat → Option (Frame S V E)} {next f : Nat} {freed ids : List Nat}

theorem set (h : Kept heap next freed ids) (hf : f ∈ ids) (fr : Frame S V E) :
    Kept (Function.update heap f (some fr)) next freed ids := by
  refine ⟨fun i => ?_, h.made, h.nodup⟩
  rcases eq_or_ne i f with rfl | hne
  · simp [hf]
  · rw [Function.update_of_ne hne]
    exact h.live i

theorem allocate (h : Kept heap next freed ids) (fr : Frame S V E) :
    Kept (Function.update heap next (some fr)) (next + 1) freed (next :: ids) := by
  have hnew : next ∉ ids ++ freed := by
    intro hmem
    exact Nat.lt_irrefl next ((h.made next).mpr (List.mem_append.mp hmem))
  refine ⟨fun i => ?_, fun i => ?_, List.nodup_cons.mpr ⟨hnew, h.nodup⟩⟩
  · rcases eq_or_ne i next with rfl | hne
    · simp
    · rw [Function.update_of_ne hne, List.mem_cons, h.live i]
      simp [hne]
  · rw [List.mem_cons, or_assoc, ← h.made i]
    omega

theorem free (h : Kept heap next freed (f :: ids)) :
    Kept (Function.update heap f none) next (freed ++ [f]) ids := by
  have hnodup := List.nodup_cons.mp h.nodup
  refine ⟨fun i => ?_, fun i => ?_, ?_⟩
  · rcases eq_or_ne i f with rfl | hne
    · simp only [Function.update_self, ne_eq, not_true_eq_false, false_iff]
      exact fun hmem => hnodup.1 (List.mem_append_left _ hmem)
    · rw [Function.update_of_ne hne, h.live i, List.mem_cons]
      simp [hne]
  · rw [h.made i]
    simp only [List.mem_cons, List.mem_append, List.not_mem_nil]
    tauto
  · rw [← List.append_assoc]
    exact (List.nodup_append_comm.mp (by simpa using h.nodup))

end Kept

/-- Where the segment stands, as the direct-style machine sees it, and its live
frames, innermost first. -/
inductive Stands (env : Nat) (σ : State S Op V E) :
    Config S V (Exc E) Kind → List Nat → Prop
  | entering {f kind s h cs ids} : σ.control = .resume (.frame f) →
      σ.heap f = some ⟨fresh env kind h, .initial s⟩ → Callers σ.heap env f h cs ids →
      Stands env σ ⟨.enter kind s, cs⟩ (f :: ids)
  | running {f kind s h cs ids} : σ.control = .body f s →
      σ.heap f = some ⟨fresh env kind h, .running⟩ → Callers σ.heap env f h cs ids →
      Stands env σ ⟨.run kind s, cs⟩ (f :: ids)
  | waiting {f kind k h cs ids} : σ.control = .suspended f →
      σ.heap f = some ⟨fresh env kind h, .atOp k⟩ → Callers σ.heap env f h cs ids →
      Stands env σ ⟨.wait kind k, cs⟩ (f :: ids)
  | woken {f kind k r h cs ids} : σ.control = .resume (.frame f) →
      σ.heap f = some ⟨fresh env kind h, .opDone r k⟩ → Callers σ.heap env f h cs ids →
      Stands env σ ⟨.woken kind k r, cs⟩ (f :: ids)
  | finishing {f promise r cs ids} : σ.control = .finalSuspend f →
      σ.heap f = some ⟨promise, .running⟩ → promise.awaitResume = some r →
      Callers σ.heap env f promise.cont cs ids → Stands env σ ⟨.finish r, cs⟩ (f :: ids)
  | returning {f promise r h cs ids} : σ.control = .resume h →
      σ.heap f = some ⟨promise, .final⟩ → promise.awaitResume = some r →
      Callers σ.heap env f h cs ids → Stands env σ ⟨.finish r, cs⟩ (f :: ids)
  | leaving {f child lent kind s promise h cs ids} : σ.control = .leave f child lent s →
      σ.heap child = some ⟨promise, .final⟩ → f < child →
      σ.heap f = some ⟨fresh env kind h, .running⟩ → Callers σ.heap env f h cs ids →
      Stands env σ ⟨.run kind s, cs⟩ (child :: f :: ids)
  | dropping {f child kind s promise h cs ids} :
      σ.control = .destroy [child] (some (f, s)) →
      σ.heap child = some ⟨promise, .final⟩ → f < child →
      σ.heap f = some ⟨fresh env kind h, .running⟩ → Callers σ.heap env f h cs ids →
      Stands env σ ⟨.run kind s, cs⟩ (child :: f :: ids)
  | dropped {f kind s h cs ids} : σ.control = .destroy [] (some (f, s)) →
      σ.heap f = some ⟨fresh env kind h, .running⟩ → Callers σ.heap env f h cs ids →
      Stands env σ ⟨.run kind s, cs⟩ (f :: ids)

/-- What a coroutine of this kind observes when it looks for a stop. -/
def looked (kind : Kind) (stop : Bool) : List (Obs Op V (Exc E)) :=
  match kind with
  | .task => []
  | .quitter => [.check stop]

theorem checkStop_fresh (σ : State S Op V E) (env : Nat) (kind : Kind) (h : Handle) :
    σ.checkStop (fresh env kind h) =
      some (decide (kind = .quitter) && σ.stop, σ.observe (looked kind σ.stop)) := by
  cases kind
  · simp [State.checkStop, fresh, Promise.new, Promise.setContinuation, Promise.setEnvironment,
      State.observe, looked]
  · simp [State.checkStop, fresh, Promise.new, Promise.setContinuation, Promise.setEnvironment,
      looked]

/-- What a resumption observes: the stop, or no stop and the result. -/
def seenBy (kind : Kind) (stop : Bool) (seen : List (Obs Op V (Exc E))) :
    List (Obs Op V (Exc E)) :=
  looked kind stop ++ if decide (kind = .quitter) && stop then [] else seen

/-- What a resumption hands over. -/
def handed (kind : Kind) (stop : Bool) (r : Result V E) : Result V E :=
  if decide (kind = .quitter) && stop then .error .stopRequested else r

theorem guarded (code : S → Act S Op V (Exc E) Kind) (kind : Kind) (stop : Bool)
    (seen : List (Obs Op V (Exc E))) (r : Result V E) :
    Guarded (language code) kind seen r (seenBy kind stop seen) (handed kind stop r) := by
  rcases kind with _ | _
  · exact .skip rfl
  · cases stop
    · exact .pass rfl
    · exact .stop rfl

theorem awaitResume_returnValue (env : Nat) (kind : Kind) (h : Handle) (v : V) :
    ((fresh env kind h : Promise V E).returnValue v).awaitResume = some (.ok v) := by
  cases kind <;> rfl

theorem awaitResume_unhandledException (env : Nat) (kind : Kind) (h : Handle) (x : Exc E) :
    ((fresh env kind h : Promise V E).unhandledException x).awaitResume = some (.error x) := by
  cases kind <;> cases x <;> rfl

theorem cont_unhandledException (p : Promise V E) (x : Exc E) :
    (p.unhandledException x).cont = p.cont := by
  obtain ⟨kind, _⟩ := p
  cases kind <;> cases x <;> rfl

/-- The observations `w` are made between these states, and every look for a stop
finds what the token says. -/
structure Observes (σ : State S Op V E) (w : List (Obs Op V (Exc E))) (σ' : State S Op V E) :
    Prop where
  log : σ'.log = σ.log ++ w
  stop : σ'.stop = σ.stop
  checks : ∀ b, .check b ∈ w → b = σ.stop

theorem Observes.silent {σ σ' : State S Op V E} (hlog : σ'.log = σ.log)
    (hstop : σ'.stop = σ.stop) : Observes σ [] σ' :=
  ⟨by simp [hlog], hstop, by simp⟩

theorem Observes.looked {σ σ' : State S Op V E} (kind : Kind)
    (hlog : σ'.log = σ.log ++ looked kind σ.stop) (hstop : σ'.stop = σ.stop) :
    Observes σ (looked kind σ.stop) σ' := by
  refine ⟨hlog, hstop, fun b hb => ?_⟩
  cases kind <;> simp_all [Coroutine.looked]

theorem Observes.seenBy {σ σ' : State S Op V E} (kind : Kind)
    {seen : List (Obs Op V (Exc E))} (hseen : ∀ b, .check b ∉ seen)
    (hlog : σ'.log = σ.log ++ seenBy kind σ.stop seen) (hstop : σ'.stop = σ.stop) :
    Observes σ (seenBy kind σ.stop seen) σ' := by
  refine ⟨hlog, hstop, fun b hb => ?_⟩
  unfold Coroutine.seenBy at hb
  rcases List.mem_append.mp hb with hb | hb
  · cases kind <;> simp_all [Coroutine.looked]
  · split at hb
    · simp at hb
    · exact absurd hb (hseen b)

/-- How many steps of its own the segment makes before the direct-style machine
moves. -/
def lag : Control S V E → Nat
  | .finalSuspend _ => 1
  | .leave _ _ _ _ => 3
  | .destroy frames _ => 1 + frames.length
  | _ => 0

/-- A step of the segment is a step of the direct-style machine, or one of those
that lead up to it. -/
structure Moves (code : S → Act S Op V (Exc E) Kind) (env : Nat) (σ : State S Op V E)
    (c : Config S V (Exc E) Kind) (σ' : State S Op V E) (c' : Config S V (Exc E) Kind)
    (ids : List Nat) (w : List (Obs Op V (Exc E))) : Prop where
  stands : Stands env σ' c' ids
  kept : Kept σ'.heap σ'.next σ'.freed ids
  observes : Observes σ w σ'
  step : c' = c ∧ w = [] ∧ lag σ'.control < lag σ.control ∨ Step (language code) c w c'

def Simulates (code : S → Act S Op V (Exc E) Kind) (env : Nat) (σ : State S Op V E)
    (c : Config S V (Exc E) Kind) (σ' : State S Op V E) : Prop :=
  ∃ c' ids w, Moves code env σ c σ' c' ids w

variable {code : S → Act S Op V (Exc E) Kind} {env : Nat} {σ : State S Op V E}

theorem simulates_resumeInitial {f : Nat} {kind : Kind} {s : S} {h : Handle}
    {cs : List (Kind × (Result V E → S))} {ids : List Nat}
    (hcs : Callers σ.heap env f h cs ids) (hkept : Kept σ.heap σ.next σ.freed (f :: ids))
    (point : Point S V E) :
    Simulates code env σ ⟨.enter kind s, cs⟩
      (σ.resumeInitial f ⟨fresh env kind h, point⟩ s) := by
  unfold State.resumeInitial
  rw [checkStop_fresh]
  cases hfound : (decide (kind = .quitter) && σ.stop) with
  | false =>
      refine ⟨⟨.run kind s, cs⟩, f :: ids, looked kind σ.stop,
        .running rfl (Function.update_self ..) (hcs.update (Nat.le_refl f) _),
        hkept.set (by simp) _, .looked kind rfl rfl, .inr ?_⟩
      cases kind with
      | task => exact .skip rfl
      | quitter =>
          have hstop : σ.stop = false := by simpa using hfound
          rw [hstop]
          exact .pass rfl
  | true =>
      obtain ⟨rfl, hstop⟩ : kind = .quitter ∧ σ.stop = true := by simpa using hfound
      refine ⟨_, f :: ids, looked .quitter σ.stop,
        .finishing rfl (Function.update_self ..) (awaitResume_unhandledException ..)
          (by rw [cont_unhandledException]; exact hcs.update (Nat.le_refl f) _),
        hkept.set (by simp) _, .looked _ rfl rfl, .inr ?_⟩
      rw [hstop]
      exact .stop rfl

theorem simulates_resumeOp {f : Nat} {kind : Kind} {r : Result V E} {k : Result V E → S}
    {h : Handle} {cs : List (Kind × (Result V E → S))} {ids : List Nat}
    (hcs : Callers σ.heap env f h cs ids) (hkept : Kept σ.heap σ.next σ.freed (f :: ids))
    (point : Point S V E) :
    Simulates code env σ ⟨.woken kind k r, cs⟩
      (σ.resumeOp f ⟨fresh env kind h, point⟩ r k) := by
  have hstep : Step (language code) ⟨.woken kind k r, cs⟩ (seenBy kind σ.stop [.result r])
      ⟨.run kind (k (handed kind σ.stop r)), cs⟩ := .resume (guarded ..)
  unfold State.resumeOp
  rw [checkStop_fresh]
  cases hfound : (decide (kind = .quitter) && σ.stop) with
  | false =>
      refine ⟨⟨.run kind (k r), cs⟩, f :: ids, seenBy kind σ.stop [.result r],
        .running rfl (Function.update_self ..) (hcs.update (Nat.le_refl f) _),
        hkept.set (by simp) _, .seenBy kind (by simp) ?_ rfl, .inr ?_⟩
      · simp [seenBy, hfound, State.goto, State.set, State.observe]
      · simpa [handed, hfound] using hstep
  | true =>
      refine ⟨⟨.run kind (k (.error .stopRequested)), cs⟩, f :: ids,
        seenBy kind σ.stop [.result r],
        .running rfl (Function.update_self ..) (hcs.update (Nat.le_refl f) _),
        hkept.set (by simp) _, .seenBy kind (by simp) ?_ rfl, .inr ?_⟩
      · simp [seenBy, hfound, State.goto, State.set, State.observe]
      · simpa [handed, hfound] using hstep

theorem simulates_resumeChild {f child : Nat} {promise : Promise V E} {kind : Kind}
    {r : Result V E} {k : Result V E → S}
    {h : Handle} {cs : List (Kind × (Result V E → S))} {ids : List Nat}
    (hchild : σ.heap child = some ⟨promise, .final⟩) (hr : promise.awaitResume = some r)
    (hlt : f < child) (hcs : Callers σ.heap env f h cs ids)
    (hkept : Kept σ.heap σ.next σ.freed (child :: f :: ids)) (point : Point S V E) :
    Simulates code env σ ⟨.finish r, (kind, k) :: cs⟩
      (σ.resumeChild f ⟨fresh env kind h, point⟩ child true k) := by
  have hstep : Step (language code) ⟨.finish r, (kind, k) :: cs⟩ (seenBy kind σ.stop [])
      ⟨.run kind (k (handed kind σ.stop r)), cs⟩ := .back (guarded ..)
  have hchild' (fr : Frame S V E) :
      Function.update σ.heap f (some fr) child = some ⟨promise, .final⟩ := by
    rw [Function.update_of_ne (by omega)]
    exact hchild
  unfold State.resumeChild
  rw [checkStop_fresh]
  cases hfound : (decide (kind = .quitter) && σ.stop) with
  | false =>
      simp only [hchild, Option.bind_some, hr]
      refine ⟨⟨.run kind (k r), cs⟩, child :: f :: ids, seenBy kind σ.stop [],
        .leaving rfl (hchild' _) hlt (Function.update_self ..)
          (hcs.update (Nat.le_refl f) _),
        hkept.set (by simp) _, .seenBy kind (by simp) ?_ rfl, .inr ?_⟩
      · simp [seenBy, State.goto, State.set, State.observe]
      · simpa [handed, hfound] using hstep
  | true =>
      refine ⟨⟨.run kind (k (.error .stopRequested)), cs⟩, child :: f :: ids,
        seenBy kind σ.stop [],
        .leaving rfl (hchild' _) hlt (Function.update_self ..)
          (hcs.update (Nat.le_refl f) _),
        hkept.set (by simp) _, .seenBy kind (by simp) ?_ rfl, .inr ?_⟩
      · simp [seenBy, State.goto, State.set, State.observe]
      · simpa [handed, hfound] using hstep

theorem simulates_body {f : Nat} {kind : Kind} {s : S} {h : Handle}
    {cs : List (Kind × (Result V E → S))} {ids : List Nat}
    (hcs : Callers σ.heap env f h cs ids) (hkept : Kept σ.heap σ.next σ.freed (f :: ids))
    (point : Point S V E) :
    Simulates code env σ ⟨.run kind s, cs⟩ (σ.body code f ⟨fresh env kind h, point⟩ s) := by
  unfold State.body
  cases hcode : code s with
  | ret v =>
      exact ⟨_, f :: ids, [],
        .finishing rfl (Function.update_self ..) (awaitResume_returnValue ..)
          (hcs.update (Nat.le_refl f) _),
        hkept.set (by simp) _, .silent rfl rfl, .inr (.ret hcode)⟩
  | throws x =>
      exact ⟨_, f :: ids, [],
        .finishing rfl (Function.update_self ..) (awaitResume_unhandledException ..)
          (by rw [cont_unhandledException]; exact hcs.update (Nat.le_refl f) _),
        hkept.set (by simp) _, .silent rfl rfl, .inr (.throws hcode)⟩
  | op o k =>
      exact ⟨⟨.wait kind k, cs⟩, f :: ids, [.start o],
        .waiting rfl (Function.update_self ..) (hcs.update (Nat.le_refl f) _),
        hkept.set (by simp) _, ⟨rfl, rfl, by simp⟩, .inr (.op hcode)⟩
  | call kind' child k =>
      have hf : f < σ.next := (hkept.made f).mpr (.inl (by simp))
      have hkept' := (hkept.set (f := f) (by simp) ⟨fresh env kind h, .atChild σ.next true k⟩)
      refine ⟨⟨.enter kind' child, (kind, k) :: cs⟩, σ.next :: f :: ids, [],
        .entering (h := .frame f) rfl (Function.update_self ..)
          (.frame (h := h) ?_ hf ?_),
        hkept'.allocate _, .silent rfl rfl, .inr (.call hcode)⟩
      · change Function.update (Function.update σ.heap f _) σ.next _ f = _
        rw [Function.update_of_ne (by omega), Function.update_self]
      · exact (hcs.update (Nat.le_refl f) _).update (Nat.le_of_lt hf) _

theorem simulates_run {c : Config S V (Exc E) Kind} {ids : List Nat} {σ' : State S Op V E}
    (hs : Stands env σ c ids) (hkept : Kept σ.heap σ.next σ.freed ids)
    (hrun : σ.run code = some σ') : Simulates code env σ c σ' := by
  cases hs with
  | entering hcontrol hf hcs =>
      obtain rfl := by simpa [State.run, State.resume, hcontrol, hf] using hrun
      exact simulates_resumeInitial hcs hkept _
  | running hcontrol hf hcs =>
      obtain rfl := by simpa [State.run, hcontrol, hf] using hrun
      exact simulates_body hcs hkept _
  | waiting hcontrol => simp [State.run, hcontrol] at hrun
  | woken hcontrol hf hcs =>
      obtain rfl := by simpa [State.run, State.resume, hcontrol, hf] using hrun
      exact simulates_resumeOp hcs hkept _
  | finishing hcontrol hf hr hcs =>
      obtain rfl := by simpa [State.run, hcontrol, hf] using hrun
      exact ⟨_, _, [], .returning rfl (Function.update_self ..) hr (hcs.update (Nat.le_refl _) _),
        hkept.set (by simp) _, .silent rfl rfl,
        .inl ⟨rfl, rfl, by simp [lag, hcontrol, State.finalSuspend, State.goto]⟩⟩
  | returning hcontrol hf hr hcs =>
      cases hcs with
      | owner => simp [State.run, State.resume, hcontrol] at hrun
      | frame hp hlt hcs =>
          obtain rfl := by simpa [State.run, State.resume, hcontrol, hp] using hrun
          exact simulates_resumeChild hf hr hlt hcs hkept _
  | leaving hcontrol hchild hlt hf hcs =>
      obtain rfl := by
        simpa [State.run, State.destroyFrame, hcontrol, hchild, Point.done] using hrun
      exact ⟨_, _, [], .dropping rfl hchild hlt hf hcs, hkept, .silent rfl rfl,
        .inl ⟨rfl, rfl, by simp [lag, hcontrol, State.goto]⟩⟩
  | @dropping f child kind s promise h cs ids hcontrol hchild hlt hf hcs =>
      obtain rfl := by
        simpa [State.run, State.destroy, hcontrol, hchild] using hrun
      refine ⟨⟨.run kind s, cs⟩, f :: ids, [], .dropped (h := h) rfl ?_
        (hcs.update (Nat.le_of_lt hlt) _), hkept.free, .silent rfl rfl,
        .inl ⟨rfl, rfl, by simp [lag, hcontrol, State.goto]⟩⟩
      change Function.update σ.heap child none f = _
      rw [Function.update_of_ne (by omega)]
      exact hf
  | dropped hcontrol hf hcs =>
      obtain rfl := by simpa [State.run, State.destroy, hcontrol] using hrun
      exact ⟨_, _, [], .running rfl hf hcs, hkept, .silent rfl rfl,
        .inl ⟨rfl, rfl, by simp [lag, hcontrol, State.goto]⟩⟩

theorem simulates_complete {c : Config S V (Exc E) Kind} {ids : List Nat}
    {σ' : State S Op V E} {r : Result V E} (hs : Stands env σ c ids)
    (hkept : Kept σ.heap σ.next σ.freed ids) (hstep : step code σ (.complete r) = some σ') :
    Simulates code env σ c σ' := by
  cases hs
  case waiting f kind k h cs ids hcontrol hf hcs =>
    obtain rfl := by simpa [step, hcontrol, hf] using hstep
    exact ⟨⟨.woken kind k r, cs⟩, _, [], .woken rfl (Function.update_self ..)
      (hcs.update (Nat.le_refl f) _),
      hkept.set (by simp) _, .silent rfl rfl, .inr .complete⟩
  all_goals simp_all [step]

theorem Stands.requestStop {c : Config S V (Exc E) Kind} {ids : List Nat}
    (hs : Stands env σ c ids) : Stands env { σ with stop := true } c ids := by
  cases hs with
  | entering hcontrol hf hcs => exact .entering hcontrol hf hcs
  | running hcontrol hf hcs => exact .running hcontrol hf hcs
  | waiting hcontrol hf hcs => exact .waiting hcontrol hf hcs
  | woken hcontrol hf hcs => exact .woken hcontrol hf hcs
  | finishing hcontrol hf hr hcs => exact .finishing hcontrol hf hr hcs
  | returning hcontrol hf hr hcs => exact .returning hcontrol hf hr hcs
  | leaving hcontrol hchild hlt hf hcs => exact .leaving hcontrol hchild hlt hf hcs
  | dropping hcontrol hchild hlt hf hcs => exact .dropping hcontrol hchild hlt hf hcs
  | dropped hcontrol hf hcs => exact .dropped hcontrol hf hcs

/-- The frames below `g`, outermost first: each awaits the next, and the last
one awaits an operation. -/
inductive Below (heap : Nat → Option (Frame S V E)) : Nat → List Nat → Prop
  | atOp {g promise k} : heap g = some ⟨promise, .atOp k⟩ → Below heap g []
  | atChild {g promise child lent k l} : heap g = some ⟨promise, .atChild child lent k⟩ →
      Below heap child l → Below heap g (child :: l)

theorem Below.congr {heap heap' : Nat → Option (Frame S V E)} {g : Nat} {l : List Nat}
    (h : Below heap g l) (heq : ∀ i ∈ g :: l, heap' i = heap i) : Below heap' g l := by
  induction h with
  | atOp hg => exact .atOp ((heq _ (by simp)).trans hg)
  | atChild hg _ ih =>
      exact .atChild ((heq _ (by simp)).trans hg) (ih fun i hi => heq i (List.mem_cons_of_mem _ hi))

theorem Callers.exists_below {heap : Nat → Option (Frame S V E)} {f : Nat} {h : Handle}
    {cs : List (Kind × (Result V E → S))} {ids l : List Nat} (hcs : Callers heap env f h cs ids)
    (hl : Below heap f l) : ∃ l', Below heap 0 l' ∧ 0 :: l' = ids.reverse ++ f :: l := by
  induction hcs generalizing l with
  | owner => exact ⟨l, hl, rfl⟩
  | frame hp _ _ ih =>
      obtain ⟨l', hl', heq⟩ := ih (.atChild hp hl)
      exact ⟨l', hl', by simpa using heq⟩

/-- The frames are inside the destructor of what they await. -/
def InDestructor (heap : Nat → Option (Frame S V E)) (frames : List Nat) : Prop :=
  ∀ i ∈ frames, ∃ promise, heap i = some ⟨promise, .unwinding⟩

theorem InDestructor.update {heap : Nat → Option (Frame S V E)} {frames : List Nat} {g : Nat}
    (h : InDestructor heap frames) (hg : ∀ i ∈ frames, i ≠ g) (fr : Option (Frame S V E)) :
    InDestructor (Function.update heap g fr) frames := by
  intro i hi
  obtain ⟨promise, hi'⟩ := h i hi
  refine ⟨promise, ?_⟩
  rw [Function.update_of_ne (hg i hi)]
  exact hi'

theorem Kept.ne {heap : Nat → Option (Frame S V E)} {next g : Nat} {freed l above : List Nat}
    (h : Kept heap next freed (l ++ g :: above)) : ∀ i ∈ l ++ above, i ≠ g := by
  have hnodup := List.nodup_middle.mp (List.nodup_append.mp h.nodup).1
  rintro i hi rfl
  exact (List.nodup_cons.mp hnodup).1 hi

/-- An abandoned segment being destroyed, with the frames that are left and the
steps to the end: on the way down the frames above are inside the destructor of
what they await, on the way up they are freed. -/
inductive Unwinds (σ : State S Op V E) : List Nat → Nat → Prop
  | down {g above l} : σ.control = .destroy (g :: above) none → Below σ.heap g l →
      InDestructor σ.heap above →
      Unwinds σ (l.reverse ++ g :: above) (2 * l.length + above.length + 2)
  | up {frames} : σ.control = .destroy frames none → InDestructor σ.heap frames →
      Unwinds σ frames (frames.length + 1)
  | done : σ.control = .unwound → Unwinds σ [] 0

theorem Stands.abandon {c : Config S V (Exc E) Kind} {ids : List Nat} {σ' : State S Op V E}
    (hs : Stands env σ c ids) (hstep : step code σ .abandon = some σ') :
    (∃ n, Unwinds σ' ids n) ∧ σ'.heap = σ.heap ∧ σ'.next = σ.next ∧ σ'.freed = σ.freed ∧
      σ'.abandoned = true := by
  cases hs
  case waiting f kind k h cs ids hcontrol hf hcs =>
    obtain rfl := by simpa [step, hcontrol] using hstep
    obtain ⟨l, hl, heq⟩ := hcs.exists_below (.atOp hf)
    refine ⟨?_, rfl, rfl, rfl, rfl⟩
    have hids : f :: ids = l.reverse ++ [0] := by
      have hrev := congrArg List.reverse heq
      simpa using hrev.symm
    rw [hids]
    exact ⟨_, .down rfl hl (by simp [InDestructor])⟩
  all_goals simp_all [step]

theorem destroyFrame_of_abandoned {child : Nat} {c : Frame S V E} {lent : Bool}
    {frames : List Nat} {after : Option (Nat × S)} (hc : σ.heap child = some c)
    (habandoned : σ.abandoned = true) :
    σ.destroyFrame child lent frames after = σ.goto (.destroy (child :: frames) after) := by
  simp [State.destroyFrame, hc, habandoned]

/-- Every step of the unwind brings it nearer to its end, and the frames come off
innermost first. -/
theorem Unwinds.run {ids : List Nat} {n : Nat} {σ' : State S Op V E} (hs : Unwinds σ ids n)
    (hkept : Kept σ.heap σ.next σ.freed ids) (habandoned : σ.abandoned = true)
    (hrun : σ.run code = some σ') :
    ∃ ids' n', Unwinds σ' ids' n' ∧ Kept σ'.heap σ'.next σ'.freed ids' ∧ n = n' + 1 ∧
      σ'.abandoned = true ∧ σ'.freed ++ ids' = σ.freed ++ ids ∧ σ'.log = σ.log := by
  cases hs with
  | @down g above l hcontrol hl habove =>
      have hne := hkept.ne
      cases hl with
      | atOp hg =>
          obtain rfl := by simpa [State.run, State.destroy, hcontrol, hg] using hrun
          exact ⟨above, _, .up rfl (habove.update hne _), hkept.free, by simp, habandoned,
            by simp [State.free, State.goto], rfl⟩
      | @atChild _ promise child lent k l hg hl =>
          have hchild : child ≠ g := hne child (by simp)
          obtain ⟨c, hc⟩ := Option.ne_none_iff_exists'.mp ((hkept.live child).mpr (by simp))
          have hc' : (σ.set g ⟨promise, .unwinding⟩).heap child = some c :=
            (Function.update_of_ne hchild ..).trans hc
          obtain rfl := by
            simpa [State.run, State.destroy, hcontrol, hg,
              destroyFrame_of_abandoned hc' habandoned] using hrun
          have hkept' := hkept.set (f := g) (by simp) ⟨promise, .unwinding⟩
          rw [List.reverse_cons, List.append_assoc] at hkept'
          refine ⟨l.reverse ++ child :: g :: above, _, .down rfl (hl.congr fun i hi => ?_) ?_,
            hkept', by simp; omega, habandoned, by simp [State.goto, State.set], rfl⟩
          · have hi' : i ∈ (child :: l).reverse ++ above := by
              rw [List.mem_append, List.mem_reverse]
              exact .inl hi
            exact Function.update_of_ne (hne i hi') ..
          · refine List.forall_mem_cons.mpr ⟨⟨promise, Function.update_self ..⟩, ?_⟩
            exact habove.update (fun i hi => hne i (by simp [hi])) _
  | up hcontrol hframes =>
      cases ids with
      | nil =>
          obtain rfl := by simpa [State.run, State.destroy, hcontrol] using hrun
          exact ⟨[], _, .done rfl, hkept, rfl, habandoned, rfl, rfl⟩
      | cons g frames =>
          obtain ⟨promise, hg⟩ := hframes g (by simp)
          have hrest : InDestructor σ.heap frames := fun i hi =>
            hframes i (List.mem_cons_of_mem _ hi)
          obtain rfl := by simpa [State.run, State.destroy, hcontrol, hg] using hrun
          exact ⟨frames, _, .up rfl (hrest.update (hkept.ne (l := [])) _), hkept.free, rfl,
            habandoned, by simp [State.free, State.goto], rfl⟩
  | done hcontrol => simp [State.run, hcontrol] at hrun

end Capy.Coroutine
