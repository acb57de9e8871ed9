import Capy.CoroutineRefinement

namespace Capy.Coroutine

open Capy.DirectStyle

variable {S Op V E : Type*} {code : S → Act S Op V (Exc E) Kind} {kind : Kind} {s : S}
  {env : Nat} {σ σ' : State S Op V E}

/-- A segment that has not been abandoned stands where a run of the direct-style
machine has come to with the same observations. -/
structure Follows (code : S → Act S Op V (Exc E) Kind) (kind : Kind) (s : S) (env : Nat)
    (σ : State S Op V E) (c : Config S V (Exc E) Kind) (ids : List Nat) : Prop where
  stands : Stands env σ c ids
  kept : Kept σ.heap σ.next σ.freed ids
  steps : Steps (language code) ⟨.enter kind s, []⟩ σ.log c
  stopStays : StopStays false σ.log
  found : σ.log.any Obs.findsStop = true → σ.stop = true

theorem follows_start : Follows code kind s env (start kind s env) ⟨.enter kind s, []⟩ [0] where
  stands := .entering (h := .owner) rfl rfl .owner
  kept := by
    refine ⟨fun i => ?_, fun i => ?_, by simp [start]⟩
    · rcases eq_or_ne i 0 with rfl | hne
      · simp [start]
      · simp [start, hne]
    · simp [start]
  steps := .refl
  stopStays := trivial
  found := by simp [start]

theorem Follows.moves {c c' : Config S V (Exc E) Kind} {ids ids' : List Nat}
    {w : List (Obs Op V (Exc E))} (h : Follows code kind s env σ c ids)
    (hs : Moves code env σ c σ' c' ids' w) : Follows code kind s env σ' c' ids' := by
  obtain ⟨hstands, hkept, ⟨hlog, hstop, hchecks⟩, hstep⟩ := hs
  refine ⟨hstands, hkept, ?_, ?_, ?_⟩
  · rw [hlog]
    rcases hstep with ⟨rfl, rfl, -⟩ | hstep
    · simpa using h.steps
    · exact h.steps.trans (.single hstep)
  · rw [hlog]
    exact h.stopStays.append (stopStays_of_checks hchecks h.found)
  · rw [hlog, hstop, List.any_append, Bool.or_eq_true]
    rintro (hfound | hfound)
    · exact h.found hfound
    · obtain ⟨o, ho, hfinds⟩ := List.any_eq_true.mp hfound
      cases o with
      | check b =>
          obtain rfl : b = true := hfinds
          exact (hchecks true ho).symm
      | _ => simp [Obs.findsStop] at hfinds

theorem Follows.simulates {c : Config S V (Exc E) Kind} {ids : List Nat}
    (h : Follows code kind s env σ c ids) (hs : Simulates code env σ c σ') :
    ∃ c' ids', Follows code kind s env σ' c' ids' := by
  obtain ⟨c', ids', w, hmoves⟩ := hs
  exact ⟨c', ids', h.moves hmoves⟩

/-- A segment that was abandoned, what is left of it, and in how many steps
nothing is. -/
structure Abandoned (σ : State S Op V E) (ids : List Nat) (n : Nat) : Prop where
  unwinds : Unwinds σ ids n
  kept : Kept σ.heap σ.next σ.freed ids
  abandoned : σ.abandoned = true

theorem Follows.abandon {c : Config S V (Exc E) Kind} {ids : List Nat}
    (h : Follows code kind s env σ c ids) (hstep : step code σ .abandon = some σ') :
    ∃ n, Abandoned σ' ids n := by
  obtain ⟨⟨n, hunwinds⟩, hheap, hnext, hfreed, habandoned⟩ := h.stands.abandon hstep
  refine ⟨n, hunwinds, ?_, habandoned⟩
  rw [hheap, hnext, hfreed]
  exact h.kept

theorem Follows.event {c : Config S V (Exc E) Kind} {ids : List Nat} {e : Event V E}
    (h : Follows code kind s env σ c ids) (hstep : step code σ e = some σ') :
    (∃ c' ids', Follows code kind s env σ' c' ids') ∨ ∃ n, Abandoned σ' ids n := by
  cases e with
  | run => exact .inl (h.simulates (simulates_run h.stands h.kept hstep))
  | complete r => exact .inl (h.simulates (simulates_complete h.stands h.kept hstep))
  | requestStop =>
      obtain rfl := by simpa [step] using hstep
      exact .inl ⟨c, ids, h.stands.requestStop, h.kept, h.steps, h.stopStays, fun _ => rfl⟩
  | abandon => exact .inr (h.abandon hstep)

theorem Abandoned.run {ids : List Nat} {n : Nat} (h : Abandoned σ ids n)
    (hrun : σ.run code = some σ') :
    ∃ ids' n', Abandoned σ' ids' n' ∧ n = n' + 1 ∧ σ'.freed ++ ids' = σ.freed ++ ids ∧
      σ'.log = σ.log := by
  obtain ⟨hunwinds, hkept, habandoned⟩ := h
  obtain ⟨ids', n', hunwinds, hkept, hn, habandoned, hfreed, hlog⟩ :=
    hunwinds.run hkept habandoned hrun
  exact ⟨ids', n', ⟨hunwinds, hkept, habandoned⟩, hn, hfreed, hlog⟩

theorem Abandoned.event {ids : List Nat} {n : Nat} {e : Event V E} (h : Abandoned σ ids n)
    (hstep : step code σ e = some σ') : ∃ ids' n', Abandoned σ' ids' n' := by
  cases e with
  | run =>
      obtain ⟨ids', n', habandoned, -⟩ := h.run hstep
      exact ⟨ids', n', habandoned⟩
  | requestStop =>
      obtain rfl := by simpa [step] using hstep
      refine ⟨ids, n, ?_, h.kept, h.abandoned⟩
      cases h.unwinds with
      | down hcontrol hl habove => exact .down hcontrol hl habove
      | up hcontrol hframes => exact .up hcontrol hframes
      | done hcontrol => exact .done hcontrol
  | complete r => cases h.unwinds <;> simp_all [step]
  | abandon => cases h.unwinds <;> simp_all [step]

theorem runEvents_append {es es' : List (Event V E)} {σ'' : State S Op V E}
    (h : runEvents code σ es = some σ') (h' : runEvents code σ' es' = some σ'') :
    runEvents code σ (es ++ es') = some σ'' := by
  induction es generalizing σ with
  | nil =>
      obtain rfl : σ = σ' := by simpa [runEvents] using h
      exact h'
  | cons e es ih =>
      obtain ⟨σ₁, hstep, hrest⟩ := Option.bind_eq_some_iff.mp h
      exact Option.bind_eq_some_iff.mpr ⟨σ₁, hstep, ih hrest⟩

theorem follows_or_abandoned_of_run {σ₀ : State S Op V E} (es : List (Event V E))
    (h₀ : (∃ c ids, Follows code kind s env σ₀ c ids) ∨ ∃ ids n, Abandoned σ₀ ids n)
    (hrun : runEvents code σ₀ es = some σ) :
    (∃ c ids, Follows code kind s env σ c ids) ∨ ∃ ids n, Abandoned σ ids n := by
  induction es generalizing σ₀ with
  | nil =>
      obtain rfl : σ₀ = σ := by simpa [runEvents] using hrun
      exact h₀
  | cons e es ih =>
      obtain ⟨σ₁, hstep, hrest⟩ := Option.bind_eq_some_iff.mp hrun
      refine ih ?_ hrest
      rcases h₀ with ⟨c, ids, hfollows⟩ | ⟨ids, n, habandoned⟩
      · rcases hfollows.event hstep with hfollows' | habandoned
        · exact .inl hfollows'
        · exact .inr ⟨ids, habandoned⟩
      · exact .inr (habandoned.event hstep)

theorem Reachable.follows_or_abandoned (h : Reachable code kind s env σ) :
    (∃ c ids, Follows code kind s env σ c ids) ∨ ∃ ids n, Abandoned σ ids n := by
  obtain ⟨es, hrun⟩ := h
  exact follows_or_abandoned_of_run es (.inl ⟨_, _, follows_start⟩) hrun

/-- Control has come back to the owner, whose `await_resume` gives `out`. -/
def Returned (σ : State S Op V E) (out : Result V E) : Prop :=
  σ.control = .resume .owner ∧
    ∃ promise, σ.heap 0 = some ⟨promise, .final⟩ ∧ promise.awaitResume = some out

/-- A segment in its direct-style machine's run has a step to make, waits for an
operation, or is back with its owner. -/
theorem Stands.progress (code : S → Act S Op V (Exc E) Kind) {c : Config S V (Exc E) Kind}
    {ids : List Nat} (hs : Stands env σ c ids) :
    (σ.run code).isSome = true ∨ (∃ f, σ.control = .suspended f) ∨ σ.control = .resume .owner := by
  cases hs with
  | entering hcontrol hf => simp [State.run, State.resume, hcontrol, hf]
  | running hcontrol hf => simp [State.run, hcontrol, hf]
  | waiting hcontrol => exact .inr (.inl ⟨_, hcontrol⟩)
  | woken hcontrol hf => simp [State.run, State.resume, hcontrol, hf]
  | finishing hcontrol hf => simp [State.run, hcontrol, hf]
  | returning hcontrol hf hr hcs =>
      cases hcs with
      | owner => exact .inr (.inr hcontrol)
      | frame hp => simp [State.run, State.resume, hcontrol, hp]
  | leaving hcontrol => simp [State.run, hcontrol]
  | dropping hcontrol => simp [State.run, hcontrol]
  | dropped hcontrol => simp [State.run, hcontrol]

theorem Stands.run_isSome {c c' : Config S V (Exc E) Kind} {ids : List Nat}
    {w : List (Obs Op V (Exc E))} (hs : Stands env σ c ids) (hstep : Step (language code) c w c')
    (hwait : ∀ kind k, c.control ≠ .wait kind k) : (σ.run code).isSome = true := by
  rcases hs.progress code with hsome | ⟨f, hcontrol⟩ | hcontrol
  · exact hsome
  · cases hs
    case waiting => exact absurd rfl (hwait _ _)
    all_goals simp_all
  · cases hs
    case returning f promise r h cs ids hcontrol' hf hr hcs =>
      obtain rfl : h = .owner := by simpa [hcontrol] using hcontrol'.symm
      cases hcs
      cases hstep
    all_goals simp_all

theorem runEvents_single {e : Event V E} (h : step code σ e = some σ') :
    runEvents code σ [e] = some σ' := by
  simp [runEvents, h]

theorem Follows.exists_complete {kind' : Kind} {k : Result V E → S} {r : Result V E}
    {cs : List (Kind × (Result V E → S))} {ids : List Nat}
    (h : Follows code kind s env σ ⟨.wait kind' k, cs⟩ ids) :
    ∃ es σ', runEvents code σ es = some σ' ∧
      Follows code kind s env σ' ⟨.woken kind' k r, cs⟩ ids ∧
      σ'.log = σ.log ∧ σ'.stop = σ.stop := by
  cases h.stands with
  | @waiting f _ _ h' _ ids hcontrol hf hcs =>
      have hcomplete : step code σ (.complete r) =
          some ((σ.set f ⟨fresh env kind' h', .opDone r k⟩).goto (.resume (.frame f))) := by
        simp [step, hcontrol, hf]
      have hmoves : Moves code env σ ⟨.wait kind' k, cs⟩
          ((σ.set f ⟨fresh env kind' h', .opDone r k⟩).goto (.resume (.frame f)))
          ⟨.woken kind' k r, cs⟩ (f :: ids) [] :=
        ⟨.woken rfl (Function.update_self ..) (hcs.update (Nat.le_refl f) _),
          h.kept.set (f := f) (by simp) _, .silent rfl rfl, .inr .complete⟩
      exact ⟨_, _, runEvents_single hcomplete, h.moves hmoves, rfl, rfl⟩

/-- The segment makes any step of the machine that is no completion and whose check
finds what the stop token says, by running on. -/
theorem Follows.exists_ownRun {c c' : Config S V (Exc E) Kind} {ids : List Nat}
    {w : List (Obs Op V (Exc E))} (h : Follows code kind s env σ c ids)
    (hstep : Step (language code) c w c') (hwait : ∀ kind k, c.control ≠ .wait kind k)
    (hchecks : ∀ b, .check b ∈ w → b = σ.stop) :
    ∃ n σ' ids', runEvents code σ (List.replicate n .run) = some σ' ∧
      Follows code kind s env σ' c' ids' ∧ σ'.log = σ.log ++ w ∧ σ'.stop = σ.stop := by
  induction hlag : lag σ.control using Nat.strongRecOn generalizing σ ids with
  | _ n ih =>
      obtain ⟨σ₁, hrun⟩ := Option.isSome_iff_exists.mp (h.stands.run_isSome hstep hwait)
      obtain ⟨c₁, ids₁, w₁, hmoves⟩ := simulates_run h.stands h.kept hrun
      have hfollows := h.moves hmoves
      have hobs := hmoves.observes
      rcases hmoves.step with ⟨rfl, rfl, hless⟩ | hstep₁
      · obtain ⟨m, σ', ids', hrest, hfollows', hlog, hstop⟩ :=
          ih (lag σ₁.control) (by omega) hfollows (by rwa [hobs.stop]) rfl
        refine ⟨m + 1, σ', ids', ?_, hfollows', ?_, ?_⟩
        · rw [List.replicate_succ]
          exact runEvents_append (runEvents_single (e := .run) hrun) hrest
        · rw [hlog, hobs.log, List.append_nil]
        · rw [hstop, hobs.stop]
      · obtain ⟨rfl, rfl⟩ := hstep₁.agree hstep hwait hobs.checks hchecks
        exact ⟨1, σ₁, ids₁, runEvents_single (e := .run) hrun, hfollows, hobs.log, hobs.stop⟩

theorem Follows.exists_run {c c' : Config S V (Exc E) Kind} {ids : List Nat}
    {w : List (Obs Op V (Exc E))} (h : Follows code kind s env σ c ids)
    (hstep : Step (language code) c w c') (hchecks : ∀ b, .check b ∈ w → b = σ.stop) :
    ∃ es σ' ids', runEvents code σ es = some σ' ∧ Follows code kind s env σ' c' ids' ∧
      σ'.log = σ.log ++ w ∧ σ'.stop = σ.stop := by
  by_cases hwait : ∃ kind k, c.control = .wait kind k
  · cases hstep
    case complete kind' k r cs =>
      obtain ⟨es, σ', hrun, hfollows, hlog, hstop⟩ := h.exists_complete (r := r)
      exact ⟨es, σ', ids, hrun, hfollows, by simpa using hlog, hstop⟩
    all_goals simp at hwait
  · obtain ⟨n, σ', ids', hrun, hrest⟩ :=
      h.exists_ownRun hstep (fun kind k hc => hwait ⟨kind, k, hc⟩) hchecks
    exact ⟨_, σ', ids', hrun, hrest⟩

theorem Follows.exists_requestStop {c c' : Config S V (Exc E) Kind} {ids : List Nat}
    {w : List (Obs Op V (Exc E))} (h : Follows code kind s env σ c ids)
    (hstep : Step (language code) c w c') (hstays : StopStays σ.stop w) :
    ∃ es σ', runEvents code σ es = some σ' ∧ Follows code kind s env σ' c ids ∧
      σ'.log = σ.log ∧ σ'.stop = (σ.stop || w.any Obs.findsStop) ∧
      ∀ b, .check b ∈ w → b = σ'.stop := by
  cases hstop : σ.stop with
  | true =>
      rw [hstop] at hstays
      refine ⟨[], σ, rfl, h, rfl, by simpa using hstop, fun b hb => ?_⟩
      rw [hstop]
      exact hstays.check_eq_true hb
  | false =>
      cases hfound : w.any Obs.findsStop with
      | false =>
          refine ⟨[], σ, rfl, h, rfl, by simpa using hstop, fun b hb => ?_⟩
          rw [hstop, ← hfound]
          exact hstep.check_eq_any hb
      | true =>
          refine ⟨[.requestStop], { σ with stop := true }, rfl,
            ⟨h.stands.requestStop, h.kept, h.steps, h.stopStays, fun _ => rfl⟩, rfl, rfl,
            fun b hb => ?_⟩
          change b = true
          rw [← hfound]
          exact hstep.check_eq_any hb

theorem Follows.exists_runs {c c' : Config S V (Exc E) Kind} {ids : List Nat}
    {w : List (Obs Op V (Exc E))} (h : Follows code kind s env σ c ids)
    (hsteps : Steps (language code) c w c') (hstays : StopStays σ.stop w) :
    ∃ es σ' ids', runEvents code σ es = some σ' ∧ Follows code kind s env σ' c' ids' ∧
      σ'.log = σ.log ++ w := by
  induction hsteps generalizing σ ids with
  | refl => exact ⟨[], σ, ids, rfl, h, by simp⟩
  | @head c c₁ c' w w' hstep _ ih =>
      obtain ⟨hw, hw'⟩ := stopStays_append hstays
      obtain ⟨es₁, σ₁, hrun₁, hfollows₁, hlog₁, hstop₁, hchecks⟩ :=
        h.exists_requestStop hstep hw
      obtain ⟨es₂, σ₂, ids₂, hrun₂, hfollows₂, hlog₂, hstop₂⟩ :=
        hfollows₁.exists_run hstep hchecks
      obtain ⟨es₃, σ₃, ids₃, hrun₃, hfollows₃, hlog₃⟩ :=
        ih hfollows₂ (by rwa [hstop₂, hstop₁])
      refine ⟨_, σ₃, ids₃, runEvents_append hrun₁ (runEvents_append hrun₂ hrun₃), hfollows₃, ?_⟩
      rw [hlog₃, hlog₂, hlog₁, List.append_assoc]

theorem Follows.returned {c : Config S V (Exc E) Kind} {ids : List Nat}
    (h : Follows code kind s env σ c ids) (hcontrol : σ.control = .resume .owner) :
    ids = [0] ∧ ∃ out, c = ⟨.finish out, []⟩ ∧ Returned σ out := by
  cases h.stands
  case returning f promise r h' cs ids hcontrol' hf hr hcs =>
    obtain rfl : h' = .owner := by simpa [hcontrol] using hcontrol'.symm
    cases hcs
    exact ⟨rfl, r, rfl, hcontrol, promise, hf, hr⟩
  all_goals simp_all

theorem Follows.exists_returned {out : Result V E} {ids : List Nat}
    (h : Follows code kind s env σ ⟨.finish out, []⟩ ids) :
    ∃ n σ', runEvents code σ (List.replicate n .run) = some σ' ∧ Returned σ' out ∧
      σ'.log = σ.log := by
  cases h.stands with
  | @finishing f promise r cs ids hcontrol hf hr hcs =>
      generalize hcont : promise.cont = h at hcs
      cases hcs
      have hlast : step code σ .run = some (σ.finalSuspend 0 ⟨promise, .running⟩) := by
        simp [step, State.run, hcontrol, hf]
      refine ⟨1, _, runEvents_single hlast, ⟨?_, promise.continuation.2, ?_, hr⟩, rfl⟩
      · exact congrArg Control.resume hcont
      · change Function.update σ.heap 0 _ 0 = _
        exact Function.update_self ..
  | @returning f promise r h cs ids hcontrol hf hr hcs =>
      cases hcs
      exact ⟨0, σ, rfl, ⟨hcontrol, promise, hf, hr⟩, rfl⟩

/-- The outcomes a segment comes back with are those of its direct-style
evaluations in which a stop, once found, stays. -/
theorem exists_returned_iff (code : S → Act S Op V (Exc E) Kind) (kind : Kind) (s : S)
    (env : Nat) (w : List (Obs Op V (Exc E))) (out : Result V E) :
    (∃ σ, Reachable code kind s env σ ∧ σ.log = w ∧ Returned σ out) ↔
      Eval (language code) (.enter kind s) w out ∧ StopStays false w := by
  constructor
  · rintro ⟨σ, hreach, rfl, hcontrol, promise, hroot, hout⟩
    rcases hreach.follows_or_abandoned with ⟨c, ids, hfollows⟩ | ⟨ids, n, hunwinds, -, -⟩
    · obtain ⟨-, out', rfl, -, promise', hroot', hout'⟩ := hfollows.returned hcontrol
      obtain ⟨rfl, -⟩ : promise = promise' ∧ True := by simpa [hroot] using hroot'
      obtain rfl : out = out' := by simpa [hout] using hout'
      exact ⟨steps_finish_iff.mp hfollows.steps, hfollows.stopStays⟩
    · cases hunwinds <;> simp_all
  · rintro ⟨heval, hstays⟩
    obtain ⟨es, σ, ids, hrun, hfollows, hlog⟩ :=
      Follows.exists_runs (follows_start : Follows code kind s env _ _ _)
        (steps_finish_iff.mpr heval) hstays
    have hw : σ.log = w := by simpa [start] using hlog
    obtain ⟨n, σ', hlast, hreturned, hlog'⟩ := hfollows.exists_returned
    exact ⟨σ', ⟨_, runEvents_append hrun hlast⟩, hlog'.trans hw, hreturned⟩

/-- Symmetric transfer computes the direct-style meaning. For every coroutine,
the runs of its segment that come back to the owner are exactly its direct-style
evaluations in which a stop, once found, stays: the same operations are started
with the same results, the same looks for a stop find the same, and the owner's
`await_resume` gives the same outcome. -/
theorem segment_computes_direct_style (code : S → Act S Op V (Exc E) Kind) (kind : Kind) (s : S)
    (env : Nat) (w : List (Obs Op V (Exc E))) (out : Result V E) :
    (∃ σ, Reachable code kind s env σ ∧ σ.log = w ∧ Returned σ out) ↔
      Eval (language code) (.enter kind s) w out ∧ StopStays false w :=
  exists_returned_iff code kind s env w out

theorem Unwinds.progress (code : S → Act S Op V (Exc E) Kind) {ids : List Nat} {n : Nat}
    (hs : Unwinds σ ids n) :
    (σ.run code).isSome = true ∨ σ.control = .unwound := by
  cases hs with
  | down hcontrol => simp [State.run, hcontrol]
  | up hcontrol => simp [State.run, hcontrol]
  | done hcontrol => exact .inr hcontrol

/-- What `Kept` says of the frames, without naming the live ones. -/
def FreedOnce (σ : State S Op V E) : Prop :=
  σ.freed.Nodup ∧ ∀ i, i < σ.next → (σ.heap i = none ↔ i ∈ σ.freed)

theorem Kept.freedOnce {ids : List Nat} (h : Kept σ.heap σ.next σ.freed ids) : FreedOnce σ := by
  refine ⟨(List.nodup_append.mp h.nodup).2.1, fun i hi => ?_⟩
  have hlive := h.live i
  have hmade := (h.made i).mp hi
  have hdisjoint : i ∈ ids → i ∉ σ.freed := fun hids hfreed =>
    (List.nodup_append.mp h.nodup).2.2 i hids i hfreed rfl
  tauto

/-- The coroutines of an example: one awaits the other, which awaits the same
operation until it fails. -/
inductive Sample where
  | outer
  | inner
  | failed (x : Exc Unit)

def sample : Sample → Act Sample Unit Nat (Exc Unit) Kind
  | .outer => .call .quitter .inner fun r =>
      match r with
      | .ok _ => .outer
      | .error x => .failed x
  | .inner => .op () fun r =>
      match r with
      | .ok _ => .inner
      | .error x => .failed x
  | .failed x => .throws x

/-- The inner coroutine has been called and waits. -/
def waitingRun : List (Event Nat Unit) := [.run, .run, .run, .run]

theorem exists_waiting : ∃ σ, Reachable sample .quitter .outer 7 σ ∧ σ.control = .suspended 1 :=
  ⟨_, ⟨waitingRun, rfl⟩, rfl⟩

/-- In every state that any run of a segment reaches, whatever its coroutines do,
whenever a stop is requested and whenever the segment is abandoned: no frame is
resumed, read or destroyed after it was freed or before it may be, and
`destroy_frame` never calls `std::terminate`; every frame that was allocated is
live or was freed exactly once; the segment has a step to make unless it waits
for an operation, is back with its owner, or is unwound. When it is back with its
owner, every frame but the first has been freed; when it is unwound, all have. -/
theorem segment_frames_safe (h : Reachable code kind s env σ) :
    σ.control ≠ .undefined ∧ σ.control ≠ .terminated ∧ FreedOnce σ ∧
    ((σ.run code).isSome = true ∨ (∃ f, σ.control = .suspended f) ∨
      σ.control = .resume .owner ∨ σ.control = .unwound) ∧
    (σ.control = .resume .owner → ∀ i, i < σ.next → (i ∈ σ.freed ↔ i ≠ 0)) ∧
    (σ.control = .unwound → ∀ i, i < σ.next → i ∈ σ.freed) := by
  rcases h.follows_or_abandoned with ⟨c, ids, hfollows⟩ | ⟨ids, n, habandoned⟩
  · have hprogress := hfollows.stands.progress code
    have hnormal : σ.control ≠ .undefined ∧ σ.control ≠ .terminated ∧ σ.control ≠ .unwound := by
      cases hfollows.stands <;> simp_all
    refine ⟨hnormal.1, hnormal.2.1, hfollows.kept.freedOnce, by tauto, ?_, ?_⟩
    · intro hcontrol i hi
      obtain ⟨rfl, -⟩ := hfollows.returned hcontrol
      have hlive := hfollows.kept.live i
      rw [← (hfollows.kept.freedOnce).2 i hi]
      simp at hlive
      tauto
    · intro hcontrol
      exact absurd hcontrol hnormal.2.2
  · have hprogress := habandoned.unwinds.progress code
    have hcases : σ.control = .unwound ∧ ids = [] ∨ ∃ frames, σ.control = .destroy frames none := by
      cases habandoned.unwinds with
      | down hcontrol => exact .inr ⟨_, hcontrol⟩
      | up hcontrol => exact .inr ⟨_, hcontrol⟩
      | done hcontrol => exact .inl ⟨hcontrol, rfl⟩
    refine ⟨?_, ?_, habandoned.kept.freedOnce, by tauto, ?_, ?_⟩
    · rcases hcases with ⟨hcontrol, -⟩ | ⟨frames, hcontrol⟩ <;> simp [hcontrol]
    · rcases hcases with ⟨hcontrol, -⟩ | ⟨frames, hcontrol⟩ <;> simp [hcontrol]
    · intro howner
      rcases hcases with ⟨hcontrol, -⟩ | ⟨frames, hcontrol⟩ <;> simp [hcontrol] at howner
    · intro hunwound i hi
      rcases hcases with ⟨-, rfl⟩ | ⟨frames, hcontrol⟩
      · simpa using (habandoned.kept.made i).mp hi
      · simp [hcontrol] at hunwound

theorem segment_frames_safe_waiting :
    ∃ σ, Reachable sample .quitter .outer 7 σ ∧ σ.control = .suspended 1 ∧ FreedOnce σ := by
  obtain ⟨σ, hreach, hcontrol⟩ := exists_waiting
  exact ⟨σ, hreach, hcontrol, (segment_frames_safe hreach).2.2.1⟩

theorem Abandoned.runs (code : S → Act S Op V (Exc E) Kind) {ids : List Nat} {n : Nat}
    (h : Abandoned σ ids n) :
    ∃ σ', runEvents code σ (List.replicate n .run) = some σ' ∧ σ'.control = .unwound ∧
      σ'.freed = σ.freed ++ ids ∧ σ'.log = σ.log := by
  induction n generalizing σ ids with
  | zero =>
      cases h.unwinds with
      | done hcontrol => exact ⟨σ, rfl, hcontrol, by simp, rfl⟩
  | succ n ih =>
      obtain ⟨σ₁, hrun⟩ : ∃ σ₁, σ.run code = some σ₁ := by
        rcases h.unwinds.progress code with hsome | hcontrol
        · exact Option.isSome_iff_exists.mp hsome
        · cases h.unwinds <;> simp_all
      obtain ⟨ids₁, n₁, h₁, hn, hfreed, hlog⟩ := h.run hrun
      obtain rfl : n = n₁ := by omega
      obtain ⟨σ', hrest, hcontrol, hfreed', hlog'⟩ := ih h₁
      refine ⟨σ', ?_, hcontrol, hfreed'.trans hfreed, hlog'.trans hlog⟩
      simpa [List.replicate_succ, runEvents, step, hrun] using hrest

/-- `parent` is inside `co_await` of `child`. -/
def Awaits (σ : State S Op V E) (child parent : Nat) : Prop :=
  ∃ promise k, σ.heap parent = some ⟨promise, .atChild child true k⟩

theorem Callers.isChain {f : Nat} {h : Handle} {cs : List (Kind × (Result V E → S))}
    {ids : List Nat} (hcs : Callers σ.heap env f h cs ids) :
    List.IsChain (Awaits σ) (f :: ids) ∧ (f :: ids).getLast? = some 0 := by
  induction hcs with
  | owner => exact ⟨.singleton _, rfl⟩
  | frame hp _ _ ih =>
      refine ⟨.cons_cons ⟨_, _, hp⟩ ih.1, ?_⟩
      rw [List.getLast?_cons_cons]
      exact ih.2

/-- Abandoning a suspended segment, at any point of any run, takes exactly its
live frames apart: the frame that the operation held is freed first, every other
one right after the frame it awaited, and the frame the owner started last. No
coroutine runs on the way, and `destroy_frame` never calls `std::terminate`. -/
theorem abandon_frees_chain (h : Reachable code kind s env σ) {f : Nat}
    (hcontrol : σ.control = .suspended f) :
    ∃ ids n σ', runEvents code σ (.abandon :: List.replicate n .run) = some σ' ∧
      σ'.control = .unwound ∧ σ'.log = σ.log ∧ σ'.freed = σ.freed ++ ids ∧
      (∀ i, σ.heap i ≠ none ↔ i ∈ ids) ∧ ids.head? = some f ∧ ids.getLast? = some 0 ∧
      List.IsChain (Awaits σ) ids := by
  rcases h.follows_or_abandoned with ⟨c, ids, hfollows⟩ | ⟨ids, n, hunwinds, -, -⟩
  · cases hfollows.stands
    case waiting g kind' k h' cs ids hcontrol' hg hcs =>
      obtain rfl : g = f := by simpa [hcontrol] using hcontrol'.symm
      obtain ⟨σ₁, hstep⟩ : ∃ σ₁, step code σ .abandon = some σ₁ := by simp [step, hcontrol]
      have hlog₁ : σ₁.log = σ.log ∧ σ₁.freed = σ.freed := by
        obtain rfl := by simpa [step, hcontrol] using hstep
        exact ⟨rfl, rfl⟩
      obtain ⟨n, habandoned⟩ := hfollows.abandon hstep
      obtain ⟨σ', hruns, hunwound, hfreed, hlog⟩ := habandoned.runs code
      obtain ⟨hchain, hlast⟩ := hcs.isChain
      refine ⟨g :: ids, n, σ', ?_, hunwound, hlog.trans hlog₁.1, ?_, hfollows.kept.live, rfl,
        hlast, hchain⟩
      · simpa [runEvents, hstep] using hruns
      · rw [hfreed, hlog₁.2]
    all_goals simp_all
  · cases hunwinds <;> simp_all

theorem abandon_frees_chain_waiting :
    ∃ σ σ' n, Reachable sample .quitter .outer 7 σ ∧
      runEvents sample σ (.abandon :: List.replicate n .run) = some σ' ∧
      σ'.control = .unwound := by
  obtain ⟨σ, hreach, hcontrol⟩ := exists_waiting
  obtain ⟨ids, n, σ', hrun, hunwound, -⟩ := abandon_frees_chain hreach hcontrol
  exact ⟨σ, σ', n, hreach, hrun, hunwound⟩

/-- The same bodies, with every coroutine they call a task. -/
def asTasks (code : S → Act S Op V (Exc E) Kind) (s : S) : Act S Op V (Exc E) Kind :=
  match code s with
  | .call _ child k => .call .task child k
  | .ret v => .ret v
  | .throws x => .throws x
  | .op o k => .op o k

theorem asTasks_eq_iff {act : Act S Op V (Exc E) Kind}
    (hact : ∀ kind child k, act ≠ .call kind child k) : asTasks code s = act ↔ code s = act := by
  unfold asTasks
  split
  · rename_i kind child k hcode
    rw [hcode]
    exact ⟨fun h => absurd h.symm (hact _ _ _), fun h => absurd h.symm (hact _ _ _)⟩
  · simp_all
  · simp_all
  · simp_all

theorem asTasks_eq_call_iff {child : S} {k : Result V E → S} :
    asTasks code s = .call kind child k ↔ kind = .task ∧ ∃ kind', code s = .call kind' child k := by
  unfold asTasks
  split <;> simp_all [eq_comm]

/-- A point of a body, entered or going on as a task. -/
def taskPoint : DirectStyle.Point S Kind → DirectStyle.Point S Kind
  | .enter _ s => .enter .task s
  | .run _ s => .run .task s

theorem enter_eq_taskPoint {p : DirectStyle.Point S Kind} (h : .enter kind s = taskPoint p) :
    kind = .task ∧ ∃ kind', p = .enter kind' s := by
  cases p with
  | enter kind' s' =>
      obtain ⟨rfl, rfl⟩ := DirectStyle.Point.enter.inj h
      exact ⟨rfl, kind', rfl⟩
  | run => cases h

theorem run_eq_taskPoint {p : DirectStyle.Point S Kind} (h : .run kind s = taskPoint p) :
    kind = .task ∧ ∃ kind', p = .run kind' s := by
  cases p with
  | enter => cases h
  | run kind' s' =>
      obtain ⟨rfl, rfl⟩ := DirectStyle.Point.run.inj h
      exact ⟨rfl, kind', rfl⟩

theorem guarded_of_unchecked {kind' : Kind} {L L' : Language S Op V (Exc E) Kind}
    {seen w : List (Obs Op V (Exc E))} {r r' : Result V E} (h : Guarded L kind seen r w r')
    (hkind : L.checks kind = false) (hkind' : L'.checks kind' = false) :
    Guarded L' kind' seen r w r' := by
  cases h with
  | skip => exact .skip hkind'
  | pass hcheck => simp [hkind] at hcheck
  | stop hcheck => simp [hkind] at hcheck

theorem eval_asTasks {p : DirectStyle.Point S Kind} {w : List (Obs Op V (Exc E))}
    {out : Result V E} (h : Eval (language code).unchecked p w out) :
    Eval (language (asTasks code)) (taskPoint p) w out := by
  induction h with
  | skip _ _ ih => exact .skip rfl ih
  | pass hkind => simp [Language.unchecked] at hkind
  | stop hkind => simp [Language.unchecked] at hkind
  | ret hcode => exact .ret ((asTasks_eq_iff (by simp)).mpr hcode)
  | throws hcode => exact .throws ((asTasks_eq_iff (by simp)).mpr hcode)
  | op hcode hguard _ ih =>
      exact .op ((asTasks_eq_iff (by simp)).mpr hcode) (guarded_of_unchecked hguard rfl rfl) ih
  | call hcode _ hguard _ ihchild ih =>
      exact .call (asTasks_eq_call_iff.mpr ⟨rfl, _, hcode⟩) ihchild
        (guarded_of_unchecked hguard rfl rfl) ih

theorem eval_of_asTasks {p q : DirectStyle.Point S Kind} {w : List (Obs Op V (Exc E))}
    {out : Result V E} (h : Eval (language (asTasks code)) q w out) (hq : q = taskPoint p) :
    Eval (language code).unchecked p w out := by
  induction h generalizing p with
  | skip _ _ ih =>
      obtain ⟨rfl, kind', rfl⟩ := enter_eq_taskPoint hq
      exact .skip rfl (ih rfl)
  | pass hkind =>
      obtain ⟨rfl, -⟩ := enter_eq_taskPoint hq
      simp [language] at hkind
  | stop hkind =>
      obtain ⟨rfl, -⟩ := enter_eq_taskPoint hq
      simp [language] at hkind
  | ret hcode =>
      obtain ⟨-, kind', rfl⟩ := run_eq_taskPoint hq
      exact .ret ((asTasks_eq_iff (by simp)).mp hcode)
  | throws hcode =>
      obtain ⟨-, kind', rfl⟩ := run_eq_taskPoint hq
      exact .throws ((asTasks_eq_iff (by simp)).mp hcode)
  | op hcode hguard _ ih =>
      obtain ⟨rfl, kind', rfl⟩ := run_eq_taskPoint hq
      exact .op ((asTasks_eq_iff (by simp)).mp hcode) (guarded_of_unchecked hguard rfl rfl)
        (ih rfl)
  | call hcode _ hguard _ ihchild ih =>
      obtain ⟨rfl, kind', rfl⟩ := run_eq_taskPoint hq
      obtain ⟨rfl, childKind, hcode'⟩ := asTasks_eq_call_iff.mp hcode
      exact .call (L := (language code).unchecked) hcode' (ihchild rfl)
        (guarded_of_unchecked hguard rfl rfl) (ih rfl)

/-- Until a stop is found a quitter is a task: the runs of a segment in which no
look at the stop token finds a request are, apart from those looks, the runs of
the segment in which every coroutine is a task, with the same outcome. -/
theorem quitter_agrees_with_task (code : S → Act S Op V (Exc E) Kind) (kind : Kind) (s : S)
    (env : Nat) (w : List (Obs Op V (Exc E))) (out : Result V E) :
    (∃ σ, Reachable (asTasks code) .task s env σ ∧ σ.log = w ∧ Returned σ out) ↔
      ∃ σ, Reachable code kind s env σ ∧ σ.log.any Obs.findsStop = false ∧
        besidesChecks σ.log = w ∧ Returned σ out := by
  rw [exists_returned_iff]
  constructor
  · rintro ⟨heval, -⟩
    obtain ⟨w', heval', hnone, rfl⟩ :=
      eval_unchecked_iff.mp (eval_of_asTasks (p := .enter kind s) heval rfl)
    obtain ⟨σ, hreach, rfl, hreturned⟩ := (exists_returned_iff code kind s env w' out).mpr
      ⟨heval', stopStays_of_none hnone⟩
    exact ⟨σ, hreach, hnone, rfl, hreturned⟩
  · rintro ⟨σ, hreach, hnone, rfl, hreturned⟩
    obtain ⟨heval, -⟩ := (exists_returned_iff code kind s env σ.log out).mp
      ⟨σ, hreach, rfl, hreturned⟩
    refine ⟨eval_asTasks (eval_unchecked_iff.mpr ⟨σ.log, heval, hnone, rfl⟩),
      stopStays_of_none ?_⟩
    exact besidesChecks_any _

theorem Follows.endsAtStop {c : Config S V (Exc E) Kind} {ids : List Nat}
    (hcode : (language code).Transparent) (h : Follows code kind s env σ c ids) :
    c.Transparent (language code) ∧ EndsAtStop σ.log ∧
      (σ.log.any Obs.findsStop = true → c.control.Stopping (language code)) :=
  h.steps.endsAtStop hcode ⟨by simp, by simp, by simp⟩ h.stopStays

/-- Once a stop is found, the segment runs on until its callers are through. -/
theorem Follows.exists_unwound {c : Config S V (Exc E) Kind} {ids : List Nat}
    (hcode : (language code).Transparent) (h : Follows code kind s env σ c ids)
    (hfound : σ.log.any Obs.findsStop = true) :
    ∃ n σ' ids', runEvents code σ (List.replicate n .run) = some σ' ∧
      Follows code kind s env σ' ⟨.finish (.error .stopRequested), []⟩ ids' := by
  induction hn : c.unwinding using Nat.strongRecOn generalizing σ c ids with
  | _ n ih =>
      obtain ⟨hc, -, hstopping⟩ := h.endsAtStop hcode
      rcases Config.exists_unwinding_step (hstopping hfound) hc with
        rfl | ⟨w, c', hstep, hstays, hless⟩
      · exact ⟨0, σ, ids, rfl, h⟩
      · have hwait : ∀ kind k, c.control ≠ .wait kind k := by
          intro kind k hcontrol
          have hno := hstopping hfound
          rw [hcontrol] at hno
          exact hno
        obtain ⟨m₁, σ₁, ids₁, hrun₁, hfollows₁, hlog₁, -⟩ := h.exists_ownRun hstep hwait
          fun b hb => (hstays.check_eq_true hb).trans (h.found hfound).symm
        obtain ⟨m₂, σ₂, ids₂, hrun₂, hfollows₂⟩ :=
          ih c'.unwinding (by omega) hfollows₁ (by simp [hlog₁, hfound]) rfl
        refine ⟨m₁ + m₂, σ₂, ids₂, ?_, hfollows₂⟩
        rw [← List.replicate_append_replicate]
        exact runEvents_append hrun₁ hrun₂

/-- A stop ends a segment whose coroutines let the sentinel through, unless the
operation gives it up: from the first look that finds the request on, the segment
runs back to its owner by its own steps, no operation is started, no result is seen
and the owner is given the sentinel. -/
theorem stop_ends_segment (hcode : (language code).Transparent)
    (h : Reachable code kind s env σ) (habandoned : σ.abandoned = false)
    (hfound : σ.log.any Obs.findsStop = true) :
    EndsAtStop σ.log ∧ ∃ n σ', runEvents code σ (List.replicate n .run) = some σ' ∧
      Returned σ' (.error .stopRequested) ∧ EndsAtStop σ'.log := by
  rcases h.follows_or_abandoned with ⟨c, ids, hfollows⟩ | ⟨ids, n, hunwinds⟩
  · refine ⟨(hfollows.endsAtStop hcode).2.1, ?_⟩
    obtain ⟨n, σ₁, ids₁, hrun, hfollows₁⟩ := hfollows.exists_unwound hcode hfound
    obtain ⟨m, σ₂, hlast, hreturned, hlog⟩ := hfollows₁.exists_returned
    refine ⟨n + m, σ₂, ?_, hreturned, hlog ▸ (hfollows₁.endsAtStop hcode).2.1⟩
    rw [← List.replicate_append_replicate]
    exact runEvents_append hrun hlast
  · exact absurd (hunwinds.abandoned.symm.trans habandoned) (by simp)

theorem sample_transparent : (language sample).Transparent := by
  constructor
  · intro s o k hcode
    cases s <;> simp only [language, sample, Act.op.injEq, reduceCtorEq] at hcode
    obtain ⟨-, rfl⟩ := hcode
    rfl
  · intro s kind child k hcode
    cases s <;> simp only [language, sample, Act.call.injEq, reduceCtorEq] at hcode
    obtain ⟨-, -, rfl⟩ := hcode
    rfl

/-- A stop is requested while the inner coroutine waits, the operation then completes
and the inner coroutine looks for the stop. -/
def stoppedRun : List (Event Nat Unit) :=
  waitingRun ++ [.requestStop, .complete (.ok 3), .run]

theorem stop_ends_segment_sample :
    ∃ σ n σ', Reachable sample .quitter .outer 7 σ ∧ (σ.run sample).isSome = true ∧
      runEvents sample σ (List.replicate n .run) = some σ' ∧
      Returned σ' (.error .stopRequested) ∧ EndsAtStop σ'.log := by
  obtain ⟨σ, hσ, habandoned, hfound, hruns⟩ : ∃ σ,
      runEvents sample (start .quitter .outer 7) stoppedRun = some σ ∧ σ.abandoned = false ∧
        σ.log.any Obs.findsStop = true ∧ (σ.run sample).isSome = true :=
    ⟨_, rfl, rfl, rfl, rfl⟩
  have hreach : Reachable sample .quitter .outer 7 σ := ⟨stoppedRun, hσ⟩
  obtain ⟨-, n, σ', hrun, hreturned, hends⟩ :=
    stop_ends_segment sample_transparent hreach habandoned hfound
  exact ⟨σ, n, σ', hreach, hruns, hrun, hreturned, hends⟩

end Capy.Coroutine
