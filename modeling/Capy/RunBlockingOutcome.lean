import Capy.RunBlocking

namespace Capy.RunBlocking

open Capy.CallStack

namespace Place

/-- The activation is of the call itself, on the thread that made it. -/
def drives : Place → Bool
  | .enqueue _ | .handlers | .signalDone _ | .signalAbandoned => false
  | _ => true

def runsHandlers : Place → Bool
  | .handlers => true
  | _ => false

/-- What a call that signals tells became of the task. -/
def signals : Place → Option Outcome
  | .signalDone none => some .returned
  | .signalDone (some e) => some (.threw e)
  | .signalAbandoned => some .canceled
  | _ => none

def signalling (p : Place) : Bool := p.signals.isSome

/-- The continuation that the call has taken from the queue. -/
def held : Place → List Nat
  | .resume _ c | .drainAbandon c _ => [c]
  | _ => []

/-- The call is in the destructor of its context. -/
def closes : Place → Bool
  | .shutdown | .drain _ | .drainAbandon _ _ | .abandoning _ | .destroy => true
  | _ => false

/-- The call has found its task ended. -/
def ends : Place → Bool
  | .runEnd _ => true
  | p => p.closes

/-- The `running_` to restore. -/
def saved : Place → Option (Option Nat)
  | .wait prev | .resume prev _ | .resuming prev | .runEnd prev => some prev
  | _ => none

end Place

/-- What the activation of a call tells of its context: where every queued
continuation is, that nothing is given up before `run()` has ended, and who
sleeps. -/
structure Drives (x : BlockingContext) (p : Place) : Prop where
  queued : x.enqueued = x.resumed ++ x.given ++ p.held ++ x.queue
  running : p.closes = false → x.given = [] ∧ x.ran = none
  done : p.ends = true → x.done = true
  sleeps : x.sleeping = true → (∃ prev, p = .wait prev) ∧ x.done = false ∧ x.queue = []

structure FrameOk (x : BlockingContext) (p : Place) : Prop where
  drives : p.drives = true → Drives x p
  signals : ∀ o, p.signals = some o → x.signalled = some o

/-- A context, with the numbers of its activations that are of the call, that run
the handlers and that signal. -/
structure Sound (x : BlockingContext) (created : Bool) (drivers handlers signals : Nat) :
    Prop where
  drivers : drivers = (created && !x.destroyed).toNat
  handlers : handlers = (decide (x.wrapper = .invoked)).toNat
  signals : signals + x.done.toNat = (decide (x.wrapper = .spent)).toNat
  spent : x.signalled.isSome = decide (x.wrapper = .spent)
  result : x.done = true → x.signalled = some (result x)
  pending : x.done = false → x.ep = none ∧ x.abandoned = false
  ran : ∀ o, x.ran = some o → x.done = true ∧ x.signalled = some o
  destroyed : x.destroyed = true → x.done = true ∧ x.sleeping = false ∧ x.queue = [] ∧
    x.enqueued = x.resumed ++ x.given

namespace Sound

variable {x : BlockingContext} {created : Bool} {drivers handlers signals : Nat}
  (h : Sound x created drivers handlers signals)

include h

theorem alive (hdrivers : 0 < drivers) : created = true ∧ x.destroyed = false := by
  have heq := h.drivers
  cases created <;> cases hdestroyed : x.destroyed <;> simp [hdestroyed] at heq ⊢ <;> omega

theorem signalling (hsignals : 0 < signals) :
    x.wrapper = .spent ∧ x.done = false ∧ signals = 1 := by
  have heq := h.signals
  cases hdone : x.done <;> rcases eq_or_ne x.wrapper .spent with hspent | hspent <;>
    simp [hdone, hspent] at heq ⊢ <;> omega

theorem armed (hspent : x.wrapper ≠ .spent) :
    signals = 0 ∧ x.done = false ∧ x.signalled = none := by
  have heq := h.signals
  have hsome := h.spent
  simp only [hspent, decide_false, Bool.toNat_false, Nat.add_eq_zero_iff] at heq hsome
  refine ⟨heq.1, ?_, by simpa using hsome⟩
  simpa [Bool.toNat_eq_zero] using heq.2

theorem invoked (hhandlers : 0 < handlers) : x.wrapper = .invoked ∧ handlers = 1 := by
  have heq := h.handlers
  rcases eq_or_ne x.wrapper .invoked with hinvoked | hinvoked
  · exact ⟨hinvoked, by simpa [hinvoked] using heq⟩
  · simp [hinvoked] at heq
    omega

theorem queued {x' : BlockingContext} (hlive : x.destroyed = false)
    (hsame : x'.destroyed = x.destroyed ∧ x'.wrapper = x.wrapper ∧ x'.done = x.done ∧
      x'.signalled = x.signalled ∧ x'.ep = x.ep ∧ x'.abandoned = x.abandoned ∧ x'.ran = x.ran) :
    Sound x' created drivers handlers signals := by
  obtain ⟨hdestroyed, hwrapper, hdone, hsignalled, hep, habandoned, hran⟩ := hsame
  obtain ⟨hdrivers, hhandlers, hsignals, hspent, hresult, hpending, hends, -⟩ := h
  have hresult' : Capy.RunBlocking.result x' = Capy.RunBlocking.result x := by
    simp only [Capy.RunBlocking.result, hep, habandoned]
  constructor
  · rwa [hdestroyed]
  · rwa [hwrapper]
  · rwa [hdone, hwrapper]
  · rwa [hsignalled, hwrapper]
  · rwa [hdone, hsignalled, hresult']
  · rwa [hdone, hep, habandoned]
  · rwa [hran, hdone, hsignalled]
  · simp [hdestroyed, hlive]

theorem unfinished (hdone : x.done = false) : x.destroyed = false ∧ x.ran = none := by
  refine ⟨?_, ?_⟩
  · by_contra hdestroyed
    simp [(h.destroyed (by simpa using hdestroyed)).1] at hdone
  · cases hran : x.ran with
    | none => rfl
    | some o => simp [(h.ran o hran).1] at hdone

end Sound

theorem Sound.spend {x : BlockingContext} {created : Bool} {drivers handlers signals : Nat}
    (h : Sound x created drivers (handlers + (decide (x.wrapper = .invoked)).toNat) signals)
    (hwrapper : x.wrapper ≠ .spent) (o : Outcome) :
    Sound { x with wrapper := .spent, signalled := some o } created drivers handlers
      (signals + 1) := by
  obtain ⟨hsignals, hdone, -⟩ := h.armed hwrapper
  obtain ⟨hlive, hran⟩ := h.unfinished hdone
  have hhandlers := h.handlers
  have hpending := h.pending
  have hdrivers := h.drivers
  constructor
  · exact hdrivers
  · simp only [reduceCtorEq, decide_false, Bool.toNat_false]
    omega
  · simp [hsignals, hdone]
  · simp
  · simp [hdone]
  · exact hpending
  · simp [hran]
  · simp [hlive]

theorem Sound.signal {x : BlockingContext} {created : Bool} {drivers handlers signals : Nat}
    (h : Sound x created drivers handlers (signals + 1)) (ep : Option Nat) (abandoned : Bool)
    (hresult : x.signalled =
      some (RunBlocking.result { x with ep := ep, abandoned := abandoned })) :
    Sound { x with ep := ep, abandoned := abandoned, done := true, sleeping := false } created
      drivers handlers signals := by
  obtain ⟨hwrapper, hdone, hone⟩ := h.signalling (Nat.succ_pos signals)
  obtain ⟨hlive, hran⟩ := h.unfinished hdone
  constructor
  · exact h.drivers
  · exact h.handlers
  · simp only [hwrapper, decide_true, Bool.toNat_true]
    omega
  · exact h.spent
  · exact fun _ => hresult
  · simp
  · simp [hran]
  · simp [hlive]

section Step

variable {running : Option Nat} {x x' : BlockingContext} {p : Place} {q : Option Place}
  (hstep : Step running x p x' q)

include hstep

theorem Step.sound {created : Bool} {n m k : Nat} (hframe : FrameOk x p)
    (h : Sound x created (n + p.drives.toNat) (m + p.runsHandlers.toNat)
      (k + p.signalling.toNat)) :
    Sound x' created (n + (q.elim false Place.drives).toNat)
      (m + (q.elim false Place.runsHandlers).toNat)
      (k + (q.elim false Place.signalling).toNat) := by
  cases hstep with
  | wake | sleep | take | resume | drainTake | abandon =>
      exact h.queued (h.alive (Nat.succ_pos n)).2 ⟨rfl, rfl, rfl, rfl, rfl, rfl, rfl⟩
  | enqueue hlive => exact h.queued hlive ⟨rfl, rfl, rfl, rfl, rfl, rfl, rfl⟩
  | runEnd =>
      have hlive := (h.alive (Nat.succ_pos n)).2
      have hdone := (hframe.drives rfl).done rfl
      obtain ⟨hdrivers, hhandlers, hsignals, hspent, hresult, hpending, -, -⟩ := h
      refine ⟨hdrivers, hhandlers, hsignals, hspent, hresult, hpending, ?_, by simp [hlive]⟩
      rintro o ⟨⟩
      exact ⟨hdone, hresult hdone⟩
  | destroyed hqueue =>
      have hlive := (h.alive (Nat.succ_pos n)).2
      have hdrives := hframe.drives rfl
      obtain ⟨hdrivers, hhandlers, hsignals, hspent, hresult, hpending, hran, -⟩ := h
      refine ⟨?_, hhandlers, hsignals, hspent, hresult, hpending, hran, fun _ => ?_⟩
      · cases created <;> simp [hlive, Place.drives] at hdrivers ⊢
        exact hdrivers
      · have hsleeping : x.sleeping = false := by
          by_contra hsleeping
          simpa using (hdrives.sleeps (by simpa using hsleeping)).1
        have hqueued := hdrives.queued
        simp only [Place.held, hqueue, List.append_nil] at hqueued
        exact ⟨hdrives.done rfl, hsleeping, hqueue, hqueued⟩
  | handlersReturn | handlersThrow =>
      have hinvoked := (h.invoked (Nat.succ_pos m)).1
      refine Sound.spend (?_ : Sound x created n (m + _) k) (by simp [hinvoked]) _
      rw [hinvoked]
      exact h
  | signalDone =>
      have hpending := h.pending (h.signalling (Nat.succ_pos k)).2.1
      have hsignalled := hframe.signals _ rfl
      have hsound := h.signal x.ep x.abandoned (by simp [hsignalled, result, hpending])
      exact hsound
  | signalThrown =>
      have hsignalled := hframe.signals _ rfl
      exact h.signal _ x.abandoned (by simp [hsignalled, result])
  | signalAbandoned =>
      have hpending := h.pending (h.signalling (Nat.succ_pos k)).2.1
      have hsignalled := hframe.signals _ rfl
      exact h.signal x.ep true (by simp [hsignalled, result, hpending])
  | _ => exact h

theorem Step.frame {created : Bool} {n m k : Nat} (hframe : FrameOk x p)
    (h : Sound x created (n + p.drives.toNat) (m + p.runsHandlers.toNat)
      (k + p.signalling.toNat)) {p' : Place} (hq : q = some p') : FrameOk x' p' := by
  subst hq
  refine ⟨fun hdrives' => ?_, fun o ho => ?_⟩
  · have hdrives := hframe.drives (by cases hstep <;> first | rfl | simp [Place.drives] at hdrives')
    obtain ⟨hqueued, hrunning, hdone, hsleeps⟩ := hdrives
    cases hstep with
    | _ => constructor <;> simp_all [Place.held, Place.closes, Place.ends]
  · cases hstep <;> simp_all [Place.signals]

theorem Step.keeps_signalled : x'.signalled = x.signalled ∨ p = .handlers := by
  cases hstep <;> first | exact .inl rfl | exact .inr rfl

theorem Step.others {created : Bool} {n m k : Nat}
    (h : Sound x created (n + p.drives.toNat) (m + p.runsHandlers.toNat)
      (k + p.signalling.toNat)) {p₂ : Place} (hp₂ : FrameOk x p₂)
    (hdrives : p₂.drives.toNat ≤ n) (hsignals : p₂.signalling.toNat ≤ k) :
    FrameOk x' p₂ := by
  refine ⟨fun hdrives₂ => ?_, fun o ho => ?_⟩
  · have hother : p.drives = false := by
      by_contra hp
      have hle := h.drivers
      simp only [hdrives₂, Bool.toNat_true] at hdrives
      rw [Bool.not_eq_false] at hp
      rw [hp] at hle
      have hone := Bool.toNat_le (created && !x.destroyed)
      simp only [Bool.toNat_true] at hle
      omega
    obtain ⟨hqueued, hrunning, hdone, hsleeps⟩ := hp₂.drives hdrives₂
    cases hstep with
    | enqueue =>
        refine ⟨?_, hrunning, hdone, by simp⟩
        simp only [hqueued, List.append_assoc]
    | enqueueThrows | handlersReturn | handlersThrow => exact ⟨hqueued, hrunning, hdone, hsleeps⟩
    | signalDone | signalThrown | signalAbandoned =>
        exact ⟨hqueued, hrunning, fun _ => rfl, by simp⟩
    | _ => simp [Place.drives] at hother
  · rcases hstep.keeps_signalled with hsame | rfl
    · rw [hsame]
      exact hp₂.signals o ho
    · have hinvoked := (h.invoked (Nat.succ_pos m)).1
      obtain ⟨hnone, -⟩ := h.armed (by simp [hinvoked])
      simp only [Place.signalling, ho, Option.isSome_some, Bool.toNat_true] at hsignals
      omega

end Step

/-- How many activations of a context stand at a place of the kind. -/
def countAt (kind : Place → Bool) (k : Nat) (fs : List (Frame Pc)) : Nat :=
  fs.countP fun f => f.pc.ctx = k ∧ kind f.pc.place = true

/-- The `running_` of a thread with these activations, newest first: every
`scoped_running` has saved the `running_` that it found. -/
def Saved : List Pc → Option Nat → Prop
  | [], running => running = none
  | pc :: pcs, running =>
      match pc.place.saved with
      | some prev => running = some pc.ctx ∧ Saved pcs prev
      | none => Saved pcs running

structure Invariant (s : System) (fs : List (Frame Pc)) : Prop where
  known : ∀ f ∈ fs, f.pc.ctx < s.created
  fresh : ∀ k, s.created ≤ k → s.contexts k = newContext
  sound : ∀ k, Sound (s.contexts k) (k < s.created) (countAt Place.drives k fs)
    (countAt Place.runsHandlers k fs) (countAt Place.signalling k fs)
  frames : ∀ f ∈ fs, FrameOk (s.contexts f.pc.ctx) f.pc.place
  saved : ∀ t, Saved (stackOf t fs) (s.running t)

theorem countAt_split (kind : Place → Bool) (k : Nat) {l r : List (Frame Pc)} {t : Nat} {pc : Pc} :
    countAt kind k (l ++ ⟨t, pc⟩ :: r) =
      countAt kind k (l ++ r) + (decide (pc.ctx = k) && kind pc.place).toNat := by
  rw [countAt, countP_split]
  simp [countAt]

theorem countAt_cons (kind : Place → Bool) (k : Nat) {fs : List (Frame Pc)} {t : Nat} {pc : Pc} :
    countAt kind k (⟨t, pc⟩ :: fs) =
      countAt kind k fs + (decide (pc.ctx = k) && kind pc.place).toNat :=
  countAt_split kind k (l := [])

theorem countAt_replace (kind : Place → Bool) (k k₀ : Nat) {l r : List (Frame Pc)} {t : Nat}
    {p : Option Place} :
    countAt kind k (l ++ (p.map (Pc.mk k₀)).toList.map (Frame.mk t) ++ r) =
      countAt kind k (l ++ r) + (decide (k₀ = k) && p.elim false kind).toNat := by
  rw [countAt, countP_replace]
  cases p <;> simp [countAt]

theorem countAt_enter (kind : Place → Bool) (k : Nat) {fs : List (Frame Pc)} {t : Nat}
    {q : Option Pc} :
    countAt kind k (q.toList.map (Frame.mk t) ++ fs) =
      countAt kind k fs + (q.elim false fun pc => decide (pc.ctx = k) && kind pc.place).toNat := by
  rw [countAt, countP_enter]
  cases q <;> simp [countAt]

theorem le_countAt (kind : Place → Bool) {fs : List (Frame Pc)} {f : Frame Pc} (hf : f ∈ fs) :
    (kind f.pc.place).toNat ≤ countAt kind f.pc.ctx fs := by
  cases hkind : kind f.pc.place with
  | false => exact Nat.zero_le _
  | true => exact List.countP_pos_iff.mpr ⟨f, hf, by simp [hkind]⟩

theorem Saved.step {running : Option Nat} {x x' : BlockingContext} {pc : Pc} {pcs : List Pc}
    {p : Option Place} (h : Saved (pc :: pcs) running) (hstep : Step running x pc.place x' p) :
    Saved ((p.map (Pc.mk pc.ctx)).toList ++ pcs) (pc.runningAfter running) := by
  obtain ⟨k, place⟩ := pc
  simp only at hstep
  cases hstep <;> simp_all [Saved, Place.saved, Pc.runningAfter]

theorem Invariant.exec {s s' : System} {t : Nat} {pc : Pc} {choice : Choice} {q : Option Pc}
    {l r : List (Frame Pc)} (h : Invariant s (l ++ ⟨t, pc⟩ :: r)) (hl : ∀ g ∈ l, g.thread ≠ t)
    (hexec : exec s t pc choice = some (s', q)) :
    Invariant s' (l ++ q.toList.map (Frame.mk t) ++ r) := by
  obtain ⟨x, p, hstep, rfl, hcontexts, hcreated, hrunning⟩ := exec_step hexec
  obtain ⟨hknown, hfresh, hsound, hframes, hsaved⟩ := h
  obtain ⟨hknownRest, hknownPc⟩ := forall_split.mp hknown
  obtain ⟨hframesRest, hframe⟩ := forall_split.mp hframes
  have hown := hsound pc.ctx
  simp only [countAt_split, decide_true, Bool.true_and] at hown
  constructor
  · rw [hcreated]
    refine forall_replace.mpr ⟨hknownRest, fun pc' hq => ?_⟩
    obtain ⟨place, -, rfl⟩ := Option.map_eq_some_iff.mp hq
    exact hknownPc
  · intro k hk
    rw [hcreated] at hk
    rw [hcontexts, Function.update_of_ne (by simp only at hknownPc; omega)]
    exact hfresh k hk
  · intro k
    rw [hcreated, hcontexts, countAt_replace, countAt_replace, countAt_replace]
    rcases eq_or_ne k pc.ctx with rfl | hne
    · rw [Function.update_self]
      simpa using hstep.sound hframe hown
    · have hother := hsound k
      simp only [countAt_split, hne.symm, decide_false, Bool.false_and, Bool.toNat_false,
        Nat.add_zero] at hother ⊢
      rwa [Function.update_of_ne hne]
  · rw [hcontexts]
    refine forall_replace.mpr ⟨fun f hf => ?_, fun pc' hq => ?_⟩
    · rcases eq_or_ne f.pc.ctx pc.ctx with heq | hne
      · rw [heq, Function.update_self]
        refine hstep.others hown (heq ▸ hframesRest f hf) ?_ ?_
        · exact heq ▸ le_countAt _ hf
        · exact heq ▸ le_countAt Place.signalling hf
      · rw [Function.update_of_ne hne]
        exact hframesRest f hf
    · obtain ⟨place, rfl, rfl⟩ := Option.map_eq_some_iff.mp hq
      rw [Function.update_self]
      exact hstep.frame hframe hown rfl
  · intro u
    rw [hrunning]
    rcases eq_or_ne u t with rfl | hne
    · have hold := hsaved u
      rw [stackOf_split hl] at hold
      rw [stackOf_replace hl, Function.update_self]
      exact hold.step hstep
    · rw [Function.update_of_ne hne, stackOf_replace_of_ne hne.symm pc]
      exact hsaved u

theorem newContext_sound : Sound newContext false 0 0 0 := by
  constructor <;> simp [newContext]

theorem newContext_created : Sound newContext true 1 0 0 := by
  constructor <;> simp [newContext]

theorem Entered.context {s : System} {running : Option Nat} {k : Nat} {x : BlockingContext}
    {q : Option Pc} (h : Entered s running k x q) :
    k < s.created ∧ (∀ pc ∈ q, pc.ctx = k ∧ pc.place.drives = false ∧ pc.place.saved = none) ∧
      ∀ pc ∈ q, ∀ o, pc.place.signals = some o → x.signalled = some o := by
  cases h with
  | post hk => exact ⟨hk, by simp [Place.drives, Place.saved], by simp [Place.signals]⟩
  | inline hk => exact ⟨hk, by simp, by simp⟩
  | invoke hk => exact ⟨hk, by simp [Place.drives, Place.saved], by simp [Place.signals]⟩
  | destroyWrapper hk =>
      exact ⟨hk, by simp [Place.drives, Place.saved], by simp [Place.signals]⟩

theorem Entered.sound {s : System} {running : Option Nat} {k : Nat} {x : BlockingContext}
    {q : Option Pc} (henter : Entered s running k x q) {created : Bool}
    {drivers handlers signals : Nat}
    (h : Sound (s.contexts k) created drivers handlers signals) :
    Sound x created drivers
      (handlers + (q.elim false fun pc => pc.place.runsHandlers).toNat)
      (signals + (q.elim false fun pc => pc.place.signalling).toNat) := by
  cases henter with
  | post | inline => exact h
  | invoke _ hwaiting =>
      obtain ⟨hsignals, hdone, hsignalled⟩ := h.armed (by simp [hwaiting])
      obtain ⟨hlive, hran⟩ := h.unfinished hdone
      have hhandlers := h.handlers
      simp only [hwaiting, reduceCtorEq, decide_false, Bool.toNat_false] at hhandlers
      refine ⟨h.drivers, ?_, ?_, ?_, ?_, h.pending, ?_, ?_⟩ <;>
        simp [hhandlers, hsignals, hdone, hsignalled, hran, hlive, Place.runsHandlers,
          Place.signalling, Place.signals]
  | destroyWrapper _ hwaiting =>
      refine Sound.spend (?_ : Sound _ _ drivers (handlers + _) signals) (by simp [hwaiting]) _
      rw [hwaiting]
      exact h

theorem Entered.others {s : System} {running : Option Nat} {k : Nat} {x : BlockingContext}
    {q : Option Pc} (henter : Entered s running k x q) {created : Bool}
    {drivers handlers signals : Nat}
    (h : Sound (s.contexts k) created drivers handlers signals) {p : Place}
    (hp : FrameOk (s.contexts k) p) (hsignals : p.signalling.toNat ≤ signals) :
    FrameOk x p := by
  cases henter with
  | post | inline => exact hp
  | invoke =>
      refine ⟨fun hp' => ?_, hp.signals⟩
      obtain ⟨hqueued, hrunning, hdone, hsleeps⟩ := hp.drives hp'
      exact ⟨hqueued, hrunning, hdone, hsleeps⟩
  | destroyWrapper _ hwaiting =>
      refine ⟨fun hp' => ?_, fun o ho => ?_⟩
      · obtain ⟨hqueued, hrunning, hdone, hsleeps⟩ := hp.drives hp'
        exact ⟨hqueued, hrunning, hdone, hsleeps⟩
      obtain ⟨hnone, -⟩ := h.armed (by simp [hwaiting])
      simp only [Place.signalling, ho, Option.isSome_some, Bool.toNat_true] at hsignals
      omega

theorem Invariant.create {s s' : System} {t : Nat} {fs : List (Frame Pc)} (h : Invariant s fs)
    (hrunning : s'.running = s.running) (hcontexts : s'.contexts = s.contexts)
    (hcreated : s'.created = s.created + 1) :
    Invariant s' (⟨t, ⟨s.created, .start⟩⟩ :: fs) := by
  obtain ⟨hknown, hfresh, hsound, hframes, hsaved⟩ := h
  have hnew := hfresh s.created (Nat.le_refl _)
  constructor
  · rw [hcreated]
    refine List.forall_mem_cons.mpr ⟨Nat.lt_succ_self _, fun f hf => ?_⟩
    exact Nat.lt_succ_of_lt (hknown f hf)
  · intro k hk
    rw [hcontexts]
    exact hfresh k (by omega)
  · intro k
    rw [hcontexts, hcreated]
    rcases eq_or_ne s.created k with rfl | hne
    · have hnone (kind : Place → Bool) : countAt kind s.created fs = 0 := by
        refine List.countP_eq_zero.mpr fun f hf => ?_
        have hlt := hknown f hf
        simp only [decide_eq_true_eq, not_and]
        omega
      rw [hnew, countAt_cons, countAt_cons, countAt_cons, hnone, hnone, hnone]
      simpa [Place.drives, Place.runsHandlers, Place.signalling, Place.signals] using
        newContext_created
    · have hlt : (k < s.created + 1) = (k < s.created) := by
        simp only [eq_iff_iff]
        omega
      simpa [countAt_cons, hne, hlt] using hsound k
  · rw [hcontexts]
    refine List.forall_mem_cons.mpr ⟨?_, hframes⟩
    simp only [hnew]
    refine ⟨fun _ => ?_, by simp [Place.signals]⟩
    constructor <;> simp [newContext, Place.held, Place.ends, Place.closes]
  · intro u
    rw [hrunning]
    have hstack := hsaved u
    rcases eq_or_ne t u with rfl | hne
    · simpa [stackOf, Saved, Place.saved] using hstack
    · simpa [stackOf, hne] using hstack

theorem Invariant.enter {s s' : System} {t : Nat} {e : Entry} {q : Option Pc}
    {fs : List (Frame Pc)} (h : Invariant s fs) (henter : enter s t e = some (s', q)) :
    Invariant s' (q.toList.map (Frame.mk t) ++ fs) := by
  obtain ⟨hrunning, ⟨hcontexts, hcreated, rfl⟩ | ⟨hcreated, k, x, hentered, hcontexts⟩⟩ :=
    enter_entered henter
  · exact h.create hrunning hcontexts hcreated
  · obtain ⟨hknown, hfresh, hsound, hframes, hsaved⟩ := h
    obtain ⟨hk, hplaces, hsignals⟩ := hentered.context
    constructor
    · rw [hcreated]
      exact forall_enter.mpr ⟨hknown, fun pc hq => (hplaces pc hq).1 ▸ hk⟩
    · intro j hj
      rw [hcreated] at hj
      rw [hcontexts, Function.update_of_ne (by omega)]
      exact hfresh j hj
    · intro j
      rw [hcreated, hcontexts, countAt_enter, countAt_enter, countAt_enter]
      rcases eq_or_ne j k with rfl | hne
      · rw [Function.update_self]
        have hsound' := hentered.sound (hsound j)
        cases q with
        | none => exact hsound'
        | some pc =>
            obtain ⟨hctx, hdrives, -⟩ := hplaces pc rfl
            simpa [hctx, hdrives] using hsound'
      · rw [Function.update_of_ne hne]
        have hold := hsound j
        cases q with
        | none => exact hold
        | some pc =>
            obtain ⟨hctx, -⟩ := hplaces pc rfl
            simpa [hctx, hne.symm] using hold
    · rw [hcontexts]
      refine forall_enter.mpr ⟨fun f hf => ?_, fun pc hq => ?_⟩
      · rcases eq_or_ne f.pc.ctx k with rfl | hne
        · rw [Function.update_self]
          exact hentered.others (hsound _) (hframes f hf) (le_countAt _ hf)
        · rw [Function.update_of_ne hne]
          exact hframes f hf
      · obtain ⟨hctx, hdrives, -⟩ := hplaces pc hq
        rw [hctx, Function.update_self]
        exact ⟨fun hd => by simp [hdrives] at hd, hsignals pc hq⟩
    · intro u
      rw [hrunning]
      rcases eq_or_ne t u with rfl | hne
      · rw [stackOf_enter]
        cases q with
        | none => exact hsaved t
        | some pc =>
            have hnone := (hplaces pc rfl).2.2
            simpa [Saved, hnone] using hsaved t
      · rw [stackOf_enter_of_ne hne]
        exact hsaved u

theorem invariant_reachable {s : State System Pc} (h : Reachable s) :
    Invariant s.shared s.frames := by
  have hpreserves : machine.Preserves (fun _ _ => true) Invariant := by
    apply Machine.Preserves.ofSteps
    · intro s l t pc r c s' q hI _ hl _ hexec
      exact hI.exec hl hexec
    · intro s fs t a s' q hI _ _ _ henter
      exact hI.enter henter
  refine hpreserves.reachable (by rintro _ rfl; rfl) ?_ h
  rintro _ rfl
  refine ⟨by simp, fun _ _ => rfl, fun k => ?_, by simp, fun _ => rfl⟩
  simpa [newSystem, countAt] using newContext_sound

/-- The context of the newest `run()` in progress on a thread with these activations. -/
def innermostRun (pcs : List Pc) : Option Nat :=
  pcs.findSome? fun pc => pc.place.saved.map fun _ => pc.ctx

theorem Saved.running_eq {pcs : List Pc} {running : Option Nat} (h : Saved pcs running) :
    running = innermostRun pcs := by
  induction pcs generalizing running with
  | nil => exact h
  | cons pc pcs ih =>
      cases hsaved : pc.place.saved with
      | none =>
          simp only [Saved, hsaved] at h
          simpa [innermostRun, hsaved] using ih h
      | some prev =>
          simp only [Saved, hsaved] at h
          simpa [innermostRun, hsaved] using h.1

theorem Invariant.exists_driver {s : System} {fs : List (Frame Pc)} (h : Invariant s fs) {k : Nat}
    (hk : k < s.created) (hlive : (s.contexts k).destroyed = false) :
    ∃ t p, ⟨t, ⟨k, p⟩⟩ ∈ fs ∧ p.drives = true ∧ Drives (s.contexts k) p := by
  have hone := (h.sound k).drivers
  simp only [hk, hlive, decide_true, Bool.not_false, Bool.and_self, Bool.toNat_true] at hone
  obtain ⟨⟨t, ⟨k', p⟩⟩, hf, hdrives⟩ := List.countP_pos_iff.mp (hone ▸ Nat.one_pos)
  simp only [decide_eq_true_eq] at hdrives
  obtain ⟨rfl, hdrives⟩ := hdrives
  exact ⟨t, p, hf, hdrives, (h.frames _ hf).drives hdrives⟩

theorem Invariant.queued {s : System} {fs : List (Frame Pc)} (h : Invariant s fs) {k : Nat}
    (hk : k < s.created) :
    ∃ held, held.length ≤ 1 ∧
      (s.contexts k).enqueued =
        (s.contexts k).resumed ++ (s.contexts k).given ++ held ++ (s.contexts k).queue ∧
      ((s.contexts k).destroyed = true → held = [] ∧ (s.contexts k).queue = []) := by
  cases hdestroyed : (s.contexts k).destroyed with
  | true =>
      obtain ⟨-, -, hqueue, hqueued⟩ := (h.sound k).destroyed hdestroyed
      exact ⟨[], Nat.zero_le _, by simp [hqueued, hqueue], fun _ => ⟨rfl, hqueue⟩⟩
  | false =>
      obtain ⟨t, p, -, -, hdrives⟩ := h.exists_driver hk hdestroyed
      refine ⟨p.held, ?_, hdrives.queued, by simp⟩
      cases p <;> simp [Place.held]

/-- `run()` leaves its loop only when its task has ended and nothing is queued. -/
theorem wait_finishes {running prev : Option Nat} {x x' : BlockingContext} {q : Option Place}
    (hstep : Step running x (.wait prev) x' q) (hq : q = some (.runEnd prev)) :
    x.queue = [] ∧ x.done = true := by
  cases hstep with
  | finish _ hqueue hdone => exact ⟨hqueue, hdone⟩
  | _ => simp at hq

/-- In every state that any number of calls of `run_blocking` reach, nested or on
many threads: the wrapper of a call signals once, never on a destroyed context,
and `run()` ends as the handlers did. Continuations are resumed in the order in
which they were queued, all of them when `run()` leaves its loop; what is queued
later is given up in that order, and when the context is destroyed nothing is
left. Who sleeps has nothing to do. And `dispatch` returns the handle exactly in
the innermost `run()` of its thread. -/
theorem run_blocking_delivers {s : State System Pc} (h : Reachable s) :
    (∀ k, k < s.shared.created →
      (∀ o, (s.shared.contexts k).ran = some o → (s.shared.contexts k).signalled = some o) ∧
      countAt Place.signalling k s.frames + (s.shared.contexts k).done.toNat =
        (decide ((s.shared.contexts k).wrapper = .spent)).toNat ∧
      ((s.shared.contexts k).destroyed = true → (s.shared.contexts k).done = true) ∧
      (∃ held, held.length ≤ 1 ∧ (s.shared.contexts k).enqueued =
          (s.shared.contexts k).resumed ++ (s.shared.contexts k).given ++ held ++
            (s.shared.contexts k).queue ∧
        ((s.shared.contexts k).destroyed = true →
          held = [] ∧ (s.shared.contexts k).queue = [])) ∧
      ((s.shared.contexts k).sleeping = true →
        (s.shared.contexts k).done = false ∧ (s.shared.contexts k).queue = [])) ∧
    (∀ t k prev c s', topPc t s.frames = some ⟨k, .wait prev⟩ →
      machine.step s (.run t c) = some s' → topPc t s'.frames = some ⟨k, .runEnd prev⟩ →
      (s.shared.contexts k).done = true ∧
        (s.shared.contexts k).enqueued = (s.shared.contexts k).resumed) ∧
    ∀ t k c s', machine.step s (.enter t (.dispatch k c)) = some s' →
      s'.shared = s.shared ∧ s'.frames =
        if innermostRun (stackOf t s.frames) = some k then s.frames
        else ⟨t, ⟨k, .enqueue c⟩⟩ :: s.frames := by
  have hinv := invariant_reachable h
  refine ⟨fun k hk => ?_, ?_, ?_⟩
  · have hsound := hinv.sound k
    refine ⟨fun o ho => (hsound.ran o ho).2, hsound.signals, fun hd => (hsound.destroyed hd).1,
      hinv.queued hk, fun hsleeping => ?_⟩
    cases hdestroyed : (s.shared.contexts k).destroyed with
    | true => simp [(hsound.destroyed hdestroyed).2.1] at hsleeping
    | false =>
        obtain ⟨t, p, -, -, hdrives⟩ := hinv.exists_driver hk hdestroyed
        exact (hdrives.sleeps hsleeping).2
  · intro t k prev c s' htop hstep htop'
    rcases Machine.ofSteps_step_cases hstep with
      ⟨t', c', l, pc, r, q, heq, hfs, hl, hexec, hfs'⟩ | ⟨t', a, q, heq, -, -⟩
    · obtain ⟨rfl, rfl⟩ : t = t' ∧ c = c' := by simpa using heq
      obtain rfl : pc = ⟨k, .wait prev⟩ := by
        rw [hfs, topPc_append hl] at htop
        simpa using htop
      have hdrives := (hinv.frames ⟨t, ⟨k, .wait prev⟩⟩ (by simp [hfs])).drives rfl
      obtain ⟨x, p, hwait, rfl, -⟩ := exec_step hexec
      have hplace : p = some (.runEnd prev) := by
        cases hwait <;> simp [hfs', topPc_append hl] at htop' ⊢
      obtain ⟨hqueue, hdone⟩ := wait_finishes hwait hplace
      have hqueued := hdrives.queued
      simp only [(hdrives.running rfl).1, Place.held, hqueue, List.append_nil] at hqueued
      exact ⟨hdone, hqueued⟩
    · simp at heq
  · intro t k c s' hstep
    rcases Machine.ofSteps_step_cases hstep with
      ⟨t', c', l, pc, r, q, heq, -⟩ | ⟨t', a, q, heq, henter, hfs'⟩
    · simp at heq
    · obtain ⟨rfl, rfl⟩ : t = t' ∧ Entry.dispatch k c = a := by simpa using heq
      have hrunning := (hinv.saved t).running_eq
      simp only [enter, Option.ite_none_right_eq_some] at henter
      obtain ⟨-, henter⟩ := henter
      rw [← hrunning, hfs']
      split_ifs at henter ⊢ <;> obtain ⟨heq, rfl⟩ := by
        simpa only [Option.some.injEq, Prod.mk.injEq] using henter
      · exact ⟨heq.symm, rfl⟩
      · exact ⟨heq.symm, rfl⟩

/-- A call is made in a continuation of another one, on the same thread. It sleeps
until another thread posts to it; what it dispatches to the outer context is
queued; then its handlers are invoked and it returns. -/
def nestedRun : List (Event Choice Entry) :=
  [.enter 0 .runBlocking, .enter 0 (.dispatch 0 5), .run 0 .proceed, .run 0 .proceed,
    .run 0 .proceed, .run 0 .proceed, .run 0 .proceed, .enter 0 .runBlocking, .run 0 .proceed,
    .run 0 .proceed, .run 0 .proceed, .enter 1 (.post 1 6), .run 1 .proceed, .run 0 .proceed,
    .run 0 .proceed, .enter 0 (.dispatch 0 7), .run 0 .proceed, .enter 0 (.invoke 1),
    .run 0 .proceed, .run 0 .proceed, .run 0 .proceed, .run 0 .proceed, .run 0 .proceed,
    .run 0 .proceed, .run 0 .proceed, .run 0 .proceed, .run 0 .proceed]

theorem run_blocking_delivers_nested :
    ∃ s, machine.runEvents ⟨newSystem, []⟩ nestedRun = some s ∧
      (s.shared.contexts 1).destroyed = true ∧ (s.shared.contexts 1).resumed = [6] ∧
      (s.shared.contexts 1).ran = some .returned ∧
      (s.shared.contexts 1).signalled = some .returned ∧
      (s.shared.contexts 0).queue = [7] ∧
      ∀ s', machine.step s (.enter 0 (.dispatch 0 8)) = some s' → s'.frames = s.frames := by
  obtain ⟨s, hs, hcreated, hdestroyed, hresumed, hran, hqueue, hstack⟩ :
      ∃ s, machine.runEvents ⟨newSystem, []⟩ nestedRun = some s ∧ s.shared.created = 2 ∧
        (s.shared.contexts 1).destroyed = true ∧ (s.shared.contexts 1).resumed = [6] ∧
        (s.shared.contexts 1).ran = some .returned ∧ (s.shared.contexts 0).queue = [7] ∧
        innermostRun (stackOf 0 s.frames) = some 0 := ⟨_, rfl, rfl, rfl, rfl, rfl, rfl, rfl⟩
  have hinit : Reachable ⟨newSystem, []⟩ := .init rfl
  obtain ⟨hcontexts, -, hdispatch⟩ := run_blocking_delivers (hinit.runWhen nestedRun hs)
  have hsignalled := (hcontexts 1 (by simp [hcreated])).1 _ hran
  refine ⟨s, hs, hdestroyed, hresumed, hran, hsignalled, hqueue, fun s' hstep => ?_⟩
  have hframes := (hdispatch 0 0 8 s' hstep).2
  rwa [if_pos hstack] at hframes

end Capy.RunBlocking
