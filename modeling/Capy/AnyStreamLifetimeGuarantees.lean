import Capy.AnyStreamLifetimeWrappers

namespace Capy.AnyStreamLifetime

open Capy.CallStack
open Capy.Custody (Live)

/-- The step neither constructs an `any_stream` whose stream throws as it is moved
into it, nor constructs an inner awaitable in a cache that is still active. -/
def sound (s : Store) : Action → Bool
  | .construct _ .anyStream .value (some .move) => false
  | .start a false =>
      match s.awaitable a with
      | none => true
      | some x =>
          x.emptyWrite || match x.self with
            | none => true
            | some w => !(s.base (w, x.kind)).awaitableActive
  | _ => true

section Steps

variable {s s' : Store} {a a' w : Nat} {x : Awaitable} {p : Nat × Kind}

theorem Inv.retouch (h : Inv s) (hs' : Coherent s') (hwrapper : s'.wrapper = s.wrapper)
    (hwhole : s'.whole = s.whole)
    (hsame : ∀ p, (s'.base p).stream = (s.base p).stream ∧
      (s'.base p).cachedAwaitable = (s.base p).cachedAwaitable ∧
      (s'.base p).storage = (s.base p).storage)
    (hvoid : ∀ p, s.base p = {} → s'.base p = {}) : Inv s' where
  coherent := hs'
  shaped w := by
    have hw := h.shaped w
    rw [hwrapper, hwhole]
    refine ⟨fun hk => hvoid _ (hw.absent hk), hw.noWhole, ?_, ?_, ?_⟩
    · intro hc k
      rw [(hsame (w, k)).2.2]
      exact hw.borrows hc k
    · intro k hstream
      rw [(hsame (w, k)).1] at hstream
      rw [(hsame (w, k)).2.1]
      exact hw.cached hstream
    · intro k x b hstream
      rw [(hsame (w, k)).1] at hstream
      rw [(hsame (w, k)).2.2]
      exact hw.home hstream

theorem Inv.setAwaitable {o : Option Awaitable} (h : Inv s)
    (hold : ∀ x, s.awaitable a = some x → x.owns = false)
    (hnew : ∀ x, o = some x → x.owns = false) : Inv (s.setAwaitable a o) :=
  ⟨h.coherent.setAwaitable hold hnew, h.shaped⟩

theorem Inv.alive (h : Inv s) (howner : (s.base p).owner = some a) :
    (s.wrapper p.1).isSome = true := by
  rw [Option.isSome_iff_ne_none]
  intro hnone
  have hvoid : s.base p = {} := (h.shaped p.1).absent (k := p.2) (by simp [hnone])
  simp [hvoid] at howner

theorem Inv.endOperation (h : Inv s) : Inv (s.endOperation p) := by
  have heq := endOperation_eq (p := p) h.coherent.toLinked
  refine h.retouch h.coherent.endOperation (by rw [heq]) (by rw [heq]) ?_ ?_
  · intro q
    rw [heq]
    by_cases hq : q = p
    · simp [hq]
    · simp [hq]
  · intro q hvoid
    rw [heq]
    by_cases hq : q = p
    · subst hq
      simp [hvoid]
    · simp [hq, hvoid]

theorem Inv.ownsAt (h : Inv s) (hx : s.awaitable a = some x) (howns : x.owns = true) :
    ∃ p, x.OwnsAt p ∧ (s.wrapper p.1).isSome = true := by
  obtain ⟨w, hself⟩ := Option.ne_none_iff_exists'.mp (h.coherent.owner.placed a x hx howns)
  have hat : x.OwnsAt (w, x.kind) := ⟨howns, hself, rfl⟩
  exact ⟨_, hat, h.alive ((h.coherent.owner.points (w, x.kind) a).mpr ⟨x, hx, hat⟩)⟩

theorem Inv.complete (h : Inv s) (hx : s.awaitable a = some x) (howns : x.owns = true) :
    Inv (s.awaitResume a x) := by
  obtain ⟨p, hat, halive⟩ := h.ownsAt hx howns
  rw [awaitResume_eq h.coherent.toLinked hx hat halive]
  exact h.endOperation

theorem Inv.drop (h : Inv s) (hx : s.awaitable a = some x) : Inv (s.drop a x) := by
  cases howns : x.owns with
  | false =>
      have hidle := h.setAwaitable (a := a) (o := none)
        (by rintro y hy; cases hx.symm.trans hy; exact howns) (by simp)
      simpa [Store.drop, howns] using hidle
  | true =>
      obtain ⟨p, hat, halive⟩ := h.ownsAt hx howns
      rw [drop_eq h.coherent.toLinked hx hat halive]
      have howner := (h.coherent.owner.points p a).mpr ⟨x, hx, hat⟩
      refine h.endOperation.setAwaitable ?_ (by simp)
      intro y hy
      rw [endOperation_eq h.coherent.toLinked, disowned_of_owner howner, hx] at hy
      obtain rfl : { x with owns := false } = y := by simpa using hy
      rfl

theorem Inv.moveAwaitable (h : Inv s) (hx : s.awaitable a = some x) (ha' : s.awaitable a' = none) :
    Inv (s.moveAwaitable a a' x) := by
  have hcoherent := h.coherent.moveAwaitable hx ha' fun howns => h.ownsAt hx howns
  cases howns : x.owns with
  | false =>
      refine ⟨hcoherent, ?_⟩
      simpa [Store.moveAwaitable, howns, Store.setAwaitable] using h.shaped
  | true =>
      obtain ⟨p, hat, halive⟩ := h.ownsAt hx howns
      have howner := (h.coherent.owner.points p a).mpr ⟨x, hx, hat⟩
      have hactive := (h.coherent.fits p).owned howner
      have heq := moveAwaitable_eq a a' hat halive
      refine h.retouch hcoherent (by rw [heq]) (by rw [heq]) ?_ ?_
      · intro q
        rw [heq]
        by_cases hq : q = p
        · simp [hq]
        · simp [hq]
      · intro q hvoid
        have hq : q ≠ p := by
          rintro rfl
          simp [hvoid] at hactive
        simp [heq, hq, hvoid]

theorem Inv.object_held {stream : Stream} {r : Resource} (h : Inv s)
    (hstream : (s.base p).stream = some stream) (hr : stream.object = some r) :
    ∃ q, s.slot q = some r := by
  cases stream with
  | external => simp [Stream.object] at hr
  | owned x b =>
      rcases (h.shaped p.1).home hstream with hstorage | ⟨hstorage, hptr⟩
      · have hstorage : (s.base p).storage = some b := hstorage
        exact ⟨.stream p, by simp [Store.slot, ownedStream, hstorage, hstream, hr]⟩
      · exact ⟨.wholeStream p.1, by simp [Store.slot, ownedStream, hstorage, hptr, hr]⟩

theorem Inv.start (h : Inv s) (hx : s.awaitable a = some x) (hself : x.self = some w)
    (hcan : s.canStart (w, x.kind) = true)
    (hidle : (s.base (w, x.kind)).awaitableActive = false) :
    Inv (s.awaitReady a x (w, x.kind)) := by
  simp only [Store.canStart, Bool.and_eq_true] at hcan
  obtain ⟨stream, hstream⟩ := Option.isSome_iff_exists.mp hcan.1.2
  have hne : (s.base (w, x.kind)).stream ≠ none := by simp [hstream]
  obtain ⟨c, hcached⟩ := Option.ne_none_iff_exists'.mp ((h.shaped w).cached hne)
  have heq := awaitReady_eq (a := a) (x := x) hstream hcached
  refine h.retouch (h.coherent.awaitReady hx hself rfl hidle hstream hcached
    fun r hr => h.object_held hstream hr) (by rw [heq]) (by rw [heq]) ?_ ?_
  · intro q
    rw [heq]
    by_cases hq : q = (w, x.kind)
    · simp [hq]
    · simp [hq]
  · intro q hvoid
    have hq : q ≠ (w, x.kind) := by
      rintro rfl
      simp [hvoid] at hne
    simp [heq, hq, hvoid]

theorem Inv.step {action : Action} (h : Inv s) (hok : sound s action = true)
    (hstep : step s action = some s') : Inv s' := by
  cases action with
  | construct w c arg throws =>
      simp only [AnyStreamLifetime.step] at hstep
      split at hstep
      · rename_i hw
        have hok' : ¬(c = .anyStream ∧ arg = .value ∧ throws = some .move) := by
          rintro ⟨rfl, rfl, rfl⟩
          simp [sound] at hok
        have hc := constructs h hw hok'
        cases hresult : s.construct w c arg throws with
        | mk s₁ returned =>
            rw [hresult] at hc hstep
            have hinv := hc.inv h hw
            cases returned <;> cases hstep <;> exact hinv
      · cases hstep
  | make a w k empty =>
      simp only [AnyStreamLifetime.step] at hstep
      split at hstep
      · rename_i hnone _
        split at hstep
        · cases hstep
          exact h.setAwaitable (by simp [hnone]) (by rintro _ ⟨⟩; rfl)
        · cases hstep
      · cases hstep
  | start a throws =>
      simp only [AnyStreamLifetime.step] at hstep
      split at hstep
      · cases hstep
      · rename_i x hx
        split at hstep
        · cases hstep
          exact h
        · rename_i hempty
          split at hstep
          · cases hstep
          · rename_i w hself
            split at hstep
            · rename_i hcan
              cases hstep
              cases throws with
              | true => exact h
              | false =>
                  simp only [sound, hx, hself, hempty, Bool.not_eq_true', Bool.or_eq_true,
                    Bool.false_eq_true, false_or] at hok
                  exact h.start hx hself hcan hok
            · cases hstep
  | complete a =>
      simp only [AnyStreamLifetime.step] at hstep
      split at hstep
      · cases hstep
      · rename_i x hx
        split at hstep
        · rename_i howns
          cases hstep
          exact h.complete hx howns
        · split at hstep <;> cases hstep
          exact h
  | drop a =>
      obtain ⟨x, hx, rfl⟩ := Option.map_eq_some_iff.mp hstep
      exact h.drop hx
  | moveAwaitable a a' =>
      simp only [AnyStreamLifetime.step] at hstep
      split at hstep
      · rename_i x hx hnone
        cases hstep
        exact h.moveAwaitable hx hnone
      · cases hstep
  | moveConstruct w w' =>
      simp only [AnyStreamLifetime.step] at hstep
      split at hstep
      · rename_i c hw hw'
        cases hstep
        exact h.moveConstruct hw hw'
      · cases hstep
  | moveAssign w w' =>
      simp only [AnyStreamLifetime.step] at hstep
      split at hstep
      · rename_i c c' hw hw'
        split at hstep
        · rename_i heq
          subst heq
          cases hstep
          exact h.moveAssign hw hw'
        · cases hstep
      · cases hstep
  | destroy w =>
      obtain ⟨c, hw, rfl⟩ := Option.map_eq_some_iff.mp hstep
      exact h.destroy hw

end Steps

/-- A live inner awaitable is in the cache of the base. -/
def Store.HoldsInner (s : Store) (p : Nat × Kind) : Prop :=
  ∃ c i stream, (s.base p).cachedAwaitable = some c ∧ Live s.log (.inner i c stream)

/-- What is created is released once, in order, and by who holds it. -/
structure Lifecycle (s : Store) : Prop where
  /-- Nothing is created twice, or released twice, or released but not created. -/
  once : ∀ r, s.log.count (.released r) ≤ s.log.count (.created r) ∧
    s.log.count (.created r) ≤ 1
  /-- What is not released yet is in one place, of a wrapper that is there. -/
  held : ∀ r, Live s.log r → ∃ q, (s.slot q = some r ∧ s.wrapper q.wrapper ≠ none) ∧
    ∀ q', s.slot q' = some r → q' = q
  /-- When no wrapper is left everything is released. -/
  settled : (∀ w, s.wrapper w = none) → ∀ r,
    s.log.count (.released r) = s.log.count (.created r)
  /-- An inner awaitable is destroyed before the stream it refers to and before its
  block, a stream before its block, and none is constructed after that. -/
  before : ∀ post pre r r', s.log = post ++ .released r :: pre → Needs r' r →
    (.created r' ∈ pre → .released r' ∈ pre) ∧ .created r' ∉ post
  /-- No inner awaitable is constructed over a live one. -/
  alone : ∀ post pre i c stream, s.log = post ++ .created (.inner i c stream) :: pre →
    ∀ j stream', .created (.inner j c stream') ∈ pre → .released (.inner j c stream') ∈ pre
  active : ∀ p, (s.base p).awaitableActive = true ↔ s.HoldsInner p
  owner : ∀ p, (s.base p).owner ≠ none ↔
    ∃ a, (∃ x, s.awaitable a = some x ∧ x.OwnsAt p) ∧
      ∀ a', (∃ x, s.awaitable a' = some x ∧ x.OwnsAt p) → a' = a
  /-- `owner_` points to the flag that is set. -/
  points : ∀ p a, (s.base p).owner = some a → ∃ x, s.awaitable a = some x ∧ x.OwnsAt p
  /-- No object is used that is not there. -/
  sane : s.fault = false

namespace Inv

variable {s s' : Store} {p : Nat × Kind} {q : Slot} {r : Resource}

theorem alive_slot (h : Inv s) (hq : s.slot q = some r) : s.wrapper q.wrapper ≠ none := by
  intro hnone
  have hbase : ∀ k, s.base (q.wrapper, k) = {} := fun k =>
    (h.shaped q.wrapper).absent (by simp [hnone])
  have hwhole : s.whole q.wrapper = {} := (h.shaped q.wrapper).noWhole (by simp [hnone])
  cases q with
  | cached p | inner p | storage p | stream p =>
      have hp : s.base p = {} := hbase p.2
      simp [Store.slot, hp, ownedStream] at hq
  | wholeStorage w | wholeStream w =>
      have hw : s.whole w = {} := hwhole
      simp [Store.slot, hw, ownedStream] at hq

theorem holdsInner_of_active (h : Inv s) (hactive : (s.base p).awaitableActive = true) :
    s.HoldsInner p := by
  obtain ⟨c, i, stream, hcached, hcell, -⟩ := (h.coherent.fits p).active hactive
  refine ⟨c, i, stream, hcached, (h.coherent.held.live_iff _).mpr ⟨.inner p, ?_⟩⟩
  simp [Store.slot, hactive, hcached, hcell]

theorem active_of_holdsInner (h : Inv s) (hinner : s.HoldsInner p) :
    (s.base p).awaitableActive = true := by
  obtain ⟨c, i, stream, hcached, hlive⟩ := hinner
  obtain ⟨q, hq⟩ := (h.coherent.held.live_iff _).mp hlive
  obtain ⟨p', -, hactive, hcached', -⟩ := h.coherent.slot_inner hq
  -- the block of the inner awaitable is the cache of one base
  have hslot : s.slot (.cached p) = some (.block c) := by simp [Store.slot, hcached]
  have hslot' : s.slot (.cached p') = some (.block c) := by simp [Store.slot, hcached']
  cases h.coherent.held.inj hslot hslot'
  exact hactive

theorem lifecycle (h : Inv s) : Lifecycle s where
  once r := h.coherent.held.orderly.count_le r
  held r hlive := by
    obtain ⟨q, hq⟩ := (h.coherent.held.live_iff r).mp hlive
    exact ⟨q, ⟨hq, h.alive_slot hq⟩, fun q' hq' => h.coherent.held.inj hq' hq⟩
  settled hnone r := by
    have hle := h.coherent.held.orderly.count_le r
    by_contra hne
    have hlive : Live s.log r := by
      constructor
      · exact List.count_pos_iff.mp (by omega)
      · exact List.count_eq_zero.mp (by omega)
    obtain ⟨q, hq⟩ := (h.coherent.held.live_iff r).mp hlive
    exact h.alive_slot hq (hnone _)
  before _ _ _ _ hlog hneeds := by
    have horderly := h.coherent.held.orderly
    rw [hlog] at horderly
    exact horderly.needs_before hneeds
  alone _ _ _ _ _ hlog _ _ hcreated := by
    have horderly := h.coherent.held.orderly
    rw [hlog] at horderly
    exact horderly.excludes_before rfl hcreated
  active p := ⟨h.holdsInner_of_active, h.active_of_holdsInner⟩
  owner p := by
    constructor
    · intro hne
      obtain ⟨a, ha⟩ := Option.ne_none_iff_exists'.mp hne
      refine ⟨a, (h.coherent.owner.points p a).mp ha, fun a' ha' => ?_⟩
      have hpoints := (h.coherent.owner.points p a').mpr ha'
      exact Option.some.inj (hpoints.symm.trans ha)
    · rintro ⟨a, ha, -⟩
      simp [(h.coherent.owner.points p a).mpr ha]
  points p a ha := (h.coherent.owner.points p a).mp ha
  sane := h.coherent.sane

/-- A start is refused only where the wrapper is not there, holds no stream, or has
an operation of the kind in flight. -/
theorem canStart_iff (h : Inv s) : s.canStart p = true ↔
    s.wrapper p.1 ≠ none ∧ (s.base p).stream ≠ none ∧
      ∀ a x, s.awaitable a = some x → ¬x.OwnsAt p := by
  simp only [Store.canStart, Bool.and_eq_true, Option.isSome_iff_ne_none, and_assoc,
    Option.isNone_iff_eq_none]
  refine and_congr_right fun _ => and_congr_right fun _ => ⟨?_, ?_⟩
  · intro hnone a x hx hat
    simp [(h.coherent.owner.points p a).mpr ⟨x, hx, hat⟩] at hnone
  · intro hfree
    by_contra hne
    obtain ⟨a, ha⟩ := Option.ne_none_iff_exists'.mp hne
    obtain ⟨x, hx, hat⟩ := (h.coherent.owner.points p a).mp ha
    exact hfree a x hx hat

/-- The storage for a stream that throws as it is moved into an `any_stream` is
lost. -/
theorem not_lifecycle_lost (h : Inv s) : ¬Lifecycle (s.create (.block s.next)) := by
  intro hs'
  have hfresh : .created (.block s.next) ∉ s.log := h.coherent.not_created (Nat.le_refl s.next)
  have hlive : Live (.created (.block s.next) :: s.log) (.block s.next) :=
    (h.coherent.held.orderly.live_create hfresh).mpr (.inl rfl)
  obtain ⟨q, ⟨hq, -⟩, -⟩ := hs'.held _ hlive
  exact hfresh (h.coherent.held.created (q := q) hq)

/-- A start on an active cache constructs an inner awaitable over a live one. -/
theorem not_lifecycle_over {a : Nat} {x : Awaitable} (h : Inv s)
    (hactive : (s.base p).awaitableActive = true) : ¬Lifecycle (s.awaitReady a x p) := by
  intro hs'
  obtain ⟨c, i, stream, hcached, hcell, hstream⟩ := (h.coherent.fits p).active hactive
  have hslot : s.slot (.inner p) = some (.inner i c stream) := by
    simp [Store.slot, hactive, hcached, hcell]
  have hlive := (h.coherent.held.live_iff _).mpr ⟨_, hslot⟩
  have heq := awaitReady_eq (a := a) (x := x) hstream hcached
  have hreleased := hs'.alone [] _ _ _ _ (by rw [heq, List.nil_append]) _ _ hlive.1
  exact hlive.2 hreleased

theorem not_lifecycle_of_unsound {action : Action} (h : Inv s) (hok : sound s action = false)
    (hstep : AnyStreamLifetime.step s action = some s') : ¬Lifecycle s' := by
  cases action with
  | construct w c arg throws =>
      have hthrown : c = .anyStream ∧ arg = .value ∧ throws = some .move := by
        unfold sound at hok
        split at hok
        · rename_i heq
          cases heq
          exact ⟨rfl, rfl, rfl⟩
        · rename_i heq
          cases heq
        · cases hok
      obtain ⟨rfl, rfl, rfl⟩ := hthrown
      simp only [AnyStreamLifetime.step] at hstep
      split at hstep
      · cases hstep
        exact h.not_lifecycle_lost
      · cases hstep
  | start a throws =>
      cases throws with
      | true => simp [sound] at hok
      | false =>
          simp only [AnyStreamLifetime.step] at hstep
          simp only [sound] at hok
          split at hstep
          · cases hstep
          · rename_i x hx
            rw [hx] at hok
            simp only [Bool.or_eq_false_iff] at hok
            rw [if_neg (by simp [hok.1])] at hstep
            split at hstep
            · cases hstep
            · rename_i w hself
              rw [hself] at hok
              split at hstep
              · cases hstep
                exact h.not_lifecycle_over (by simpa using hok.2)
              · cases hstep
  | make | complete | drop | moveAwaitable | moveConstruct | moveAssign | destroy =>
      simp [sound] at hok

end Inv

/-- `sound` for the events of a run. -/
def soundStep (s : State Store Empty) : Event Unit Action → Bool
  | .run _ _ => true
  | .enter _ action => sound s.shared action

theorem inv_initial : Inv {} where
  coherent := by
    have hlinked : Linked {} :=
      ⟨by simp, fun _ => .idle rfl rfl (by simp), ⟨by simp, by simp [Placed]⟩, by simp⟩
    refine ⟨hlinked, ?_, by simp, rfl⟩
    convert Custody.Held.nil using 1
    funext q
    cases q <;> rfl
  shaped _ := Shape.empty none

theorem inv_reachable {s : State Store Empty}
    (h : machine.ReachableWhen soundStep Initial s) : Inv s.shared := by
  have hpreserves : machine.Preserves soundStep fun s _ => Inv s := by
    apply Machine.Preserves.ofSteps
    · intro s l t pc
      exact pc.elim
    · intro s fs t action s' q hI _ _ hok henter
      obtain ⟨s₁, hstep, heq⟩ := Option.map_eq_some_iff.mp henter
      cases heq
      exact hI.step hok hstep
  refine hpreserves.reachableWhen (by rintro _ rfl; rfl) ?_ h
  rintro _ rfl
  exact inv_initial

/-- In every state of a run whose steps are all `sound`, what the wrappers create is
released once and in order by who holds it, and the flags agree. The first step
that is not `sound` leads to a state where that fails. -/
theorem type_erased_lifecycle_when {s : State Store Empty}
    (h : machine.ReachableWhen soundStep Initial s) :
    Lifecycle s.shared ∧ ∀ s' e, soundStep s e = false → machine.step s e = some s' →
      ¬Lifecycle s'.shared := by
  have hinv := inv_reachable h
  refine ⟨hinv.lifecycle, ?_⟩
  intro s' e hok hstep
  rcases Machine.ofSteps_step_cases hstep with ⟨_, _, _, pc, _⟩ | ⟨t, action, q, rfl, henter, -⟩
  · exact pc.elim
  · obtain ⟨s₁, hs₁, heq⟩ := Option.map_eq_some_iff.mp henter
    obtain ⟨rfl, -⟩ := Prod.mk.inj heq
    exact hinv.not_lifecycle_of_unsound hok hs₁

/-- A read and a write in flight on an `any_stream` that owns its stream; the wrapper
is moved, the awaitables are dropped and both wrappers destroyed. -/
def movedRun : List (Event Unit Action) :=
  [.enter 0 (.construct 0 .anyStream .value none), .enter 0 (.make 0 0 .read false),
    .enter 0 (.start 0 false), .enter 0 (.make 1 0 .write false), .enter 0 (.start 1 false),
    .enter 0 (.moveAwaitable 1 2), .enter 0 (.moveConstruct 1 0), .enter 0 (.drop 0),
    .enter 0 (.drop 2), .enter 0 (.destroy 0), .enter 0 (.destroy 1)]

/-- The wrapper is moved while a read is in flight, the awaitable of the read is
dropped, and another read is started on the wrapper it was moved to. -/
def reusedRun : List (Event Unit Action) :=
  [.enter 0 (.construct 0 .anyReadStream (.pointer 0) none), .enter 0 (.make 0 0 .read false),
    .enter 0 (.start 0 false), .enter 0 (.moveConstruct 1 0), .enter 0 (.drop 0),
    .enter 0 (.make 1 1 .read false), .enter 0 (.start 1 false)]

theorem type_erased_lifecycle_when_moved :
    (∃ s, machine.runWhen soundStep ⟨{}, []⟩ movedRun = some s ∧ s.shared.log =
        [.released (.block 2), .released (.block 3), .released (.block 0),
          .released (.stream 1 0), .released (.inner 5 3 (.owned 1 0)),
          .released (.inner 4 2 (.owned 1 0)), .created (.inner 5 3 (.owned 1 0)),
          .created (.inner 4 2 (.owned 1 0)), .created (.block 3), .created (.block 2),
          .created (.stream 1 0), .created (.block 0)] ∧ Lifecycle s.shared) ∧
    ∃ s s', machine.runWhen soundStep ⟨{}, []⟩ (reusedRun.take 6) = some s ∧
      machine.step s (.enter 0 (.start 1 false)) = some s' ∧ ¬Lifecycle s'.shared := by
  have hinit : machine.ReachableWhen soundStep Initial ⟨{}, []⟩ := .init rfl
  constructor
  · exact ⟨_, rfl, rfl, (type_erased_lifecycle_when (hinit.runWhen movedRun rfl)).1⟩
  · exact ⟨_, _, rfl, rfl, (type_erased_lifecycle_when (hinit.runWhen (reusedRun.take 6) rfl)).2 _
      (.enter 0 (.start 1 false)) rfl rfl⟩

/-- The second inner awaitable is constructed over the first one, which is never
destroyed; and the storage of an `any_stream` whose stream throws as it is moved is
never deleted. -/
theorem any_stream_reusedAndLost :
    (∃ s, machine.Reachable Initial s ∧
      s.shared.log = [.created (.inner 2 0 (.external 0)), .created (.inner 1 0 (.external 0)),
        .created (.block 0)] ∧ ¬Lifecycle s.shared) ∧
    ∃ s, machine.Reachable Initial s ∧ s.shared.log = [.created (.block 0)] ∧
      (∀ w, s.shared.wrapper w = none) ∧ ¬Lifecycle s.shared := by
  have hinit : machine.Reachable Initial ⟨{}, []⟩ := .init rfl
  constructor
  · refine ⟨_, hinit.runWhen reusedRun rfl, rfl, fun h => ?_⟩
    have hreleased := h.alone [] [.created (.inner 1 0 (.external 0)), .created (.block 0)] 2 0
      (.external 0) rfl 1 (.external 0) (by simp)
    simp at hreleased
  · refine ⟨_, hinit.runWhen [.enter 0 (.construct 0 .anyStream .value (some .move))] rfl, rfl,
      fun _ => rfl, fun h => ?_⟩
    have hcount := h.settled (fun _ => rfl) (.block 0)
    exact absurd hcount (by decide)

end Capy.AnyStreamLifetime
