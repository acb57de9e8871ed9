import Capy.AnyStreamLifetimeCustody

namespace Capy.AnyStreamLifetime

open Capy.Custody (Held releases)

/-- No active operation refers to a stream in the block. -/
def Store.Unused (s : Store) (b : Nat) : Prop :=
  ∀ q x, (s.base q).awaitableActive = true → (s.base q).stream ≠ some (.owned x b)

theorem Store.Unused.borrow {s s' : Store} {p : Nat × Kind} {b c : Nat} {stream : Stream}
    (h : s.Unused b) (hbase : s'.base = Function.update s.base p
      { stream := some stream, cachedAwaitable := some c }) : s'.Unused b := by
  intro q x hactive
  rw [hbase] at hactive ⊢
  by_cases hq : q = p
  · simp [hq] at hactive
  · rw [Function.update_of_ne hq] at hactive ⊢
    exact h q x hactive

theorem fresh_cons {n : Nat} {log : List (Custody.Event Resource)} {r : Resource}
    (h : ∀ {r}, .created r ∈ log → r.id < n) (hr : r.id = n) :
    ∀ {r'}, .created r' ∈ .created r :: log → r'.id < n + 1 := by
  intro r' hr'
  rcases List.mem_cons.mp hr' with heq | hr'
  · cases heq
    omega
  · exact Nat.lt_succ_of_lt (h hr')

theorem held_createBlock {f : Slot → Option Resource} {log : List (Custody.Event Resource)}
    {q : Slot} {b : Nat} (h : Held rules f log) (hq : f q = none)
    (hfresh : .created (.block b) ∉ log) :
    Held rules (Function.update f q (some (.block b))) (.created (.block b) :: log) :=
  h.create hq hfresh (fun _ hneeds => False.elim hneeds) fun r hexcludes => by
    cases r <;> exact False.elim hexcludes

theorem held_createStream {f : Slot → Option Resource} {log : List (Custody.Event Resource)}
    {q q' : Slot} {x b : Nat} (h : Held rules f log) (hq : f q = none)
    (hfresh : .created (.stream x b) ∉ log) (hblock : f q' = some (.block b))
    (hempty : ∀ y, .created (.stream y b) ∉ log) :
    Held rules (Function.update f q (some (.stream x b))) (.created (.stream x b) :: log) := by
  refine h.create hq hfresh ?_ ?_
  · rintro r rfl
    exact ⟨q', hblock⟩
  · intro r hexcludes q'' hq''
    cases r with
    | block | inner => exact hexcludes
    | stream y c =>
        obtain rfl : b = c := hexcludes
        exact hempty y (h.created hq'')

namespace Coherent

variable {s : Store} {p : Nat × Kind} {w : Nat} {q : Slot} {r r' : Resource}

theorem not_created (h : Coherent s) (hr : s.next ≤ r.id) : .created r ∉ s.log := fun hmem =>
  absurd (h.fresh hmem) (Nat.not_lt.mpr hr)

theorem not_needs_fresh (h : Coherent s) (hq : s.slot q = some r') (hr : s.next ≤ r.id) :
    ¬Needs r' r := fun hneeds =>
  h.not_created hr (h.held.orderly.created_of_needs (h.held.created hq) hneeds)

theorem active_block_lt {x b : Nat} (h : Coherent s) (hactive : (s.base p).awaitableActive = true)
    (hstream : (s.base p).stream = some (.owned x b)) : b < s.next := by
  obtain ⟨c, i, stream, hcached, hcell, hstream'⟩ := (h.fits p).active hactive
  cases hstream.symm.trans hstream'
  have hslot : s.slot (.inner p) = some (.inner i c (.owned x b)) := by
    simp [Store.slot, hactive, hcached, hcell]
  have hcreated : .created (.stream x b) ∈ s.log :=
    h.held.orderly.created_of_needs (h.held.created hslot) (.inr rfl)
  exact h.fresh (h.held.orderly.created_of_needs hcreated rfl)

theorem held_stored {q q' : Slot} (h : Coherent s) (hne : q ≠ q') (hq : s.slot q = none)
    (hq' : s.slot q' = none) :
    Held rules (Function.update (Function.update s.slot q (some (.block s.next))) q'
        (some (.stream (s.next + 1) s.next)))
      (.created (.stream (s.next + 1) s.next) :: .created (.block s.next) :: s.log) := by
  have hblock : .created (.block s.next) ∉ s.log := h.not_created (Nat.le_refl s.next)
  have hempty : ∀ y, .created (.stream y s.next) ∉ .created (.block s.next) :: s.log := by
    intro y hy
    rcases List.mem_cons.mp hy with heq | hy
    · cases heq
    · exact hblock (h.held.orderly.created_of_needs hy rfl)
  refine held_createStream (held_createBlock h.held hq hblock) ?_ (hempty _)
    (Function.update_self ..) hempty
  rw [Function.update_of_ne hne.symm, hq']

theorem owner_of_idle (h : Coherent s) (hactive : (s.base p).awaitableActive = false) :
    (s.base p).owner = none := by
  cases howner : (s.base p).owner with
  | none => rfl
  | some a => simp [(h.fits p).owned howner] at hactive

theorem allocateCache (h : Coherent s) (hp : (s.base p).cachedAwaitable = none) :
    Coherent ((s.create (.block s.next)).setBase p
      { s.base p with cachedAwaitable := some s.next }) := by
  have hactive : (s.base p).awaitableActive = false := by
    rw [Bool.eq_false_iff]
    intro hactive
    obtain ⟨c, _, _, hcached, -⟩ := (h.fits p).active hactive
    rw [hp] at hcached
    cases hcached
  have howner := h.owner_of_idle hactive
  have hslot : ((s.create (.block s.next)).setBase p
      { s.base p with cachedAwaitable := some s.next }).slot =
      Function.update s.slot (.cached p) (some (.block s.next)) := by
    funext q
    cases q <;> simp only [Store.slot, Store.setBase, Store.create, Function.update_apply] <;>
      split <;> simp_all
  refine ⟨⟨h.cells, ?_, h.owner.update rfl, h.storedWhole⟩, ?_, fresh_cons h.fresh rfl, h.sane⟩
  · exact h.fits_update (.idle hactive howner fun _ hc => (h.fits p).stored hc)
  · rw [hslot]
    exact held_createBlock h.held (by simp [Store.slot, hp]) (h.not_created (Nat.le_refl s.next))

theorem constructBorrowing (h : Coherent s) (hp : s.base p = {}) (throws : Option Point)
    (stream : Stream) : Coherent (s.constructBorrowing p throws stream).1 := by
  have hset : Coherent (s.setBase p { stream := some stream }) := by
    have hslot : (s.setBase p { stream := some stream }).slot = s.slot := by
      funext q
      cases q <;> simp only [Store.slot, Store.setBase, Function.update_apply] <;> split <;>
        simp_all [ownedStream]
    have howner : (s.base p).owner = none := by rw [hp]
    refine ⟨⟨h.cells, ?_, h.owner.update howner.symm, h.storedWhole⟩, ?_, h.fresh, h.sane⟩
    · exact h.fits_update (.idle rfl rfl (by simp))
    · rw [hslot]
      exact h.held
  unfold Store.constructBorrowing
  split
  · exact h
  · have hcache := hset.allocateCache (p := p) (by simp [Store.setBase])
    simpa [Store.setBase, Store.create] using hcache

theorem store (h : Coherent s) (hp : s.base p = {}) :
    Coherent (((s.create (.block s.next)).create (.stream (s.next + 1) s.next)).setBase p
      { stream := some (.owned (s.next + 1) s.next), storage := some s.next }) := by
  have howner : (s.base p).owner = none := by rw [hp]
  have hslot : (((s.create (.block s.next)).create (.stream (s.next + 1) s.next)).setBase p
      { stream := some (.owned (s.next + 1) s.next), storage := some s.next }).slot =
      Function.update (Function.update s.slot (.storage p) (some (.block s.next))) (.stream p)
        (some (.stream (s.next + 1) s.next)) := by
    funext q
    cases q <;> simp only [Store.slot, Store.setBase, Store.create, Function.update_apply] <;>
      split <;> simp_all [ownedStream, Stream.object]
  refine ⟨⟨h.cells, ?_, h.owner.update howner.symm, h.storedWhole⟩, ?_,
    fresh_cons (fresh_cons h.fresh rfl) rfl, h.sane⟩
  · exact h.fits_update (.idle rfl rfl (by simp))
  · rw [hslot]
    exact h.held_stored (by simp) (by simp [Store.slot, hp]) (by simp [Store.slot, hp, ownedStream])

theorem storageBack (h : Coherent s) (hp : s.base p = {}) :
    Coherent ((s.create (.block s.next)).release (.block s.next)) := by
  refine ⟨⟨h.cells, h.fits, h.owner, h.storedWhole⟩, ?_, ?_, h.sane⟩
  · have hempty : s.slot (.storage p) = none := by simp [Store.slot, hp]
    have hblock := held_createBlock h.held hempty (h.not_created (Nat.le_refl s.next))
    have hfree := hblock.release (Function.update_self ..) (by
      intro q r hq hneeds
      by_cases hqp : q = .storage p
      · subst hqp
        rw [Function.update_self] at hq
        cases hq
        exact hneeds
      · rw [Function.update_of_ne hqp] at hq
        exact h.not_needs_fresh (r := .block s.next) hq (Nat.le_refl _) hneeds)
    rw [Function.update_idem, ← hempty, Function.update_eq_self] at hfree
    exact hfree
  · intro r hr
    exact fresh_cons (r := .block s.next) h.fresh rfl
      (by simpa [Store.create, Store.release] using hr)

theorem storeBack (h : Coherent s) (hp : s.base p = {}) :
    Coherent ((((s.create (.block s.next)).create (.stream (s.next + 1) s.next)).release
      (.stream (s.next + 1) s.next)).release (.block s.next)) := by
  have hstore := h.store hp
  have hclear := hstore.clear (p := p) (by
    intro q x b hq hactive hstream hb
    simp only [Store.setBase, Store.create, Function.update_of_ne hq] at hactive hstream
    have hlt := h.active_block_lt hactive hstream
    simp [Store.setBase] at hb
    omega)
  rw [clear_eq hstore.toLinked, disowned_of_owner_none (by simp [Store.setBase])] at hclear
  have hbase : Function.update s.base p {} = s.base := by rw [← hp, Function.update_eq_self]
  simpa [Store.setBase, Store.create, Store.release, Store.slot, releases, ownedStream,
    Stream.object, hbase] using hclear

theorem storeWhole (h : Coherent s) (hw : s.whole w = {}) :
    Coherent (((s.create (.block s.next)).create (.stream (s.next + 1) s.next)).setWhole w
      ⟨some s.next, some (.owned (s.next + 1) s.next)⟩) := by
  have hslot : (((s.create (.block s.next)).create (.stream (s.next + 1) s.next)).setWhole w
      ⟨some s.next, some (.owned (s.next + 1) s.next)⟩).slot =
      Function.update (Function.update s.slot (.wholeStorage w) (some (.block s.next)))
        (.wholeStream w) (some (.stream (s.next + 1) s.next)) := by
    funext q
    cases q <;> simp only [Store.slot, Store.setWhole, Store.create, Function.update_apply] <;>
      split <;> simp_all [ownedStream, Stream.object]
  refine ⟨⟨h.cells, h.fits, h.owner, ?_⟩, ?_, fresh_cons (fresh_cons h.fresh rfl) rfl, h.sane⟩
  · intro w' b hb
    by_cases hw' : w' = w
    · subst hw'
      simp only [Store.setWhole, Function.update_self, Option.some.injEq] at hb ⊢
      subst hb
      exact ⟨_, rfl⟩
    · simp only [Store.setWhole, Store.create, Function.update_of_ne hw'] at hb ⊢
      exact h.storedWhole hb
  · rw [hslot]
    exact h.held_stored (by simp) (by simp [Store.slot, hw]) (by simp [Store.slot, hw, ownedStream])

theorem rollback {b : Nat} (h : Coherent s) (hb : (s.whole w).storage = some b)
    (hunused : s.Unused b) : Coherent (s.destroyWhole w) := by
  refine h.destroyWhole fun q x b' hactive hstream hb' => ?_
  cases hb.symm.trans hb'
  exact hunused q x hactive hstream

end Coherent

section Awaitables

variable {s : Store} {p : Nat × Kind} {a a' : Nat} {x : Awaitable}

theorem Owned.setAwaitable {base : Nat × Kind → Base} {awaitable : Nat → Option Awaitable}
    {o : Option Awaitable} (h : Owned base awaitable)
    (hold : ∀ x, awaitable a = some x → x.owns = false) (hnew : ∀ x, o = some x → x.owns = false) :
    Owned base (Function.update awaitable a o) := by
  refine ⟨fun p a' => ?_, h.placed_update fun x hx howns => by simp [hnew x hx] at howns⟩
  by_cases ha : a' = a
  · subst ha
    rw [h.points p a', Function.update_self]
    constructor
    · rintro ⟨x, hx, howns, -⟩
      simp [hold x hx] at howns
    · rintro ⟨x, hx, howns, -⟩
      simp [hnew x hx] at howns
  · rw [Function.update_of_ne ha]
    exact h.points p a'

theorem Coherent.setAwaitable {o : Option Awaitable} (h : Coherent s)
    (hold : ∀ x, s.awaitable a = some x → x.owns = false)
    (hnew : ∀ x, o = some x → x.owns = false) : Coherent (s.setAwaitable a o) :=
  ⟨⟨h.cells, h.fits, h.owner.setAwaitable hold hnew, h.storedWhole⟩, h.held, h.fresh, h.sane⟩

theorem Owned.start {base : Nat × Kind → Base} {awaitable : Nat → Option Awaitable} {b : Base}
    (h : Owned base awaitable) (hx : awaitable a = some x) (hself : x.self = some p.1)
    (hkind : x.kind = p.2) (howner : (base p).owner = none) (hb : b.owner = some a) :
    Owned (Function.update base p b)
      (Function.update awaitable a (some { x with owns := true })) := by
  have hplace : ∀ q, ({ x with owns := true } : Awaitable).OwnsAt q ↔ q = p := by
    intro q
    constructor
    · rintro ⟨-, hself', hkind'⟩
      exact Prod.ext (Option.some.inj (hself'.symm.trans hself)) (hkind'.symm.trans hkind)
    · rintro rfl
      exact ⟨rfl, hself, hkind⟩
  have hset : Placed (some { x with owns := true }) := by
    rintro y ⟨⟩ -
    simp [hself]
  refine ⟨fun q a' => ?_, h.placed_update hset⟩
  by_cases hq : q = p
  · subst hq
    rw [Function.update_self, hb]
    by_cases ha : a' = a
    · subst ha
      simp [hplace]
    · have hnone := h.points q a'
      rw [howner] at hnone
      rw [Function.update_of_ne ha, ← hnone]
      simp [Ne.symm ha]
  · rw [Function.update_of_ne hq]
    by_cases ha : a' = a
    · subst ha
      rw [h.points q a', Function.update_self]
      constructor
      · rintro ⟨y, hy, -, hself', hkind'⟩
        cases hx.symm.trans hy
        exact absurd (Prod.ext (Option.some.inj (hself'.symm.trans hself))
          (hkind'.symm.trans hkind)) hq
      · rintro ⟨y, hy, howns⟩
        cases hy
        exact absurd ((hplace q).mp howns) hq
    · rw [Function.update_of_ne ha]
      exact h.points q a'

theorem awaitReady_eq {stream : Stream} {c : Nat} (hstream : (s.base p).stream = some stream)
    (hcached : (s.base p).cachedAwaitable = some c) :
    s.awaitReady a x p =
      { s with base := Function.update s.base p
                 { s.base p with awaitableActive := true, owner := some a }
               awaitable := Function.update s.awaitable a (some { x with owns := true })
               cell := Function.update s.cell c (some (.inner s.next c stream))
               log := .created (.inner s.next c stream) :: s.log
               next := s.next + 1 } := by
  simp only [Store.awaitReady, hstream, hcached]
  rfl

theorem bind_update_cell {c : Nat} {r : Resource} {o : Option Nat} (hne : o ≠ some c)
    (cell : Nat → Option Resource) : o.bind (Function.update cell c (some r)) = o.bind cell := by
  cases o with
  | none => rfl
  | some d =>
      have hd : d ≠ c := fun heq => hne (by rw [heq])
      exact Function.update_of_ne hd ..

theorem Coherent.other_cache {c : Nat} (h : Coherent s)
    (hcached : (s.base p).cachedAwaitable = some c) :
    ∀ q, q ≠ p → (s.base q).cachedAwaitable ≠ some c := by
  intro q hq hc
  have hp : s.slot (.cached p) = some (.block c) := by simp [Store.slot, hcached]
  have hq' : s.slot (.cached q) = some (.block c) := by simp [Store.slot, hc]
  exact hq (Slot.cached.inj (h.held.inj hq' hp))

theorem Coherent.held_inner {stream : Stream} {c : Nat} (h : Coherent s)
    (hactive : (s.base p).awaitableActive = false)
    (hcached : (s.base p).cachedAwaitable = some c)
    (hobject : ∀ r, stream.object = some r → ∃ q, s.slot q = some r) :
    Held rules (Function.update s.slot (.inner p) (some (.inner s.next c stream)))
      (.created (.inner s.next c stream) :: s.log) := by
  refine h.held.create (by simp [Store.slot, hactive]) (h.not_created (Nat.le_refl s.next)) ?_ ?_
  · rintro r (rfl | hr)
    · exact ⟨.cached p, by simp [Store.slot, hcached]⟩
    · exact hobject r hr
  · intro r hexcludes q hq
    cases r with
    | block | stream => exact hexcludes
    | inner j d stream' =>
        obtain rfl : c = d := hexcludes
        obtain ⟨p', -, hactive', hcached', -⟩ := h.slot_inner hq
        by_cases hp' : p' = p
        · rw [hp', hactive] at hactive'
          cases hactive'
        · exact h.other_cache hcached p' hp' hcached'

theorem slot_awaitReady {stream : Stream} {c : Nat} (h : Coherent s)
    (hstream : (s.base p).stream = some stream) (hcached : (s.base p).cachedAwaitable = some c) :
    (s.awaitReady a x p).slot =
      Function.update s.slot (.inner p) (some (.inner s.next c stream)) := by
  rw [awaitReady_eq hstream hcached]
  funext q
  cases q with
  | inner q =>
      by_cases hq : q = p
      · subst hq
        simp [Store.slot, hcached]
      · simp [Store.slot, hq, bind_update_cell (h.other_cache hcached q hq)]
  | cached q | storage q | stream q =>
      simp only [Store.slot, Function.update_apply]
      split <;> simp_all
  | wholeStorage | wholeStream => simp [Store.slot]

theorem Coherent.awaitReady {stream : Stream} {c : Nat} (h : Coherent s)
    (hx : s.awaitable a = some x) (hself : x.self = some p.1) (hkind : x.kind = p.2)
    (hactive : (s.base p).awaitableActive = false) (hstream : (s.base p).stream = some stream)
    (hcached : (s.base p).cachedAwaitable = some c)
    (hobject : ∀ r, stream.object = some r → ∃ q, s.slot q = some r) :
    Coherent (s.awaitReady a x p) := by
  have howner := h.owner_of_idle hactive
  have hheld := h.held_inner hactive hcached hobject
  rw [← slot_awaitReady (a := a) (x := x) h hstream hcached] at hheld
  rw [awaitReady_eq hstream hcached] at hheld ⊢
  refine ⟨⟨?_, ?_, h.owner.start hx hself hkind howner rfl, h.storedWhole⟩, hheld,
    fresh_cons h.fresh rfl, h.sane⟩
  · intro d r hr
    by_cases hd : d = c
    · subst hd
      obtain rfl : Resource.inner s.next d stream = r := by simpa using hr
      exact ⟨s.next, stream, rfl⟩
    · exact h.cells (by simpa [hd] using hr)
  · refine (Function.forall_update_iff s.base fun _ b => b.Fits _).mpr ⟨?_, fun q hq => ?_⟩
    · refine ⟨fun _ => ⟨c, s.next, stream, hcached, ?_, hstream⟩, fun _ => rfl,
        (h.fits p).stored⟩
      exact Function.update_self ..
    · -- the other caches still hold what they held
      refine ⟨fun hq' => ?_, (h.fits q).owned, (h.fits q).stored⟩
      obtain ⟨d, i, stream', hd, hcell, hstream'⟩ := (h.fits q).active hq'
      have hdc : d ≠ c := fun heq => h.other_cache hcached q hq (heq ▸ hd)
      exact ⟨d, i, stream', hd, by simpa [hdc] using hcell, hstream'⟩

/-- An awaitable that owns the operation ends it as the wrapper itself would. -/
theorem awaitResume_eq (h : Linked s) (hx : s.awaitable a = some x) (howns : x.OwnsAt p)
    (halive : (s.wrapper p.1).isSome = true) : s.awaitResume a x = s.endOperation p := by
  have hself := howns.2.1
  have hp : (p.1, x.kind) = p := Prod.ext rfl howns.2.2
  have howner : (s.base p).owner = some a := (h.owner.points p a).mpr ⟨x, hx, howns⟩
  have hactive := (h.fits p).owned howner
  obtain ⟨c, i, stream, hcached, hcell, -⟩ := (h.fits p).active hactive
  rw [endOperation_eq h, disowned_of_owner howner, hx]
  simp [Store.awaitResume, Store.finish, hself, halive, hp, Store.destroyAwaitable, hcached, hcell,
    Store.release, Store.setBase, Store.setAwaitable, Store.slot, hactive, releases]

theorem drop_eq (h : Linked s) (hx : s.awaitable a = some x) (howns : x.OwnsAt p)
    (halive : (s.wrapper p.1).isSome = true) :
    s.drop a x = (s.endOperation p).setAwaitable a none := by
  rw [← awaitResume_eq h hx howns halive]
  simp [Store.drop, howns.1, Store.awaitResume, Store.setAwaitable]

theorem Owned.move {base : Nat × Kind → Base} {awaitable : Nat → Option Awaitable} {b : Base}
    {y : Awaitable} (h : Owned base awaitable) (hx : awaitable a = some x) (howns : x.OwnsAt p)
    (ha' : awaitable a' = none) (hy : y.owns = false) (hb : b.owner = some a') :
    Owned (Function.update base p b)
      (Function.update (Function.update awaitable a (some y)) a' (some x)) := by
  have hne : a' ≠ a := by
    rintro rfl
    rw [hx] at ha'
    cases ha'
  have howner : (base p).owner = some a := (h.points p a).mpr ⟨x, hx, howns⟩
  have hlost := h.disown (b := {}) (o := some y) howner rfl (by rintro _ ⟨⟩; exact hy)
  have hidle := hlost.setAwaitable (a := a') (o := some { x with owns := false })
    (by simp [hne, ha']) (by rintro _ ⟨⟩; rfl)
  have hstart := hidle.start (p := p) (b := b) (Function.update_self ..) howns.2.1 howns.2.2
    (by simp) hb
  have hset : ({ x with owns := true } : Awaitable) = x := by rw [← howns.1]
  simpa [hset] using hstart

theorem moveAwaitable_eq (a a' : Nat) (hat : x.OwnsAt p) (halive : (s.wrapper p.1).isSome = true) :
    s.moveAwaitable a a' x =
      { s with base := Function.update s.base p { s.base p with owner := some a' }
               awaitable := Function.update (Function.update s.awaitable a
                 (some { x with self := none, owns := false })) a' (some x) } := by
  have hp : (p.1, x.kind) = p := Prod.ext rfl hat.2.2
  simp [Store.moveAwaitable, hat.1, hat.2.1, Store.setAwaitable, halive, hp, Store.setBase]

theorem Coherent.moveAwaitable (h : Coherent s) (hx : s.awaitable a = some x)
    (ha' : s.awaitable a' = none) (hplace : x.owns = true → ∃ p, x.OwnsAt p ∧
      (s.wrapper p.1).isSome = true) : Coherent (s.moveAwaitable a a' x) := by
  have hne : a' ≠ a := by
    rintro rfl
    rw [hx] at ha'
    cases ha'
  cases howns : x.owns with
  | false =>
      have hsource := h.setAwaitable (a := a) (o := some { x with self := none, owns := false })
        (by rintro y hy; cases hx.symm.trans hy; exact howns) (by rintro _ ⟨⟩; rfl)
      have htarget := hsource.setAwaitable (a := a') (o := some x)
        (by simp [Store.setAwaitable, hne, ha']) (by rintro _ ⟨⟩; exact howns)
      simpa [Store.moveAwaitable, howns] using htarget
  | true =>
      obtain ⟨p, hat, halive⟩ := hplace howns
      have howner : (s.base p).owner = some a := (h.owner.points p a).mpr ⟨x, hx, hat⟩
      rw [moveAwaitable_eq a a' hat halive]
      exact h.setOwner (h.owner.move hx hat ha' rfl rfl) fun _ _ => (h.fits p).owned howner

end Awaitables

end Capy.AnyStreamLifetime
