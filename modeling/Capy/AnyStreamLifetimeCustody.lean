import Capy.AnyStreamLifetime

namespace Capy.AnyStreamLifetime

open Capy.Custody (Held Live Rules releases)

/-- The places in the wrappers that hold what has to be released. -/
inductive Slot where
  | cached (p : Nat × Kind)
  | inner (p : Nat × Kind)
  | storage (p : Nat × Kind)
  | stream (p : Nat × Kind)
  | wholeStorage (w : Nat)
  | wholeStream (w : Nat)
  deriving DecidableEq

def Slot.wrapper : Slot → Nat
  | .cached p | .inner p | .storage p | .stream p => p.1
  | .wholeStorage w | .wholeStream w => w

/-- Where the object in the block of a slot is held. -/
def Slot.occupant : Slot → Option Slot
  | .cached p => some (.inner p)
  | .storage p => some (.stream p)
  | .wholeStorage w => some (.wholeStream w)
  | .inner _ | .stream _ | .wholeStream _ => none

/-- A stream belongs to who has the storage for it. -/
def ownedStream (stream : Option Stream) (storage : Option Nat) : Option Resource :=
  if storage.isSome then stream.bind Stream.object else none

def Store.slot (s : Store) : Slot → Option Resource
  | .cached p => (s.base p).cachedAwaitable.map .block
  | .inner p =>
      if (s.base p).awaitableActive then (s.base p).cachedAwaitable.bind s.cell else none
  | .storage p => (s.base p).storage.map .block
  | .stream p => ownedStream (s.base p).stream (s.base p).storage
  | .wholeStorage w => (s.whole w).storage.map .block
  | .wholeStream w => ownedStream (s.whole w).streamPtr (s.whole w).storage

def Resource.id : Resource → Nat
  | .block i | .stream i _ | .inner i _ _ => i

/-- An inner awaitable needs its block and the owned stream it refers to, a stream
object its block. -/
def Needs : Resource → Resource → Prop
  | .inner _ b stream, r => r = .block b ∨ stream.object = some r
  | .stream _ b, r => r = .block b
  | .block _, _ => False

/-- A block has room for one. -/
def Excludes : Resource → Resource → Prop
  | .inner _ b _, .inner _ b' _ => b = b'
  | .stream _ b, .stream _ b' => b = b'
  | _, _ => False

def rules : Rules Resource := ⟨Needs, Excludes⟩

/-- The members of a base fit together: the cache of an active operation holds the
inner awaitable for the stream, an owner means an active operation, and the storage
is that of the stream. -/
structure Base.Fits (cell : Nat → Option Resource) (b : Base) : Prop where
  active : b.awaitableActive = true → ∃ c i stream, b.cachedAwaitable = some c ∧
    cell c = some (.inner i c stream) ∧ b.stream = some stream
  owned : ∀ {a}, b.owner = some a → b.awaitableActive = true
  stored : ∀ {c}, b.storage = some c → ∃ x, b.stream = some (.owned x c)

/-- The awaitable owns the operation of the base. -/
def Awaitable.OwnsAt (x : Awaitable) (p : Nat × Kind) : Prop :=
  x.owns = true ∧ x.self = some p.1 ∧ x.kind = p.2

/-- The flag is not set on an awaitable without a wrapper. -/
def Placed (o : Option Awaitable) : Prop := ∀ x, o = some x → x.owns = true → x.self ≠ none

/-- `owner_` points to the flag of the awaitable that owns the operation, and is
null when there is none. -/
structure Owned (base : Nat × Kind → Base) (awaitable : Nat → Option Awaitable) : Prop where
  points : ∀ p a, (base p).owner = some a ↔ ∃ x, awaitable a = some x ∧ x.OwnsAt p
  placed : ∀ a, Placed (awaitable a)

structure Linked (s : Store) : Prop where
  cells : ∀ {c r}, s.cell c = some r → ∃ i stream, r = .inner i c stream
  fits : ∀ p, (s.base p).Fits s.cell
  owner : Owned s.base s.awaitable
  storedWhole : ∀ {w b}, (s.whole w).storage = some b →
    ∃ x, (s.whole w).streamPtr = some (.owned x b)

structure Coherent (s : Store) : Prop extends Linked s where
  held : Held rules s.slot s.log
  fresh : ∀ {r}, .created r ∈ s.log → r.id < s.next
  sane : s.fault = false

theorem ownedStream_eq_some {stream : Option Stream} {storage : Option Nat} {r : Resource} :
    ownedStream stream storage = some r ↔
      storage.isSome = true ∧ ∃ x b, stream = some (.owned x b) ∧ r = .stream x b := by
  cases storage <;> rcases stream with _ | (_ | _) <;> simp [ownedStream, Stream.object, eq_comm]

namespace Linked

variable {s : Store} {p : Nat × Kind} {w : Nat} {q : Slot}

theorem slot_inner {i c : Nat} {stream : Stream} (h : Linked s)
    (hq : s.slot q = some (.inner i c stream)) :
    ∃ p, q = .inner p ∧ (s.base p).awaitableActive = true ∧
      (s.base p).cachedAwaitable = some c ∧ (s.base p).stream = some stream := by
  cases q with
  | cached | storage | wholeStorage => simp [Store.slot] at hq
  | stream | wholeStream => simp [Store.slot, ownedStream_eq_some] at hq
  | inner p =>
      simp only [Store.slot] at hq
      split at hq
      · rename_i hactive
        obtain ⟨c', i', stream', hcached, hcell, hstream⟩ := (h.fits p).active hactive
        rw [hcached, Option.bind_some, hcell] at hq
        cases hq
        exact ⟨p, rfl, hactive, hcached, hstream⟩
      · cases hq

theorem slot_stream {x b : Nat} (h : Linked s) (hq : s.slot q = some (.stream x b)) :
    (∃ p, q = .stream p ∧ (s.base p).storage = some b ∧
      (s.base p).stream = some (.owned x b)) ∨
    ∃ w, q = .wholeStream w ∧ (s.whole w).storage = some b ∧
      (s.whole w).streamPtr = some (.owned x b) := by
  cases q with
  | cached | storage | wholeStorage => simp [Store.slot] at hq
  | inner p =>
      simp only [Store.slot] at hq
      split at hq
      · obtain ⟨c, -, hcell⟩ := Option.bind_eq_some_iff.mp hq
        obtain ⟨i, stream, heq⟩ := h.cells hcell
        cases heq
      · cases hq
  | stream p =>
      obtain ⟨hsome, x', b', hstream, heq⟩ := ownedStream_eq_some.mp hq
      cases heq
      obtain ⟨b', hb'⟩ := Option.isSome_iff_exists.mp hsome
      obtain ⟨x', hx'⟩ := (h.fits p).stored hb'
      cases hstream.symm.trans hx'
      exact .inl ⟨p, rfl, hb', hstream⟩
  | wholeStream w =>
      obtain ⟨hsome, x', b', hstream, heq⟩ := ownedStream_eq_some.mp hq
      cases heq
      obtain ⟨b', hb'⟩ := Option.isSome_iff_exists.mp hsome
      obtain ⟨x', hx'⟩ := h.storedWhole hb'
      cases hstream.symm.trans hx'
      exact .inr ⟨w, rfl, hb', hstream⟩

end Linked

namespace Coherent

variable {s : Store} {p : Nat × Kind} {w : Nat} {q : Slot} {r : Resource}

theorem needs_block {b : Nat} {q' : Slot} (h : Coherent s) (hb : s.slot q = some (.block b))
    (hq' : s.slot q' = some r) (hneeds : Needs r (.block b)) : q.occupant = some q' := by
  cases r with
  | block => exact hneeds.elim
  | inner i c stream =>
      obtain heq | hobject := hneeds
      · cases heq
        obtain ⟨p, rfl, -, hcached, -⟩ := h.slot_inner hq'
        have hslot : s.slot (.cached p) = some (.block b) := by simp [Store.slot, hcached]
        rw [h.held.inj hb hslot]
        rfl
      · cases stream <;> simp [Stream.object] at hobject
  | stream x c =>
      cases hneeds
      obtain ⟨p, rfl, hstorage, -⟩ | ⟨w, rfl, hstorage, -⟩ := h.slot_stream hq'
      · have hslot : s.slot (.storage p) = some (.block b) := by simp [Store.slot, hstorage]
        rw [h.held.inj hb hslot]
        rfl
      · have hslot : s.slot (.wholeStorage w) = some (.block b) := by
          simp [Store.slot, hstorage]
        rw [h.held.inj hb hslot]
        rfl

theorem needs_stream {x b : Nat} (h : Coherent s) (hq : s.slot q = some r)
    (hneeds : Needs r (.stream x b)) :
    ∃ p, q = .inner p ∧ (s.base p).awaitableActive = true ∧
      (s.base p).stream = some (.owned x b) := by
  cases r with
  | block => exact hneeds.elim
  | stream => cases hneeds
  | inner i c stream =>
      obtain heq | hobject := hneeds
      · cases heq
      · obtain ⟨p, rfl, hactive, -, hstream⟩ := h.slot_inner hq
        refine ⟨p, rfl, hactive, ?_⟩
        cases stream with
        | external => simp [Stream.object] at hobject
        | owned => simpa [Stream.object, hstream] using hobject

end Coherent

/-- The awaitables after the base has cleared the flag of the one that owns its
operation. -/
def Store.disowned (s : Store) (p : Nat × Kind) (a : Nat) : Option Awaitable :=
  if (s.base p).owner = some a then (s.awaitable a).map fun x => { x with owns := false }
  else s.awaitable a

section Equations

variable {s : Store} {p : Nat × Kind} {w : Nat}

theorem deleteBlock_eq (o : Option Nat) :
    s.deleteBlock o = { s with log := releases (o.map .block) ++ s.log } := by
  cases o <;> rfl

theorem destroyOwned_eq {stream : Option Stream} {storage : Option Nat}
    (h : ∀ b, storage = some b → ∃ x, stream = some (.owned x b)) :
    s.destroyOwned stream storage =
      { s with log := releases (storage.map .block) ++
          (releases (ownedStream stream storage) ++ s.log) } := by
  cases storage with
  | none => rfl
  | some b =>
      obtain ⟨x, rfl⟩ := h b rfl
      rfl

theorem disowned_of_owner_none (howner : (s.base p).owner = none) :
    s.disowned p = s.awaitable := by
  funext a
  simp [Store.disowned, howner]

theorem disowned_of_owner {a : Nat} (howner : (s.base p).owner = some a) :
    s.disowned p =
      Function.update s.awaitable a ((s.awaitable a).map fun x => { x with owns := false }) := by
  funext a'
  by_cases ha : a' = a
  · subst ha
    simp [Store.disowned, howner]
  · have hne : ¬a = a' := fun heq => ha heq.symm
    simp [Store.disowned, howner, hne, ha]

theorem disown_eq_of_awaitable
    (h : ∀ a, (s.base p).owner = some a → ∃ x, s.awaitable a = some x) :
    s.disown p =
      { s with base := Function.update s.base p { s.base p with owner := none }
               awaitable := s.disowned p } := by
  cases howner : (s.base p).owner with
  | none =>
      have hbase : Function.update s.base p { s.base p with owner := none } = s.base := by
        rw [← howner, Function.update_eq_self]
      simp only [Store.disown, howner, hbase, disowned_of_owner_none howner]
  | some a =>
      obtain ⟨x, hx⟩ := h a howner
      simp only [Store.disown, howner, Store.setBase, Store.setAwaitable, hx,
        disowned_of_owner howner, Option.map_some]

theorem Linked.awaitable_of_owner (h : Linked s) {a : Nat} (ha : (s.base p).owner = some a) :
    ∃ x, s.awaitable a = some x := by
  obtain ⟨x, hx, -⟩ := (h.owner.points p a).mp ha
  exact ⟨x, hx⟩

theorem disown_eq (h : Linked s) :
    s.disown p =
      { s with base := Function.update s.base p { s.base p with owner := none }
               awaitable := s.disowned p } :=
  disown_eq_of_awaitable fun _ ha => h.awaitable_of_owner ha

theorem endOperation_eq (h : Linked s) :
    s.endOperation p =
      { s with base := Function.update s.base p
                 { s.base p with owner := none, awaitableActive := false }
               awaitable := s.disowned p
               log := releases (s.slot (.inner p)) ++ s.log } := by
  cases hactive : (s.base p).awaitableActive with
  | false =>
      simp [Store.endOperation, disown_eq h, hactive, Store.slot, releases]
  | true =>
      obtain ⟨c, i, stream, hcached, hcell, -⟩ := (h.fits p).active hactive
      simp [Store.endOperation, disown_eq h, hactive, Store.slot, releases, Store.destroyAwaitable,
        hcached, hcell, Store.setBase, Store.release]

theorem clear_eq (h : Linked s) :
    s.clear p =
      { s with base := Function.update s.base p {}
               awaitable := s.disowned p
               log := releases (s.slot (.storage p)) ++ (releases (s.slot (.stream p)) ++
                 (releases (s.slot (.cached p)) ++ (releases (s.slot (.inner p)) ++ s.log))) } := by
  have hstored : ∀ b, (s.base p).storage = some b → ∃ x, (s.base p).stream = some (.owned x b) :=
    fun b hb => (h.fits p).stored hb
  simp [Store.clear, endOperation_eq h, deleteBlock_eq, destroyOwned_eq hstored, Store.setBase,
    Store.slot]

theorem clear_fields (h : Linked s) :
    (s.clear p).base = Function.update s.base p {} ∧ (s.clear p).whole = s.whole ∧
      (s.clear p).wrapper = s.wrapper := by
  rw [clear_eq h]
  exact ⟨rfl, rfl, rfl⟩

theorem constructBorrowing_throws {s' : Store} {throws : Option Point} {stream : Stream}
    (h : s.constructBorrowing p throws stream = (s', false)) : s' = s := by
  unfold Store.constructBorrowing at h
  split at h
  · exact (Prod.mk.inj h).1.symm
  · cases (Prod.mk.inj h).2

theorem constructBorrowing_returns {s' : Store} {throws : Option Point} {stream : Stream}
    (h : s.constructBorrowing p throws stream = (s', true)) :
    s'.base = Function.update s.base p
        { stream := some stream, cachedAwaitable := some s.next } ∧
      s'.whole = s.whole ∧ s'.wrapper = s.wrapper := by
  unfold Store.constructBorrowing at h
  split at h
  · cases (Prod.mk.inj h).2
  · obtain ⟨rfl, -⟩ := Prod.mk.inj h
    exact ⟨rfl, rfl, rfl⟩

theorem destroyWhole_eq (h : Linked s) :
    s.destroyWhole w =
      { s with whole := Function.update s.whole w {}
               log := releases (s.slot (.wholeStorage w)) ++
                 (releases (s.slot (.wholeStream w)) ++ s.log) } := by
  have hstored : ∀ b, (s.whole w).storage = some b →
      ∃ x, (s.whole w).streamPtr = some (.owned x b) := fun b hb => h.storedWhole hb
  simp [Store.destroyWhole, destroyOwned_eq hstored, Store.setWhole, Store.slot]

theorem slot_clear {s' : Store} (hbase : s'.base = Function.update s.base p {})
    (hwhole : s'.whole = s.whole) (hcell : s'.cell = s.cell) :
    s'.slot = Function.update (Function.update (Function.update (Function.update s.slot
      (.inner p) none) (.cached p) none) (.stream p) none) (.storage p) none := by
  funext q
  cases q with
  | cached q => rcases eq_or_ne q p with rfl | hq <;> simp [Store.slot, *]
  | inner q => rcases eq_or_ne q p with rfl | hq <;> simp [Store.slot, *]
  | storage q => rcases eq_or_ne q p with rfl | hq <;> simp [Store.slot, *]
  | stream q => rcases eq_or_ne q p with rfl | hq <;> simp [Store.slot, ownedStream, *]
  | wholeStorage w => simp [Store.slot, hwhole]
  | wholeStream w => simp [Store.slot, hwhole]

theorem slot_destroyWhole {s' : Store} (hbase : s'.base = s.base)
    (hwhole : s'.whole = Function.update s.whole w {}) (hcell : s'.cell = s.cell) :
    s'.slot = Function.update (Function.update s.slot (.wholeStream w) none)
      (.wholeStorage w) none := by
  funext q
  cases q with
  | cached q => simp [Store.slot, hbase]
  | inner q => simp [Store.slot, hbase, hcell]
  | storage q => simp [Store.slot, hbase]
  | stream q => simp [Store.slot, hbase]
  | wholeStorage w' => rcases eq_or_ne w' w with rfl | hw <;> simp [Store.slot, *]
  | wholeStream w' => rcases eq_or_ne w' w with rfl | hw <;> simp [Store.slot, ownedStream, *]

end Equations

namespace Owned

variable {base : Nat × Kind → Base} {awaitable : Nat → Option Awaitable} {p q : Nat × Kind}
  {a : Nat}

theorem placed_update {o : Option Awaitable} (h : Owned base awaitable) (ho : Placed o) :
    ∀ a', Placed (Function.update awaitable a o a') :=
  (Function.forall_update_iff awaitable fun _ => Placed).mpr ⟨ho, fun a' _ => h.placed a'⟩

theorem unique (h : Owned base awaitable) (hp : (base p).owner = some a)
    (hq : (base q).owner = some a) : p = q := by
  obtain ⟨x, hx, -, hself, hkind⟩ := (h.points p a).mp hp
  obtain ⟨y, hy, -, hself', hkind'⟩ := (h.points q a).mp hq
  cases hx.symm.trans hy
  exact Prod.ext (Option.some.inj (hself.symm.trans hself')) (hkind.symm.trans hkind')

theorem update {b : Base} (h : Owned base awaitable) (hb : b.owner = (base p).owner) :
    Owned (Function.update base p b) awaitable := by
  refine ⟨fun q a => ?_, h.placed⟩
  by_cases hq : q = p
  · subst hq
    simpa [hb] using h.points q a
  · simpa [hq] using h.points q a

theorem disown {b : Base} {o : Option Awaitable} (h : Owned base awaitable)
    (hp : (base p).owner = some a) (hb : b.owner = none) (ho : ∀ x, o = some x → x.owns = false) :
    Owned (Function.update base p b) (Function.update awaitable a o) := by
  refine ⟨fun q a' => ?_, h.placed_update fun x hx howns => by simp [ho x hx] at howns⟩
  by_cases ha : a' = a
  · -- this awaitable owned nothing but the operation of the base
    subst ha
    have hleft : (Function.update base p b q).owner ≠ some a' := by
      intro howner
      by_cases hq : q = p
      · simp [hq, hb] at howner
      · rw [Function.update_of_ne hq] at howner
        exact hq (h.unique howner hp)
    simp only [hleft, false_iff, Function.update_self]
    rintro ⟨x, hx, howns, -⟩
    simp [ho x hx] at howns
  · rw [Function.update_of_ne ha]
    by_cases hq : q = p
    · subst hq
      rw [← h.points q a', Function.update_self, hb, hp]
      simp [Ne.symm ha]
    · rw [Function.update_of_ne hq]
      exact h.points q a'

theorem disowned {s : Store} (h : Owned s.base s.awaitable) :
    Owned (Function.update s.base p { s.base p with owner := none }) (s.disowned p) := by
  cases howner : (s.base p).owner with
  | none =>
      rw [disowned_of_owner_none howner]
      exact h.update howner.symm
  | some a =>
      rw [disowned_of_owner howner]
      refine h.disown howner rfl fun x hx => ?_
      obtain ⟨y, -, rfl⟩ := Option.map_eq_some_iff.mp hx
      rfl

end Owned

theorem Base.Fits.idle {cell : Nat → Option Resource} {b : Base}
    (hactive : b.awaitableActive = false) (howner : b.owner = none)
    (hstored : ∀ c, b.storage = some c → ∃ x, b.stream = some (.owned x c)) : b.Fits cell where
  active := by simp [hactive]
  owned := by simp [howner]
  stored hc := hstored _ hc

theorem not_needs_inner {r : Resource} {i c : Nat} {stream : Stream} :
    ¬Needs r (.inner i c stream) := by
  cases r with
  | block => exact id
  | stream => simp [Needs]
  | inner _ _ stream => cases stream <;> simp [Needs, Stream.object]

theorem Linked.fits_update {s : Store} {p : Nat × Kind} {b : Base} (h : Linked s)
    (hb : b.Fits s.cell) : ∀ q, (Function.update s.base p b q).Fits s.cell :=
  (Function.forall_update_iff s.base fun _ b => b.Fits s.cell).mpr ⟨hb, fun q _ => h.fits q⟩

namespace Coherent

variable {s : Store} {p : Nat × Kind} {w : Nat} {q : Slot}

theorem setOwner {o : Option Nat} {awaitable : Nat → Option Awaitable} (h : Coherent s)
    (howned : Owned (Function.update s.base p { s.base p with owner := o }) awaitable)
    (hactive : ∀ a, o = some a → (s.base p).awaitableActive = true) :
    Coherent { s with
      base := Function.update s.base p { s.base p with owner := o }
      awaitable := awaitable } := by
  have hslot : Store.slot { s with
      base := Function.update s.base p { s.base p with owner := o }
      awaitable := awaitable } = s.slot := by
    funext q
    cases q <;> simp only [Store.slot, Function.update_apply] <;> split <;> simp_all
  refine ⟨⟨h.cells, ?_, howned, h.storedWhole⟩, ?_, h.fresh, h.sane⟩
  · exact h.fits_update ⟨(h.fits p).active, fun ha => hactive _ ha, (h.fits p).stored⟩
  · rw [hslot]
    exact h.held

theorem disown (h : Coherent s) : Coherent (s.disown p) := by
  rw [disown_eq h.toLinked]
  exact h.setOwner h.owner.disowned (by simp)

theorem not_needs_slot_inner {r r' : Resource} (h : Coherent s)
    (hr : s.slot (.inner p) = some r) : ¬Needs r' r := by
  simp only [Store.slot] at hr
  split at hr
  · obtain ⟨c, -, hcell⟩ := Option.bind_eq_some_iff.mp hr
    obtain ⟨i, stream, rfl⟩ := h.cells hcell
    exact not_needs_inner
  · cases hr

theorem endOperation (h : Coherent s) : Coherent (s.endOperation p) := by
  rw [endOperation_eq h.toLinked]
  have hslot : Store.slot { s with
      base := Function.update s.base p
        { s.base p with owner := none, awaitableActive := false }
      awaitable := s.disowned p
      log := releases (s.slot (.inner p)) ++ s.log } =
      Function.update s.slot (.inner p) none := by
    funext q
    cases q <;> simp only [Store.slot, Function.update_apply] <;> split <;> simp_all
  refine ⟨⟨h.cells, ?_, ?_, h.storedWhole⟩, ?_, ?_, h.sane⟩
  · exact h.fits_update (.idle rfl rfl fun _ hc => (h.fits p).stored hc)
  · have howned := h.owner.disowned (p := p)
    have hupdate := howned.update (p := p)
      (b := { s.base p with owner := none, awaitableActive := false }) (by simp)
    rwa [Function.update_idem] at hupdate
  · rw [hslot]
    exact h.held.releaseOption fun _ _ _ hr _ => h.not_needs_slot_inner hr
  · intro r hr
    exact h.fresh (Custody.created_mem_releases_append.mp hr)

theorem clear (h : Coherent s) (hfree : ∀ q x b, q ≠ p → (s.base q).awaitableActive = true →
    (s.base q).stream = some (.owned x b) → (s.base p).storage ≠ some b) :
    Coherent (s.clear p) := by
  rw [clear_eq h.toLinked]
  refine ⟨⟨h.cells, ?_, ?_, h.storedWhole⟩, ?_, ?_, h.sane⟩
  · exact h.fits_update (.idle rfl rfl (by simp))
  · have hupdate := (h.owner.disowned (p := p)).update (p := p) (b := {}) (by simp)
    rwa [Function.update_idem] at hupdate
  · -- the slots of the base are emptied in the order of the destructor
    have hinner := h.held.releaseOption (q := .inner p) fun _ _ _ hr _ => h.not_needs_slot_inner hr
    have hcached := hinner.releaseOption (q := .cached p) (by
      intro r q' r' hr hq' hneeds
      obtain ⟨-, hr⟩ := Custody.Held.update_none_eq_some.mp hr
      obtain ⟨hne, hq'⟩ := Custody.Held.update_none_eq_some.mp hq'
      obtain ⟨c, -, rfl⟩ := Option.map_eq_some_iff.mp hr
      exact hne (Option.some.inj (h.needs_block hr hq' hneeds)).symm)
    have hstream := hcached.releaseOption (q := .stream p) (by
      intro r q' r' hr hq' hneeds
      simp only [Custody.Held.update_none_eq_some] at hr hq'
      obtain ⟨hsome, x, b, hstream, rfl⟩ := ownedStream_eq_some.mp hr.2.2
      obtain ⟨p', rfl, hactive, hstream'⟩ := h.needs_stream hq'.2.2 hneeds
      have hne : p' ≠ p := fun heq => hq'.2.1 (by rw [heq])
      obtain ⟨b', hb'⟩ := Option.isSome_iff_exists.mp hsome
      obtain ⟨x', hx'⟩ := (h.fits p).stored hb'
      cases hstream.symm.trans hx'
      exact hfree p' x b hne hactive hstream' hb')
    have hstorage := hstream.releaseOption (q := .storage p) (by
      intro r q' r' hr hq' hneeds
      simp only [Custody.Held.update_none_eq_some] at hr hq'
      obtain ⟨c, -, rfl⟩ := Option.map_eq_some_iff.mp hr.2.2.2
      exact hq'.1 (Option.some.inj (h.needs_block hr.2.2.2 hq'.2.2.2 hneeds)).symm)
    convert hstorage using 1
    · exact slot_clear rfl rfl rfl
    · simp
  · intro r hr
    simp only [Custody.created_mem_releases_append] at hr
    exact h.fresh hr

theorem destroyWhole (h : Coherent s) (hfree : ∀ q x b, (s.base q).awaitableActive = true →
    (s.base q).stream = some (.owned x b) → (s.whole w).storage ≠ some b) :
    Coherent (s.destroyWhole w) := by
  rw [destroyWhole_eq h.toLinked]
  refine ⟨⟨h.cells, h.fits, h.owner, ?_⟩, ?_, ?_, h.sane⟩
  · intro w' b hb
    by_cases hw : w' = w
    · simp [hw] at hb
    · simpa [hw] using h.storedWhole (by simpa [hw] using hb)
  · have hstream := h.held.releaseOption (q := .wholeStream w) (by
      intro r q' r' hr hq' hneeds
      obtain ⟨hsome, x, b, hstream, rfl⟩ := ownedStream_eq_some.mp hr
      obtain ⟨p', rfl, hactive, hstream'⟩ := h.needs_stream hq' hneeds
      obtain ⟨b', hb'⟩ := Option.isSome_iff_exists.mp hsome
      obtain ⟨x', hx'⟩ := h.storedWhole hb'
      cases hstream.symm.trans hx'
      exact hfree p' x b hactive hstream' hb')
    have hstorage := hstream.releaseOption (q := .wholeStorage w) (by
      intro r q' r' hr hq' hneeds
      simp only [Custody.Held.update_none_eq_some] at hr hq'
      obtain ⟨c, -, rfl⟩ := Option.map_eq_some_iff.mp hr.2
      exact hq'.1 (Option.some.inj (h.needs_block hr.2 hq'.2 hneeds)).symm)
    convert hstorage using 1
    · exact slot_destroyWhole rfl rfl rfl
    · simp
  · intro r hr
    simp only [Custody.created_mem_releases_append] at hr
    exact h.fresh hr

end Coherent

/-- The slots when the bases and the members of `any_stream` change places. -/
def Slot.rename (e : Equiv.Perm (Nat × Kind)) (d : Equiv.Perm Nat) : Slot ≃ Slot where
  toFun
    | .cached p => .cached (e p)
    | .inner p => .inner (e p)
    | .storage p => .storage (e p)
    | .stream p => .stream (e p)
    | .wholeStorage w => .wholeStorage (d w)
    | .wholeStream w => .wholeStream (d w)
  invFun
    | .cached p => .cached (e.symm p)
    | .inner p => .inner (e.symm p)
    | .storage p => .storage (e.symm p)
    | .stream p => .stream (e.symm p)
    | .wholeStorage w => .wholeStorage (d.symm w)
    | .wholeStream w => .wholeStream (d.symm w)
  left_inv q := by cases q <;> simp
  right_inv q := by cases q <;> simp

theorem update_update_eq_swap {ι α : Type*} [DecidableEq ι] {f : ι → α} {i j : ι} (hne : i ≠ j)
    {x : α} (hi : f i = x) :
    Function.update (Function.update f i (f j)) j x = fun k => f (Equiv.swap i j k) := by
  funext k
  by_cases hj : k = j
  · simp [hj, hi]
  · by_cases hk : k = i
    · subst hk
      simp [hne]
    · simp [hj, hk, Equiv.swap_apply_of_ne_of_ne hk hj]

section Moves

variable {s : Store} {dst src : Nat × Kind} {w w' : Nat}

/-- A move into an empty base: the other base disowns its operation, and the two
change places. -/
theorem take_eq (h : Linked s) (hne : dst ≠ src) (hdst : s.base dst = {}) :
    s.take dst src =
      { s.disown src with
        base := fun q => (s.disown src).base (Equiv.swap dst src q) } := by
  have hdst' : (s.disown src).base dst = {} := by simp [disown_eq h, hne, hdst]
  rw [← update_update_eq_swap hne hdst']
  unfold Store.take
  rw [disown_eq_of_awaitable, disown_eq h]
  · have hbase : Function.update (Function.update (Function.update s.base src
        { s.base src with owner := none }) dst { s.base src with owner := none }) src {} =
        Function.update (Function.update s.base dst { s.base src with owner := none }) src {} := by
      rw [Function.update_comm hne.symm, Function.update_idem]
    simp only [Store.setBase, Function.update_self, Function.update_idem, hbase, Store.mk.injEq,
      true_and, and_true]
    funext a
    simp [Store.disowned]
  · intro a ha
    exact h.awaitable_of_owner (p := src) (by simpa [Store.setBase] using ha)

theorem Coherent.take (h : Coherent s) (hne : dst ≠ src) (hdst : s.base dst = {}) :
    Coherent (s.take dst src) := by
  rw [take_eq h.toLinked hne hdst]
  have hd : Coherent (s.disown src) := h.disown
  have howner : ∀ q, q = dst ∨ q = src → ((s.disown src).base q).owner = none := by
    rintro q (rfl | rfl) <;> simp [disown_eq h.toLinked, hne, hdst]
  refine ⟨⟨hd.cells, fun q => hd.fits _, ?_, hd.storedWhole⟩, ?_, hd.fresh, hd.sane⟩
  · refine ⟨fun q a => ?_, hd.owner.placed⟩
    by_cases hq : q = dst ∨ q = src
    · have hq' : Equiv.swap dst src q = dst ∨ Equiv.swap dst src q = src := by
        rcases hq with rfl | rfl <;> simp
      have hnone := hd.owner.points q a
      rw [howner q hq] at hnone
      simpa only [howner _ hq'] using hnone
    · have hq' : Equiv.swap dst src q = q :=
        Equiv.swap_apply_of_ne_of_ne (fun heq => hq (.inl heq)) fun heq => hq (.inr heq)
      simpa only [hq'] using hd.owner.points q a
  · refine hd.held.rename (Slot.rename (Equiv.swap dst src) (Equiv.refl _)) fun q => ?_
    cases q <;> rfl

theorem take_fields (h : Linked s) (hne : dst ≠ src) (hdst : s.base dst = {}) :
    (s.take dst src).base = Function.update (Function.update s.base dst
        { s.base src with owner := none }) src {} ∧
      (s.take dst src).whole = s.whole ∧ (s.take dst src).wrapper = s.wrapper := by
  have hdst' : (s.disown src).base dst = {} := by simp [disown_eq h, hne, hdst]
  rw [take_eq h hne hdst, ← update_update_eq_swap hne hdst', disown_eq h]
  refine ⟨?_, rfl, rfl⟩
  simp only [Function.update_self]
  rw [Function.update_comm hne.symm, Function.update_idem]

theorem clear_of_empty (h : Linked s) (hdst : s.base dst = {}) : s.clear dst = s := by
  have hbase : Function.update s.base dst {} = s.base := by rw [← hdst, Function.update_eq_self]
  rw [clear_eq h, disowned_of_owner_none (by rw [hdst]), hbase]
  simp [Store.slot, hdst, ownedStream, releases]

theorem assign_fields (h : Linked s) (hclear : Coherent (s.clear dst)) (hne : dst ≠ src) :
    (s.assign dst src).base = Function.update (Function.update s.base dst
        { s.base src with owner := none }) src {} ∧
      (s.assign dst src).whole = s.whole ∧ (s.assign dst src).wrapper = s.wrapper := by
  obtain ⟨hbase, hwhole, hwrapper⟩ := clear_fields (p := dst) h
  obtain ⟨hbase', hwhole', hwrapper'⟩ := take_fields hclear.toLinked hne (by simp [hbase])
  refine ⟨?_, hwhole'.trans hwhole, hwrapper'.trans hwrapper⟩
  rw [Store.assign, hbase', hbase, Function.update_of_ne hne.symm, Function.update_idem]

theorem Coherent.assign (hclear : Coherent (s.clear dst)) (h : Linked s) (hne : dst ≠ src) :
    Coherent (s.assign dst src) :=
  hclear.take hne (by simp [(clear_fields (p := dst) h).1])

theorem takeWhole_eq (hne : w ≠ w') (hw : s.whole w = {}) :
    s.takeWhole w w' = { s with whole := fun v => s.whole (Equiv.swap w w' v) } := by
  rw [← update_update_eq_swap hne hw]
  rfl

theorem Coherent.takeWhole (h : Coherent s) (hne : w ≠ w') (hw : s.whole w = {}) :
    Coherent (s.takeWhole w w') := by
  rw [takeWhole_eq hne hw]
  refine ⟨⟨h.cells, h.fits, h.owner, h.storedWhole⟩, ?_, h.fresh, h.sane⟩
  refine h.held.rename (Slot.rename (Equiv.refl _) (Equiv.swap w w')) fun q => ?_
  cases q <;> rfl

end Moves

end Capy.AnyStreamLifetime
