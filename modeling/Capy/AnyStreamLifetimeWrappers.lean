import Capy.AnyStreamLifetimeOperations

namespace Capy.AnyStreamLifetime

/-- How the members of a wrapper of the class point, or of an address with no
wrapper: only the bases of the class are used, a base that holds a stream has a
cache, and an owned stream is owned by that base or by `any_stream`. -/
structure Shape (c : Option Class) (base : Kind → Base) (whole : Whole) : Prop where
  absent : ∀ {k}, (∀ d, c = some d → d.has k = false) → base k = {}
  noWhole : c ≠ some .anyStream → whole = {}
  borrows : c = some .anyStream → ∀ k, (base k).storage = none
  cached : ∀ {k}, (base k).stream ≠ none → (base k).cachedAwaitable ≠ none
  home : ∀ {k x b}, (base k).stream = some (.owned x b) → (base k).storage = some b ∨
    (whole.storage = some b ∧ whole.streamPtr = some (.owned x b))

/-- What holds between two steps. -/
structure Inv (s : Store) : Prop where
  coherent : Coherent s
  shaped : ∀ w, Shape (s.wrapper w) (fun k => s.base (w, k)) (s.whole w)

theorem Shape.empty (c : Option Class) : Shape c (fun _ => {}) {} where
  absent _ := rfl
  noWhole _ := rfl
  borrows _ _ := rfl
  cached h := absurd rfl h
  home h := by cases h

theorem Shape.single {c : Class} {k : Kind} {base : Kind → Base} {b : Base}
    (hc : ∀ k', c.has k' = true ↔ k' = k) (hne : c ≠ .anyStream)
    (hbase : base = Function.update (fun _ => {}) k b)
    (hcached : b.cachedAwaitable ≠ none)
    (hhome : ∀ x i, b.stream = some (.owned x i) → b.storage = some i) :
    Shape (some c) base {} := by
  subst hbase
  refine ⟨?_, fun _ => rfl, ?_, ?_, ?_⟩
  · intro k' hk'
    have hne' : k' ≠ k := fun heq => by simpa [(hc k').mpr heq] using hk' c rfl
    simp [hne']
  · intro heq
    exact absurd (Option.some.inj heq) hne
  · intro k' hstream
    by_cases hk : k' = k
    · subst hk
      simpa using hcached
    · simp [hk] at hstream
  · intro k' x i hstream
    by_cases hk : k' = k
    · subst hk
      rw [Function.update_self] at hstream ⊢
      exact .inl (hhome x i hstream)
    · simp [hk] at hstream

/-- What a construction at the address `w` leads to: a wrapper of the class, or
nothing. -/
structure Constructs (s : Store) (w : Nat) (c : Class) (result : Store × Bool) : Prop where
  coherent : Coherent result.1
  wrapper : result.1.wrapper = s.wrapper
  base : ∀ p, p.1 ≠ w → result.1.base p = s.base p
  whole : ∀ v, v ≠ w → result.1.whole v = s.whole v
  shape : Shape (if result.2 then some c else none) (fun k => result.1.base (w, k))
    (result.1.whole w)

section Construct

variable {s : Store} {w : Nat} {k : Kind} {c : Class} {throws : Option Point} {stream : Stream}

theorem Constructs.thrown {s' : Store} (hs' : Coherent s') (hwrapper : s'.wrapper = s.wrapper)
    (hbase : s'.base = s.base) (hwhole : s'.whole = s.whole) (hempty : ∀ k, s.base (w, k) = {})
    (hw : s.whole w = {}) : Constructs s w c (s', false) where
  coherent := hs'
  wrapper := hwrapper
  base p _ := by rw [hbase]
  whole v _ := by rw [hwhole]
  shape := by
    simp only [hbase, hwhole, hempty, hw]
    exact Shape.empty none

theorem Constructs.returned {s' : Store} {b : Base} (hs' : Coherent s')
    (hwrapper : s'.wrapper = s.wrapper) (hbase : s'.base = Function.update s.base (w, k) b)
    (hwhole : s'.whole = s.whole) (hempty : ∀ k, s.base (w, k) = {}) (hw : s.whole w = {})
    (hc : ∀ k', c.has k' = true ↔ k' = k) (hne : c ≠ .anyStream)
    (hcached : b.cachedAwaitable ≠ none)
    (hhome : ∀ x i, b.stream = some (.owned x i) → b.storage = some i) :
    Constructs s w c (s', true) where
  coherent := hs'
  wrapper := hwrapper
  base p hp := by
    have hne : p ≠ (w, k) := fun heq => hp (by rw [heq])
    rw [hbase, Function.update_of_ne hne]
  whole v _ := by rw [hwhole]
  shape := by
    simp only [hwhole, hw, if_true]
    refine Shape.single hc hne ?_ hcached hhome
    funext k'
    simp [hbase, Function.update_apply, hempty]

theorem constructs_owning (h : Coherent s) (hempty : ∀ k, s.base (w, k) = {}) (hw : s.whole w = {})
    (hc : ∀ k', c.has k' = true ↔ k' = k) (hne : c ≠ .anyStream) :
    Constructs s w c (s.constructOwning (w, k) throws) := by
  unfold Store.constructOwning
  split
  · exact .thrown h rfl rfl rfl hempty hw
  · dsimp only
    split
    · exact .thrown (h.storageBack (hempty k)) rfl rfl rfl hempty hw
    · split
      · exact .thrown (h.storeBack (hempty k)) rfl rfl rfl hempty hw
      · have hcache := (h.store (hempty k)).allocateCache (p := (w, k)) (by simp [Store.setBase])
        refine .returned ?_ rfl rfl rfl hempty hw hc hne (by simp) (by simp)
        simpa [Store.setBase, Store.create] using hcache

theorem constructs_borrowing {i : Nat} (h : Coherent s) (hempty : ∀ k, s.base (w, k) = {})
    (hw : s.whole w = {}) (hc : ∀ k', c.has k' = true ↔ k' = k) (hne : c ≠ .anyStream) :
    Constructs s w c (s.constructBorrowing (w, k) throws (.external i)) := by
  have hcoherent := h.constructBorrowing (hempty k) throws (.external i)
  unfold Store.constructBorrowing at hcoherent ⊢
  split
  · exact .thrown h rfl rfl rfl hempty hw
  · rename_i hcached
    rw [if_neg hcached] at hcoherent
    exact .returned hcoherent rfl rfl rfl hempty hw hc hne (by simp) (by simp)

theorem Constructs.both {s' : Store} {c₁ c₂ : Nat} (hs' : Coherent s')
    (hwrapper : s'.wrapper = s.wrapper)
    (hbase : s'.base = Function.update (Function.update s.base (w, .read)
      { stream := some stream, cachedAwaitable := some c₁ }) (w, .write)
      { stream := some stream, cachedAwaitable := some c₂ })
    (hwhole : ∀ v, v ≠ w → s'.whole v = s.whole v)
    (hhome : ∀ x b, stream = .owned x b →
      (s'.whole w).storage = some b ∧ (s'.whole w).streamPtr = some stream) :
    Constructs s w .anyStream (s', true) where
  coherent := hs'
  wrapper := hwrapper
  base p hp := by
    have hne : ∀ k, p ≠ (w, k) := fun k heq => hp (by rw [heq])
    rw [hbase, Function.update_of_ne (hne _), Function.update_of_ne (hne _)]
  whole := hwhole
  shape := by
    have hbases : ∀ k, ∃ c, s'.base (w, k) =
        { stream := some stream, cachedAwaitable := some c } := by
      intro k
      cases k with
      | read => exact ⟨c₁, by simp [hbase]⟩
      | write => exact ⟨c₂, by simp [hbase]⟩
    refine ⟨?_, by simp, ?_, ?_, ?_⟩
    · intro k hk
      simpa [Class.has] using hk .anyStream rfl
    · intro _ k
      obtain ⟨c, hc⟩ := hbases k
      rw [hc]
    · intro k _
      obtain ⟨c, hc⟩ := hbases k
      simp [hc]
    · intro k x b hstream
      obtain ⟨c, hc⟩ := hbases k
      simp only [hc, Option.some.injEq] at hstream
      obtain ⟨hstorage, hptr⟩ := hhome x b hstream
      exact .inr ⟨hstorage, by rw [hptr, hstream]⟩

theorem constructs_both {i : Nat} (h : Coherent s) (hempty : ∀ k, s.base (w, k) = {})
    (hw : s.whole w = {}) :
    Constructs s w .anyStream (s.constructBoth w throws (.external i)) := by
  have hfirst := h.constructBorrowing (hempty .read) throws (.external i)
  unfold Store.constructBoth
  cases hr : s.constructBorrowing (w, .read) throws (.external i) with
  | mk s₁ returned =>
      simp only [hr] at hfirst ⊢
      cases returned with
      | false =>
          obtain rfl := constructBorrowing_throws hr
          exact .thrown h rfl rfl rfl hempty hw
      | true =>
          obtain ⟨hbase₁, hwhole₁, hwrapper₁⟩ := constructBorrowing_returns hr
          have hempty₁ : s₁.base (w, .write) = {} := by simp [hbase₁, hempty]
          have hsecond := hfirst.constructBorrowing hempty₁ throws (.external i)
          cases hw' : s₁.constructBorrowing (w, .write) throws (.external i) with
          | mk s₂ returned =>
              simp only [hw'] at hsecond ⊢
              cases returned with
              | false =>
                  obtain rfl := constructBorrowing_throws hw'
                  have hclear := clear_eq (p := (w, .read)) hfirst.toLinked
                  refine .thrown (hfirst.clear (by simp [hbase₁])) (by rw [hclear, hwrapper₁]) ?_
                    (by rw [hclear, hwhole₁]) hempty hw
                  rw [hclear, hbase₁, Function.update_idem, ← hempty .read, Function.update_eq_self]
              | true =>
                  obtain ⟨hbase₂, hwhole₂, hwrapper₂⟩ := constructBorrowing_returns hw'
                  rw [hbase₁] at hbase₂
                  exact .both hsecond (hwrapper₂.trans hwrapper₁) hbase₂
                    (fun v _ => by rw [hwhole₂, hwhole₁]) (by simp)

theorem constructs_bases {s₀ : Store} {x b : Nat} (h : Coherent s) (hbase : s.base = s₀.base)
    (hwrapper : s.wrapper = s₀.wrapper)
    (hwhole : s.whole = Function.update s₀.whole w ⟨some b, some (.owned x b)⟩)
    (hempty : ∀ k, s₀.base (w, k) = {}) (hw : s₀.whole w = {})
    (hunused : s.Unused b) :
    Constructs s₀ w .anyStream (s.constructBases w throws (.owned x b)) := by
  have hempty' : ∀ k, s.base (w, k) = {} := by rw [hbase]; exact hempty
  have hstorage : (s.whole w).storage = some b := by simp [hwhole]
  have hfirst := h.constructBorrowing (hempty' .read) throws (.owned x b)
  have hrollback : Function.update (Function.update s₀.whole w ⟨some b, some (.owned x b)⟩) w {} =
      s₀.whole := by
    rw [Function.update_idem, ← hw, Function.update_eq_self]
  unfold Store.constructBases
  cases hr : s.constructBorrowing (w, .read) throws (.owned x b) with
  | mk s₁ returned =>
      simp only [hr] at hfirst ⊢
      cases returned with
      | false =>
          obtain rfl := constructBorrowing_throws hr
          have hdestroy := destroyWhole_eq (w := w) h.toLinked
          refine .thrown (h.rollback hstorage hunused) (by rw [hdestroy, hwrapper])
            (by rw [hdestroy, hbase]) ?_ hempty hw
          rw [hdestroy, hwhole, hrollback]
      | true =>
          obtain ⟨hbase₁, hwhole₁, hwrapper₁⟩ := constructBorrowing_returns hr
          have hempty₁ : s₁.base (w, .write) = {} := by simp [hbase₁, hempty']
          have hsecond := hfirst.constructBorrowing hempty₁ throws (.owned x b)
          cases hw' : s₁.constructBorrowing (w, .write) throws (.owned x b) with
          | mk s₂ returned =>
              simp only [hw'] at hsecond ⊢
              cases returned with
              | false =>
                  obtain rfl := constructBorrowing_throws hw'
                  have hdestroyed := hfirst.rollback (by rw [hwhole₁, hstorage])
                    (hunused.borrow hbase₁)
                  have hdestroy := destroyWhole_eq (w := w) hfirst.toLinked
                  have hclear := clear_eq (p := (w, .read)) hdestroyed.toLinked
                  refine .thrown (hdestroyed.clear (by simp [hdestroy, hbase₁])) ?_ ?_ ?_ hempty hw
                  · rw [hclear, hdestroy, hwrapper₁, hwrapper]
                  · rw [hclear, hdestroy, hbase₁, hbase, Function.update_idem, ← hempty .read,
                      Function.update_eq_self]
                  · rw [hclear, hdestroy, hwhole₁, hwhole, hrollback]
              | true =>
                  obtain ⟨hbase₂, hwhole₂, hwrapper₂⟩ := constructBorrowing_returns hw'
                  rw [hbase₁, hbase] at hbase₂
                  rw [hwhole₁, hwhole] at hwhole₂
                  refine .both hsecond (by rw [hwrapper₂, hwrapper₁, hwrapper]) hbase₂ ?_ ?_
                  · intro v hv
                    rw [hwhole₂, Function.update_of_ne hv]
                  · intro y b' heq
                    cases heq
                    simp [hwhole₂]

theorem constructs_whole (h : Coherent s) (hempty : ∀ k, s.base (w, k) = {}) (hw : s.whole w = {})
    (hthrows : throws ≠ some .move) : Constructs s w .anyStream (s.constructWhole w throws) := by
  unfold Store.constructWhole
  by_cases hstorage : throws = some .storage
  · rw [if_pos hstorage]
    exact .thrown h rfl rfl rfl hempty hw
  · rw [if_neg hstorage]
    dsimp only
    rw [if_neg hthrows]
    refine constructs_bases (h.storeWhole hw) rfl rfl rfl hempty hw ?_
    intro q x hactive hstream
    exact Nat.lt_irrefl _ (h.active_block_lt hactive hstream)

/-- Every construction, unless the move of a stream into an `any_stream` throws. -/
theorem constructs {arg : Argument} (h : Inv s) (hw : s.wrapper w = none)
    (hok : ¬(c = .anyStream ∧ arg = .value ∧ throws = some .move)) :
    Constructs s w c (s.construct w c arg throws) := by
  have hempty : ∀ k, s.base (w, k) = {} := fun k => (h.shaped w).absent (by simp [hw])
  have hwhole : s.whole w = {} := (h.shaped w).noWhole (by simp [hw])
  unfold Store.construct
  split
  · refine ⟨h.coherent, rfl, fun _ _ => rfl, fun _ _ => rfl, ?_⟩
    simp only [hempty, hwhole]
    exact Shape.empty _
  · exact constructs_owning h.coherent hempty hwhole (by simp [Class.has]) (by simp)
  · exact constructs_owning h.coherent hempty hwhole (by simp [Class.has]) (by simp)
  · exact constructs_whole h.coherent hempty hwhole fun hmove => hok ⟨rfl, rfl, hmove⟩
  · exact constructs_borrowing h.coherent hempty hwhole (by simp [Class.has]) (by simp)
  · exact constructs_borrowing h.coherent hempty hwhole (by simp [Class.has]) (by simp)
  · exact constructs_both h.coherent hempty hwhole

end Construct

section Wrappers

variable {s s' : Store} {w w' : Nat} {k : Kind} {p q : Nat × Kind} {c : Class} {x b : Nat}

theorem Coherent.setWrapper {o : Option Class} (h : Coherent s) : Coherent (s.setWrapper w o) :=
  ⟨⟨h.cells, h.fits, h.owner, h.storedWhole⟩, h.held, h.fresh, h.sane⟩

theorem Inv.replace {o : Option Class} (h : Inv s) (hs' : Coherent s')
    (hwrapper : s'.wrapper = s.wrapper) (hbase : ∀ p, p.1 ≠ w → s'.base p = s.base p)
    (hwhole : ∀ v, v ≠ w → s'.whole v = s.whole v)
    (hshape : Shape o (fun k => s'.base (w, k)) (s'.whole w)) : Inv (s'.setWrapper w o) where
  coherent := hs'.setWrapper
  shaped v := by
    by_cases hv : v = w
    · subst hv
      simpa [Store.setWrapper] using hshape
    · have hbase' : (fun k => s'.base (v, k)) = fun k => s.base (v, k) :=
        funext fun k => hbase (v, k) hv
      simpa [Store.setWrapper, hv, hwrapper, hbase', hwhole v hv] using h.shaped v

theorem Constructs.inv {returned : Bool} (hc : Constructs s w c (s', returned)) (h : Inv s)
    (hw : s.wrapper w = none) : Inv (if returned then s'.setWrapper w (some c) else s') := by
  have hinv := h.replace hc.coherent hc.wrapper hc.base hc.whole hc.shape
  cases returned with
  | true => exact hinv
  | false =>
      have hsame : s'.setWrapper w none = s' := by
        have hwrapper : s'.wrapper w = none := by
          rw [show s'.wrapper = s.wrapper from hc.wrapper, hw]
        rw [Store.setWrapper, ← hwrapper, Function.update_eq_self]
      simpa [hsame] using hinv

theorem Inv.storage_free (h : Inv s) (hne : q ≠ p)
    (hstream : (s.base q).stream = some (.owned x b)) : (s.base p).storage ≠ some b := by
  intro hp
  have hslot : s.slot (.storage p) = some (.block b) := by simp [Store.slot, hp]
  rcases (h.shaped q.1).home hstream with hq | ⟨hq, -⟩
  · have hslot' : s.slot (.storage q) = some (.block b) := by
      have hq : (s.base q).storage = some b := hq
      simp [Store.slot, hq]
    exact hne (Slot.storage.inj (h.coherent.held.inj hslot' hslot))
  · have hslot' : s.slot (.wholeStorage q.1) = some (.block b) := by simp [Store.slot, hq]
    cases h.coherent.held.inj hslot' hslot

theorem Inv.whole_free (h : Inv s) (hstream : (s.base q).stream = some (.owned x b))
    (hw : (s.whole w).storage = some b) : q.1 = w := by
  have hslot : s.slot (.wholeStorage w) = some (.block b) := by simp [Store.slot, hw]
  rcases (h.shaped q.1).home hstream with hq | ⟨hq, -⟩
  · have hslot' : s.slot (.storage q) = some (.block b) := by
      have hq : (s.base q).storage = some b := hq
      simp [Store.slot, hq]
    cases h.coherent.held.inj hslot' hslot
  · have hslot' : s.slot (.wholeStorage q.1) = some (.block b) := by simp [Store.slot, hq]
    exact Slot.wholeStorage.inj (h.coherent.held.inj hslot' hslot)

theorem Inv.clear (h : Inv s) : Coherent (s.clear p) :=
  h.coherent.clear fun _ _ _ hne _ hstream => h.storage_free hne hstream

theorem endBoth_base (h : Coherent s) (q : Nat × Kind) :
    ((s.endOperation (w, .read)).endOperation (w, .write)).base q =
      if q.1 = w then { s.base q with owner := none, awaitableActive := false } else s.base q := by
  rw [endOperation_eq h.endOperation.toLinked, endOperation_eq h.toLinked]
  obtain ⟨v, k⟩ := q
  by_cases hv : v = w
  · subst hv
    cases k <;> simp
  · simp [hv]

theorem Inv.endWhole (h : Inv s) :
    Coherent (((s.endOperation (w, .read)).endOperation (w, .write)).destroyWhole w) := by
  have hended : Coherent ((s.endOperation (w, .read)).endOperation (w, .write)) :=
    h.coherent.endOperation.endOperation
  have hwhole : ((s.endOperation (w, .read)).endOperation (w, .write)).whole = s.whole := by
    rw [endOperation_eq h.coherent.endOperation.toLinked, endOperation_eq h.coherent.toLinked]
  refine hended.destroyWhole fun q x b hactive hstream hb => ?_
  rw [hwhole] at hb
  rw [endBoth_base h.coherent] at hactive hstream
  by_cases hq : q.1 = w
  · simp [hq] at hactive
  · rw [if_neg hq] at hstream
    exact hq (h.whole_free hstream hb)

theorem endWhole_fields (h : Coherent s) :
    let s₃ := ((s.endOperation (w, .read)).endOperation (w, .write)).destroyWhole w
    (∀ q, s₃.base q = if q.1 = w then { s.base q with owner := none, awaitableActive := false }
      else s.base q) ∧ s₃.whole = Function.update s.whole w {} ∧ s₃.wrapper = s.wrapper := by
  dsimp only
  have hended : Coherent ((s.endOperation (w, .read)).endOperation (w, .write)) :=
    h.endOperation.endOperation
  refine ⟨fun q => ?_, ?_, ?_⟩
  · rw [destroyWhole_eq hended.toLinked]
    exact endBoth_base h q
  · rw [destroyWhole_eq hended.toLinked, endOperation_eq h.endOperation.toLinked,
      endOperation_eq h.toLinked]
  · rw [destroyWhole_eq hended.toLinked, endOperation_eq h.endOperation.toLinked,
      endOperation_eq h.toLinked]

theorem Inv.other_base (h : Inv s) (hw : ∀ d, s.wrapper w = some d → d = c)
    (hc : ∀ k', c.has k' = true ↔ k' = k) {k' : Kind} (hk : k' ≠ k) : s.base (w, k') = {} := by
  refine (h.shaped w).absent fun d hd => ?_
  obtain rfl := hw d hd
  rw [Bool.eq_false_iff]
  exact fun hhas => hk ((hc k').mp hhas)

theorem Inv.destroy_single (h : Inv s) (hw : s.wrapper w = some c)
    (hc : ∀ k', c.has k' = true ↔ k' = k) (hne : c ≠ .anyStream) :
    Inv ((s.clear (w, k)).setWrapper w none) := by
  obtain ⟨hbase, hwhole, hwrapper⟩ := clear_fields (p := (w, k)) h.coherent.toLinked
  refine h.replace h.clear hwrapper ?_ (by simp [hwhole]) ?_
  · intro p hp
    have hne : p ≠ (w, k) := fun heq => hp (by rw [heq])
    rw [hbase, Function.update_of_ne hne]
  · have hvoid : (fun k' => (s.clear (w, k)).base (w, k')) = fun _ => {} := by
      funext k'
      by_cases hk : k' = k
      · simp [hbase, hk]
      · simp [hbase, hk, h.other_base (fun d hd => Option.some.inj (hd.symm.trans hw)) hc hk]
    have hvoid' : (s.clear (w, k)).whole w = {} := by
      rw [hwhole]
      exact (h.shaped w).noWhole (by simpa [hw] using hne)
    rw [hvoid, hvoid']
    exact Shape.empty none

theorem Inv.destroy_whole (h : Inv s) (hw : s.wrapper w = some .anyStream) :
    Inv ((s.destroy w .anyStream).setWrapper w none) := by
  unfold Store.destroy
  dsimp only
  obtain ⟨hbase, hwhole, hwrapper⟩ := endWhole_fields (w := w) h.coherent
  have hended := h.endWhole (w := w)
  dsimp only at hbase hwhole hwrapper
  generalize ((s.endOperation (w, .read)).endOperation (w, .write)).destroyWhole w = s₃ at *
  have hstorage : ∀ k, (s₃.base (w, k)).storage = none := by
    intro k
    rw [hbase]
    simpa using (h.shaped w).borrows hw k
  have hfirst : Coherent (s₃.clear (w, .write)) := hended.clear (by simp [hstorage])
  obtain ⟨hbase₁, hwhole₁, hwrapper₁⟩ := clear_fields (p := (w, .write)) hended.toLinked
  have hsecond : Coherent ((s₃.clear (w, .write)).clear (w, .read)) :=
    hfirst.clear (by simp [hbase₁, hstorage])
  obtain ⟨hbase₂, hwhole₂, hwrapper₂⟩ := clear_fields (p := (w, .read)) hfirst.toLinked
  refine h.replace hsecond (by rw [hwrapper₂, hwrapper₁, hwrapper]) ?_ ?_ ?_
  · intro p hp
    have hne : ∀ k, p ≠ (w, k) := fun k heq => hp (by rw [heq])
    rw [hbase₂, hbase₁, Function.update_of_ne (hne _), Function.update_of_ne (hne _), hbase,
      if_neg hp]
  · intro v hv
    rw [hwhole₂, hwhole₁, hwhole, Function.update_of_ne hv]
  · have hvoid : (fun k => ((s₃.clear (w, .write)).clear (w, .read)).base (w, k)) =
        fun _ => {} := by
      funext k
      cases k <;> simp [hbase₂, hbase₁]
    have hvoid' : ((s₃.clear (w, .write)).clear (w, .read)).whole w = {} := by
      rw [hwhole₂, hwhole₁, hwhole, Function.update_self]
    rw [hvoid, hvoid']
    exact Shape.empty none

theorem Inv.destroy (h : Inv s) (hw : s.wrapper w = some c) :
    Inv ((s.destroy w c).setWrapper w none) := by
  cases c with
  | anyReadStream => exact h.destroy_single hw (by simp [Class.has]) (by simp)
  | anyWriteStream => exact h.destroy_single hw (by simp [Class.has]) (by simp)
  | anyStream => exact h.destroy_whole hw

/-- The members of `w'` have gone to `w`, without the owner of its operations. -/
structure Moved (s s' : Store) (w w' : Nat) : Prop where
  wrapper : s'.wrapper = s.wrapper
  base : ∀ p, s'.base p = if p.1 = w then { s.base (w', p.2) with owner := none }
    else if p.1 = w' then {} else s.base p
  whole : ∀ v, s'.whole v = if v = w then s.whole w' else if v = w' then {} else s.whole v

theorem Moved.of_replaced {s₁ : Store} (hm : Moved s₁ s' w w') (hne : w ≠ w')
    (hwrapper : s₁.wrapper = s.wrapper) (hbase : ∀ p, p.1 ≠ w → s₁.base p = s.base p)
    (hwhole : ∀ v, v ≠ w → s₁.whole v = s.whole v) : Moved s s' w w' where
  wrapper := hm.wrapper.trans hwrapper
  base p := by
    rw [hm.base p, hbase (w', p.2) (Ne.symm hne)]
    by_cases hp : p.1 = w
    · simp [hp]
    · simp [hp, hbase p hp]
  whole v := by
    rw [hm.whole v, hwhole w' (Ne.symm hne)]
    by_cases hv : v = w
    · simp [hv]
    · simp [hv, hwhole v hv]

theorem Shape.disown {o : Option Class} {base : Kind → Base} {whole : Whole}
    (h : Shape o base whole) : Shape o (fun k => { base k with owner := none }) whole where
  absent hk := by simp [h.absent hk]
  noWhole := h.noWhole
  borrows := h.borrows
  cached := h.cached
  home := h.home

theorem Moved.inv (hm : Moved s s' w w') (h : Inv s) (hs' : Coherent s') (hne : w ≠ w')
    (hw' : s.wrapper w' = some c) : Inv (s'.setWrapper w (some c)) where
  coherent := hs'.setWrapper
  shaped v := by
    by_cases hv : v = w
    · subst hv
      simpa [Store.setWrapper, hm.base, hm.whole, hw'] using (h.shaped w').disown
    · by_cases hv' : v = w'
      · subst hv'
        simpa [Store.setWrapper, hm.base, hm.whole, hv] using Shape.empty _
      · simpa [Store.setWrapper, hm.base, hm.whole, hm.wrapper, hv, hv'] using h.shaped v

theorem assign_single (h : Inv s) (hclear : Coherent (s.clear (w, k))) (hne : w ≠ w')
    (hother : ∀ k', k' ≠ k → s.base (w, k') = {} ∧ s.base (w', k') = {})
    (hwhole : s.whole w = {} ∧ s.whole w' = {}) :
    Coherent (s.assign (w, k) (w', k)) ∧ Moved s (s.assign (w, k) (w', k)) w w' := by
  have hpair : (w, k) ≠ (w', k) := fun heq => hne (Prod.mk.inj heq).1
  obtain ⟨hbase', hwhole', hwrapper'⟩ := assign_fields h.coherent.toLinked hclear hpair
  refine ⟨hclear.assign h.coherent.toLinked hpair, hwrapper', ?_, ?_⟩
  · rintro ⟨v, k'⟩
    rw [hbase']
    by_cases hk : k' = k
    · subst hk
      by_cases hv : v = w
      · subst hv
        simp [hne]
      · by_cases hv' : v = w'
        · simp [hv', Ne.symm hne]
        · simp [hv, hv']
    · by_cases hv : v = w
      · subst hv
        simp [hk, hother k' hk]
      · by_cases hv' : v = w'
        · simp [hv', Ne.symm hne, hk, hother k' hk]
        · simp [hv, hv']
  · intro v
    rw [hwhole']
    by_cases hv : v = w
    · simp [hv, hwhole]
    · by_cases hv' : v = w'
      · simp [hv', hwhole]
      · simp [hv, hv']

theorem assign_both (h : Coherent s) (hne : w ≠ w') (hstorage : ∀ k, (s.base (w, k)).storage = none)
    (hwhole : s.whole w = {}) :
    let s' := ((s.assign (w, .read) (w', .read)).assign (w, .write) (w', .write)).takeWhole w w'
    Coherent s' ∧ Moved s s' w w' := by
  have hpair : ∀ k : Kind, (w, k) ≠ (w', k) := fun k heq => hne (Prod.mk.inj heq).1
  have hclear₁ : Coherent (s.clear (w, .read)) := h.clear (by simp [hstorage])
  obtain ⟨hbase₁, hwhole₁, hwrapper₁⟩ := assign_fields h.toLinked hclear₁ (hpair .read)
  have h₁ := hclear₁.assign h.toLinked (hpair .read)
  have hclear₂ : Coherent ((s.assign (w, .read) (w', .read)).clear (w, .write)) :=
    h₁.clear (by simp [hbase₁, hstorage])
  obtain ⟨hbase₂, hwhole₂, hwrapper₂⟩ := assign_fields h₁.toLinked hclear₂ (hpair .write)
  have h₂ := hclear₂.assign h₁.toLinked (hpair .write)
  have hvoid :
      ((s.assign (w, .read) (w', .read)).assign (w, .write) (w', .write)).whole w = {} := by
    rw [hwhole₂, hwhole₁, hwhole]
  refine ⟨h₂.takeWhole hne hvoid, ?_, ?_, ?_⟩
  · exact hwrapper₂.trans hwrapper₁
  · rintro ⟨v, k⟩
    change ((s.assign (w, .read) (w', .read)).assign (w, .write) (w', .write)).base (v, k) = _
    rw [hbase₂, hbase₁]
    by_cases hv : v = w
    · subst hv
      cases k <;> simp [hne]
    · by_cases hv' : v = w'
      · cases k <;> simp [hv', Ne.symm hne]
      · simp [hv, hv']
  · intro v
    rw [takeWhole_eq hne hvoid, hwhole₂, hwhole₁]
    by_cases hv : v = w
    · simp [hv]
    · by_cases hv' : v = w'
      · simp [hv', hwhole, Ne.symm hne]
      · simp [hv, hv', Equiv.swap_apply_of_ne_of_ne hv hv']

theorem Inv.assign_single (h : Inv s) (hne : w ≠ w') (hw : ∀ d, s.wrapper w = some d → d = c)
    (hw' : s.wrapper w' = some c) (hc : ∀ k', c.has k' = true ↔ k' = k) (hsingle : c ≠ .anyStream) :
    Inv ((s.assign (w, k) (w', k)).setWrapper w (some c)) := by
  have hwhole : s.whole w = {} := (h.shaped w).noWhole fun hw'' => hsingle (hw _ hw'').symm
  have hwhole' : s.whole w' = {} := (h.shaped w').noWhole (by simpa [hw'] using hsingle)
  obtain ⟨hcoherent, hmoved⟩ := AnyStreamLifetime.assign_single h h.clear hne
    (fun k' hk => ⟨h.other_base hw hc hk, h.other_base (by simp [hw']) hc hk⟩) ⟨hwhole, hwhole'⟩
  exact hmoved.inv h hcoherent hne hw'

theorem Inv.moveConstruct (h : Inv s) (hw : s.wrapper w = none) (hw' : s.wrapper w' = some c) :
    Inv ((s.moveConstruct w w' c).setWrapper w (some c)) := by
  have hne : w ≠ w' := by
    rintro rfl
    simp [hw] at hw'
  have hempty : ∀ k, s.base (w, k) = {} := fun k => (h.shaped w).absent (by simp [hw])
  have htake : ∀ k, s.assign (w, k) (w', k) = s.take (w, k) (w', k) := fun k => by
    rw [Store.assign, clear_of_empty h.coherent.toLinked (hempty k)]
  cases c with
  | anyReadStream =>
      have hinv := h.assign_single (k := .read) hne (by simp [hw]) hw' (by simp [Class.has])
        (by simp)
      rwa [htake] at hinv
  | anyWriteStream =>
      have hinv := h.assign_single (k := .write) hne (by simp [hw]) hw' (by simp [Class.has])
        (by simp)
      rwa [htake] at hinv
  | anyStream =>
      have hwhole : s.whole w = {} := (h.shaped w).noWhole (by simp [hw])
      have hpair : (w, Kind.read) ≠ (w', .read) := fun heq => hne (Prod.mk.inj heq).1
      obtain ⟨hcoherent, hmoved⟩ := assign_both h.coherent hne (by simp [hempty]) hwhole
      have hbase := (take_fields h.coherent.toLinked hpair (hempty .read)).1
      have htaken := h.coherent.take hpair (hempty .read)
      have hempty' : (s.take (w, .read) (w', .read)).base (w, .write) = {} := by
        simp [hbase, hempty]
      have hclear := clear_of_empty htaken.toLinked hempty'
      rw [htake, Store.assign, hclear] at hcoherent hmoved
      exact hmoved.inv h hcoherent hne hw'

theorem Inv.moveAssign (h : Inv s) (hw : s.wrapper w = some c) (hw' : s.wrapper w' = some c) :
    Inv (s.moveAssign w w' c) := by
  by_cases hne : w = w'
  · simpa [Store.moveAssign, hne] using h
  · have hkeep : ∀ s' : Store, s'.wrapper = s.wrapper → Inv (s'.setWrapper w (some c)) →
        Inv s' := by
      intro s' hwrapper hs'
      rwa [Store.setWrapper, ← hw, ← hwrapper, Function.update_eq_self] at hs'
    unfold Store.moveAssign
    rw [if_neg hne]
    cases c with
    | anyReadStream | anyWriteStream =>
        refine hkeep _ ?_ (h.assign_single hne (by simp [hw]) hw' (by simp [Class.has]) (by simp))
        exact (assign_fields h.coherent.toLinked h.clear fun heq => hne (Prod.mk.inj heq).1).2.2
    | anyStream =>
        obtain ⟨hbase, hwhole, hwrapper⟩ := endWhole_fields (w := w) h.coherent
        have hended := h.endWhole (w := w)
        dsimp only at hbase hwhole hwrapper ⊢
        generalize ((s.endOperation (w, .read)).endOperation (w, .write)).destroyWhole w = s₃ at *
        have hstorage : ∀ k, (s₃.base (w, k)).storage = none := by
          intro k
          rw [hbase]
          simpa using (h.shaped w).borrows hw k
        obtain ⟨hcoherent, hmoved⟩ := assign_both hended hne hstorage (by simp [hwhole])
        have hmoved' := hmoved.of_replaced hne hwrapper (fun p hp => by rw [hbase, if_neg hp])
          fun v hv => by rw [hwhole, Function.update_of_ne hv]
        exact hkeep _ hmoved'.wrapper (hmoved'.inv h hcoherent hne hw')

end Wrappers

end Capy.AnyStreamLifetime
