import Capy.FrameAllocator

namespace Capy.FrameAllocator

open Capy.CallStack

/-- What the slot is known to hold once the launch expressions are left. -/
def settled (v : Option Slot) (ls : List Launch) : Option Slot :=
  ls.foldl (fun _ l => some l.scope.saved) v

theorem settled_of_settled {v : Option Slot} {e : Slot} {ls : List Launch}
    (h : settled v ls = some e) : settled (some e) ls = some e := by
  cases ls with
  | nil => rfl
  | cons l ls => exact h

/-- What the slot is known to hold after `resume()`. -/
def How.restores : How → Option Slot
  | .safe scope => some scope.saved
  | .direct => none

/-- What the activation leaves in the slot when it returns, if it now holds `v`. -/
def Pc.leaves (v : Option Slot) : Pc → Option Slot
  | .body how _ _ | .suspending how _ => how.restores
  | .plain ls => settled v ls

namespace Shared

/-- A body that relies on the slot has there the allocator of its context, or will
once the launch expressions it is inside of are left. -/
def Holds (s : Shared) (v : Option Slot) : Pc → Prop
  | .body _ c ls => ∃ x, s.coros c = some x ∧
      (x.kind.guarded = true → ∃ e, x.env = some e ∧ settled v ls = some e)
  | _ => True

/-- Every activation of a stack gets back the slot it relies on, when the newest
one finds `v`. -/
def Fits (s : Shared) : Option Slot → List Pc → Prop
  | _, [] => True
  | v, pc :: pcs => s.Holds v pc ∧ s.Fits (pc.leaves v) pcs

/-- Coroutines stay what they are, and keep their environment. -/
def Extends (s s' : Shared) : Prop :=
  ∀ c x, s.coros c = some x → ∃ x', s'.coros c = some x' ∧ x'.kind = x.kind ∧
    ∀ e, x.env = some e → x'.env = some e

theorem Extends.refl (s : Shared) : s.Extends s := fun _ x hx => ⟨x, hx, rfl, fun _ he => he⟩

theorem Extends.trans {s s' s'' : Shared} (h : s.Extends s') (h' : s'.Extends s'') :
    s.Extends s'' := by
  intro c x hx
  obtain ⟨y, hy, hkind, henv⟩ := h c x hx
  obtain ⟨z, hz, hkind', henv'⟩ := h' c y hy
  exact ⟨z, hz, hkind'.trans hkind, fun e he => henv' e (henv e he)⟩

theorem Holds.mono {s s' : Shared} {v : Option Slot} {pc : Pc} (h : s.Holds v pc)
    (hext : s.Extends s') : s'.Holds v pc := by
  cases pc with
  | body how c ls =>
      obtain ⟨x, hx, hguarded⟩ := h
      obtain ⟨x', hx', hkind, henv⟩ := hext c x hx
      refine ⟨x', hx', fun hg => ?_⟩
      rw [hkind] at hg
      obtain ⟨e, he, hsettled⟩ := hguarded hg
      exact ⟨e, henv e he, hsettled⟩
  | plain ls => trivial
  | suspending how c => trivial

theorem Fits.mono {s s' : Shared} {v : Option Slot} {pcs : List Pc} (h : s.Fits v pcs)
    (hext : s.Extends s') : s'.Fits v pcs := by
  induction pcs generalizing v with
  | nil => trivial
  | cons pc pcs ih => exact ⟨h.1.mono hext, ih h.2⟩

theorem Fits.of_none {s : Shared} {pcs : List Pc} (h : s.Fits none pcs) (v : Option Slot) :
    s.Fits v pcs := by
  induction pcs with
  | nil => trivial
  | cons pc pcs ih =>
      obtain ⟨hholds, hrest⟩ := h
      cases pc with
      | body how c ls =>
          refine ⟨?_, hrest⟩
          obtain ⟨x, hx, hguarded⟩ := hholds
          refine ⟨x, hx, fun hg => ?_⟩
          obtain ⟨e, he, hsettled⟩ := hguarded hg
          cases ls with
          | nil => simp [settled] at hsettled
          | cons l ls => exact ⟨e, he, hsettled⟩
      | plain ls =>
          refine ⟨trivial, ?_⟩
          cases ls with
          | nil => exact ih hrest
          | cons l ls => exact hrest
      | suspending how c => exact ⟨trivial, hrest⟩

theorem Holds.withLaunches {s : Shared} {v v' : Option Slot} {pc : Pc} {ls : List Launch}
    (h : s.Holds v pc) (hls : settled v' ls = settled v pc.launches) :
    s.Holds v' (pc.withLaunches ls) := by
  cases pc with
  | body how c ls' =>
      obtain ⟨x, hx, hguarded⟩ := h
      refine ⟨x, hx, fun hg => ?_⟩
      obtain ⟨e, he, hsettled⟩ := hguarded hg
      exact ⟨e, he, hls.trans hsettled⟩
  | plain ls' => trivial
  | suspending how c => trivial

end Shared

theorem Pc.leaves_withLaunches {v v' : Option Slot} {pc : Pc} {ls : List Launch}
    (hls : settled v' ls = settled v pc.launches) :
    (pc.withLaunches ls).leaves v' = pc.leaves v := by
  cases pc with
  | body how c ls' => rfl
  | plain ls' => exact hls
  | suspending how c => rfl

/-- The launch expressions a coroutine is suspended inside of give back the
allocator of its context. -/
def Coro.Parked (x : Coro) : Prop :=
  (x.kind.guarded = true → ∀ e, x.env = some e → settled (some e) x.launches = some e) ∧
    (x.point = .initial → x.launches = [])

/-- The calls of `operator delete` for a coroutine. -/
def Coro.returns (x : Coro) : List (Option Request) :=
  match x.block with
  | some b => if x.point = .destroyed then [some b.allocation] else []
  | none => []

theorem Coro.returns_of_point {x : Coro} (h : x.point ≠ .destroyed) : x.returns = [] := by
  unfold Coro.returns
  split
  · rw [if_neg h]
  · rfl

namespace Shared

def returnsOf (s : Shared) (d : Nat) : List (Option Request) :=
  (s.returned.filter fun p => p.1 = d).map Prod.snd

/-- The part of the invariant that is about the coroutines and the history. -/
structure Kept (s : Shared) : Prop where
  parked : ∀ c x, s.coros c = some x → x.Parked
  exits : ∀ e ∈ s.exits, e.left = e.found
  returned : ∀ d, s.returnsOf d = (s.coros d).elim [] Coro.returns

/-- What every step on thread `t` does: it leaves the other slots alone, it keeps
the coroutines' contexts and what holds of them. -/
structure Evolves (t : Nat) (s s' : Shared) : Prop where
  others : ∀ u, u ≠ t → s'.slots u = s.slots u
  coros : s.Extends s'
  kept : s.Kept → s'.Kept

variable {t : Nat} {s s' s'' : Shared}

theorem Evolves.refl (t : Nat) (s : Shared) : Evolves t s s :=
  ⟨fun _ _ => rfl, .refl s, id⟩

theorem Evolves.trans (h : Evolves t s s') (h' : Evolves t s' s'') : Evolves t s s'' where
  others u hu := (h'.others u hu).trans (h.others u hu)
  coros := h.coros.trans h'.coros
  kept hk := h'.kept (h.kept hk)

theorem evolves_setSlot (t : Nat) (s : Shared) (v : Slot) : Evolves t s (s.setSlot t v) where
  others _ hu := Function.update_of_ne hu ..
  coros := .refl s
  kept hk := ⟨hk.parked, hk.exits, hk.returned⟩

@[simp] theorem setSlot_slots_self (s : Shared) (t : Nat) (v : Slot) :
    (s.setSlot t v).slots t = v := Function.update_self ..

@[simp] theorem setCoro_slots (s : Shared) (c : Nat) (x : Coro) :
    (s.setCoro c x).slots = s.slots := rfl

@[simp] theorem setCoro_coros_self (s : Shared) (c : Nat) (x : Coro) :
    (s.setCoro c x).coros c = some x := Function.update_self ..

theorem setCoro_coros_of_ne {s : Shared} {c d : Nat} {x : Coro} (h : d ≠ c) :
    (s.setCoro c x).coros d = s.coros d := Function.update_of_ne h ..

@[simp] theorem leave_slots_self (s : Shared) (t : Nat) (scope : Scope) :
    (s.leave t scope).slots t = scope.saved := Function.update_self ..

theorem evolves_leave (t : Nat) (s : Shared) (scope : Scope) : Evolves t s (s.leave t scope) where
  others _ hu := Function.update_of_ne hu ..
  coros := .refl s
  kept hk := by
    refine ⟨hk.parked, ?_, hk.returned⟩
    intro e he
    rcases List.mem_cons.mp he with rfl | he
    · exact (setSlot_slots_self s t scope.saved).trans scope.kept
    · exact hk.exits e he

theorem evolves_setCoro_new {c : Nat} {x : Coro} (hnew : s.coros c = none)
    (hparked : x.Parked) (hpoint : x.point ≠ .destroyed) : Evolves t s (s.setCoro c x) where
  others _ _ := rfl
  coros d y hy := by
    have hne : d ≠ c := by
      rintro rfl
      simp [hnew] at hy
    exact ⟨y, (setCoro_coros_of_ne hne).trans hy, rfl, fun _ he => he⟩
  kept hk := by
    refine ⟨?_, hk.exits, ?_⟩
    · intro d y hy
      rcases eq_or_ne d c with rfl | hne
      · rw [setCoro_coros_self] at hy
        exact Option.some.inj hy ▸ hparked
      · exact hk.parked d y ((setCoro_coros_of_ne hne).symm.trans hy)
    · intro d
      rcases eq_or_ne d c with rfl | hne
      · rw [setCoro_coros_self]
        exact ((hk.returned d).trans (by rw [hnew]; rfl)).trans (Coro.returns_of_point hpoint).symm
      · rw [setCoro_coros_of_ne hne]
        exact hk.returned d

theorem evolves_setCoro {c : Nat} {x x' : Coro} (hx : s.coros c = some x)
    (hkind : x'.kind = x.kind) (henv : ∀ e, x.env = some e → x'.env = some e)
    (hparked : x.Parked → x'.Parked) (hpoint : x.point ≠ .destroyed)
    (hpoint' : x'.point ≠ .destroyed) : Evolves t s (s.setCoro c x') where
  others _ _ := rfl
  coros d y hy := by
    rcases eq_or_ne d c with rfl | hne
    · obtain rfl : x = y := Option.some.inj (hx.symm.trans hy)
      exact ⟨x', setCoro_coros_self .., hkind, henv⟩
    · exact ⟨y, (setCoro_coros_of_ne hne).trans hy, rfl, fun _ he => he⟩
  kept hk := by
    refine ⟨?_, hk.exits, ?_⟩
    · intro d y hy
      rcases eq_or_ne d c with rfl | hne
      · rw [setCoro_coros_self] at hy
        exact Option.some.inj hy ▸ hparked (hk.parked d x hx)
      · exact hk.parked d y ((setCoro_coros_of_ne hne).symm.trans hy)
    · intro d
      rcases eq_or_ne d c with rfl | hne
      · rw [setCoro_coros_self]
        refine (hk.returned d).trans ?_
        rw [hx, Option.elim_some, Option.elim_some, Coro.returns_of_point hpoint,
          Coro.returns_of_point hpoint']
      · rw [setCoro_coros_of_ne hne]
        exact hk.returned d

theorem destroy_coros_of_ne {d e : Nat} (h : e ≠ d) :
    (s.destroy t d).coros e = s.coros e := by
  unfold destroy
  split
  · rfl
  · exact Function.update_of_ne h ..

theorem destroy_coros_self {d : Nat} {x : Coro} (hx : s.coros d = some x) :
    (s.destroy t d).coros d = some { x with point := .destroyed, launches := [] } := by
  simp only [destroy, hx]
  exact setCoro_coros_self ..

theorem destroy_slots_self {d : Nat} {x : Coro} (hx : s.coros d = some x) :
    (s.destroy t d).slots t = unwind (s.slots t) x.launches := by
  simp only [destroy, hx]
  exact setSlot_slots_self ..

theorem evolves_destroy {d : Nat} {x : Coro} (hx : s.coros d = some x)
    (hpoint : x.point ≠ .destroyed) : Evolves t s (s.destroy t d) where
  others u hu := by
    simp only [destroy, hx]
    exact Function.update_of_ne hu ..
  coros c y hy := by
    rcases eq_or_ne c d with rfl | hne
    · obtain rfl : x = y := Option.some.inj (hx.symm.trans hy)
      exact ⟨_, destroy_coros_self hx, rfl, fun _ he => he⟩
    · exact ⟨y, (destroy_coros_of_ne hne).trans hy, rfl, fun _ he => he⟩
  kept hk := by
    refine ⟨?_, ?_, ?_⟩
    · intro c y hy
      rcases eq_or_ne c d with rfl | hne
      · obtain rfl := Option.some.inj ((destroy_coros_self hx).symm.trans hy)
        exact ⟨fun _ _ _ => rfl, fun _ => rfl⟩
      · exact hk.parked c y ((destroy_coros_of_ne hne).symm.trans hy)
    · simp only [destroy, hx]
      exact hk.exits
    · intro c
      have hreturned := hk.returned c
      rcases eq_or_ne c d with rfl | hne
      · rw [hx, Option.elim_some, Coro.returns_of_point hpoint] at hreturned
        cases hb : x.block with
        | none => simpa [destroy, hx, returnsOf, hb, Coro.returns] using hreturned
        | some b =>
            simpa [destroy, hx, returnsOf, hb, Coro.returns, operatorDelete_eq] using hreturned
      · rw [destroy_coros_of_ne hne, ← hreturned]
        cases hb : x.block with
        | none => simp [destroy, hx, returnsOf, hb]
        | some b => simp [destroy, hx, returnsOf, hb, hne.symm]

theorem evolves_destroyUnstarted {d : Nat} (h : s.destroyUnstarted t d = some s') :
    Evolves t s s' := by
  unfold destroyUnstarted at h
  split at h
  · rename_i hinitial
    obtain rfl := Option.some.inj h
    cases hx : s.coros d with
    | none => simp [hx] at hinitial
    | some x =>
        simp only [hx, Option.any_some, decide_eq_true_eq] at hinitial
        exact evolves_destroy hx (by simp [hinitial])
  · simp at h

/-- What `resume()` does, with the allocator in the slot of a body that relies on
it, unless the body is that of a `write_now` operation which starts. -/
theorem resume_cases {how : How} {d : Nat} {q : Option Pc} (hk : s.Kept)
    (h : s.resume t how d = some (s', q)) :
    ∃ x, s.coros d = some x ∧ q = some (.body how d x.launches) ∧ Evolves t s s' ∧
      ((x.kind = .writeNow → x.point = .initial → x.env = some (s.slots t)) →
        s'.Holds (some (s'.slots t)) (.body how d x.launches)) := by
  unfold resume at h
  split at h
  · simp at h
  · rename_i x hx
    split at h
    · rename_i hresumable
      obtain ⟨rfl, rfl⟩ := Prod.mk.inj (Option.some.inj h)
      simp only [Coro.resumable, Bool.and_eq_true, Bool.or_eq_true, decide_eq_true_eq]
        at hresumable
      obtain ⟨hpoint, henv⟩ := hresumable
      have hparked := hk.parked d x hx
      refine ⟨x, hx, rfl, ?_, fun hstart => ?_⟩
      · refine (evolves_setSlot t s _).trans (evolves_setCoro hx rfl (fun _ he => he) ?_ ?_ ?_)
        · exact fun _ => ⟨fun _ _ _ => rfl, fun _ => rfl⟩
        · rcases hpoint with hpoint | hpoint <;> simp [hpoint]
        · simp
      · refine ⟨_, setCoro_coros_self .., fun hg => ?_⟩
        have hne : x.kind ≠ .trampoline := by
          rintro heq
          simp [heq, Kind.guarded] at hg
        obtain ⟨e, he⟩ := Option.isSome_iff_exists.mp (henv.resolve_left hne)
        refine ⟨e, he, ?_⟩
        have hslot : x.resumeSlot (s.slots t) = e := by
          cases hset : x.kind.setsSlot x.point with
          | true => simp [Coro.resumeSlot, hset, he]
          | false =>
              have hwrite : x.kind = .writeNow ∧ x.point = .initial := by
                revert hset hg
                cases x.kind <;> cases x.point <;> simp [Kind.setsSlot, Kind.guarded]
              have hheld := hstart hwrite.1 hwrite.2
              simp only [Coro.resumeSlot, hset]
              exact Option.some.inj (hheld.symm.trans he)
        rw [setCoro_slots, setSlot_slots_self, hslot]
        exact hparked.1 hg e he
    · simp at h

end Shared

/-- The invariant of every run in which the slots are right. -/
structure Sound (s : Shared) (fs : List (Frame Pc)) : Prop where
  windows : ∀ t, s.Fits (some (s.slots t)) (stackOf t fs)
  kept : s.Kept

section Step

variable {t : Nat} {s s' : Shared} {pc : Pc} {q : Option Pc} {l r fs : List (Frame Pc)}

theorem Sound.replace (h : Sound s (l ++ ⟨t, pc⟩ :: r)) (hl : ∀ g ∈ l, g.thread ≠ t)
    (hev : Shared.Evolves t s s')
    (htop : s'.Fits (some (s'.slots t)) (q.toList ++ stackOf t r)) :
    Sound s' (l ++ q.toList.map (Frame.mk t) ++ r) := by
  refine ⟨fun u => ?_, hev.kept h.kept⟩
  rcases eq_or_ne t u with rfl | hu
  · rw [stackOf_replace hl]
    exact htop
  · rw [stackOf_replace_of_ne hu pc, hev.others u hu.symm]
    exact (h.windows u).mono hev.coros

theorem Sound.enter (h : Sound s fs) (hev : Shared.Evolves t s s')
    (htop : s'.Fits (some (s'.slots t)) (q.toList ++ stackOf t fs)) :
    Sound s' (q.toList.map (Frame.mk t) ++ fs) := by
  refine ⟨fun u => ?_, hev.kept h.kept⟩
  rcases eq_or_ne t u with rfl | hu
  · rw [stackOf_enter]
    exact htop
  · rw [stackOf_enter_of_ne hu, hev.others u hu.symm]
    exact (h.windows u).mono hev.coros

theorem Sound.top (h : Sound s (l ++ ⟨t, pc⟩ :: r)) (hl : ∀ g ∈ l, g.thread ≠ t) :
    s.Holds (some (s.slots t)) pc ∧ s.Fits (pc.leaves (some (s.slots t))) (stackOf t r) := by
  have htop := h.windows t
  rw [stackOf_split hl] at htop
  exact htop

theorem Sound.relaunch (h : Sound s (l ++ ⟨t, pc⟩ :: r)) (hl : ∀ g ∈ l, g.thread ≠ t)
    (hev : Shared.Evolves t s s') {ls : List Launch}
    (hls : settled (some (s'.slots t)) ls = settled (some (s.slots t)) pc.launches) :
    Sound s' (l ++ (some (pc.withLaunches ls)).toList.map (Frame.mk t) ++ r) := by
  obtain ⟨hholds, hrest⟩ := h.top hl
  refine h.replace hl hev ⟨(hholds.withLaunches hls).mono hev.coros, ?_⟩
  rw [Pc.leaves_withLaunches hls]
  exact hrest.mono hev.coros

theorem Sound.become (h : Sound s (l ++ ⟨t, pc⟩ :: r)) (hl : ∀ g ∈ l, g.thread ≠ t)
    (hev : Shared.Evolves t s s') {pc' : Pc} (hholds : s'.Holds (some (s'.slots t)) pc')
    (hleaves : pc'.leaves (some (s'.slots t)) = pc.leaves (some (s.slots t))) :
    Sound s' (l ++ (some pc').toList.map (Frame.mk t) ++ r) := by
  refine h.replace hl hev ⟨hholds, ?_⟩
  rw [hleaves]
  exact (h.top hl).2.mono hev.coros

end Step

end Capy.FrameAllocator
