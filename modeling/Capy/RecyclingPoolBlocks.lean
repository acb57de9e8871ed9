import Mathlib.Logic.Equiv.Basic
import Capy.RecyclingPool

namespace Capy.RecyclingPool

open Function

/-- Where a block can be: with a caller that asked for so many bytes, in the hand
of a thread that deallocates it (with the bucket it is meant for, if any), or in
a bucket. -/
inductive Place where
  | live (bytes : Nat)
  | hand (t : Nat) (idx : Option Nat)
  | slot (o : Owner) (idx : Nat)
  deriving DecidableEq

/-- The block that a deallocation in progress holds, and the bucket it is meant
for. -/
def Pc.held : Pc → Option (Nat × Option Nat)
  | .deallocateSlow p idx => some (p, some idx)
  | .opDelete p => some (p, none)
  | _ => none

/-- The block is at the place. -/
def At (s : Pool) : Place → Nat → Prop
  | .live bytes, p => s.live p = some bytes
  | .hand t idx, p => (s.threads t).pc.held = some (p, idx)
  | .slot o idx, p => idx < numClasses ∧ p ∈ (s.buckets o idx).slots

/-- A block of this size can be at the place. -/
def Fits : Place → Nat → Prop
  | .live bytes, n => bytes ≤ n ∧ (classOf bytes < numClasses → n = classSize (classOf bytes))
  | .hand _ idx, n => ∀ i ∈ idx, i < numClasses ∧ n = classSize i
  | .slot _ idx, n => n = classSize idx

/-- Every block that is not deleted is at one place, where it fits. -/
structure Placed (s : Pool) : Prop where
  unique : ∀ {p pl pl'}, At s pl p → At s pl' p → pl = pl'
  block : ∀ {p pl}, At s pl p → ∃ n, s.blocks p = some n ∧ Fits pl n
  place : ∀ {p n}, s.blocks p = some n → ∃ pl, At s pl p

/-- All blocks are placed but `p`, which has `n` bytes and is nowhere. -/
structure PlacedBut (s : Pool) (p n : Nat) : Prop where
  unique : ∀ {q pl pl'}, At s pl q → At s pl' q → pl = pl'
  nowhere : ∀ pl, ¬ At s pl p
  size : s.blocks p = some n
  block : ∀ {q pl}, At s pl q → ∃ n, s.blocks q = some n ∧ Fits pl n
  place : ∀ {q n}, q ≠ p → s.blocks q = some n → ∃ pl, At s pl q

section Fields

variable (s : Pool) (t p n : Nat) (x : Thread) (o : Owner) (b : Bucket)

@[simp]
theorem setThread_threads_self : (s.setThread t x).threads t = x := by
  simp [Pool.setThread]

@[simp]
theorem setThread_buckets : (s.setThread t x).buckets = s.buckets := rfl

@[simp]
theorem setBucket_threads : (s.setBucket o n b).threads = s.threads := rfl

@[simp]
theorem handOut_threads : (s.handOut p n).threads = s.threads := rfl

@[simp]
theorem handOut_buckets : (s.handOut p n).buckets = s.buckets := rfl

@[simp]
theorem free_threads : (s.free p).threads = s.threads := rfl

variable {t o}

theorem setThread_threads_ne {u : Nat} (hu : u ≠ t) :
    (s.setThread t x).threads u = s.threads u := by
  simp [Pool.setThread, hu]

theorem setBucket_buckets_ne {o' : Owner} (ho : o' ≠ o) :
    (s.setBucket o n b).buckets o' = s.buckets o' := by
  simp [Pool.setBucket, ho]

theorem setBucket_buckets : (s.setBucket o n b).buckets o = update (s.buckets o) n b := by
  simp [Pool.setBucket]

end Fields

section At

variable (s : Pool) (p : Nat)

@[simp]
theorem at_setThread_hand (t u : Nat) (x : Thread) (idx : Option Nat) :
    At (s.setThread t x) (.hand u idx) p ↔
      if u = t then x.pc.held = some (p, idx) else At s (.hand u idx) p := by
  unfold At Pool.setThread
  by_cases h : u = t <;> simp [h]

@[simp]
theorem at_setBucket_slot (o o' : Owner) (idx i : Nat) (b : Bucket) :
    At (s.setBucket o idx b) (.slot o' i) p ↔
      if o' = o ∧ i = idx then i < numClasses ∧ p ∈ b.slots else At s (.slot o' i) p := by
  unfold At Pool.setBucket
  by_cases ho : o' = o
  · subst ho
    by_cases hi : i = idx <;> simp [hi]
  · simp [ho]

@[simp]
theorem at_handOut_live (q bytes bytes' : Nat) :
    At (s.handOut q bytes) (.live bytes') p ↔
      if p = q then bytes = bytes' else At s (.live bytes') p := by
  unfold At Pool.handOut
  by_cases h : p = q <;> simp [h]

end At

section Extract

variable {s : Pool} {p : Nat}

theorem Placed.extract {s' : Pool} {pl : Place} {n : Nat} (h : Placed s) (hat : At s pl p)
    (hn : s.blocks p = some n) (hblocks : s'.blocks = s.blocks)
    (hstay : ∀ q pl', At s' pl' q ↔ At s pl' q ∧ (q = p → pl' ≠ pl)) :
    PlacedBut s' p n where
  unique hq hq' := h.unique ((hstay ..).mp hq).1 ((hstay ..).mp hq').1
  nowhere pl' hp := by
    obtain ⟨hp, hne⟩ := (hstay ..).mp hp
    exact hne rfl (h.unique hp hat)
  size := hblocks ▸ hn
  block hq := by
    rw [hblocks]
    exact h.block ((hstay ..).mp hq).1
  place hne hq := by
    rw [hblocks] at hq
    obtain ⟨pl', hpl'⟩ := h.place hq
    exact ⟨pl', (hstay ..).mpr ⟨hpl', fun hqp => absurd hqp hne⟩⟩

theorem PlacedBut.insert {s' : Pool} {pl : Place} {n : Nat} (h : PlacedBut s p n)
    (hfits : Fits pl n) (hblocks : s'.blocks = s.blocks)
    (hstay : ∀ q pl', At s' pl' q ↔ At s pl' q ∨ q = p ∧ pl' = pl) : Placed s' where
  unique {q pl₁ pl₂} hq hq' := by
    rcases (hstay ..).mp hq with hq | ⟨rfl, rfl⟩
    · rcases (hstay ..).mp hq' with hq' | ⟨rfl, rfl⟩
      · exact h.unique hq hq'
      · exact absurd hq (h.nowhere _)
    · rcases (hstay ..).mp hq' with hq' | ⟨-, rfl⟩
      · exact absurd hq' (h.nowhere _)
      · rfl
  block {q pl'} hq := by
    rw [hblocks]
    rcases (hstay ..).mp hq with hq | ⟨rfl, rfl⟩
    · exact h.block hq
    · exact ⟨n, h.size, hfits⟩
  place {q m} hm := by
    rw [hblocks] at hm
    by_cases hqp : q = p
    · exact ⟨pl, (hstay ..).mpr (.inr ⟨hqp, rfl⟩)⟩
    · obtain ⟨pl', hpl'⟩ := h.place hqp hm
      exact ⟨pl', (hstay ..).mpr (.inl hpl')⟩

theorem PlacedBut.free {n : Nat} (h : PlacedBut s p n) : Placed (s.free p) where
  unique hq hq' := h.unique hq hq'
  block {q pl} hq := by
    have hq : At s pl q := hq
    have hne : q ≠ p := by
      rintro rfl
      exact h.nowhere pl hq
    obtain ⟨m, hm, hfits⟩ := h.block hq
    exact ⟨m, by simpa [Pool.free, hne] using hm, hfits⟩
  place {q m} hm := by
    by_cases hqp : q = p
    · simp [Pool.free, hqp] at hm
    · exact h.place hqp (by simpa [Pool.free, hqp] using hm)

theorem Placed.new (h : Placed s) (hfree : s.blocks p = none) (n : Nat) :
    PlacedBut { s with blocks := update s.blocks p (some n) } p n where
  unique hq hq' := h.unique hq hq'
  nowhere pl hp := by
    obtain ⟨m, hm, -⟩ := h.block (show At s pl p from hp)
    simp [hfree] at hm
  size := update_self ..
  block {q pl} hq := by
    obtain ⟨m, hm, hfits⟩ := h.block (show At s pl q from hq)
    have hne : q ≠ p := by
      rintro rfl
      simp [hfree] at hm
    exact ⟨m, by simpa [hne] using hm, hfits⟩
  place {q m} hne hm := h.place (show s.blocks q = some m by simpa [hne] using hm)

end Extract

section Places

variable {s : Pool} {p n t idx : Nat} {o : Owner} {b : Bucket} {x : Thread}

theorem Placed.giveUp (h : Placed s) {bytes : Nat} (hlive : s.live p = some bytes) :
    ∃ n, PlacedBut { s with live := update s.live p none } p n ∧ Fits (.live bytes) n := by
  have hat : At s (.live bytes) p := hlive
  obtain ⟨n, hn, hfits⟩ := h.block hat
  refine ⟨n, h.extract hat hn rfl fun q pl => ?_, hfits⟩
  cases pl with
  | live b =>
      by_cases hq : q = p
      · subst hq
        simp only [At, update_self, hlive, Option.some.injEq, Place.live.injEq, ne_eq,
          forall_const, reduceCtorEq, false_iff, not_and, not_not]
        exact Eq.symm
      · simp [At, hq]
  | hand u i => simp [At]
  | slot o i => simp [At]

theorem Placed.release (h : Placed s) {i : Option Nat}
    (hheld : (s.threads t).pc.held = some (p, i)) (hx : x.pc.held = none) :
    ∃ n, PlacedBut (s.setThread t x) p n ∧ Fits (.hand t i) n := by
  have hat : At s (.hand t i) p := hheld
  obtain ⟨n, hn, hfits⟩ := h.block hat
  refine ⟨n, h.extract hat hn rfl fun q pl => ?_, hfits⟩
  cases pl with
  | live b => simp [At, Pool.setThread]
  | slot o i => simp [At, Pool.setThread]
  | hand u j =>
      rw [at_setThread_hand]
      split_ifs with hu
      · subst hu
        simp only [hx, reduceCtorEq, At, hheld, Option.some.injEq, Prod.mk.injEq, false_iff,
          not_and, Place.hand.injEq, true_and, ne_eq, Classical.not_imp, not_not]
        exact fun hpq => ⟨hpq.1.symm, hpq.2.symm⟩
      · simp [hu]

theorem Placed.pop (h : Placed s) (hidx : idx < numClasses)
    (hnodup : (s.buckets o idx).slots.Nodup)
    (hslots : (s.buckets o idx).slots = b.slots ++ [p]) :
    PlacedBut (s.setBucket o idx b) p (classSize idx) := by
  have hat : At s (.slot o idx) p := ⟨hidx, by simp [hslots]⟩
  obtain ⟨n, hn, hfits⟩ := h.block hat
  obtain rfl : n = classSize idx := hfits
  have hnot : p ∉ b.slots := by
    rw [hslots] at hnodup
    have := List.nodup_append.mp hnodup
    exact fun hp => this.2.2 p hp p (by simp) rfl
  refine h.extract hat hn rfl fun q pl => ?_
  cases pl with
  | live b => simp [At, Pool.setBucket]
  | hand u i => simp [At, Pool.setBucket]
  | slot o' i =>
      rw [at_setBucket_slot]
      split_ifs with hsame
      · obtain ⟨rfl, rfl⟩ := hsame
        simp only [At, hslots, List.mem_append, List.mem_singleton, ne_eq, not_true_eq_false]
        constructor
        · rintro ⟨hi, hq⟩
          refine ⟨⟨hi, .inl hq⟩, ?_⟩
          rintro rfl
          exact hnot hq
        · rintro ⟨⟨hi, hq | hq⟩, hne⟩
          · exact ⟨hi, hq⟩
          · exact absurd hq hne
      · have hne : Place.slot o' i ≠ .slot o idx := by
          intro heq
          obtain ⟨rfl, rfl⟩ := Place.slot.inj heq
          exact hsame ⟨rfl, rfl⟩
        simp [hne]

theorem PlacedBut.handOut (h : PlacedBut s p n) {bytes : Nat} (hfits : Fits (.live bytes) n) :
    Placed (s.handOut p bytes) := by
  refine h.insert hfits rfl fun q pl => ?_
  cases pl with
  | live b =>
      rw [at_handOut_live]
      split_ifs with hq
      · subst hq
        have hno : ¬ At s (.live b) q := h.nowhere _
        simp [hno, eq_comm]
      · simp [hq]
  | hand u i => simp [At, Pool.handOut]
  | slot o i => simp [At, Pool.handOut]

theorem PlacedBut.toHand (h : PlacedBut s p n) {i : Option Nat}
    (hfree : (s.threads t).pc.held = none) (hx : x.pc.held = some (p, i))
    (hfits : Fits (.hand t i) n) : Placed (s.setThread t x) := by
  refine h.insert hfits rfl fun q pl => ?_
  cases pl with
  | live b => simp [At, Pool.setThread]
  | slot o i => simp [At, Pool.setThread]
  | hand u j =>
      rw [at_setThread_hand]
      split_ifs with hu
      · subst hu
        simp [hx, At, hfree, eq_comm]
      · simp [hu]

theorem PlacedBut.push (h : PlacedBut s p (classSize idx)) (hidx : idx < numClasses)
    (hslots : b.slots = (s.buckets o idx).slots ++ [p]) : Placed (s.setBucket o idx b) := by
  have hfits : Fits (.slot o idx) (classSize idx) := rfl
  refine h.insert hfits rfl fun q pl => ?_
  cases pl with
  | live b => simp [At, Pool.setBucket]
  | hand u i => simp [At, Pool.setBucket]
  | slot o' i =>
      rw [at_setBucket_slot]
      split_ifs with hsame
      · obtain ⟨rfl, rfl⟩ := hsame
        simp [At, hslots, hidx]
      · simp only [Place.slot.injEq, hsame, and_false, or_false]

theorem Placed.setThread (h : Placed s) (hx : x.pc.held = (s.threads t).pc.held) :
    Placed (s.setThread t x) := by
  have hat : ∀ q pl, At (s.setThread t x) pl q ↔ At s pl q := by
    intro q pl
    cases pl with
    | live b => simp [At, Pool.setThread]
    | slot o i => simp [At, Pool.setThread]
    | hand u j =>
        rw [at_setThread_hand]
        split_ifs with hu
        · subst hu
          simp [At, hx]
        · rfl
  constructor
  · exact fun hq hq' => h.unique ((hat ..).mp hq) ((hat ..).mp hq')
  · exact fun hq => h.block ((hat ..).mp hq)
  · intro q m hm
    obtain ⟨pl, hpl⟩ := h.place hm
    exact ⟨pl, (hat ..).mpr hpl⟩

theorem setThread_setThread (y : Thread) :
    (s.setThread t x).setThread t y = s.setThread t y := by
  simp [Pool.setThread]

theorem setBucket_setBucket (c : Bucket) :
    (s.setBucket o idx b).setBucket o idx c = s.setBucket o idx c := by
  simp [Pool.setBucket]

theorem PlacedBut.shift (h : PlacedBut s p n) {o' : Owner} (ho : o' ≠ o) {src : Bucket}
    (hempty : (s.buckets o' idx).slots = []) (hslots : b.slots = (s.buckets o idx).slots)
    (hsrc : src.slots = []) : PlacedBut ((s.setBucket o idx src).setBucket o' idx b) p n := by
  have hat : ∀ q pl, At ((s.setBucket o idx src).setBucket o' idx b) pl q ↔
      At s (Equiv.swap (.slot o idx) (.slot o' idx) pl) q := by
    intro q pl
    by_cases hto : pl = .slot o' idx
    · subst hto
      rw [Equiv.swap_apply_right, at_setBucket_slot, if_pos ⟨rfl, rfl⟩, hslots]
      rfl
    · by_cases hfrom : pl = .slot o idx
      · subst hfrom
        rw [Equiv.swap_apply_left, at_setBucket_slot, if_neg (fun h => ho h.1.symm),
          at_setBucket_slot, if_pos ⟨rfl, rfl⟩, hsrc]
        simp [At, hempty]
      · rw [Equiv.swap_apply_of_ne_of_ne hfrom hto]
        cases pl with
        | live c => rfl
        | hand u i => rfl
        | slot o'' i =>
            rw [at_setBucket_slot, if_neg (fun h => hto (by rw [h.1, h.2])),
              at_setBucket_slot, if_neg (fun h => hfrom (by rw [h.1, h.2]))]
  have hfit : ∀ pl m, Fits (Equiv.swap (.slot o idx) (.slot o' idx) pl) m → Fits pl m := by
    intro pl m hm
    by_cases hto : pl = .slot o' idx
    · subst hto
      rwa [Equiv.swap_apply_right] at hm
    · by_cases hfrom : pl = .slot o idx
      · subst hfrom
        rwa [Equiv.swap_apply_left] at hm
      · rwa [Equiv.swap_apply_of_ne_of_ne hfrom hto] at hm
  constructor
  · exact fun hq hq' => Equiv.injective _ (h.unique ((hat ..).mp hq) ((hat ..).mp hq'))
  · exact fun pl hp => h.nowhere _ ((hat ..).mp hp)
  · exact h.size
  · intro q pl hq
    obtain ⟨m, hm, hfits⟩ := h.block ((hat ..).mp hq)
    exact ⟨m, hm, hfit pl m hfits⟩
  · intro q m hne hm
    obtain ⟨pl, hpl⟩ := h.place hne hm
    exact ⟨Equiv.swap (.slot o idx) (.slot o' idx) pl, (hat ..).mpr (by simpa using hpl)⟩

theorem mem_cached {q : Nat} : q ∈ cached s t ↔ ∃ i, At s (.slot (.thread t) i) q := by
  simp [cached, At]

theorem Placed.runJanitor (h : Placed s) : Placed (runJanitor s t) := by
  have hat : ∀ q pl, At (RecyclingPool.runJanitor s t) pl q ↔ At s pl q ∧ q ∉ cached s t := by
    intro q pl
    have hout : (∀ i, pl ≠ .slot (.thread t) i) → At s pl q → q ∉ cached s t := by
      intro hne hpl hq
      obtain ⟨i, hi⟩ := mem_cached.mp hq
      exact hne i (h.unique hpl hi)
    cases pl with
    | live c => exact ⟨fun hq => ⟨hq, hout nofun hq⟩, And.left⟩
    | hand u i =>
        have hpc : ((RecyclingPool.runJanitor s t).threads u).pc = (s.threads u).pc := by
          by_cases hu : u = t <;> simp [RecyclingPool.runJanitor, hu]
        simp only [At, hpc]
        exact ⟨fun hq => ⟨hq, hout nofun hq⟩, And.left⟩
    | slot o i =>
        by_cases ho : o = .thread t
        · subst ho
          constructor
          · rintro ⟨hi, hq⟩
            simp [RecyclingPool.runJanitor, hi, Bucket.slots] at hq
          · rintro ⟨hq, hno⟩
            exact absurd (mem_cached.mpr ⟨i, hq⟩) hno
        · have hb : (RecyclingPool.runJanitor s t).buckets o i = s.buckets o i := by
            simp [RecyclingPool.runJanitor, ho]
          simp only [At, hb]
          refine ⟨fun hq => ⟨hq, hout (fun j hj => ?_) hq⟩, And.left⟩
          exact ho (Place.slot.inj hj).1
  constructor
  · exact fun hq hq' => h.unique ((hat ..).mp hq).1 ((hat ..).mp hq').1
  · intro q pl hq
    obtain ⟨hq, hno⟩ := (hat ..).mp hq
    simpa [RecyclingPool.runJanitor, hno] using h.block hq
  · intro q m hm
    simp only [RecyclingPool.runJanitor] at hm
    split_ifs at hm with hq
    obtain ⟨pl, hpl⟩ := h.place hm
    exact ⟨pl, (hat ..).mpr ⟨hpl, hq⟩⟩

end Places

end Capy.RecyclingPool
