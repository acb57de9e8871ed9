import Capy.Potential
import Capy.StrandFate
import Capy.StrandServiceImpl

namespace Capy.StrandServiceImpl

open Capy.CallStack
open Capy.StrandService (Strand Outcome)

def holdsMutex : Pc → Bool
  | .shutdownLoop _ | .shutdownTake _ _ => true
  | _ => false

/-- The strand that the shutdown has closed and has yet to take from. -/
def takes : Pc → Option Nat
  | .shutdownTake k _ => some k
  | _ => none

def locksMutex : Pc → Bool
  | .shutdown => true
  | _ => false

/-- The strands that an activation knows of. -/
def knows : Pc → List Nat
  | .strand k _ => [k]
  | .shutdownLoop doomed | .abandonBatch doomed => doomed.map Prod.fst
  | .shutdownTake k doomed => k :: doomed.map Prod.fst
  | _ => []

/-- The list of live impls holds the strands that are linked, in the order of their
creation, and it is empty after the loop of `shutdown()`. -/
structure Listed (s : Service) : Prop where
  sorted : s.implList.Pairwise (· < ·)
  created : ∀ k ∈ s.implList, k < s.created
  linked : ∀ k, k < s.created → ((s.strands k).linked = true ↔ k ∈ s.implList)
  called : ∀ k, k < s.created → (s.strands k).shutdown = s.called
  held : s.mutex = true → s.shutdown = true
  emptied : s.shutdown = true → s.mutex = false → s.implList = []
  released : s.mutex = false → s.closing = none

/-- There is one shutdown, and only its loop holds the mutex from step to step. -/
structure Shutting (s : Service) (fs : List (Frame Pc)) : Prop where
  known : ∀ f ∈ fs, ∀ k ∈ knows f.pc, k < s.created
  holding : (fs.countP fun f => holdsMutex f.pc) = s.mutex.toNat
  locking : (fs.countP fun f => locksMutex f.pc) + s.shutdown.toNat = s.called.toNat
  apart : ∀ f ∈ fs, holdsMutex f.pc = true → ∀ k ∈ knows f.pc, k ∉ s.implList
  closing : ∀ f ∈ fs, holdsMutex f.pc = true → s.closing = takes f.pc
  taking : ∀ f ∈ fs, ∀ k doomed, f.pc = .shutdownTake k doomed → k ∉ doomed.map Prod.fst

theorem Listed.setStrand {s : Service} (h : Listed s) {k : Nat} {x : Strand}
    (hlinked : x.linked = (s.strands k).linked) (hshutdown : x.shutdown = (s.strands k).shutdown) :
    Listed (s.setStrand k x) := by
  obtain ⟨hsorted, hcreated, hlist, hcalled, hheld, hemptied, hreleased⟩ := h
  have hsame (j : Nat) : ((s.setStrand k x).strands j).linked = (s.strands j).linked ∧
      ((s.setStrand k x).strands j).shutdown = (s.strands j).shutdown := by
    rcases eq_or_ne j k with rfl | hne
    · simp [Service.setStrand, hlinked, hshutdown]
    · simp [Service.setStrand, hne]
  refine ⟨hsorted, hcreated, fun j hj => ?_, fun j hj => ?_, hheld, hemptied, hreleased⟩
  · rw [(hsame j).1]
    exact hlist j hj
  · rw [(hsame j).2]
    exact hcalled j hj

theorem keeps_linked {x x' : Strand} {t : Nat} {pc : StrandService.Pc} {outcome : Outcome}
    {q : Option StrandService.Pc} (hexec : StrandService.exec x t pc outcome = some (x', q))
    (hshutdown : pc ≠ .shutdownImpl) (hunlink : pc ≠ .destroyUnlink) :
    x'.linked = x.linked ∧ x'.shutdown = x.shutdown := by
  have hstep := StrandService.exec_step hexec
  cases hstep <;> first | exact ⟨rfl, rfl⟩ | simp at hshutdown hunlink

theorem Step.listed {s s' : Service} {t : Nat} {pc : Pc} {q : Option Pc}
    (hstep : Step s t pc s' q) (h : Listed s) (hmutex : holdsMutex pc = true → s.mutex = true)
    (hclosing : holdsMutex pc = true → s.closing = takes pc) : Listed s' := by
  obtain ⟨hsorted, hcreated, hlinked, hcalled, hheld, hemptied, hreleased⟩ := id h
  cases hstep with
  | strand outcome hshutdown hunlink hlocks hexec =>
      obtain ⟨hlink, hshut⟩ := keeps_linked hexec hshutdown hunlink
      exact h.setStrand hlink hshut
  | abandon => exact h.setStrand rfl rfl
  | abandoned => exact h
  | @unlink k hfree =>
      refine ⟨hsorted.sublist List.erase_sublist, fun j hj => hcreated j (List.mem_of_mem_erase hj),
        fun j hj => ?_, fun j hj => ?_, hheld, fun hs hm => ?_, hreleased⟩
      · rcases eq_or_ne j k with rfl | hne
        · have hnodup : s.implList.Nodup := hsorted.imp Nat.ne_of_lt
          simp [Service.setStrand, hnodup.not_mem_erase]
        · simpa [Service.setStrand, hne, List.mem_erase_of_ne hne] using hlinked j hj
      · rcases eq_or_ne j k with rfl | hne
        · simpa [Service.setStrand] using hcalled j hj
        · simpa [Service.setStrand, hne] using hcalled j hj
      · simp [hemptied hs hm]
  | create hfree =>
      have hnew : s.created ∉ s.implList := fun hmem => Nat.lt_irrefl _ (hcreated _ hmem)
      refine ⟨?_, ?_, fun j hj => ?_, fun j hj => ?_, hheld, fun hs hm => ?_, hreleased⟩
      · cases hshut : s.shutdown with
        | true => exact hsorted
        | false =>
            refine List.pairwise_append.mpr ⟨hsorted, List.pairwise_singleton _ _, ?_⟩
            simpa using hcreated
      · intro j hj
        cases hshut : s.shutdown with
        | true =>
            simp only [hshut, if_true] at hj
            exact Nat.lt_succ_of_lt (hcreated j hj)
        | false =>
            simp only [hshut, Bool.false_eq_true, if_false, List.mem_append,
              List.mem_singleton] at hj
            exact hj.elim (fun hj => Nat.lt_succ_of_lt (hcreated j hj)) fun hj => by simp [hj]
      · rcases eq_or_ne j s.created with rfl | hne
        · cases hshut : s.shutdown <;>
            simp [Service.setStrand, StrandService.createImplementation, hnew]
        · have hold := hlinked j (Nat.lt_of_le_of_ne (Nat.le_of_lt_succ hj) hne)
          cases hshut : s.shutdown <;> simpa [Service.setStrand, hne] using hold
      · rcases eq_or_ne j s.created with rfl | hne
        · simp [Service.setStrand]
        · have hold := hcalled j (Nat.lt_of_le_of_ne (Nat.le_of_lt_succ hj) hne)
          simpa [Service.setStrand, hne] using hold
      · have hshut : s.shutdown = true := hs
        simpa [hshut] using hemptied hs hm
  | lock hfree =>
      exact ⟨hsorted, hcreated, hlinked, hcalled, fun _ => rfl, by simp, by simp⟩
  | emptied hnil =>
      exact ⟨hsorted, hcreated, hlinked, hcalled, by simp, fun _ _ => hnil, fun _ => hclosing rfl⟩
  | @take k doomed =>
      have htaken := h.setStrand (k := k) (x := { s.strands k with pending := [] }) rfl rfl
      exact ⟨htaken.sorted, htaken.created, htaken.linked, htaken.called, htaken.held,
        htaken.emptied, fun _ => rfl⟩
  | @close doomed k implList hcons =>
      rw [hcons] at hsorted hcreated hlinked
      obtain ⟨hfirst, hrest⟩ := List.pairwise_cons.mp hsorted
      refine ⟨hrest, fun j hj => hcreated j (List.mem_cons_of_mem _ hj), fun j hj => ?_,
        fun j hj => ?_, hheld, fun _ hm => ?_, fun hm => ?_⟩
      · rcases eq_or_ne j k with rfl | hne
        · have hnot : j ∉ implList := fun hmem => Nat.lt_irrefl _ (hfirst j hmem)
          simp [Service.setStrand, hnot]
        · simpa [Service.setStrand, hne] using hlinked j hj
      · rcases eq_or_ne j k with rfl | hne
        · simpa [Service.setStrand] using hcalled j hj
        · simpa [Service.setStrand, hne] using hcalled j hj
      · have hfree : s.mutex = false := hm
        simp [hmutex rfl] at hfree
      · have hfree : s.mutex = false := hm
        simp [hmutex rfl] at hfree

theorem Shutting.mutex_of_holds {s : Service} {fs : List (Frame Pc)} (h : Shutting s fs)
    {f : Frame Pc} (hf : f ∈ fs) (hpc : holdsMutex f.pc = true) : s.mutex = true := by
  have hpos : 0 < fs.countP fun f => holdsMutex f.pc := List.countP_pos_iff.mpr ⟨f, hf, hpc⟩
  rw [h.holding] at hpos
  cases hmutex : s.mutex <;> simp [hmutex] at hpos ⊢

theorem Shutting.alone {s : Service} {l r : List (Frame Pc)} {t : Nat} {pc : Pc}
    (h : Shutting s (l ++ ⟨t, pc⟩ :: r)) {f : Frame Pc} (hf : f ∈ l ++ r)
    (hholds : holdsMutex f.pc = true) : holdsMutex pc = false := by
  by_contra hpc
  have hle : (l ++ ⟨t, pc⟩ :: r).countP (fun f => holdsMutex f.pc) ≤ 1 :=
    h.holding ▸ Bool.toNat_le s.mutex
  have hrest := rest_of_countP_le_one hle (by simpa using hpc) f hf
  simp [hholds] at hrest

theorem Step.keeps_list {s s' : Service} {t : Nat} {pc : Pc} {q : Option Pc}
    (hstep : Step s t pc s' q) (hpc : holdsMutex pc = false) (hmutex : s.mutex = true) :
    s'.implList = s.implList ∧ s'.closing = s.closing := by
  cases hstep with
  | strand | abandon | abandoned => exact ⟨rfl, rfl⟩
  | unlink hfree | create hfree | lock hfree => simp [hfree] at hmutex
  | emptied | close | take => simp [holdsMutex] at hpc

theorem knows_taken {k j : Nat} {doomed : List (Nat × Nat)} {pending : List Nat}
    (hj : j ∈ knows (.shutdownLoop (doomed ++ pending.map (Prod.mk k)))) :
    j ∈ knows (.shutdownTake k doomed) := by
  simp only [knows, List.map_append, List.map_map, List.mem_append] at hj
  rcases hj with hj | hj
  · exact List.mem_cons_of_mem _ hj
  · obtain ⟨c, -, rfl⟩ := List.mem_map.mp hj
    exact List.mem_cons_self

section Next

variable {s s' : Service} {t : Nat} {pc pc' : Pc} {q : Option Pc} (hstep : Step s t pc s' q)

include hstep

theorem Step.next_knows (hq : q = some pc') {k : Nat} (hk : k ∈ knows pc') :
    k ∈ knows pc ∨ k ∈ s.implList := by
  cases hstep with
  | strand =>
      obtain ⟨pc, -, rfl⟩ := Option.map_eq_some_iff.mp hq
      exact .inl hk
  | unlink | emptied =>
      obtain rfl := Option.some.inj hq
      exact .inl hk
  | lock =>
      obtain rfl := Option.some.inj hq
      simp [knows] at hk
  | create | abandoned => simp at hq
  | close hcons =>
      obtain rfl := Option.some.inj hq
      rcases List.mem_cons.mp hk with rfl | hk
      · exact .inr (by simp [hcons])
      · exact .inl hk
  | take =>
      obtain rfl := Option.some.inj hq
      exact .inl (knows_taken hk)
  | abandon =>
      obtain rfl := Option.some.inj hq
      exact .inl (List.mem_cons_of_mem _ hk)

theorem Step.next_holds (hlisted : Listed s)
    (hapart : holdsMutex pc = true → ∀ k ∈ knows pc, k ∉ s.implList) (hq : q = some pc')
    (hholds : holdsMutex pc' = true) :
    s'.closing = takes pc' ∧ ∀ k ∈ knows pc', k ∉ s'.implList := by
  cases hstep with
  | strand =>
      obtain ⟨pc, -, rfl⟩ := Option.map_eq_some_iff.mp hq
      simp [holdsMutex] at hholds
  | lock hfree =>
      obtain rfl := Option.some.inj hq
      exact ⟨hlisted.released hfree, by simp [knows]⟩
  | create | abandoned => simp at hq
  | @close doomed j implList hcons =>
      obtain rfl := Option.some.inj hq
      have hsorted := hlisted.sorted
      rw [hcons] at hsorted hapart
      refine ⟨rfl, fun k hk => ?_⟩
      rcases List.mem_cons.mp hk with rfl | hk
      · exact fun hmem => Nat.lt_irrefl _ (List.rel_of_pairwise_cons hsorted hmem)
      · exact fun hmem => hapart rfl k hk (List.mem_cons_of_mem _ hmem)
  | take =>
      obtain rfl := Option.some.inj hq
      exact ⟨rfl, fun k hk => hapart rfl k (knows_taken hk)⟩
  | unlink | emptied | abandon =>
      obtain rfl := Option.some.inj hq
      simp [holdsMutex] at hholds

theorem Step.next_takes (hapart : holdsMutex pc = true → ∀ k ∈ knows pc, k ∉ s.implList)
    {k : Nat} {doomed : List (Nat × Nat)} (hq : q = some (.shutdownTake k doomed)) :
    k ∉ doomed.map Prod.fst := by
  cases hstep with
  | close hcons =>
      obtain ⟨rfl, rfl⟩ := by simpa using hq
      exact fun hmem => hapart rfl _ hmem (by simp [hcons])
  | _ => simp at hq

theorem Step.holding {n : Nat} (h : n + (holdsMutex pc).toNat = s.mutex.toNat) :
    n + (q.elim false holdsMutex).toNat = s'.mutex.toNat := by
  cases hstep with
  | @strand k pc x q => cases q <;> exact h
  | lock hfree =>
      rw [hfree] at h
      exact congrArg (· + 1) h
  | emptied =>
      have hle := Bool.toNat_le s.mutex
      simp only [holdsMutex, Bool.toNat_true, Option.elim_some, Bool.toNat_false] at h ⊢
      omega
  | _ => exact h

theorem Step.locking {n : Nat}
    (h : n + (locksMutex pc).toNat + s.shutdown.toNat = s.called.toNat) :
    n + (q.elim false locksMutex).toNat + s'.shutdown.toNat = s'.called.toNat := by
  cases hstep with
  | @strand k pc x q => cases q <;> exact h
  | lock =>
      have hle := Bool.toNat_le s.called
      simp only [locksMutex, Bool.toNat_true, Option.elim_some, Bool.toNat_false] at h ⊢
      omega
  | _ => exact h

end Next

theorem Step.shutting {s s' : Service} {t : Nat} {pc : Pc} {q : Option Pc}
    {l r : List (Frame Pc)} (hstep : Step s t pc s' q) (hlisted : Listed s)
    (h : Shutting s (l ++ ⟨t, pc⟩ :: r)) : Shutting s' (l ++ q.toList.map (Frame.mk t) ++ r) := by
  obtain ⟨hknown, hholding, hlocking, hapart, hclosing, htaking⟩ := id h
  obtain ⟨hknownRest, hknownPc⟩ := forall_split.mp hknown
  obtain ⟨hapartRest, hapartPc⟩ := forall_split.mp hapart
  have hothers : ∀ f ∈ l ++ r, holdsMutex f.pc = true →
      s'.implList = s.implList ∧ s'.closing = s.closing := fun f hf hholds =>
    hstep.keeps_list (h.alone hf hholds) (h.mutex_of_holds (mem_split.mpr (.inl hf)) hholds)
  have hgrows : s.created ≤ s'.created := by
    cases hstep <;> first | exact Nat.le_refl _ | exact Nat.le_succ _
  rw [countP_split] at hholding hlocking
  constructor
  · refine forall_replace.mpr ⟨fun f hf k hk => ?_, fun pc' hq k hk => ?_⟩
    · exact Nat.lt_of_lt_of_le (hknownRest f hf k hk) hgrows
    · have hk := (hstep.next_knows hq hk).elim (hknownPc k) (hlisted.created k)
      exact Nat.lt_of_lt_of_le hk hgrows
  · rw [countP_replace]
    exact hstep.holding hholding
  · rw [countP_replace]
    exact hstep.locking hlocking
  · refine forall_replace.mpr ⟨fun f hf hholds => ?_, fun pc' hq hholds => ?_⟩
    · rw [(hothers f hf hholds).1]
      exact hapartRest f hf hholds
    · exact (hstep.next_holds hlisted hapartPc hq hholds).2
  · refine forall_replace.mpr ⟨fun f hf hholds => ?_, fun pc' hq hholds => ?_⟩
    · rw [(hothers f hf hholds).2]
      exact (forall_split.mp hclosing).1 f hf hholds
    · exact (hstep.next_holds hlisted hapartPc hq hholds).1
  · refine forall_replace.mpr ⟨(forall_split.mp htaking).1, fun pc' hq k doomed hpc => ?_⟩
    exact hstep.next_takes hapartPc (hq.trans (congrArg some hpc))

/-- The calls that `enter` starts. -/
inductive Entered (s : Service) (fs : List (Frame Pc)) (t : Nat) : Service → Option Pc → Prop
  | strand {k x q} (e : StrandService.Entry) : k < s.created → e ≠ .shutdown →
      StrandService.enter (s.strands k) (projectFrames (project k s) fs) t e = some (x, q) →
      Entered s fs t (s.setStrand k x) (q.map (Pc.strand k))
  | create : Entered s fs t s (some .createImplementation)
  | shutdown : s.called = false →
      Entered s fs t
        { s with called := true, strands := fun k => { s.strands k with shutdown := true } }
        (some .shutdown)

theorem enter_entered {s s' : Service} {fs : List (Frame Pc)} {t : Nat} {e : Entry}
    {q : Option Pc} (h : enter s fs t e = some (s', q)) : Entered s fs t s' q := by
  cases e with
  | strand k e =>
      simp only [enter, Option.ite_none_right_eq_some] at h
      obtain ⟨⟨hk, hne⟩, h⟩ := h
      obtain ⟨⟨x, q'⟩, henter, heq⟩ := Option.map_eq_some_iff.mp h
      obtain ⟨rfl, rfl⟩ := Prod.mk.inj heq
      exact .strand e hk hne henter
  | createImplementation =>
      obtain ⟨rfl, rfl⟩ := by simpa only [enter, Option.some.injEq, Prod.mk.injEq] using h
      exact .create
  | shutdown =>
      simp only [enter, Option.ite_none_left_eq_some, Bool.not_eq_true, Option.some.injEq,
        Prod.mk.injEq] at h
      obtain ⟨hcalled, rfl, rfl⟩ := h
      exact .shutdown hcalled

theorem enter_keeps_linked {x x' : Strand} {fs : List (Frame StrandService.Pc)} {t : Nat}
    {e : StrandService.Entry} {q : Option StrandService.Pc}
    (henter : StrandService.enter x fs t e = some (x', q)) (hne : e ≠ .shutdown) :
    x'.linked = x.linked ∧ x'.shutdown = x.shutdown := by
  cases e <;> simp only [StrandService.enter, Option.ite_none_right_eq_some, Option.some.injEq,
    Prod.mk.injEq] at henter
  case shutdown => exact absurd rfl hne
  all_goals
    obtain ⟨-, rfl, -⟩ := henter
    exact ⟨rfl, rfl⟩

theorem Entered.listed {s s' : Service} {fs : List (Frame Pc)} {t : Nat} {q : Option Pc}
    (henter : Entered s fs t s' q) (h : Listed s) : Listed s' := by
  cases henter with
  | strand e _ hne henter =>
      obtain ⟨hlink, hshut⟩ := enter_keeps_linked henter hne
      exact h.setStrand hlink hshut
  | create => exact h
  | shutdown =>
      obtain ⟨hsorted, hcreated, hlinked, -, hheld, hemptied, hreleased⟩ := h
      exact ⟨hsorted, hcreated, hlinked, fun _ _ => rfl, hheld, hemptied, hreleased⟩

theorem Entered.shutting {s s' : Service} {fs : List (Frame Pc)} {t : Nat} {q : Option Pc}
    (henter : Entered s fs t s' q) (h : Shutting s fs) :
    Shutting s' (q.toList.map (Frame.mk t) ++ fs) := by
  obtain ⟨hknown, hholding, hlocking, hapart, hclosing, htaking⟩ := h
  have hnone : ∀ pc, q = some pc → holdsMutex pc = false := by
    intro pc hq
    cases henter with
    | strand =>
        obtain ⟨pc', -, rfl⟩ := Option.map_eq_some_iff.mp hq
        rfl
    | create | shutdown =>
        obtain rfl := Option.some.inj hq
        rfl
  refine ⟨forall_enter.mpr ⟨?_, fun pc hq k hk => ?_⟩, ?_, ?_,
    forall_enter.mpr ⟨?_, fun pc hq hholds => absurd ((hnone pc hq).symm.trans hholds) (by simp)⟩,
    forall_enter.mpr ⟨?_, fun pc hq hholds => absurd ((hnone pc hq).symm.trans hholds) (by simp)⟩,
    forall_enter.mpr ⟨htaking, fun pc hq k doomed hpc => ?_⟩⟩
  · cases henter <;> exact hknown
  · cases henter with
    | strand _ hj =>
        obtain ⟨pc', -, rfl⟩ := Option.map_eq_some_iff.mp hq
        obtain rfl : k = _ := by simpa [knows] using hk
        exact hj
    | create | shutdown =>
        obtain rfl := Option.some.inj hq
        simp [knows] at hk
  · rw [countP_enter]
    cases henter with
    | @strand k x q => cases q <;> exact hholding
    | _ => exact hholding
  · rw [countP_enter]
    cases henter with
    | @strand k x q => cases q <;> exact hlocking
    | create => exact hlocking
    | shutdown hcalled =>
        simp only [locksMutex, hcalled, Option.elim_some, Bool.toNat_true, Bool.toNat_false]
          at hlocking ⊢
        omega
  · cases henter <;> exact hapart
  · cases henter <;> exact hclosing
  · obtain rfl : pc = .shutdownTake k doomed := hpc
    simpa [holdsMutex] using hnone _ hq

/-- What every run of a service keeps. -/
structure Invariant (s : Service) (fs : List (Frame Pc)) : Prop where
  listed : Listed s
  shutting : Shutting s fs

theorem invariant_preserves : machine.Preserves destructorApart Invariant := by
  apply Machine.Preserves.ofSteps
  · intro s l t pc r c s' q hI _ _ _ hexec
    have hstep := exec_step hexec
    have hmem : (⟨t, pc⟩ : Frame Pc) ∈ l ++ ⟨t, pc⟩ :: r := by simp
    exact ⟨hstep.listed hI.listed (hI.shutting.mutex_of_holds hmem)
      (hI.shutting.closing _ hmem), hstep.shutting hI.listed hI.shutting⟩
  · intro s fs t a s' q hI _ _ _ henter
    have hentered := enter_entered henter
    exact ⟨hentered.listed hI.listed, hentered.shutting hI.shutting⟩

theorem invariant_reachable {s : State Service Pc} (h : Reachable s) :
    Invariant s.shared s.frames := by
  refine invariant_preserves.reachableWhen (by rintro _ rfl; rfl) ?_ h
  rintro _ rfl
  refine ⟨⟨List.Pairwise.nil, by simp [newService], by simp [newService], by simp [newService],
    by simp [newService], by simp [newService], by simp [newService]⟩,
    ⟨by simp, rfl, rfl, by simp, by simp, by simp⟩⟩

/-- The strand as it sees itself: what it has pending is taken when it is closed. -/
def Service.view (s : Service) (k : Nat) : Strand :=
  if s.closing = some k then { s.strands k with pending := [] } else s.strands k

theorem view_of_ne {s : Service} {k : Nat} (h : s.closing ≠ some k) : s.view k = s.strands k :=
  if_neg h

/-- Apart from its critical sections, its destructor and the shutdown, a strand goes on
in the same way whatever it has pending. -/
theorem exec_pending {x x' : Strand} {t : Nat} {pc : StrandService.Pc} {outcome : Outcome}
    {q : Option StrandService.Pc} (hexec : StrandService.exec x t pc outcome = some (x', q))
    (hlocks : locksImpl pc = false) (hshutdown : pc ≠ .shutdownImpl) (htake : pc ≠ .destroyTake) :
    x'.pending = x.pending ∧ StrandService.exec { x with pending := [] } t pc outcome =
      some ({ x' with pending := [] }, q) := by
  cases pc with
  | enqueueLocked | withdraw | abandonPending | takeAll | tryUnlock => simp [locksImpl] at hlocks
  | shutdownImpl => exact absurd rfl hshutdown
  | destroyTake => exact absurd rfl htake
  | dispatch | enqueue | destroyLoad =>
      simp only [StrandService.exec] at hexec ⊢
      split_ifs at hexec ⊢ <;> cases hexec <;> exact ⟨rfl, rfl⟩
  | postInvoker | repostInvoker => cases outcome <;> cases hexec <;> exact ⟨rfl, rfl⟩
  | abandonBatch batch caller =>
      cases batch <;> cases caller <;> cases hexec <;> exact ⟨rfl, rfl⟩
  | dispatchBatch current rest => cases rest <;> cases hexec <;> exact ⟨rfl, rfl⟩
  | _ => cases hexec; exact ⟨rfl, rfl⟩

theorem enter_pending {x x' : Strand} {fs : List (Frame StrandService.Pc)} {t : Nat}
    {e : StrandService.Entry} {q : Option StrandService.Pc}
    (henter : StrandService.enter x fs t e = some (x', q)) :
    x'.pending = x.pending ∧ StrandService.enter { x with pending := [] } fs t e =
      some ({ x' with pending := [] }, q) := by
  cases e <;> simp only [StrandService.enter, Option.ite_none_right_eq_some, Option.some.injEq,
    Prod.mk.injEq] at henter ⊢
  all_goals
    obtain ⟨hguard, rfl, rfl⟩ := henter
    exact ⟨rfl, hguard, rfl, rfl⟩

/-- What one strand sees of the service. -/
def strandState (k : Nat) (s : State Service Pc) : State Strand StrandService.Pc :=
  ⟨s.shared.view k, projectFrames (project k s.shared) s.frames⟩

section Strand

variable {x x' : Strand} {l r fs : List (Frame StrandService.Pc)} {t : Nat}
  {p : StrandService.Pc} {q : Option StrandService.Pc}

theorem run_strand {c : Outcome}
    (h : StrandService.Reachable ⟨x, l ++ (some p).toList.map (Frame.mk t) ++ r⟩)
    (hl : ∀ g ∈ l, g.thread ≠ t) (hexec : StrandService.exec x t p c = some (x', q)) :
    StrandService.Reachable ⟨x', l ++ q.toList.map (Frame.mk t) ++ r⟩ :=
  Machine.Reachable.run h hl hexec

theorem call_strand {e : StrandService.Entry} (h : StrandService.Reachable ⟨x, fs⟩)
    (hforeign : ∀ f ∈ fs, f.thread = t → f.pc.foreign = true)
    (henter : StrandService.enter x fs t e = some (x', q)) :
    StrandService.Reachable ⟨x', q.toList.map (Frame.mk t) ++ fs⟩ :=
  Machine.Reachable.call h hforeign henter

theorem abandons_strand {batch : List Nat}
    (h : StrandService.Reachable
      ⟨x, l ++ (some (.abandonBatch batch .shutdown)).toList.map (Frame.mk t) ++ r⟩)
    (hl : ∀ g ∈ l, g.thread ≠ t) :
    StrandService.Reachable ⟨x, l ++ (abandons batch).toList.map (Frame.mk t) ++ r⟩ := by
  rcases eq_or_ne batch [] with rfl | hne
  · exact run_strand (c := .succeeds) h hl rfl
  · simpa [abandons, hne] using h

end Strand

theorem doomedOf_append (k : Nat) (l r : List (Nat × Nat)) :
    doomedOf k (l ++ r) = doomedOf k l ++ doomedOf k r :=
  List.filterMap_append

theorem doomedOf_map (k j : Nat) (batch : List Nat) :
    doomedOf k (batch.map (Prod.mk j)) = if j = k then batch else [] := by
  rw [doomedOf, List.filterMap_map]
  split_ifs with h <;> simp [h]

theorem doomedOf_cons (k j c : Nat) (doomed : List (Nat × Nat)) :
    doomedOf k ((j, c) :: doomed) =
      if j = k then c :: doomedOf k doomed else doomedOf k doomed := by
  split_ifs with h <;> simp [doomedOf, h]

theorem doomedOf_eq_nil {k : Nat} {doomed : List (Nat × Nat)} (h : k ∉ doomed.map Prod.fst) :
    doomedOf k doomed = [] := by
  refine List.filterMap_eq_nil_iff.mpr fun p hp => if_neg ?_
  rintro rfl
  exact h (List.mem_map_of_mem hp)

/-- What a step of the service is for the strand `k`, when `l` and `r` are the other
activations of the strand. -/
theorem Step.strand_run {s s' : Service} {t : Nat} {pc : Pc} {q : Option Pc}
    (hstep : Step s t pc s' q) (hlisted : Listed s)
    (hapart : holdsMutex pc = true → ∀ k ∈ knows pc, k ∉ s.implList)
    (hclosing : holdsMutex pc = true → s.closing = takes pc)
    (htaking : ∀ k doomed, pc = .shutdownTake k doomed → k ∉ doomed.map Prod.fst)
    (hdestructor : ∀ k, pc = .strand k .destroyTake → s.closing ≠ some k) {k : Nat}
    (hk : k < s.created) {l r : List (Frame StrandService.Pc)} (hl : ∀ g ∈ l, g.thread ≠ t)
    (h : StrandService.Reachable
      ⟨s.view k, l ++ (project k s pc).toList.map (Frame.mk t) ++ r⟩) :
    StrandService.Reachable
      ⟨s'.view k, l ++ (q.bind (project k s')).toList.map (Frame.mk t) ++ r⟩ := by
  cases hstep with
  | @strand j pc x q outcome hshutdown hunlink hlocks hexec =>
      rcases eq_or_ne j k with rfl | hne
      · have hrun : StrandService.Reachable
            ⟨(s.setStrand j x).view j, l ++ q.toList.map (Frame.mk t) ++ r⟩ := by
          rcases eq_or_ne s.closing (some j) with hclosed | hopen
          · have htake : pc ≠ .destroyTake := fun hpc => hdestructor j (by rw [hpc]) hclosed
            have hpending := (exec_pending hexec (hlocks hclosed) hshutdown htake).2
            have hrun := run_strand (by simpa [project, Service.view, hclosed] using h) hl hpending
            simpa [Service.view, Service.setStrand, hclosed] using hrun
          · rw [view_of_ne hopen] at h
            have hrun := run_strand (c := outcome) (by simpa [project] using h) hl hexec
            simpa [Service.view, Service.setStrand, hopen] using hrun
        cases q <;> simpa [project] using hrun
      · have hview : (s.setStrand j x).view k = s.view k := by
          simp [Service.view, Service.setStrand, hne.symm]
        rw [hview]
        cases q <;> simpa [project, hne] using h
  | @unlink j hfree =>
      have hopen : s.closing = none := hlisted.released hfree
      rcases eq_or_ne j k with rfl | hne
      · have hrun := run_strand (c := .succeeds) (p := .destroyUnlink)
          (by simpa [project, Service.view, hopen] using h) hl rfl
        simpa [Service.view, Service.setStrand, project, hopen] using hrun
      · simpa [Service.view, Service.setStrand, project, hopen, hne, hne.symm] using h
  | create hfree =>
      have hne : k ≠ s.created := Nat.ne_of_lt hk
      simpa [Service.view, Service.setStrand, project, hlisted.released hfree, hne] using h
  | lock hfree =>
      have hopen : s.closing = none := hlisted.released hfree
      rcases Decidable.em (k ∈ s.implList) with hmem | hmem
      · simpa [Service.view, project, hmem] using h
      · have hlinked : (s.strands k).linked = false := by
          simpa using mt (hlisted.linked k hk).mp hmem
        have hexec : StrandService.exec (s.strands k) t .shutdownImpl .succeeds =
            some (s.strands k, some (.abandonBatch [] .shutdown)) := by
          simp [StrandService.exec, hlinked]
        have hrun := run_strand (by simpa [project, Service.view, hopen] using h) hl hexec
        simpa [Service.view, project, hopen, hmem, doomedOf] using abandons_strand hrun hl
  | emptied hnil => simpa [Service.view, project, hnil] using h
  | @close doomed j implList hcons =>
      have hsorted := hlisted.sorted
      have hopen : s.closing = none := hclosing rfl
      rw [hcons] at hsorted
      rcases eq_or_ne j k with rfl | hne
      · have hmem : j ∈ s.implList := by simp [hcons]
        have hlinked := (hlisted.linked j hk).mpr hmem
        have hrun := run_strand (c := .succeeds) (p := .shutdownImpl)
          (by simpa [project, Service.view, hopen, hmem] using h) hl (if_pos hlinked)
        simpa [Service.view, Service.setStrand, project] using abandons_strand hrun hl
      · have hmem : k ∈ s.implList ↔ k ∈ implList := by simp [hcons, hne.symm]
        simpa [Service.view, Service.setStrand, project, hopen, hmem, hne, hne.symm] using h
  | @take j doomed =>
      have hclosed : s.closing = some j := hclosing rfl
      rcases eq_or_ne j k with rfl | hne
      · have hmem : j ∉ s.implList := hapart rfl j List.mem_cons_self
        have hnone : doomedOf j doomed = [] := doomedOf_eq_nil (htaking j doomed rfl)
        simpa [Service.view, Service.setStrand, project, hclosed, hmem, doomedOf_append,
          doomedOf_map, hnone] using h
      · simpa [Service.view, Service.setStrand, project, hclosed, doomedOf_append, doomedOf_map,
          hne, hne.symm] using h
  | @abandon j c doomed =>
      rcases eq_or_ne j k with rfl | hne
      · have hbatch := h
        simp only [project, doomedOf_cons, if_true, abandons, reduceCtorEq, if_false] at hbatch
        have hrun := run_strand (c := .succeeds) hbatch hl rfl
        have hview : (s.setStrand j { s.strands j with
              abandoned := (s.strands j).abandoned ++ [c] }).view j =
            { s.view j with abandoned := (s.view j).abandoned ++ [c] } := by
          simp only [Service.view, Service.setStrand, Function.update_self]
          split_ifs <;> rfl
        rw [hview]
        simpa [project] using abandons_strand hrun hl
      · simpa [Service.view, Service.setStrand, project, doomedOf_cons, hne, hne.symm] using h
  | abandoned => exact h

theorem Step.keeps_pending {s s' : Service} {t : Nat} {pc : Pc} {q : Option Pc}
    (hstep : Step s t pc s' q) (hpc : holdsMutex pc = false) (hmutex : s.mutex = true) {k : Nat}
    (hclosed : s.closing = some k) (hdestructor : pc ≠ .strand k .destroyTake) :
    (s'.strands k).pending = (s.strands k).pending := by
  cases hstep with
  | @strand j pc x q outcome hshutdown _ hlocks hexec =>
      rcases eq_or_ne j k with rfl | hne
      · have htake : pc ≠ .destroyTake := fun hpc => hdestructor (by rw [hpc])
        simpa [Service.setStrand] using (exec_pending hexec (hlocks hclosed) hshutdown htake).1
      · simp [Service.setStrand, hne.symm]
  | unlink hfree | create hfree | lock hfree => simp [hfree] at hmutex
  | emptied | close | take => simp [holdsMutex] at hpc
  | @abandon j c doomed =>
      rcases eq_or_ne j k with rfl | hne
      · simp [Service.setStrand]
      · simp [Service.setStrand, hne.symm]
  | abandoned => rfl

theorem Step.project_others {s s' : Service} {t : Nat} {pc : Pc} {q : Option Pc}
    {l r : List (Frame Pc)} (hstep : Step s t pc s' q) (h : Shutting s (l ++ ⟨t, pc⟩ :: r))
    (hdestructor : ∀ k, pc = .strand k .destroyTake → s.closing ≠ some k) (k : Nat)
    {f : Frame Pc} (hf : f ∈ l ++ r) : project k s' f.pc = project k s f.pc := by
  obtain ⟨u, pc'⟩ := f
  have hmem : ⟨u, pc'⟩ ∈ l ++ ⟨t, pc⟩ :: r := mem_split.mpr (.inl hf)
  cases pc' with
  | shutdownLoop doomed =>
      have hmutex := h.mutex_of_holds hmem rfl
      simp only [project, (hstep.keeps_list (h.alone hf rfl) hmutex).1]
  | shutdownTake j doomed =>
      have hmutex := h.mutex_of_holds hmem rfl
      have hclosed : s.closing = some j := h.closing _ hmem rfl
      have hpending := hstep.keeps_pending (h.alone hf rfl) hmutex hclosed
        fun hpc => hdestructor j hpc hclosed
      simp only [project, (hstep.keeps_list (h.alone hf rfl) hmutex).1]
      split_ifs with hjk
      · rw [← hjk, hpending]
      · rfl
      · rfl
  | _ => rfl

theorem project_new {s s' : Service} {fs : List (Frame Pc)} (h : Shutting s fs)
    (hfree : s.mutex = false) {f : Frame Pc} (hf : f ∈ fs) (hlocks : locksMutex f.pc = false) :
    project s.created s' f.pc = none := by
  have hknown := h.known f hf
  obtain ⟨t, pc⟩ := f
  cases pc with
  | strand j pc =>
      have hj : j ≠ s.created := Nat.ne_of_lt (hknown j (by simp [knows]))
      simp [project, hj]
  | createImplementation => rfl
  | shutdown => simp [locksMutex] at hlocks
  | shutdownLoop doomed | shutdownTake j doomed => simp [h.mutex_of_holds hf rfl] at hfree
  | abandonBatch doomed =>
      have hnone : doomedOf s.created doomed = [] :=
        doomedOf_eq_nil fun hmem => Nat.lt_irrefl _ (hknown _ hmem)
      simp [project, hnone, abandons]

theorem new_strand (s' : Service) {s : Service} {fs : List (Frame Pc)} (h : Shutting s fs)
    (hfree : s.mutex = false) :
    StrandService.Reachable
      ⟨{ StrandService.createImplementation s.shutdown with shutdown := s.called },
        projectFrames (project s.created s') fs⟩ := by
  have hinit (b : Bool) : StrandService.Reachable ⟨StrandService.createImplementation b, []⟩ :=
    .init ⟨b, rfl⟩
  have hlocking := h.locking
  rcases eq_or_ne (fs.countP fun f => locksMutex f.pc) 0 with hzero | hne
  · have hnone := List.countP_eq_zero.mp hzero
    have hcalled : s.called = s.shutdown := by
      cases hcalled : s.called <;> cases hshutdown : s.shutdown <;>
        simp [hzero, hcalled, hshutdown] at hlocking ⊢
    rw [projectFrames_eq_nil fun f hf => project_new h hfree hf (by simpa using hnone f hf),
      hcalled]
    exact hinit s.shutdown
  · obtain ⟨⟨u, pc⟩, hf, hlocks⟩ := List.countP_pos_iff.mp (Nat.pos_of_ne_zero hne)
    have hle : fs.countP (fun f => locksMutex f.pc) ≤ 1 := by
      have hone := Bool.toNat_le s.called
      omega
    obtain rfl : pc = .shutdown := by cases pc <;> simp [locksMutex] at hlocks ⊢
    obtain ⟨l, r, rfl⟩ := List.append_of_mem hf
    have hrest := rest_of_countP_le_one hle rfl
    have hnone : ∀ f ∈ l ++ r, project s.created s' f.pc = none := fun f hf =>
      project_new h hfree (mem_split.mpr (.inl hf)) (hrest f hf)
    rw [countP_split] at hlocking
    have hflags : s.called = true ∧ s.shutdown = false := by
      cases hcalled : s.called <;> cases hshutdown : s.shutdown <;>
        simp [hcalled, hshutdown, locksMutex] at hlocking ⊢
    rw [projectFrames_split, projectFrames_eq_nil fun f hf => hnone f (by simp [hf]),
      projectFrames_eq_nil fun f hf => hnone f (by simp [hf]), hflags.1, hflags.2]
    exact call_strand (t := u) (e := .shutdown) (hinit false) (by simp) rfl

theorem project_foreign {k : Nat} {s : Service} {pc : Pc} {pc' : StrandService.Pc}
    (hproj : project k s pc = some pc') (hpc : pc.foreign = true) : pc'.foreign = true := by
  cases pc <;> simp [project, Pc.foreign] at hproj hpc
  · obtain ⟨-, rfl⟩ := hproj
    exact hpc
  · unfold abandons at hproj
    split_ifs at hproj
    obtain rfl := Option.some.inj hproj
    rfl

theorem Entered.keeps_pending {s s' : Service} {fs : List (Frame Pc)} {t : Nat} {q : Option Pc}
    (henter : Entered s fs t s' q) (k : Nat) :
    (s'.strands k).pending = (s.strands k).pending := by
  cases henter with
  | @strand j x q e hj hne henter =>
      rcases eq_or_ne j k with rfl | hne'
      · simpa [Service.setStrand] using (enter_pending henter).1
      · simp [Service.setStrand, hne'.symm]
  | _ => rfl

theorem Entered.strand_run {s s' : Service} {fs : List (Frame Pc)} {t : Nat} {q : Option Pc}
    (henter : Entered s fs t s' q) (hlisted : Listed s) {k : Nat} (hk : k < s.created)
    (hforeign : ∀ f ∈ fs, f.thread = t → f.pc.foreign = true)
    (h : StrandService.Reachable ⟨s.view k, projectFrames (project k s) fs⟩) :
    StrandService.Reachable
      ⟨s'.view k, projectFrames (project k s') (q.toList.map (Frame.mk t) ++ fs)⟩ := by
  have hfree : ∀ f ∈ projectFrames (project k s) fs, f.thread = t → f.pc.foreign = true :=
    projectFrames_foreign (fun _ _ => project_foreign) hforeign
  have hsame : projectFrames (project k s') fs = projectFrames (project k s) fs := by
    refine projectFrames_congr fun f _ => ?_
    have hpending := henter.keeps_pending k
    cases hpc : f.pc with
    | shutdownTake j doomed =>
        have hlist : s'.implList = s.implList := by cases henter <;> rfl
        simp only [project, hlist, hpending]
    | _ => cases henter <;> rfl
  rw [projectFrames_enter, hsame]
  cases henter with
  | @strand j x q e hj hne henter =>
      rcases eq_or_ne j k with rfl | hne'
      · have hcall : StrandService.Reachable ⟨(s.setStrand j x).view j,
            q.toList.map (Frame.mk t) ++ projectFrames (project j s) fs⟩ := by
          rcases eq_or_ne s.closing (some j) with hclosed | hopen
          · rw [Service.view, if_pos hclosed] at h
            simpa [Service.view, Service.setStrand, hclosed] using
              call_strand h hfree (enter_pending henter).2
          · rw [view_of_ne hopen] at h
            simpa [Service.view, Service.setStrand, hopen] using call_strand h hfree henter
        cases q <;> simpa [project] using hcall
      · have hview : (s.setStrand j x).view k = s.view k := by
          simp [Service.view, Service.setStrand, hne'.symm]
        rw [hview]
        cases q <;> simpa [project, hne'] using h
  | create => exact h
  | shutdown hcalled =>
      have hview : (s.view k).shutdown = false := by
        have hshutdown := (hlisted.called k hk).trans hcalled
        unfold Service.view
        split_ifs <;> exact hshutdown
      have hcall := call_strand (e := .shutdown) h hfree (if_pos hview)
      have hset : ({ s with
              called := true
              strands := fun k => { s.strands k with shutdown := true } } : Service).view k =
            { s.view k with shutdown := true } := by
        unfold Service.view
        split_ifs <;> rfl
      rw [hset]
      exact hcall

theorem Entered.keeps_created {s s' : Service} {fs : List (Frame Pc)} {t : Nat} {q : Option Pc}
    (henter : Entered s fs t s' q) : s'.created = s.created := by
  cases henter <;> rfl

theorem Step.created_cases {s s' : Service} {t : Nat} {pc : Pc} {q : Option Pc}
    (hstep : Step s t pc s' q) : s'.created = s.created ∨ s.mutex = false ∧ q = none ∧
      pc = .createImplementation ∧ s'.created = s.created + 1 ∧ s'.closing = s.closing ∧
      s'.strands s.created =
        { StrandService.createImplementation s.shutdown with shutdown := s.called } := by
  cases hstep with
  | create hfree => exact .inr ⟨hfree, rfl, rfl, rfl, rfl, by simp [Service.setStrand]⟩
  | _ => exact .inl rfl

/-- Every strand of a service is a strand of `StrandService`. -/
theorem strand_reachable {s : State Service Pc} (h : Reachable s) :
    ∀ k, k < s.shared.created → StrandService.Reachable (strandState k s) := by
  induction h with
  | init hi =>
      obtain rfl := hi
      exact fun k hk => absurd hk (Nat.not_lt_zero k)
  | @step s s' e hs hok hstep ih =>
      have hinv := invariant_reachable hs
      have hfree (t : Nat) (a : Entry) (he : e = .enter t a) := Machine.free_of_step (he ▸ hstep)
      have hstacked := hs.stacked (by rintro _ rfl; rfl)
      intro k hk
      rcases Machine.ofSteps_step_cases hstep with
        ⟨t, c, l, pc, r, q, he, hfs, hl, hexec, hfs'⟩ | ⟨t, a, q, he, henter, hfs'⟩
      · have hrun := exec_step hexec
        obtain ⟨hlisted, hshutting⟩ := hinv
        rw [hfs] at hshutting
        have hdestructor : ∀ j, pc = .strand j .destroyTake → s.shared.closing ≠ some j := by
          rintro j rfl
          simpa [destructorApart, he, hfs, topPc_append hl] using hok
        have hmem : (⟨t, pc⟩ : Frame Pc) ∈ l ++ ⟨t, pc⟩ :: r := by simp
        have hsame (fs : List (Frame Pc)) (hsub : ∀ f ∈ fs, f ∈ l ++ r) :
            projectFrames (project k s'.shared) fs = projectFrames (project k s.shared) fs :=
          projectFrames_congr fun f hf =>
            hrun.project_others hshutting hdestructor k (hsub f hf)
        rcases Nat.lt_or_ge k s.shared.created with hold | hnew
        · have hreach := ih k hold
          rw [strandState, hfs, projectFrames_split] at hreach
          rw [strandState, hfs', projectFrames_replace, hsame l fun f hf => by simp [hf],
            hsame r fun f hf => by simp [hf]]
          exact hrun.strand_run hlisted (hshutting.apart _ hmem) (hshutting.closing _ hmem)
            (hshutting.taking _ hmem) hdestructor hold (projectFrames_thread_ne hl) hreach
        · obtain hcreated | ⟨hmutex, rfl, rfl, hcreated, hclosing, hstrand⟩ := hrun.created_cases
          · omega
          · obtain rfl : k = s.shared.created := by omega
            have hnew := new_strand s'.shared hshutting hmutex
            rw [projectFrames_split] at hnew
            have hopen : s'.shared.closing = none := hclosing.trans (hlisted.released hmutex)
            rw [strandState, hfs', view_of_ne (by simp [hopen]), hstrand]
            simpa [projectFrames_append, project] using hnew
      · have hentered := enter_entered henter
        rw [hentered.keeps_created] at hk
        rw [strandState, hfs']
        exact hentered.strand_run hinv.listed hk
          (Machine.free_foreign hstacked (hfree t a he)) (ih k hk)

theorem loop_step {s : State Service Pc} {x : Service} {t : Nat} {pc pc' : Pc}
    (htop : topPc t s.frames = some pc) (hholds : holdsMutex pc = true)
    (hexec : exec s.shared t pc .succeeds = some (x, some pc')) :
    ∃ fs, topPc t fs = some pc' ∧ ∀ es,
      machine.runWhen destructorApart s (.run t .succeeds :: es) =
        machine.runWhen destructorApart ⟨x, fs⟩ es := by
  obtain ⟨fs, hstep, htop'⟩ : ∃ fs, machine.step s (.run t .succeeds) = some ⟨x, fs⟩ ∧
      topPc t fs = some pc' := Machine.run_top htop hexec
  have hok : destructorApart s (.run t .succeeds) = true := by
    cases pc <;> simp [holdsMutex] at hholds <;> simp [destructorApart, htop]
  refine ⟨fs, htop', fun es => ?_⟩
  rw [Machine.runWhen, if_pos hok]
  exact congrArg (Option.bind · _) hstep

/-- The loop of the shutdown comes to its end, whatever the other threads are at. -/
theorem loop_ends {s : State Service Pc} {t : Nat} {doomed : List (Nat × Nat)}
    (htop : topPc t s.frames = some (.shutdownLoop doomed)) :
    ∃ s', machine.runWhen destructorApart s
        (List.replicate (2 * s.shared.implList.length + 1) (.run t .succeeds)) = some s' ∧
      s'.shared.mutex = false := by
  induction hlist : s.shared.implList generalizing s doomed with
  | nil =>
      have hexec : exec s.shared t (.shutdownLoop doomed) .succeeds =
          some ({ s.shared with mutex := false }, some (.abandonBatch doomed)) := by
        simp only [exec, hlist]
      obtain ⟨fs, -, hrun⟩ := loop_step htop rfl hexec
      exact ⟨⟨{ s.shared with mutex := false }, fs⟩, hrun [], rfl⟩
  | cons k implList ih =>
      obtain ⟨x, hlist', hexec⟩ : ∃ x, x.implList = implList ∧
          exec s.shared t (.shutdownLoop doomed) .succeeds =
            some (x, some (.shutdownTake k doomed)) := by
        simp only [exec, hlist]
        exact ⟨_, rfl, rfl⟩
      obtain ⟨fs, htop', hrun⟩ := loop_step htop rfl hexec
      obtain ⟨fs', htop'', hrun'⟩ := loop_step (s := ⟨x, fs⟩) htop' rfl rfl
      have hlist'' : (x.setStrand k { x.strands k with pending := [] }).implList = implList :=
        hlist'
      obtain ⟨s', hrest, hfree⟩ := ih (s := ⟨{ x.setStrand k { x.strands k with pending := [] } with
        closing := none }, fs'⟩) htop'' hlist''
      exact ⟨s', (hrun _).trans ((hrun' _).trans hrest), hfree⟩

theorem holder_ends {s : State Service Pc} {t : Nat} {pc : Pc} (htop : topPc t s.frames = some pc)
    (hholds : holdsMutex pc = true) :
    ∃ n s', n ≤ 2 * s.shared.implList.length + 2 ∧ machine.runWhen destructorApart s
      (List.replicate n (.run t .succeeds)) = some s' ∧ s'.shared.mutex = false := by
  cases pc with
  | shutdownLoop doomed =>
      obtain ⟨s', hrun, hfree⟩ := loop_ends htop
      exact ⟨_, s', Nat.le_succ _, hrun, hfree⟩
  | shutdownTake k doomed =>
      obtain ⟨fs, htop', hrun⟩ := loop_step htop rfl rfl
      obtain ⟨s', hrest, hfree⟩ := loop_ends (s := ⟨_, fs⟩) htop'
      exact ⟨_, s', Nat.le_refl _, (hrun _).trans hrest, hfree⟩
  | _ => simp [holdsMutex] at hholds

/-- A service is no more than its strands: in every state that it reaches without a
destructor running inside the block in which `shutdown()` closes its strand, each of its
strands is in a state that a strand by itself reaches, where that block is one step. The
list of live impls holds the open strands, in the order of their creation; when the
shutdown has released the mutex it is empty and every strand that is left is closed,
with nothing pending; and the shutdown always releases it. -/
theorem strand_service_composes {s : State Service Pc} (h : Reachable s) :
    (∀ k, k < s.shared.created → StrandService.Reachable (strandState k s)) ∧
    s.shared.implList.Pairwise (· < ·) ∧
    (∀ k, k < s.shared.created →
      ((s.shared.strands k).linked = true ↔ k ∈ s.shared.implList) ∧
      ((s.shared.strands k).service = true → (s.shared.strands k).destroyed = false →
        k ∈ s.shared.implList)) ∧
    (s.shared.shutdown = true → s.shared.mutex = false → s.shared.implList = [] ∧
      ∀ k, k < s.shared.created → (s.shared.strands k).destroyed = false →
        (s.shared.strands k).service = false ∧ (s.shared.strands k).pending = []) ∧
    (s.shared.mutex = true → ∃ t n s', n ≤ 2 * s.shared.implList.length + 2 ∧
      machine.runWhen destructorApart s (List.replicate n (.run t .succeeds)) = some s' ∧
      s'.shared.mutex = false) := by
  obtain ⟨hlisted, hshutting⟩ := invariant_reachable h
  have hclosing (k : Nat) (hk : k < s.shared.created) :=
    (StrandFate.fates_reachable (strand_reachable h k hk)).closing
  have hview (k : Nat) : (s.shared.view k).linked = (s.shared.strands k).linked ∧
      (s.shared.view k).service = (s.shared.strands k).service ∧
      (s.shared.view k).destroyed = (s.shared.strands k).destroyed := by
    unfold Service.view
    split_ifs <;> exact ⟨rfl, rfl, rfl⟩
  have hopen (k : Nat) (hk : k < s.shared.created) (hservice : (s.shared.strands k).service = true)
      (hlive : (s.shared.strands k).destroyed = false) : k ∈ s.shared.implList := by
    refine (hlisted.linked k hk).mp ?_
    by_contra hlinked
    have hclosed := (hclosing k hk).unlinked (by simpa [strandState, hview] using hlinked)
      (by simpa [strandState, hview] using hlive)
    simp [strandState, hview, hservice] at hclosed
  refine ⟨strand_reachable h, hlisted.sorted, fun k hk => ⟨hlisted.linked k hk, hopen k hk⟩,
    fun hshutdown hmutex => ?_, fun hmutex => ?_⟩
  · have hnil := hlisted.emptied hshutdown hmutex
    refine ⟨hnil, fun k hk hlive => ?_⟩
    have hservice : (s.shared.strands k).service = false := by
      by_contra hservice
      have hmem := hopen k hk (by simpa using hservice) hlive
      simp [hnil] at hmem
    have hpending := (hclosing k hk).closed (by simpa [strandState, hview] using hservice)
    rw [strandState, view_of_ne (by simp [hlisted.released hmutex])] at hpending
    exact ⟨hservice, hpending⟩
  · have hone := hshutting.holding
    rw [hmutex] at hone
    have hpos : 0 < s.frames.countP fun f => holdsMutex f.pc := hone ▸ Nat.one_pos
    obtain ⟨⟨t, pc⟩, hf, hholds⟩ := List.countP_pos_iff.mp hpos
    have hstacked := h.stacked (by rintro _ rfl; rfl)
    have hrunning : pc.foreign = false := by cases pc <;> simp [holdsMutex] at hholds <;> rfl
    exact ⟨t, holder_ends (hstacked.topPc_eq hf hrunning) hholds⟩

/-- A continuation that a strand resumes posts to a second strand, and the service is
shut down while the invoker of the second one is being posted; another thread posts to
the first strand between its closing and the taking of what it has pending. -/
def nestedShutdownRun : List (Event Outcome Entry) :=
  [.enter 0 .createImplementation, .run 0 .succeeds, .enter 0 .createImplementation,
    .run 0 .succeeds, .enter 0 (.strand 0 (.post 7)), .run 0 .succeeds, .run 0 .succeeds,
    .run 0 .succeeds, .run 0 .succeeds, .enter 1 (.strand 0 .invoke), .run 1 .succeeds,
    .run 1 .succeeds, .run 1 .succeeds, .enter 1 (.strand 1 (.post 8)), .run 1 .succeeds,
    .run 1 .succeeds, .enter 2 .shutdown, .run 2 .succeeds, .run 2 .succeeds,
    .enter 3 (.strand 0 (.post 9)), .run 3 .succeeds, .run 3 .succeeds, .run 2 .succeeds,
    .run 2 .succeeds, .run 2 .succeeds, .run 2 .succeeds]

theorem strand_service_composes_nested :
    ∃ s, machine.runWhen destructorApart ⟨newService, []⟩ nestedShutdownRun = some s ∧
      (s.shared.strands 0).resumed = [7] ∧ (s.shared.strands 0).abandoned = [9] ∧
      (s.shared.strands 1).enqueued = [8] ∧ s.shared.implList = [] ∧
      (s.shared.strands 1).service = false ∧ (s.shared.strands 1).pending = [] ∧
      StrandService.Reachable (strandState 1 s) := by
  obtain ⟨s, hs, hcreated, hresumed, habandoned, henqueued, hshutdown, hmutex, hlive⟩ :
      ∃ s, machine.runWhen destructorApart ⟨newService, []⟩ nestedShutdownRun = some s ∧
        s.shared.created = 2 ∧ (s.shared.strands 0).resumed = [7] ∧
        (s.shared.strands 0).abandoned = [9] ∧ (s.shared.strands 1).enqueued = [8] ∧
        s.shared.shutdown = true ∧ s.shared.mutex = false ∧
        (s.shared.strands 1).destroyed = false := ⟨_, rfl, rfl, rfl, rfl, rfl, rfl, rfl, rfl⟩
  have hinit : Reachable ⟨newService, []⟩ := .init rfl
  obtain ⟨hstrands, -, -, hclosed, -⟩ :=
    strand_service_composes (hinit.runWhen nestedShutdownRun hs)
  obtain ⟨hnil, hclosed⟩ := hclosed hshutdown hmutex
  have hlt : 1 < s.shared.created := by simp [hcreated]
  obtain ⟨hservice, hpending⟩ := hclosed 1 hlt hlive
  exact ⟨s, hs, hresumed, habandoned, henqueued, hnil, hservice, hpending, hstrands 1 hlt⟩

/-- The last handle of the strand goes while `shutdown()` is about to take what it has
pending. -/
def destructorInside : List (Event Outcome Entry) :=
  [.enter 0 .createImplementation, .run 0 .succeeds, .enter 2 .shutdown, .run 2 .succeeds,
    .run 2 .succeeds, .enter 0 (.strand 0 .destroy), .run 0 .succeeds]

example : ∃ s, machine.runEvents ⟨newService, []⟩ destructorInside = some s ∧
    destructorApart s (.run 0 .succeeds) = false := ⟨_, rfl, by decide⟩

end Capy.StrandServiceImpl
