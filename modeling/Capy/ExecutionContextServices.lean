import Mathlib.Data.List.Nodup
import Mathlib.Data.List.Infix
import Capy.ExecutionContext

namespace Capy.ExecutionContext

open Capy.CallStack

/-- A call of `shutdown()` or `destroy()` is the oldest activation, and all the
others are on its thread. -/
structure Exclusive (fs : List (Frame Pc)) : Prop where
  oldest : fs.Pairwise fun newer _ => closing newer.pc = false
  thread : ∀ f ∈ fs, closing f.pc = true → ∀ g ∈ fs, g.thread = f.thread

theorem Step.closing_eq {s s' : Context} {pc pc' : Pc} {q : Option Pc}
    (hstep : Step s pc s' q) (hq : q = some pc') : closing pc' = closing pc := by
  cases hstep with
  | @register call f id =>
      split_ifs at hq
      obtain rfl := Option.some.inj hq
      rfl
  | found | createThrows | discarded | lateDone | shutdownAgain | walkEnd | destroyEnd =>
      simp at hq
  | _ =>
      obtain rfl := Option.some.inj hq
      rfl

theorem Exclusive.alone {l r : List (Frame Pc)} {t : Nat} {pc : Pc}
    (h : Exclusive (l ++ ⟨t, pc⟩ :: r)) (hl : ∀ g ∈ l, g.thread ≠ t)
    (hpc : closing pc = true) : l = [] ∧ r = [] := by
  constructor
  · refine List.eq_nil_iff_forall_not_mem.mpr fun g hg => hl g hg ?_
    exact h.thread ⟨t, pc⟩ (by simp) hpc g (by simp [hg])
  · refine List.eq_nil_iff_forall_not_mem.mpr fun g hg => ?_
    have hcons := (List.pairwise_append.mp h.oldest).2.1
    have hno := (List.pairwise_cons.mp hcons).1 g hg
    simp [hpc] at hno

theorem Exclusive.exec {s s' : Context} {l r : List (Frame Pc)} {t : Nat} {pc : Pc}
    {q : Option Pc} (h : Exclusive (l ++ ⟨t, pc⟩ :: r)) (hstep : Step s pc s' q) :
    Exclusive (l ++ q.toList.map (Frame.mk t) ++ r) := by
  obtain ⟨holdest, hthread⟩ := h
  obtain ⟨hll, hrr, hlr⟩ := List.pairwise_append.mp holdest
  obtain ⟨hpc, hrr⟩ := List.pairwise_cons.mp hrr
  constructor
  · cases q with
    | none => simpa using List.pairwise_append.mpr ⟨hll, hrr, fun g hg k hk =>
        hlr g hg k (List.mem_cons_of_mem _ hk)⟩
    | some pc' =>
        rw [List.append_assoc]
        refine List.pairwise_append.mpr ⟨hll, List.pairwise_cons.mpr ⟨fun k hk => ?_, hrr⟩,
          fun g hg k hk => ?_⟩
        · rw [hstep.closing_eq rfl]
          exact hpc k hk
        · exact hlr g hg ⟨t, pc⟩ (by simp)
  · have hall : ∀ f ∈ l ++ q.toList.map (Frame.mk t) ++ r,
        ∃ g ∈ l ++ ⟨t, pc⟩ :: r, g.thread = f.thread ∧ closing g.pc = closing f.pc := by
      intro f hf
      rcases mem_replace.mp hf with hf | ⟨pc', hq, rfl⟩
      · exact ⟨f, mem_split.mpr (.inl hf), rfl, rfl⟩
      · exact ⟨⟨t, pc⟩, mem_split.mpr (.inr rfl), rfl, (hstep.closing_eq hq).symm⟩
    intro f hf hclosing g hg
    obtain ⟨f', hf', hft, hfc⟩ := hall f hf
    obtain ⟨g', hg', hgt, -⟩ := hall g hg
    rw [← hft, ← hgt]
    exact hthread f' hf' (hfc.trans hclosing) g' hg'

theorem Exclusive.enter {s : Context} {fs : List (Frame Pc)} {t : Nat} {pc : Pc}
    (h : Exclusive fs) (henter : Entered s fs t pc) : Exclusive (⟨t, pc⟩ :: fs) := by
  cases henter with
  | call _ hown =>
      refine ⟨List.pairwise_cons.mpr ⟨fun _ _ => rfl, h.oldest⟩, fun f hf hclosing g hg => ?_⟩
      rcases List.mem_cons.mp hf with rfl | hf
      · simp [closing] at hclosing
      · rcases List.mem_cons.mp hg with rfl | hg
        · exact (hown f hf hclosing).symm
        · exact h.thread f hf hclosing g hg
  | shutdown hempty | destroy hempty =>
      subst hempty
      exact ⟨by simp, by simp⟩

/-- The object that a call has created and neither registered nor deleted. -/
def held : Pc → Option Nat
  | .register _ _ id => some id
  | _ => none

/-- The service that a call has registered after the shutdown and not shut down
yet. -/
def late : Pc → Option Nat
  | .lateShutdown id => some id
  | _ => none

def holds (what : Pc → Option Nat) (x : Nat) (pc : Pc) : Nat := (what pc).toList.count x

/-- The service that the walk stands at. -/
def walking : Pc → Option Nat
  | .walk p => p
  | .walkBody id => some id
  | _ => none

/-- The services that the walk is still to shut down. -/
def remaining (l : List Nat) : Pc → List Nat
  | .walk (some id) => id :: behind id l
  | .walkBody id => behind id l
  | _ => []

def toWalk (l : List Nat) (fs : List (Frame Pc)) : List Nat :=
  fs.flatMap fun f => remaining l f.pc

theorem behind_cons_ne {id a : Nat} (h : a ≠ id) (l : List Nat) :
    behind id (a :: l) = behind id l := by
  simp [behind, h]

theorem behind_cons_self (id : Nat) (l : List Nat) : behind id (id :: l) = l := by
  simp [behind]

theorem behind_eq_cons {l : List Nat} (hnodup : l.Nodup) {id a : Nat} {rest : List Nat}
    (h : behind id l = a :: rest) : behind a l = rest := by
  induction l with
  | nil => simp [behind] at h
  | cons b l ih =>
      obtain ⟨hb, hl⟩ := List.nodup_cons.mp hnodup
      by_cases hid : b = id
      · subst hid
        rw [behind_cons_self] at h
        subst h
        have hne : b ≠ a := by
          rintro rfl
          simp at hb
        rw [behind_cons_ne hne, behind_cons_self]
      · rw [behind_cons_ne hid] at h
        have hmem : a ∈ l := by
          have htail : a ∈ (l.dropWhile (· ≠ id)).tail := by
            rw [← behind, h]
            simp
          exact List.dropWhile_subset _ (List.mem_of_mem_tail htail)
        have hne : b ≠ a := by
          rintro rfl
          exact hb hmem
        rw [behind_cons_ne hne]
        exact ih hl h

theorem remaining_walk_head (l : List Nat) : remaining l (.walk l.head?) = l := by
  cases l with
  | nil => rfl
  | cons a l => simp [remaining, behind_cons_self]

theorem remaining_walk_behind {l : List Nat} (hnodup : l.Nodup) (id : Nat) :
    remaining l (.walk (behind id l).head?) = behind id l := by
  cases hb : behind id l with
  | nil => rfl
  | cons a rest => simp [remaining, behind_eq_cons hnodup hb]

theorem remaining_cons {l : List Nat} {a : Nat} {pc : Pc} (h : walking pc ≠ some a) :
    remaining (a :: l) pc = remaining l pc := by
  cases pc with
  | walk p =>
      cases p with
      | none => rfl
      | some id =>
          have hne : a ≠ id := fun heq => h (by rw [heq]; rfl)
          simp [remaining, behind_cons_ne hne]
  | walkBody id =>
      have hne : a ≠ id := fun heq => h (by rw [heq]; rfl)
      simp [remaining, behind_cons_ne hne]
  | _ => rfl

theorem toWalk_cons {l : List Nat} {a : Nat} {fs : List (Frame Pc)}
    (h : ∀ f ∈ fs, walking f.pc ≠ some a) : toWalk (a :: l) fs = toWalk l fs := by
  unfold toWalk
  refine List.flatMap_congr fun f hf => ?_
  exact remaining_cons (h f hf)

theorem remaining_of_not_closing {l : List Nat} {pc : Pc} (h : closing pc = false) :
    remaining l pc = [] := by
  cases pc <;> simp_all [closing, remaining]

theorem toWalk_singleton (l : List Nat) (t : Nat) (pc : Pc) :
    toWalk l [⟨t, pc⟩] = remaining l pc := by
  simp [toWalk]

/-- The activation is of code that runs only after the shutdown has started. -/
def afterShutdown : Pc → Bool
  | .lateShutdown _ | .lateBody _ | .walk _ | .walkBody _ | .destroy | .destructor _ => true
  | _ => false

/-- The activation is of a call that creates nothing. -/
def idempotent : Pc → Bool
  | .shutdown | .destroy => true
  | _ => false

/-- Where the object `x` is, when `n` calls hold it: with a call that has created
it, in the container, or deleted. -/
structure Objects (x : Nat) (s : Context) (n : Nat) : Prop where
  created : s.created.count x =
    (ids s).count x + s.removed.count x + s.discarded.count x + n
  registered : s.registered.count x = (ids s).count x + s.removed.count x

/-- The calls of `shutdown()` on `x`, when `n` calls have registered it late and
the walk is still to reach it `w` times. -/
structure Shut (x : Nat) (s : Context) (n w : Nat) : Prop where
  registered : s.shutdown = true → s.registered.count x = s.shutDown.count x + w + n
  removed : s.removed.count x ≤ s.shutDown.count x

/-- What every run of a context keeps. -/
structure Services (s : Context) (fs : List (Frame Pc)) : Prop where
  exclusive : Exclusive fs
  fresh : s.created = List.range s.created.length
  objects : ∀ x, Objects x s (total (holds held x) fs)
  shut : ∀ x, Shut x s (total (holds late x) fs) ((toWalk (ids s) fs).count x)
  before : s.shutdown = false → s.shutDown = [] ∧ s.removed = [] ∧ s.walked = [] ∧
    ids s = s.registered.reverse
  after : ∀ f ∈ fs, afterShutdown f.pc = true → s.shutdown = true
  walked : s.shutdown = true → s.walked ++ toWalk (ids s) fs = s.present
  present : s.present.reverse <+: s.registered
  walks : s.walked.Sublist s.shutDown
  order : (ids s).Sublist s.registered.reverse
  standing : ∀ f ∈ fs, ∀ id, walking f.pc = some id → id ∈ ids s
  destroyed : s.destroyed = true →
    s.shutdown = true ∧ s.services = [] ∧ ∀ f ∈ fs, idempotent f.pc = true

section Step

variable {s s' : Context} {pc : Pc} {q : Option Pc} (hstep : Step s pc s' q)

include hstep

theorem Step.fresh (h : s.created = List.range s.created.length) :
    s'.created = List.range s'.created.length := by
  cases hstep with
  | create hid =>
      subst hid
      simp only [List.length_append, List.length_singleton, List.range_succ]
      rw [← h]
  | @found call | @discarded call => cases call <;> exact h
  | _ => exact h

theorem Objects.step {x n : Nat} (h : Objects x s (n + holds held x pc)) :
    Objects x s' (n + q.elim 0 (holds held x)) := by
  obtain ⟨hcreated, hregistered⟩ := h
  cases hstep with
  | @found call | @discarded call => cases call <;> exact ⟨hcreated, hregistered⟩
  | register =>
      cases hshut : s.shutdown <;> constructor <;>
        simp only [ids, holds, held, List.map_cons, List.count_append, List.count_cons,
          List.count_nil, Option.elim, Option.toList_some, Option.toList_none, if_true,
          Bool.false_eq_true, if_false] at hcreated hregistered ⊢ <;> omega
  | destroy hservices =>
      constructor <;>
        simp only [ids, holds, held, hservices, List.map_cons, List.count_append,
          List.count_cons, List.count_nil, Option.elim, Option.toList_none]
          at hcreated hregistered ⊢ <;> omega
  | _ =>
      constructor <;>
        simp only [ids, holds, held, List.count_append, Option.elim, Option.toList_some,
          Option.toList_none, List.count_nil] at hcreated hregistered ⊢ <;> omega

theorem Step.after (hpc : afterShutdown pc = true → s.shutdown = true) {pc' : Pc}
    (hq : q = some pc') (hpc' : afterShutdown pc' = true) : s'.shutdown = true := by
  cases hstep with
  | register =>
      split_ifs at hq with hshut
      exact hshut
  | shutdown => rfl
  | lateShutdown | walk | walkNext | destroy | destructed => exact hpc rfl
  | found | createThrows | discarded | lateDone | shutdownAgain | walkEnd | destroyEnd =>
      simp at hq
  | missing | create | lost =>
      obtain rfl := Option.some.inj hq
      simp [afterShutdown] at hpc'

theorem Step.call_frame (hpc : closing pc = false) :
    (s'.shutdown = s.shutdown ∧ s'.destroyed = s.destroyed ∧ s'.removed = s.removed ∧
      s'.walked = s.walked ∧ s'.present = s.present) ∧
    ((ids s' = ids s ∧ s'.registered = s.registered) ∨
      ∃ id, held pc = some id ∧ ids s' = id :: ids s ∧
        s'.registered = s.registered ++ [id]) ∧
    (s'.shutDown = s.shutDown ∨
      ∃ id, afterShutdown pc = true ∧ s'.shutDown = s.shutDown ++ [id]) := by
  cases hstep with
  | @found call | @discarded call =>
      cases call <;> exact ⟨⟨rfl, rfl, rfl, rfl, rfl⟩, .inl ⟨rfl, rfl⟩, .inl rfl⟩
  | register => exact ⟨⟨rfl, rfl, rfl, rfl, rfl⟩, .inr ⟨_, rfl, rfl, rfl⟩, .inl rfl⟩
  | lateShutdown => exact ⟨⟨rfl, rfl, rfl, rfl, rfl⟩, .inl ⟨rfl, rfl⟩, .inr ⟨_, rfl, rfl⟩⟩
  | missing | createThrows | create | lost | lateDone =>
      exact ⟨⟨rfl, rfl, rfl, rfl, rfl⟩, .inl ⟨rfl, rfl⟩, .inl rfl⟩
  | shutdownAgain | shutdown | walkEnd | walk | walkNext | destroyEnd | destroy | destructed =>
      simp [closing] at hpc

theorem Shut.call {x n w : Nat} (hpc : closing pc = false)
    (h : Shut x s (n + holds late x pc) w) : Shut x s' (n + q.elim 0 (holds late x)) w := by
  obtain ⟨hregistered, hremoved⟩ := h
  cases hstep with
  | @found call | @discarded call => cases call <;> exact ⟨hregistered, hremoved⟩
  | register =>
      refine ⟨fun hshut => ?_, hremoved⟩
      have hshut : s.shutdown = true := hshut
      have hcount := hregistered hshut
      simp only [hshut, holds, late, List.count_append, Option.elim, Option.toList_some,
        Option.toList_none, List.count_nil, if_true] at hcount ⊢
      omega
  | lateShutdown =>
      refine ⟨fun hshut => ?_, ?_⟩
      · have hcount := hregistered hshut
        simp only [holds, late, List.count_append, Option.elim, Option.toList_some,
          Option.toList_none, List.count_nil] at hcount ⊢
        omega
      · simp only [List.count_append]
        omega
  | missing | createThrows | create | lost | lateDone => exact ⟨hregistered, hremoved⟩
  | shutdownAgain | shutdown | walkEnd | walk | walkNext | destroyEnd | destroy | destructed =>
      simp [closing] at hpc

theorem toWalk_call {l r : List (Frame Pc)} {t : Nat} (hpc : closing pc = false)
    (hfresh : ∀ f ∈ l ++ r, ∀ id, held pc = some id → walking f.pc ≠ some id) :
    toWalk (ids s') (l ++ q.toList.map (Frame.mk t) ++ r) =
      toWalk (ids s) (l ++ ⟨t, pc⟩ :: r) := by
  have hq : toWalk (ids s') (q.toList.map (Frame.mk t)) = [] := by
    cases q with
    | none => rfl
    | some pc' =>
        have hpc' : closing pc' = false := (hstep.closing_eq rfl).trans hpc
        exact (toWalk_singleton (ids s') t pc').trans (remaining_of_not_closing hpc')
  have hrest : toWalk (ids s') (l ++ r) = toWalk (ids s) (l ++ r) := by
    rcases (hstep.call_frame hpc).2.1 with ⟨hids, -⟩ | ⟨id, hheld, hids, -⟩
    · rw [hids]
    · rw [hids]
      exact toWalk_cons fun f hf => hfresh f hf id hheld
  calc toWalk (ids s') (l ++ q.toList.map (Frame.mk t) ++ r)
      = toWalk (ids s') (l ++ r) := by
        simp only [toWalk, List.flatMap_append] at hq ⊢
        rw [hq, List.append_nil]
    _ = toWalk (ids s) (l ++ r) := hrest
    _ = toWalk (ids s) (l ++ ⟨t, pc⟩ :: r) := by
        simp [toWalk, remaining_of_not_closing hpc]

end Step

theorem Services.count_created {s : Context} {fs : List (Frame Pc)} (h : Services s fs)
    (x : Nat) : s.created.count x ≤ 1 := by
  rw [h.fresh]
  exact List.nodup_iff_count_le_one.mp List.nodup_range x

theorem Services.nodup_ids {s : Context} {fs : List (Frame Pc)} (h : Services s fs) :
    (ids s).Nodup := by
  refine List.nodup_iff_count_le_one.mpr fun x => ?_
  have hcreated := (h.objects x).created
  have := h.count_created x
  omega

theorem Services.held_not_mem {s : Context} {l r : List (Frame Pc)} {t : Nat} {pc : Pc}
    (h : Services s (l ++ ⟨t, pc⟩ :: r)) {id : Nat} (hheld : held pc = some id) :
    id ∉ ids s := by
  have hcreated := (h.objects id).created
  have := h.count_created id
  rw [total_split, holds, hheld] at hcreated
  simp only [Option.toList_some, List.count_singleton_self] at hcreated
  exact List.count_eq_zero.mp (by omega)

theorem Services.call {s s' : Context} {l r : List (Frame Pc)} {t : Nat} {pc : Pc}
    {q : Option Pc} (h : Services s (l ++ ⟨t, pc⟩ :: r)) (hstep : Step s pc s' q)
    (hpc : closing pc = false) : Services s' (l ++ q.toList.map (Frame.mk t) ++ r) := by
  have hwalking := forall_split.mp h.standing
  have hwalk : toWalk (ids s') (l ++ q.toList.map (Frame.mk t) ++ r) =
      toWalk (ids s) (l ++ ⟨t, pc⟩ :: r) := by
    refine toWalk_call hstep hpc fun f hf id hheld hwalks => ?_
    exact h.held_not_mem hheld (hwalking.1 f hf id hwalks)
  obtain ⟨⟨hshut, hdestroyed, hremoved, hwalked, hpresent⟩, hids, hshutDown⟩ :=
    hstep.call_frame hpc
  have hafter := forall_split.mp h.after
  have hsubset : ids s ⊆ ids s' := by
    rcases hids with ⟨hids, -⟩ | ⟨id, -, hids, -⟩ <;> rw [hids]
    · exact List.Subset.refl _
    · exact List.subset_cons_self _ _
  constructor
  · exact h.exclusive.exec hstep
  · exact hstep.fresh h.fresh
  · intro x
    have hx := h.objects x
    rw [total_split] at hx
    rw [total_replace]
    exact hx.step hstep
  · intro x
    have hx := h.shut x
    rw [total_split] at hx
    rw [total_replace, hwalk]
    exact hx.call hstep hpc
  · intro hopen
    rw [hshut] at hopen
    obtain ⟨hnone, hrem, hwal, hord⟩ := h.before hopen
    refine ⟨?_, hremoved ▸ hrem, hwalked ▸ hwal, ?_⟩
    · rcases hshutDown with hsame | ⟨id, hpcAfter, -⟩
      · rw [hsame, hnone]
      · simp [hafter.2 hpcAfter] at hopen
    · rcases hids with ⟨hids, hreg⟩ | ⟨id, -, hids, hreg⟩ <;> rw [hids, hreg, hord]
      simp
  · refine forall_replace.mpr ⟨fun f hf hpcf => ?_, fun pc' hq hpc' => ?_⟩
    · rw [hshut]
      exact hafter.1 f hf hpcf
    · exact hstep.after hafter.2 hq hpc'
  · intro hclosed
    rw [hwalk, hwalked, hpresent]
    exact h.walked (hshut ▸ hclosed)
  · rw [hpresent]
    rcases hids with ⟨-, hreg⟩ | ⟨id, -, -, hreg⟩ <;> rw [hreg]
    · exact h.present
    · exact h.present.trans (List.prefix_append _ _)
  · rw [hwalked]
    rcases hshutDown with hsame | ⟨id, -, hnew⟩
    · rw [hsame]
      exact h.walks
    · rw [hnew]
      exact h.walks.trans (List.sublist_append_left _ _)
  · rcases hids with ⟨hids, hreg⟩ | ⟨id, -, hids, hreg⟩ <;> rw [hids, hreg]
    · exact h.order
    · rw [List.reverse_append]
      exact h.order.cons_cons id
  · refine forall_replace.mpr ⟨fun f hf id hid => ?_, fun pc' hq id hid => ?_⟩
    · exact hsubset (hwalking.1 f hf id hid)
    · have hpc' : closing pc' = false := (hstep.closing_eq hq).trans hpc
      cases pc' <;> simp [closing, walking] at hpc' hid
  · intro hdes
    have hidle := (h.destroyed (hdestroyed ▸ hdes)).2.2 ⟨t, pc⟩ (by simp)
    cases pc <;> simp [idempotent, closing] at hidle hpc

section Close

variable {s s' : Context} {pc : Pc} {q : Option Pc} (hstep : Step s pc s' q)
  (hpc : closing pc = true)

include hstep hpc

theorem Step.close_shutdown (hafter : afterShutdown pc = true → s.shutdown = true) :
    s'.shutdown = true := by
  cases hstep with
  | shutdownAgain hshut => exact hshut
  | shutdown => rfl
  | walkEnd | walk | walkNext | destroyEnd | destroy | destructed => exact hafter rfl
  | _ => simp [closing] at hpc

theorem Step.close_frame :
    s'.registered = s.registered ∧
      (s'.services = s.services ∧ s'.removed = s.removed ∨
        ∃ p, pc = .destroy ∧ s.services = p :: s'.services ∧ q = some (.destructor p.id) ∧
          s'.removed = s.removed ++ [p.id] ∧ s'.shutDown = s.shutDown) := by
  cases hstep with
  | destroy hservices => exact ⟨rfl, .inr ⟨_, rfl, hservices, rfl, rfl, rfl⟩⟩
  | shutdownAgain | shutdown | walkEnd | walk | walkNext | destroyEnd | destructed =>
      exact ⟨rfl, .inl ⟨rfl, rfl⟩⟩
  | _ => simp [closing] at hpc

/-- The walk shuts down the next of the services it is still to shut down; the
first step finds them all. -/
theorem Step.close_walk (hnodup : (ids s).Nodup) :
    (s'.shutDown = s.shutDown ∧ s'.walked = s.walked ∧ s'.present = s.present ∧
      s'.shutdown = s.shutdown ∧
      q.elim [] (remaining (ids s')) = remaining (ids s) pc) ∨
    (∃ id, remaining (ids s) pc = id :: q.elim [] (remaining (ids s')) ∧
      s'.shutDown = s.shutDown ++ [id] ∧ s'.walked = s.walked ++ [id] ∧
      s'.present = s.present ∧ s'.shutdown = s.shutdown) ∨
    (s.shutdown = false ∧ s'.shutDown = s.shutDown ∧ s'.walked = s.walked ∧
      s'.present = ids s ∧ ids s' = ids s ∧ q.elim [] (remaining (ids s')) = ids s) := by
  cases hstep with
  | shutdown hshut =>
      exact .inr (.inr ⟨hshut, rfl, rfl, rfl, rfl, remaining_walk_head (ids s)⟩)
  | walk => exact .inr (.inl ⟨_, rfl, rfl, rfl, rfl, rfl⟩)
  | walkNext => exact .inl ⟨rfl, rfl, rfl, rfl, remaining_walk_behind hnodup _⟩
  | shutdownAgain | walkEnd | destroyEnd | destroy | destructed =>
      exact .inl ⟨rfl, rfl, rfl, rfl, rfl⟩
  | _ => simp [closing] at hpc

theorem Step.close_walking (hmem : ∀ id, walking pc = some id → id ∈ ids s) {pc' : Pc}
    (hq : q = some pc') {id : Nat} (hid : walking pc' = some id) : id ∈ ids s' := by
  cases hstep with
  | shutdown =>
      obtain rfl := Option.some.inj hq
      exact List.mem_of_mem_head? hid
  | walk =>
      obtain rfl := Option.some.inj hq
      exact hmem id hid
  | walkNext =>
      obtain rfl := Option.some.inj hq
      have hbehind : id ∈ behind _ (ids s) := List.mem_of_mem_head? hid
      exact List.dropWhile_subset _ (List.mem_of_mem_tail hbehind)
  | destroy | destructed =>
      obtain rfl := Option.some.inj hq
      simp [walking] at hid
  | shutdownAgain | walkEnd | destroyEnd => simp at hq
  | _ => simp [closing] at hpc

theorem Step.close_destroyed
    (hdestroyed : s.destroyed = true →
      s.shutdown = true ∧ s.services = [] ∧ idempotent pc = true)
    (h : s'.destroyed = true) : s'.services = [] ∧ q = none := by
  cases hstep with
  | destroyEnd hservices => exact ⟨hservices, rfl⟩
  | shutdownAgain | walkEnd => exact ⟨(hdestroyed h).2.1, rfl⟩
  | shutdown hshut => simp [(hdestroyed h).1] at hshut
  | destroy hservices => simp [(hdestroyed h).2.1] at hservices
  | walk | walkNext | destructed =>
      obtain ⟨-, -, hidle⟩ := hdestroyed h
      simp [idempotent] at hidle
  | _ => simp [closing] at hpc

end Close

theorem Shut.close {s s' : Context} {pc : Pc} {q : Option Pc} {x : Nat}
    (h : Shut x s 0 ((remaining (ids s) pc).count x)) (hobjects : Objects x s 0)
    (hnodup : (ids s).Nodup) (hstep : Step s pc s' q) (hpc : closing pc = true)
    (hbefore : s.shutdown = false → s.shutDown = [] ∧ s.removed = [])
    (hafter : afterShutdown pc = true → s.shutdown = true) :
    Shut x s' 0 ((q.elim [] (remaining (ids s'))).count x) := by
  obtain ⟨hregistered, hremoved⟩ := h
  obtain ⟨hreg, hservices⟩ := hstep.close_frame hpc
  constructor
  · intro _
    rw [hreg]
    rcases hstep.close_walk hpc hnodup with
      ⟨hshutDown, -, -, hshut, hwalk⟩ | ⟨id, hwalk, hshutDown, -, -, hshut⟩ |
        ⟨hopen, hshutDown, -, -, -, hwalk⟩
    · rw [hshutDown, hwalk]
      exact hregistered (hshut ▸ hstep.close_shutdown hpc hafter)
    · have hcount := hregistered (hshut ▸ hstep.close_shutdown hpc hafter)
      rw [hwalk, List.count_cons] at hcount
      rw [hshutDown, List.count_append, List.count_singleton]
      omega
    · obtain ⟨hnone, hrem⟩ := hbefore hopen
      rw [hshutDown, hwalk, hobjects.registered, hnone, hrem]
      simp
  · rcases hservices with ⟨-, hrem⟩ | ⟨p, rfl, hcons, -, hrem, hshutDown⟩
    · rw [hrem]
      rcases hstep.close_walk hpc hnodup with ⟨hshutDown, -⟩ | ⟨id, -, hshutDown, -⟩ |
        ⟨-, hshutDown, -⟩ <;> rw [hshutDown]
      · exact hremoved
      · rw [List.count_append]
        omega
      · exact hremoved
    · have hcount := hregistered (hafter rfl)
      have hids := hobjects.registered
      simp only [ids, hcons, List.map_cons, List.count_cons, remaining, List.count_nil]
        at hcount hids
      rw [hrem, hshutDown, List.count_append, List.count_singleton]
      omega

theorem holds_of_closing {pc : Pc} (hpc : closing pc = true) (x : Nat) :
    holds held x pc = 0 ∧ holds late x pc = 0 := by
  cases pc <;> simp [closing] at hpc <;> exact ⟨rfl, rfl⟩

theorem Services.close {s s' : Context} {t : Nat} {pc : Pc} {q : Option Pc}
    (h : Services s ([] ++ ⟨t, pc⟩ :: [])) (hstep : Step s pc s' q) (hpc : closing pc = true) :
    Services s' ([] ++ q.toList.map (Frame.mk t) ++ []) := by
  have hnodup := h.nodup_ids
  have hafter := (forall_split.mp h.after).2
  have hshut := hstep.close_shutdown hpc hafter
  obtain ⟨hreg, hservices⟩ := hstep.close_frame hpc
  have hwalks := hstep.close_walk hpc hnodup
  have htoWalk : toWalk (ids s') ([] ++ q.toList.map (Frame.mk t) ++ []) =
      q.elim [] (remaining (ids s')) := by
    cases q with
    | none => rfl
    | some pc' => exact toWalk_singleton (ids s') t pc'
  have hremaining : toWalk (ids s) ([] ++ ⟨t, pc⟩ :: []) = remaining (ids s) pc :=
    toWalk_singleton (ids s) t pc
  constructor
  · exact h.exclusive.exec hstep
  · exact hstep.fresh h.fresh
  · intro x
    have hx := h.objects x
    rw [total_split] at hx
    rw [total_replace]
    exact hx.step hstep
  · intro x
    obtain ⟨hheld, hlate⟩ := holds_of_closing hpc x
    have hobjects := h.objects x
    have hx := h.shut x
    rw [total_split, hheld] at hobjects
    rw [total_split, hlate, hremaining] at hx
    have hnew : q.elim 0 (holds late x) = 0 := by
      cases q with
      | none => rfl
      | some pc' => exact (holds_of_closing ((hstep.closing_eq rfl).trans hpc) x).2
    rw [total_replace, hnew, htoWalk]
    exact hx.close hobjects hnodup hstep hpc
      (fun hopen => ⟨(h.before hopen).1, (h.before hopen).2.1⟩) hafter
  · intro hopen
    simp [hshut] at hopen
  · exact fun _ _ _ => hshut
  · intro _
    have hwalked := h.walked
    rw [hremaining] at hwalked
    rw [htoWalk]
    rcases hwalks with ⟨-, hsame, hpresent, hflag, hwalk⟩ |
      ⟨id, hwalk, -, hnext, hpresent, hflag⟩ | ⟨hopen, -, hsame, hpresent, hids, hwalk⟩
    · rw [hsame, hpresent, hwalk]
      exact hwalked (hflag ▸ hshut)
    · rw [hnext, hpresent, ← hwalked (hflag ▸ hshut), hwalk, List.append_assoc]
      rfl
    · rw [hsame, hpresent, hwalk, (h.before hopen).2.2.1, List.nil_append]
  · rw [hreg]
    rcases hwalks with ⟨-, -, hpresent, -⟩ | ⟨id, -, -, -, hpresent, -⟩ |
      ⟨hopen, -, -, hpresent, -⟩ <;> rw [hpresent]
    · exact h.present
    · exact h.present
    · rw [(h.before hopen).2.2.2, List.reverse_reverse]
  · rcases hwalks with ⟨hshutDown, hsame, -⟩ | ⟨id, -, hshutDown, hnext, -⟩ |
      ⟨-, hshutDown, hsame, -⟩
    · rw [hshutDown, hsame]
      exact h.walks
    · rw [hshutDown, hnext]
      exact h.walks.append_right [id]
    · rw [hshutDown, hsame]
      exact h.walks
  · rw [hreg]
    rcases hservices with ⟨hsame, -⟩ | ⟨p, -, hcons, -⟩
    · rw [ids, hsame]
      exact h.order
    · refine List.Sublist.trans ?_ h.order
      rw [ids, ids, hcons]
      exact List.sublist_cons_self _ _
  · have hwalking := (forall_split.mp h.standing).2
    refine forall_replace.mpr ⟨by simp, fun pc' hq id hid => ?_⟩
    exact hstep.close_walking hpc hwalking hq hid
  · intro hdestroyed
    have hbefore : s.destroyed = true →
        s.shutdown = true ∧ s.services = [] ∧ idempotent pc = true := by
      intro hd
      obtain ⟨hclosed, hnone, hidle⟩ := h.destroyed hd
      exact ⟨hclosed, hnone, (forall_split.mp hidle).2⟩
    obtain ⟨hempty, rfl⟩ := hstep.close_destroyed hpc hbefore hdestroyed
    exact ⟨hshut, hempty, by simp⟩

theorem Services.exec {s s' : Context} {l r : List (Frame Pc)} {t : Nat} {pc : Pc}
    {q : Option Pc} (h : Services s (l ++ ⟨t, pc⟩ :: r)) (hl : ∀ g ∈ l, g.thread ≠ t)
    (hstep : Step s pc s' q) : Services s' (l ++ q.toList.map (Frame.mk t) ++ r) := by
  cases hpc : closing pc with
  | false => exact h.call hstep hpc
  | true =>
      obtain ⟨rfl, rfl⟩ := h.exclusive.alone hl hpc
      exact h.close hstep hpc

theorem Services.enter {s : Context} {fs : List (Frame Pc)} {t : Nat} {pc : Pc}
    (h : Services s fs) (henter : Entered s fs t pc) : Services s (⟨t, pc⟩ :: fs) := by
  have hnew : held pc = none ∧ late pc = none ∧ walking pc = none ∧
      remaining (ids s) pc = [] := by
    cases henter <;> exact ⟨rfl, rfl, rfl, rfl⟩
  obtain ⟨hheld, hlate, hwalking, hremaining⟩ := hnew
  have htoWalk : toWalk (ids s) (⟨t, pc⟩ :: fs) = toWalk (ids s) fs := by
    simp [toWalk, hremaining]
  have htotal : ∀ what : Pc → Option Nat, what pc = none → ∀ x,
      total (holds what x) (⟨t, pc⟩ :: fs) = total (holds what x) fs := by
    intro what hnone x
    simp [total, holds, hnone]
  constructor
  · exact h.exclusive.enter henter
  · exact h.fresh
  · intro x
    rw [htotal held hheld]
    exact h.objects x
  · intro x
    rw [htotal late hlate, htoWalk]
    exact h.shut x
  · exact h.before
  · intro f hf hafter
    rcases List.mem_cons.mp hf with rfl | hf
    · cases henter with
      | destroy _ hshut => exact hshut
      | call | shutdown => simp [afterShutdown] at hafter
    · exact h.after f hf hafter
  · rw [htoWalk]
    exact h.walked
  · exact h.present
  · exact h.walks
  · exact h.order
  · intro f hf id hid
    rcases List.mem_cons.mp hf with rfl | hf
    · simp [hwalking] at hid
    · exact h.standing f hf id hid
  · intro hdestroyed
    obtain ⟨hshut, hempty, hidle⟩ := h.destroyed hdestroyed
    refine ⟨hshut, hempty, fun f hf => ?_⟩
    rcases List.mem_cons.mp hf with rfl | hf
    · cases henter with
      | call hlive => simp [hdestroyed] at hlive
      | shutdown | destroy => rfl
    · exact hidle f hf

theorem services_reachable {s : State Context Pc} (h : Reachable s) :
    Services s.shared s.frames := by
  have hpreserves : machine.Preserves (fun _ _ => true) Services := by
    apply Machine.Preserves.ofSteps
    · intro s l t pc r c s' q hI _ hl _ hexec
      exact hI.exec hl (exec_step hexec)
    · intro s fs t a s' q hI _ _ _ henter
      obtain ⟨rfl, pc, rfl, hentered⟩ := enter_entered henter
      exact hI.enter hentered
  refine hpreserves.reachable (by rintro _ rfl; rfl) ?_ h
  rintro _ rfl
  refine ⟨⟨by simp, by simp⟩, rfl, fun x => ⟨rfl, rfl⟩, fun x => ⟨nofun, Nat.le_refl _⟩,
    fun _ => ⟨rfl, rfl, rfl, rfl⟩, by simp, nofun, List.nil_prefix, List.Sublist.slnil,
    List.Sublist.slnil, by simp, nofun⟩

end Capy.ExecutionContext
