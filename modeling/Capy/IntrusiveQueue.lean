import Mathlib.Data.List.Nodup
import Mathlib.Logic.Function.Basic

namespace Capy.IntrusiveQueue

/-- The two ends of the queue and the link field of every node. -/
structure Queue (α : Type*) where
  head : Option α
  tail : Option α
  next : α → Option α

variable {α : Type*}

def Queue.empty : Queue α := ⟨none, none, fun _ => none⟩

def Queue.push [DecidableEq α] (q : Queue α) (c : α) : Queue α :=
  let next := Function.update q.next c none
  match q.tail with
  | some last => ⟨q.head, some c, Function.update next last (some c)⟩
  | none => ⟨some c, some c, next⟩

def Queue.pop (q : Queue α) : Queue α × Option α :=
  match q.head with
  | none => (q, none)
  | some c =>
      match q.next c with
      | none => (⟨none, none, q.next⟩, some c)
      | some d => (⟨some d, q.tail, q.next⟩, some c)

/-- The links lead from `p` through the nodes of the list and end there. -/
def Linked (next : α → Option α) : Option α → List α → Prop
  | p, [] => p = none
  | p, c :: l => p = some c ∧ Linked next (next c) l

/-- The queue holds the nodes of the list, in its order. -/
structure Represents (q : Queue α) (l : List α) : Prop where
  linked : Linked q.next q.head l
  tail : q.tail = l.getLast?
  nodup : l.Nodup

theorem Linked.unique {next : α → Option α} {p : Option α} {l l' : List α}
    (h : Linked next p l) (h' : Linked next p l') : l = l' := by
  induction l generalizing p l' with
  | nil =>
      cases l' with
      | nil => rfl
      | cons c l' =>
          have hp := h.symm.trans h'.1
          simp at hp
  | cons c l ih =>
      cases l' with
      | nil =>
          have hp := h.1.symm.trans h'
          simp at hp
      | cons d l' =>
          obtain rfl : c = d := Option.some.inj (h.1.symm.trans h'.1)
          rw [ih h.2 h'.2]

theorem Linked.eq_head {next : α → Option α} {p : Option α} {l : List α}
    (h : Linked next p l) : p = l.head? := by
  cases l with
  | nil => exact h
  | cons c l => exact h.1

theorem Linked.after {next : α → Option α} {p : Option α} {l l' : List α} {c : α}
    (h : Linked next p (l ++ c :: l')) : Linked next (next c) l' := by
  induction l generalizing p with
  | nil => exact h.2
  | cons d l ih => exact ih h.2

theorem Linked.congr {next next' : α → Option α} {p : Option α} {l : List α}
    (h : Linked next p l) (hsame : ∀ c ∈ l, next' c = next c) : Linked next' p l := by
  induction l generalizing p with
  | nil => exact h
  | cons c l ih =>
      refine ⟨h.1, ?_⟩
      rw [hsame c (List.mem_cons_self ..)]
      exact ih h.2 fun d hd => hsame d (List.mem_cons_of_mem _ hd)

theorem represents_empty : Represents (Queue.empty : Queue α) [] :=
  ⟨rfl, rfl, List.nodup_nil⟩

section Push

variable [DecidableEq α]

theorem Linked.update {next : α → Option α} {p : Option α} {l : List α}
    (h : Linked next p l) {c : α} (hc : c ∉ l) (d : Option α) :
    Linked (Function.update next c d) p l := by
  refine h.congr fun e he => Function.update_of_ne ?_ ..
  rintro rfl
  exact hc he

theorem Linked.redirect {next : α → Option α} {p q : Option α} {l l₁ l₂ : List α} {last : α}
    (h : Linked next p (l ++ l₁)) (hnodup : l.Nodup) (hlast : l.getLast? = some last)
    (hnotMem : last ∉ l₂) (hq : Linked next q l₂) :
    Linked (Function.update next last q) p (l ++ l₂) := by
  induction l generalizing p with
  | nil => simp at hlast
  | cons e l ih =>
      obtain ⟨hel, hl⟩ := List.nodup_cons.mp hnodup
      refine ⟨h.1, ?_⟩
      cases l with
      | nil =>
          obtain rfl : e = last := by simpa using hlast
          rw [Function.update_self]
          exact hq.update hnotMem q
      | cons d l =>
          rw [List.getLast?_cons_cons] at hlast
          have hne : e ≠ last := by
            rintro rfl
            exact hel (List.mem_of_getLast? hlast)
          rw [Function.update_of_ne hne]
          exact ih h.2 hl hlast

theorem Linked.append {next : α → Option α} {p : Option α} {l : List α} {last c : α}
    (h : Linked next p l) (hnodup : l.Nodup) (hlast : l.getLast? = some last)
    (hc : c ∉ l) (hend : next c = none) :
    Linked (Function.update next last (some c)) p (l ++ [c]) := by
  have hne : last ∉ [c] := by
    rw [List.mem_singleton]
    rintro rfl
    exact hc (List.mem_of_getLast? hlast)
  rw [← List.append_nil l] at h
  exact h.redirect hnodup hlast hne ⟨rfl, hend⟩

theorem Represents.push {q : Queue α} {l : List α} (h : Represents q l) {c : α}
    (hc : c ∉ l) : Represents (q.push c) (l ++ [c]) := by
  have hnodup : (l ++ [c]).Nodup := by
    rw [← List.concat_eq_append]
    exact h.nodup.concat hc
  have hlinked := h.linked.update hc none
  have hend : Function.update q.next c none c = none := Function.update_self ..
  unfold Queue.push
  cases htail : q.tail with
  | none =>
      obtain rfl : l = [] := List.getLast?_eq_none_iff.mp (h.tail.symm.trans htail)
      exact ⟨⟨rfl, hend⟩, rfl, hnodup⟩
  | some last =>
      refine ⟨?_, by simp, hnodup⟩
      exact hlinked.append h.nodup (h.tail.symm.trans htail) hc hend

end Push

theorem Represents.pop_nil {q : Queue α} (h : Represents q []) : q.pop = (q, none) := by
  have hhead : q.head = none := h.linked
  simp [Queue.pop, hhead]

theorem Represents.pop_cons {q : Queue α} {c : α} {l : List α}
    (h : Represents q (c :: l)) :
    ∃ q', q.pop = (q', some c) ∧ Represents q' l := by
  obtain ⟨hhead, hrest⟩ := h.linked
  have hnodup := (List.nodup_cons.mp h.nodup).2
  cases l with
  | nil =>
      have hnext : q.next c = none := hrest
      simp only [Queue.pop, hhead, hnext]
      exact ⟨_, rfl, rfl, rfl, hnodup⟩
  | cons d l =>
      simp only [Queue.pop, hhead, hrest.1]
      refine ⟨_, rfl, ⟨rfl, hrest.2⟩, ?_, hnodup⟩
      rw [h.tail, List.getLast?_cons_cons]

theorem Represents.eq_nil_of_pop {q : Queue α} {l : List α} (h : Represents q l)
    (hpop : q.pop.2 = none) : l = [] := by
  cases l with
  | nil => rfl
  | cons c rest =>
      obtain ⟨q', hcons, -⟩ := h.pop_cons
      simp [hcons] at hpop

theorem Represents.of_pop {q q' : Queue α} {c : α} {l : List α} (h : Represents q l)
    (hpop : q.pop = (q', some c)) : ∃ rest, l = c :: rest ∧ Represents q' rest := by
  cases l with
  | nil =>
      rw [h.pop_nil] at hpop
      simp at hpop
  | cons d rest =>
      obtain ⟨queue, hcons, hrest⟩ := h.pop_cons
      obtain ⟨rfl, heq⟩ := Prod.mk.inj (hcons.symm.trans hpop)
      obtain rfl : d = c := Option.some.inj heq
      exact ⟨rest, rfl, hrest⟩

end Capy.IntrusiveQueue
