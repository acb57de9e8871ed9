import Capy.IntrusiveQueue

namespace Capy.IntrusiveList

open IntrusiveQueue (Linked)

/-- `head_` and `tail_`. -/
structure Ends (α : Type*) where
  head : Option α
  tail : Option α

/-- The fields of the nodes, and the lists that have been constructed. The links of a
node that is in no list are not initialized or stale. -/
structure Memory (α ι : Type*) where
  next : α → Option α
  prev : α → Option α
  linked : α → Bool
  lists : ι → Option (Ends α)

variable {α ι : Type*}

section Model

variable [DecidableEq α] [DecidableEq ι]

/-- `if(at) at->link = target; else end = target;` -/
def relink (link : α → Option α) (last : Option α) (at_ target : Option α) :
    (α → Option α) × Option α :=
  match at_ with
  | some c => (Function.update link c target, last)
  | none => (link, target)

namespace Memory

def pushBack (m : Memory α ι) (i : ι) (w : α) : Memory α ι :=
  match m.lists i with
  | none => m
  | some list =>
      let next := Function.update m.next w none
      let prev := Function.update m.prev w list.tail
      let (next, head) := relink next list.head list.tail (some w)
      { next := next
        prev := prev
        linked := Function.update m.linked w true
        lists := Function.update m.lists i (some ⟨head, some w⟩) }

def spliceBack (m : Memory α ι) (i j : ι) : Memory α ι :=
  match m.lists i, m.lists j with
  | some list, some other =>
      match other.head with
      | none => m
      | some first =>
          let (next, head) := relink m.next list.head list.tail (some first)
          let prev := if list.tail.isSome then Function.update m.prev first list.tail else m.prev
          { m with
            next := next
            prev := prev
            lists := Function.update (Function.update m.lists i (some ⟨head, other.tail⟩)) j
              (some ⟨none, none⟩) }
  | _, _ => m

def popFront (m : Memory α ι) (i : ι) : Memory α ι × Option α :=
  match m.lists i with
  | none => (m, none)
  | some list =>
      match list.head with
      | none => (m, none)
      | some w =>
          let head := m.next w
          let (prev, tail) := relink m.prev list.tail head none
          ({ m with
            prev := prev
            linked := Function.update m.linked w false
            lists := Function.update m.lists i (some ⟨head, tail⟩) }, some w)

def remove (m : Memory α ι) (i : ι) (w : α) : Memory α ι :=
  match m.lists i with
  | none => m
  | some list =>
      if m.linked w then
        let (next, head) := relink m.next list.head (m.prev w) (m.next w)
        let (prev, tail) := relink m.prev list.tail (next w) (m.prev w)
        { next := next
          prev := prev
          linked := Function.update m.linked w false
          lists := Function.update m.lists i (some ⟨head, tail⟩) }
      else m

/-- The move constructor makes `j` out of `i`. -/
def moveConstruct (m : Memory α ι) (i j : ι) : Memory α ι :=
  match m.lists i with
  | none => m
  | some other =>
      { m with
        lists := Function.update (Function.update m.lists j (some other)) i (some ⟨none, none⟩) }

def construct (m : Memory α ι) (i : ι) : Memory α ι :=
  { m with lists := Function.update m.lists i (some ⟨none, none⟩) }

end Memory

inductive Op (α ι : Type*) where
  | construct (i : ι)
  | moveConstruct (i j : ι)
  | pushBack (i : ι) (w : α)
  | popFront (i : ι)
  | remove (i : ι) (w : α)
  | spliceBack (i j : ι)

namespace Memory

/-- Run an operation, with what it returns. -/
def exec (m : Memory α ι) : Op α ι → Memory α ι × Option α
  | .construct i => (m.construct i, none)
  | .moveConstruct i j => (m.moveConstruct i j, none)
  | .pushBack i w => (m.pushBack i w, none)
  | .popFront i => m.popFront i
  | .remove i w => (m.remove i w, none)
  | .spliceBack i j => (m.spliceBack i j, none)

/-- Following `next_` from `head_` leads to the node. -/
def In (m : Memory α ι) (i : ι) (w : α) : Prop :=
  ∃ list l, m.lists i = some list ∧ Linked m.next list.head l ∧ w ∈ l

/-- What callers see to. -/
def Legal (m : Memory α ι) : Op α ι → Prop
  | .construct i => m.lists i = none
  | .moveConstruct i j => m.lists i ≠ none ∧ m.lists j = none
  | .pushBack i w => m.lists i ≠ none ∧ m.linked w = false
  | .popFront i => m.lists i ≠ none
  | .remove i w => m.lists i ≠ none ∧ (m.linked w = true → m.In i w)
  | .spliceBack i j => m.lists i ≠ none ∧ m.lists j ≠ none ∧ i ≠ j

/-- The states of memory that sequences of operations lead to. -/
inductive Reachable : Memory α ι → Prop
  | initial (next prev : α → Option α) : Reachable ⟨next, prev, fun _ => false, fun _ => none⟩
  | step {m : Memory α ι} {op : Op α ι} : Reachable m → m.Legal op → Reachable (m.exec op).1

end Memory

/-- What an operation does to the sequences the lists stand for. -/
def apply (s : ι → List α) : Op α ι → ι → List α
  | .construct _ => s
  | .moveConstruct i j => Function.update (Function.update s j (s i)) i []
  | .pushBack i w => Function.update s i (s i ++ [w])
  | .popFront i => Function.update s i (s i).tail
  | .remove i w => Function.update s i ((s i).erase w)
  | .spliceBack i j => Function.update (Function.update s i (s i ++ s j)) j []

def result (s : ι → List α) : Op α ι → Option α
  | .popFront i => (s i).head?
  | _ => none

end Model

/-- Following `next_` from `head_` yields the sequence, and following `prev_` from
`tail_` its reverse. -/
structure Holds (next prev : α → Option α) (list : Ends α) (l : List α) : Prop where
  forward : Linked next list.head l
  backward : Linked prev list.tail l.reverse
  nodup : l.Nodup

structure Memory.Represents (m : Memory α ι) (s : ι → List α) : Prop where
  lists : ∀ i list, m.lists i = some list → Holds m.next m.prev list (s i)
  unbuilt : ∀ i, m.lists i = none → s i = []
  linked : ∀ w, m.linked w = true ↔ ∃ i, w ∈ s i
  disjoint : ∀ i j w, w ∈ s i → w ∈ s j → i = j

section Links

variable {next prev : α → Option α} {list other : Ends α} {l l' : List α} {w : α}

theorem Holds.tail_eq (h : Holds next prev list l) : list.tail = l.getLast? := by
  rw [h.backward.eq_head, List.head?_reverse]

theorem Holds.next_eq (h : Holds next prev list (l ++ w :: l')) : next w = l'.head? :=
  h.forward.after.eq_head

theorem Holds.before (h : Holds next prev list (l ++ w :: l')) :
    Linked prev list.tail (l'.reverse ++ w :: l.reverse) := by
  have hbackward := h.backward
  rwa [List.reverse_append, List.reverse_cons, List.append_assoc] at hbackward

theorem Holds.prev_eq (h : Holds next prev list (l ++ w :: l')) : prev w = l.getLast? := by
  rw [h.before.after.eq_head, List.head?_reverse]

theorem Holds.tail_ne {c : α} (h : Holds next prev list l) (hc : c ∉ l) : list.tail ≠ some c := by
  rw [h.tail_eq]
  exact fun hlast => hc (List.mem_of_getLast? hlast)

theorem Holds.next_ne {c : α} (h : Holds next prev list (l ++ w :: l')) (hc : c ∉ l') :
    next w ≠ some c := by
  rw [h.next_eq]
  exact fun hhead => hc (List.mem_of_head? hhead)

theorem Holds.prev_ne {c : α} (h : Holds next prev list (l ++ w :: l')) (hc : c ∉ l) :
    prev w ≠ some c := by
  rw [h.prev_eq]
  exact fun hlast => hc (List.mem_of_getLast? hlast)

theorem Holds.congr {next' prev' : α → Option α} (h : Holds next prev list l)
    (hsame : ∀ c ∈ l, next' c = next c ∧ prev' c = prev c) : Holds next' prev' list l where
  forward := h.forward.congr fun c hc => (hsame c hc).1
  backward := h.backward.congr fun c hc => (hsame c (List.mem_reverse.mp hc)).2
  nodup := h.nodup

variable [DecidableEq α]

theorem relink_of_ne {link : α → Option α} {last at_ target : Option α} (h : at_ ≠ some w) :
    (relink link last at_ target).1 w = link w := by
  cases at_ with
  | none => rfl
  | some c =>
      have hne : w ≠ c := by
        rintro rfl
        exact h rfl
      exact Function.update_of_ne hne ..

theorem linked_relink {link : α → Option α} {first q : Option α} {l l₁ l₂ : List α}
    (h : Linked link first (l ++ l₁)) (hnodup : l.Nodup) (hdisjoint : ∀ c ∈ l, c ∉ l₂)
    (hq : Linked link q l₂) :
    Linked (relink link first l.getLast? q).1 (relink link first l.getLast? q).2 (l ++ l₂) := by
  cases hlast : l.getLast? with
  | none =>
      obtain rfl : l = [] := List.getLast?_eq_none_iff.mp hlast
      exact hq
  | some c => exact h.redirect hnodup hlast (hdisjoint c (List.mem_of_getLast? hlast)) hq

theorem Holds.pushBack (h : Holds next prev list l) (hw : w ∉ l) :
    Holds (relink (Function.update next w none) list.head list.tail (some w)).1
      (Function.update prev w list.tail)
      ⟨(relink (Function.update next w none) list.head list.tail (some w)).2, some w⟩
      (l ++ [w]) where
  forward := by
    rw [h.tail_eq]
    have hupdated := h.forward.update hw none
    rw [← List.append_nil l] at hupdated
    refine linked_relink hupdated h.nodup ?_ ⟨rfl, Function.update_self ..⟩
    intro c hc hcw
    exact hw (List.mem_singleton.mp hcw ▸ hc)
  backward := by
    rw [List.reverse_append]
    refine ⟨rfl, ?_⟩
    rw [Function.update_self]
    exact h.backward.update (fun hmem => hw (List.mem_reverse.mp hmem)) _
  nodup := by
    rw [← List.concat_eq_append]
    exact h.nodup.concat hw

theorem Holds.remove (h : Holds next prev list (l ++ w :: l')) :
    Holds (relink next list.head (prev w) (next w)).1
      (relink prev list.tail ((relink next list.head (prev w) (next w)).1 w) (prev w)).1
      ⟨(relink next list.head (prev w) (next w)).2,
        (relink prev list.tail ((relink next list.head (prev w) (next w)).1 w) (prev w)).2⟩
      (l ++ l') := by
  obtain ⟨hl, hwl', hdisjoint⟩ := List.nodup_append.mp h.nodup
  obtain ⟨hw, hl'⟩ := List.nodup_cons.mp hwl'
  have hne : prev w ≠ some w := by
    refine h.prev_ne fun hmem => ?_
    exact hdisjoint w hmem w (List.mem_cons_self ..) rfl
  have hapart : ∀ c ∈ l, c ∉ l' := fun c hc hc' =>
    hdisjoint c hc c (List.mem_cons_of_mem _ hc') rfl
  rw [relink_of_ne hne]
  refine ⟨?_, ?_, ?_⟩
  · rw [h.prev_eq]
    exact linked_relink h.forward hl hapart h.forward.after
  · rw [List.reverse_append, h.next_eq, ← List.getLast?_reverse]
    refine linked_relink h.before (List.nodup_reverse.mpr hl') ?_ h.before.after
    intro c hc hc'
    exact hapart c (List.mem_reverse.mp hc') (List.mem_reverse.mp hc)
  · exact hl.append hl' hapart

theorem Holds.popFront (h : Holds next prev list (w :: l)) :
    list.head = some w ∧
      Holds next (relink prev list.tail (next w) none).1
        ⟨next w, (relink prev list.tail (next w) none).2⟩ l := by
  have hsplit : Holds next prev list ([] ++ w :: l) := h
  refine ⟨h.forward.1, h.forward.2, ?_, (List.nodup_cons.mp h.nodup).2⟩
  have hempty : Linked prev none [] := rfl
  have hcut := linked_relink hsplit.before
    (List.nodup_reverse.mpr (List.nodup_cons.mp h.nodup).2) (fun _ _ => List.not_mem_nil) hempty
  rw [List.append_nil, List.getLast?_reverse, ← hsplit.next_eq] at hcut
  exact hcut

theorem Holds.spliceBack (h : Holds next prev list l) (h' : Holds next prev other (w :: l'))
    (hapart : ∀ c ∈ l, c ∉ w :: l') :
    Holds (relink next list.head list.tail (some w)).1
      (if list.tail.isSome then Function.update prev w list.tail else prev)
      ⟨(relink next list.head list.tail (some w)).2, other.tail⟩ (l ++ w :: l') := by
  refine ⟨?_, ?_, ?_⟩
  · rw [h.tail_eq]
    have hforward := h.forward
    rw [← List.append_nil l] at hforward
    refine linked_relink hforward h.nodup hapart ?_
    rw [← h'.forward.1]
    exact h'.forward
  · rw [List.reverse_append]
    have hbackward := h'.backward
    rw [← List.append_nil (w :: l').reverse] at hbackward
    split_ifs with htail
    · refine hbackward.redirect (List.nodup_reverse.mpr h'.nodup) (by simp) ?_ h.backward
      intro hmem
      exact hapart w (List.mem_reverse.mp hmem) (List.mem_cons_self ..)
    · have hnil : l = [] := by
        rw [h.tail_eq] at htail
        simpa using htail
      rw [hnil]
      exact hbackward
  · exact h.nodup.append h'.nodup hapart

end Links

section Represents

variable {m m' : Memory α ι} {s : ι → List α}

theorem Memory.Represents.mem_of_in (h : m.Represents s) {i : ι} {w : α} (hin : m.In i w) :
    w ∈ s i := by
  obtain ⟨list, l, hlist, hlinked, hw⟩ := hin
  rw [hlinked.unique (h.lists i list hlist).forward] at hw
  exact hw

theorem Memory.Represents.notMem (h : m.Represents s) {w : α} (hw : m.linked w = false) (i : ι) :
    w ∉ s i := by
  intro hmem
  rw [(h.linked w).mpr ⟨i, hmem⟩] at hw
  simp at hw

theorem Memory.Represents.linked_or (h : m.Represents s) (i : ι) (w : α) :
    m.linked w = true ↔ w ∈ s i ∨ ∃ j, j ≠ i ∧ w ∈ s j := by
  rw [h.linked]
  constructor
  · rintro ⟨j, hj⟩
    rcases eq_or_ne j i with rfl | hne
    · exact .inl hj
    · exact .inr ⟨j, hne, hj⟩
  · rintro (hi | ⟨j, -, hj⟩)
    · exact ⟨i, hi⟩
    · exact ⟨j, hj⟩

theorem represents_initial (next prev : α → Option α) :
    (⟨next, prev, fun _ => false, fun _ => none⟩ : Memory α ι).Represents fun _ => [] where
  lists _ _ hlist := by simp at hlist
  unbuilt _ _ := rfl
  linked _ := by simp
  disjoint _ _ _ hmem := by simp at hmem

/-- The links determine the sequences. -/
theorem Memory.Represents.unique {s' : ι → List α} (h : m.Represents s) (h' : m.Represents s') :
    s = s' := by
  funext i
  cases hlist : m.lists i with
  | none => rw [h.unbuilt i hlist, h'.unbuilt i hlist]
  | some list => exact (h.lists i list hlist).forward.unique (h'.lists i list hlist).forward

variable [DecidableEq ι]

theorem Memory.Represents.replace (h : m.Represents s) {i : ι} {list : Ends α} {l : List α}
    (hlists : m'.lists = Function.update m.lists i (some list))
    (hholds : Holds m'.next m'.prev list l)
    (hframe : ∀ j, j ≠ i → ∀ c ∈ s j, m'.next c = m.next c ∧ m'.prev c = m.prev c)
    (hlinked : ∀ w, m'.linked w = true ↔ w ∈ l ∨ ∃ j, j ≠ i ∧ w ∈ s j)
    (hapart : ∀ w ∈ l, ∀ j, j ≠ i → w ∉ s j) : m'.Represents (Function.update s i l) where
  lists j list' hlist := by
    rw [hlists] at hlist
    rcases eq_or_ne j i with rfl | hne
    · rw [Function.update_self] at hlist ⊢
      exact Option.some.inj hlist ▸ hholds
    · rw [Function.update_of_ne hne] at hlist ⊢
      exact (h.lists j list' hlist).congr (hframe j hne)
  unbuilt j hunbuilt := by
    rw [hlists] at hunbuilt
    rcases eq_or_ne j i with rfl | hne
    · simp at hunbuilt
    · rw [Function.update_of_ne hne] at hunbuilt ⊢
      exact h.unbuilt j hunbuilt
  linked w := by
    rw [hlinked]
    constructor
    · rintro (hw | ⟨j, hne, hw⟩)
      · exact ⟨i, by rwa [Function.update_self]⟩
      · exact ⟨j, by rwa [Function.update_of_ne hne]⟩
    · rintro ⟨j, hw⟩
      rcases eq_or_ne j i with rfl | hne
      · exact .inl (by rwa [Function.update_self] at hw)
      · exact .inr ⟨j, hne, by rwa [Function.update_of_ne hne] at hw⟩
  disjoint j k w hj hk := by
    rcases eq_or_ne j i with rfl | hji
    · rcases eq_or_ne k j with rfl | hkj
      · rfl
      · rw [Function.update_self] at hj
        rw [Function.update_of_ne hkj] at hk
        exact absurd hk (hapart w hj k hkj)
    · rcases eq_or_ne k i with rfl | hki
      · rw [Function.update_self] at hk
        rw [Function.update_of_ne hji] at hj
        exact absurd hj (hapart w hk j hji)
      · rw [Function.update_of_ne hji] at hj
        rw [Function.update_of_ne hki] at hk
        exact h.disjoint j k w hj hk

theorem Memory.Represents.drain (h : m.Represents s) {i j : ι} (hij : i ≠ j) {list : Ends α}
    {l : List α} (hlists : m'.lists =
      Function.update (Function.update m.lists i (some list)) j (some ⟨none, none⟩))
    (hholds : Holds m'.next m'.prev list l)
    (hframe : ∀ k, k ≠ i → k ≠ j → ∀ c ∈ s k, m'.next c = m.next c ∧ m'.prev c = m.prev c)
    (hlinked : m'.linked = m.linked) (hl : ∀ w, w ∈ l ↔ w ∈ s i ∨ w ∈ s j) :
    m'.Represents (Function.update (Function.update s i l) j []) := by
  have hcases : ∀ k w, w ∈ Function.update (Function.update s i l) j [] k ↔
      k = i ∧ (w ∈ s i ∨ w ∈ s j) ∨ k ≠ i ∧ k ≠ j ∧ w ∈ s k := by
    intro k w
    rcases eq_or_ne k j with rfl | hkj
    · simp [hij.symm]
    · rw [Function.update_of_ne hkj]
      rcases eq_or_ne k i with rfl | hki
      · simp [hl]
      · simp [hki, hkj]
  refine ⟨?_, ?_, ?_, ?_⟩
  · intro k list' hlist
    rw [hlists] at hlist
    rcases eq_or_ne k j with rfl | hkj
    · rw [Function.update_self] at hlist ⊢
      obtain rfl := Option.some.inj hlist
      exact ⟨rfl, rfl, List.nodup_nil⟩
    · rw [Function.update_of_ne hkj] at hlist ⊢
      rcases eq_or_ne k i with rfl | hki
      · rw [Function.update_self] at hlist ⊢
        exact Option.some.inj hlist ▸ hholds
      · rw [Function.update_of_ne hki] at hlist ⊢
        exact (h.lists k list' hlist).congr (hframe k hki hkj)
  · intro k hunbuilt
    rw [hlists] at hunbuilt
    rcases eq_or_ne k j with rfl | hkj
    · simp at hunbuilt
    · rw [Function.update_of_ne hkj] at hunbuilt ⊢
      rcases eq_or_ne k i with rfl | hki
      · simp at hunbuilt
      · rw [Function.update_of_ne hki] at hunbuilt ⊢
        exact h.unbuilt k hunbuilt
  · intro w
    simp only [hlinked, h.linked, hcases]
    constructor
    · rintro ⟨k, hw⟩
      by_cases hk : k = i ∨ k = j
      · refine ⟨i, .inl ⟨rfl, ?_⟩⟩
        rcases hk with rfl | rfl
        · exact .inl hw
        · exact .inr hw
      · rw [not_or] at hk
        exact ⟨k, .inr ⟨hk.1, hk.2, hw⟩⟩
    · rintro ⟨k, ⟨rfl, hw | hw⟩ | ⟨-, -, hw⟩⟩
      · exact ⟨k, hw⟩
      · exact ⟨j, hw⟩
      · exact ⟨k, hw⟩
  · intro k k' w hk hk'
    rcases (hcases k w).mp hk with ⟨rfl, hmem⟩ | ⟨hki, hkj, hmem⟩
    · rcases (hcases k' w).mp hk' with ⟨rfl, -⟩ | ⟨hki', hkj', hmem'⟩
      · rfl
      · rcases hmem with hmem | hmem
        · exact absurd (h.disjoint _ _ w hmem' hmem) hki'
        · exact absurd (h.disjoint _ _ w hmem' hmem) hkj'
    · rcases (hcases k' w).mp hk' with ⟨rfl, hmem' | hmem'⟩ | ⟨-, -, hmem'⟩
      · exact absurd (h.disjoint _ _ w hmem hmem') hki
      · exact absurd (h.disjoint _ _ w hmem hmem') hkj
      · exact h.disjoint _ _ w hmem hmem'

theorem Memory.Represents.construct (h : m.Represents s) {i : ι} (hi : m.lists i = none) :
    (m.construct i).Represents s := by
  have hnil := h.unbuilt i hi
  have hrest : (m.construct i).Represents (Function.update s i []) := by
    refine h.replace rfl ⟨rfl, rfl, List.nodup_nil⟩ (fun _ _ _ _ => ⟨rfl, rfl⟩) ?_ (by simp)
    intro w
    rw [← hnil]
    exact h.linked_or i w
  rwa [← hnil, Function.update_eq_self] at hrest

theorem Memory.Represents.moveConstruct (h : m.Represents s) {i j : ι} (hi : m.lists i ≠ none)
    (hj : m.lists j = none) :
    (m.moveConstruct i j).Represents (Function.update (Function.update s j (s i)) i []) := by
  obtain ⟨other, hother⟩ := Option.ne_none_iff_exists'.mp hi
  have hne : j ≠ i := by
    rintro rfl
    exact hi hj
  simp only [Memory.moveConstruct, hother]
  refine h.drain hne rfl (h.lists i other hother) (fun _ _ _ _ _ => ⟨rfl, rfl⟩) rfl ?_
  simp [h.unbuilt j hj]

variable [DecidableEq α]

theorem Memory.Represents.pushBack (h : m.Represents s) {i : ι} {w : α} (hi : m.lists i ≠ none)
    (hw : m.linked w = false) :
    (m.pushBack i w).Represents (Function.update s i (s i ++ [w])) := by
  obtain ⟨list, hlist⟩ := Option.ne_none_iff_exists'.mp hi
  have hholds := h.lists i list hlist
  simp only [Memory.pushBack, hlist]
  refine h.replace rfl (hholds.pushBack (h.notMem hw i)) ?_ ?_ ?_
  · intro j hne c hc
    have hcw : c ≠ w := by
      rintro rfl
      exact h.notMem hw j hc
    have hci : c ∉ s i := fun hmem => hne (h.disjoint j i c hc hmem)
    exact ⟨(relink_of_ne (hholds.tail_ne hci)).trans (Function.update_of_ne hcw ..),
      Function.update_of_ne hcw ..⟩
  · intro c
    rcases eq_or_ne c w with rfl | hcw
    · simp
    · simp [hcw, h.linked_or i c]
  · intro c hc j hne hcj
    rcases List.mem_append.mp hc with hci | hcw
    · exact hne (h.disjoint j i c hcj hci)
    · exact h.notMem hw j (List.mem_singleton.mp hcw ▸ hcj)

theorem Memory.Represents.erase (h : m.Represents s) {i : ι} {w : α} {list list' : Ends α}
    (hlist : m.lists i = some list) (hw : w ∈ s i)
    (hlists : m'.lists = Function.update m.lists i (some list'))
    (hholds : Holds m'.next m'.prev list' ((s i).erase w))
    (hframe : ∀ c, c ∉ s i → m'.next c = m.next c ∧ m'.prev c = m.prev c)
    (hlinked : m'.linked = Function.update m.linked w false) :
    m'.Represents (Function.update s i ((s i).erase w)) := by
  have hapart : ∀ c ∈ s i, ∀ j, j ≠ i → c ∉ s j := fun c hi j hne hj =>
    hne (h.disjoint j i c hj hi)
  refine h.replace hlists hholds ?_ ?_ fun c hc => hapart c (List.mem_of_mem_erase hc)
  · exact fun j hne c hc => hframe c fun hi => hapart c hi j hne hc
  · intro c
    rw [hlinked, (h.lists i list hlist).nodup.mem_erase_iff]
    rcases eq_or_ne c w with rfl | hcw
    · simpa using hapart c hw
    · simp [hcw, h.linked_or i c]

theorem Memory.Represents.remove (h : m.Represents s) {i : ι} {w : α} (hi : m.lists i ≠ none)
    (hw : m.linked w = true → m.In i w) :
    (m.remove i w).Represents (Function.update s i ((s i).erase w)) := by
  obtain ⟨list, hlist⟩ := Option.ne_none_iff_exists'.mp hi
  cases hlinked : m.linked w with
  | false =>
      simp only [Memory.remove, hlist, hlinked, Bool.false_eq_true, if_false]
      rwa [List.erase_of_not_mem (h.notMem hlinked i), Function.update_eq_self]
  | true =>
      have hmem := h.mem_of_in (hw hlinked)
      have hholds := h.lists i list hlist
      obtain ⟨l, l', hsplit⟩ := List.append_of_mem hmem
      have hnodup := hholds.nodup
      rw [hsplit] at hholds hnodup
      have hnotMem : w ∉ l := fun hl =>
        (List.nodup_append.mp hnodup).2.2 w hl w (List.mem_cons_self ..) rfl
      have herase : (s i).erase w = l ++ l' := by
        rw [hsplit, List.erase_append_right _ hnotMem, List.erase_cons_head]
      simp only [Memory.remove, hlist, hlinked, if_true]
      refine h.erase hlist hmem rfl (herase ▸ hholds.remove) ?_ rfl
      intro c hc
      rw [hsplit, List.mem_append, List.mem_cons, not_or, not_or] at hc
      obtain ⟨hcl, -, hcl'⟩ := hc
      refine ⟨relink_of_ne (hholds.prev_ne hcl), relink_of_ne ?_⟩
      rw [relink_of_ne (hholds.prev_ne hnotMem)]
      exact hholds.next_ne hcl'

theorem Memory.Represents.popFront (h : m.Represents s) {i : ι} (hi : m.lists i ≠ none) :
    (m.popFront i).1.Represents (Function.update s i (s i).tail) ∧
      (m.popFront i).2 = (s i).head? := by
  obtain ⟨list, hlist⟩ := Option.ne_none_iff_exists'.mp hi
  have hholds := h.lists i list hlist
  cases hseq : s i with
  | nil =>
      rw [hseq] at hholds
      have hhead : list.head = none := hholds.forward
      simp only [Memory.popFront, hlist, hhead]
      refine ⟨?_, rfl⟩
      rwa [List.tail_nil, ← hseq, Function.update_eq_self]
  | cons w l =>
      rw [hseq] at hholds
      obtain ⟨hhead, hrest⟩ := hholds.popFront
      have herase : (s i).erase w = l := by rw [hseq, List.erase_cons_head]
      simp only [Memory.popFront, hlist, hhead]
      refine ⟨?_, rfl⟩
      rw [List.tail_cons, ← herase]
      refine h.erase hlist (by simp [hseq]) rfl (herase ▸ hrest) ?_ rfl
      intro c hc
      rw [hseq, List.mem_cons, not_or] at hc
      have hsplit : Holds m.next m.prev list ([] ++ w :: l) := hholds
      exact ⟨rfl, relink_of_ne (hsplit.next_ne hc.2)⟩

theorem Memory.Represents.spliceBack (h : m.Represents s) {i j : ι} (hi : m.lists i ≠ none)
    (hj : m.lists j ≠ none) (hij : i ≠ j) :
    (m.spliceBack i j).Represents
      (Function.update (Function.update s i (s i ++ s j)) j []) := by
  obtain ⟨list, hlist⟩ := Option.ne_none_iff_exists'.mp hi
  obtain ⟨other, hother⟩ := Option.ne_none_iff_exists'.mp hj
  have hholds := h.lists i list hlist
  have hholds' := h.lists j other hother
  cases hseq : s j with
  | nil =>
      rw [hseq] at hholds'
      have hhead : other.head = none := hholds'.forward
      simp only [Memory.spliceBack, hlist, hother, hhead]
      rwa [List.append_nil, Function.update_eq_self, ← hseq, Function.update_eq_self]
  | cons w l =>
      rw [hseq] at hholds'
      have hapart : ∀ c ∈ s i, c ∉ w :: l := fun c hc hc' =>
        hij (h.disjoint i j c hc (hseq ▸ hc'))
      simp only [Memory.spliceBack, hlist, hother, hholds'.forward.1]
      refine h.drain hij rfl (hholds.spliceBack hholds' hapart) ?_ rfl ?_
      · intro k hki hkj c hc
        have hci : c ∉ s i := fun hmem => hki (h.disjoint k i c hc hmem)
        have hcw : c ≠ w := by
          rintro rfl
          exact hkj (h.disjoint k j c hc (by simp [hseq]))
        refine ⟨relink_of_ne (hholds.tail_ne hci), ?_⟩
        split_ifs
        · exact Function.update_of_ne hcw ..
        · rfl
      · simp [hseq]

/-- Each operation does to the sequences what it stands for. -/
theorem Memory.Represents.exec (h : m.Represents s) {op : Op α ι} (hlegal : m.Legal op) :
    (m.exec op).1.Represents (apply s op) ∧ (m.exec op).2 = result s op := by
  cases op with
  | construct i => exact ⟨h.construct hlegal, rfl⟩
  | moveConstruct i j => exact ⟨h.moveConstruct hlegal.1 hlegal.2, rfl⟩
  | pushBack i w => exact ⟨h.pushBack hlegal.1 hlegal.2, rfl⟩
  | popFront i => exact h.popFront hlegal
  | remove i w => exact ⟨h.remove hlegal.1 hlegal.2, rfl⟩
  | spliceBack i j => exact ⟨h.spliceBack hlegal.1 hlegal.2.1 hlegal.2.2, rfl⟩

theorem Memory.Reachable.represents (h : m.Reachable) : ∃ s, m.Represents s := by
  induction h with
  | initial next prev => exact ⟨_, represents_initial next prev⟩
  | step _ hlegal ih =>
      obtain ⟨s, hs⟩ := ih
      exact ⟨_, (hs.exec hlegal).1⟩

/-- After any sequence of operations the links give one finite sequence for every list,
forward and backward, of the nodes that are linked, and the next operation does to
these sequences what it stands for. -/
theorem intrusive_list_represents_sequences (h : m.Reachable) :
    (∃! s, m.Represents s) ∧ ∀ s op, m.Represents s → m.Legal op →
      (m.exec op).1.Represents (apply s op) ∧ (m.exec op).2 = result s op := by
  obtain ⟨s, hs⟩ := h.represents
  exact ⟨⟨s, hs, fun _ hs' => hs'.unique hs⟩, fun _ _ hs' hlegal => hs'.exec hlegal⟩

end Represents

/-- A node popped off a list that was spliced together. -/
theorem intrusive_list_represents_sequences_spliced :
    ∃ (m : Memory Nat Nat) (s : Nat → List Nat), m.Represents s ∧ s 0 = [5, 7] ∧ s 1 = [] ∧
      (m.popFront 0).1.Represents (apply s (.popFront 0)) ∧ (m.popFront 0).2 = some 5 := by
  have hinitial : Memory.Reachable (⟨fun _ => none, fun _ => none, fun _ => false, fun _ => none⟩ :
      Memory Nat Nat) := .initial _ _
  have hzero := hinitial.step (show Memory.Legal _ (.construct 0) from rfl)
  have hone := hzero.step (show Memory.Legal _ (.construct 1) from rfl)
  have hfive := hone.step (show Memory.Legal _ (.pushBack 0 5) from ⟨Option.some_ne_none _, rfl⟩)
  have hseven := hfive.step
    (show Memory.Legal _ (.pushBack 1 7) from ⟨Option.some_ne_none _, rfl⟩)
  have hspliced := hseven.step (show Memory.Legal _ (.spliceBack 0 1) from
    ⟨Option.some_ne_none _, Option.some_ne_none _, by decide⟩)
  obtain ⟨⟨s, hs, -⟩, hexec⟩ := intrusive_list_represents_sequences hspliced
  obtain ⟨hpop, -⟩ := hexec s (.popFront 0) hs (Option.some_ne_none _)
  have hfirst : s 0 = [5, 7] := (hs.lists 0 _ rfl).forward.unique ⟨rfl, rfl, rfl⟩
  have hsecond : s 1 = [] := (hs.lists 1 _ rfl).forward.unique rfl
  exact ⟨_, s, hs, hfirst, hsecond, hpop, rfl⟩

end Capy.IntrusiveList
