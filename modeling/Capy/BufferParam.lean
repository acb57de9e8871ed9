import Capy.AnyStream

namespace Capy.BufferParam

open Buffers
open AnyStream (maxIovec)

/-- A `buffer_param`: `it_` to `end_`, the `size_` entries of `arr_`, and `pos_`. -/
structure Param where
  it : List Buffer
  arr : List Buffer
  pos : Nat

/-- The loop of `refill`: what is left of the sequence, and the entries stored. -/
def refillLoop : List Buffer → List Buffer → List Buffer × List Buffer
  | [], arr => ([], arr)
  | buf :: rest, arr =>
      if arr.length < maxIovec then refillLoop rest (if buf.size > 0 then arr ++ [buf] else arr)
      else (buf :: rest, arr)

def Param.refill (p : Param) : Param :=
  ⟨(refillLoop p.it []).1, (refillLoop p.it []).2, 0⟩

/-- The constructor. -/
def bufferParam (bs : List Buffer) : Param := Param.refill ⟨bs, [], 0⟩

/-- The span that `data` returns, and the object after it. -/
def Param.data (p : Param) : List Buffer × Param :=
  let p := if p.pos ≥ p.arr.length then p.refill else p
  if p.arr.length = 0 then ([], p) else (p.arr.drop p.pos, p)

def Param.more (p : Param) : Bool := !p.it.isEmpty

/-- The loop of `consume`: the entries and `pos_` after it. -/
def consumeLoop (arr : List Buffer) (pos n : Nat) : List Buffer × Nat :=
  if h : n > 0 ∧ pos < arr.length then
    let avail := (arr.get ⟨pos, h.2⟩).size
    if n < avail then (arr.set pos ((arr.get ⟨pos, h.2⟩).advance n), pos)
    else consumeLoop arr (pos + 1) (sizeSub n avail)
  else (arr, pos)
termination_by arr.length - pos

def Param.consume (p : Param) (n : Nat) : Param :=
  ⟨p.it, (consumeLoop p.arr p.pos n).1, (consumeLoop p.arr p.pos n).2⟩

/-- What is left of the window. -/
def Param.live (p : Param) : List Buffer := p.arr.drop p.pos

/-- The buffers of a sequence that are not empty. -/
def filled (bufs : List Buffer) : List Buffer := bufs.filter fun b => b.size > 0

theorem flatten_filled (bufs : List Buffer) : flatten (filled bufs) = flatten bufs := by
  induction bufs with
  | nil => rfl
  | cons b rest ih =>
      rcases Nat.eq_zero_or_pos b.size with hb | hb
      · rw [filled, List.filter_cons_of_neg (by simp [hb]), flatten_cons, Buffer.bytes, hb]
        exact ih
      · rw [filled, List.filter_cons_of_pos (by simpa using hb), flatten_cons, flatten_cons]
        exact congrArg _ ih

/-- What the loop of `refill` does from `arr` on: it takes the buffers `taken`, and
the one that fills the last place is the last of them. -/
structure Refilled (bufs arr taken : List Buffer) (r : List Buffer × List Buffer) : Prop where
  split : bufs = taken ++ r.1
  stored : r.2 = arr ++ filled taken
  length_le : r.2.length ≤ maxIovec
  full : r.1 ≠ [] → r.2.length = maxIovec
  none : arr.length = maxIovec → taken = []
  last : arr.length < maxIovec → r.2.length = maxIovec → ∃ b ∈ taken.getLast?, b.size > 0

theorem refillLoop_spec (bufs arr : List Buffer) (harr : arr.length ≤ maxIovec) :
    ∃ taken, Refilled bufs arr taken (refillLoop bufs arr) := by
  induction bufs generalizing arr with
  | nil =>
      refine ⟨[], rfl, by simp [refillLoop, filled], harr, by simp [refillLoop], fun _ => rfl, ?_⟩
      intro hless hfull
      simp only [refillLoop] at hfull
      omega
  | cons buf rest ih =>
      rw [refillLoop]
      split_ifs with hroom hsize
      · have hlength : (arr ++ [buf]).length = arr.length + 1 := by simp
        obtain ⟨taken, hsplit, hstored, hle, hfull, hnone, hlast⟩ :=
          ih (arr ++ [buf]) (by omega)
        refine ⟨buf :: taken, by rw [List.cons_append, ← hsplit], ?_, hle, hfull, by omega, ?_⟩
        · rw [hstored]
          simp [filled, hsize]
        · intro _ hall
          rcases Nat.lt_or_ge (arr ++ [buf]).length maxIovec with hless | hge
          · obtain ⟨b, hb, hpos⟩ := hlast hless hall
            exact ⟨b, by simp only [List.getLast?_cons, Option.mem_def.mp hb]; rfl, hpos⟩
          · rw [hnone (by omega)]
            exact ⟨buf, rfl, hsize⟩
      · obtain ⟨taken, hsplit, hstored, hle, hfull, hnone, hlast⟩ := ih arr harr
        refine ⟨buf :: taken, by rw [List.cons_append, ← hsplit], ?_, hle, hfull, by omega, ?_⟩
        · rw [hstored]
          simp [filled, hsize]
        · intro hless hall
          obtain ⟨b, hb, hpos⟩ := hlast hless hall
          exact ⟨b, by simp only [List.getLast?_cons, Option.mem_def.mp hb]; rfl, hpos⟩
      · exact ⟨[], rfl, by simp [filled], harr, fun _ => by simp only; omega, fun _ => rfl,
          by omega⟩

/-- What the loop of `consume` leaves of the window. -/
structure Consumed (arr : List Buffer) (pos n : Nat) (r : List Buffer × Nat) : Prop where
  length_eq : r.1.length = arr.length
  pos_le : r.2 ≤ arr.length
  size_pos : ∀ b ∈ r.1.drop r.2, b.size > 0
  bytes : flatten (r.1.drop r.2) = (flatten (arr.drop pos)).drop n

theorem consumeLoop_spec (arr : List Buffer) (pos n : Nat) (hpos : pos ≤ arr.length)
    (hn : n < sizeValues) (hsize : ∀ b ∈ arr.drop pos, b.size > 0) :
    Consumed arr pos n (consumeLoop arr pos n) := by
  induction pos, n using consumeLoop.induct arr with
  | case1 pos n h avail hless =>
      have hdrop : arr.drop pos = arr.get ⟨pos, h.2⟩ :: arr.drop (pos + 1) :=
        List.drop_eq_getElem_cons h.2
      have hset : (arr.set pos ((arr.get ⟨pos, h.2⟩).advance n)).drop pos =
          (arr.get ⟨pos, h.2⟩).advance n :: arr.drop (pos + 1) := by
        rw [List.drop_eq_getElem_cons (by simpa using h.2), List.getElem_set_self,
          List.drop_set_of_lt (Nat.lt_succ_self pos)]
      have hstep : consumeLoop arr pos n =
          (arr.set pos ((arr.get ⟨pos, h.2⟩).advance n), pos) := by
        rw [consumeLoop, dif_pos h]
        exact if_pos hless
      have hle : n ≤ (arr.get ⟨pos, h.2⟩).size := Nat.le_of_lt hless
      rw [hstep]
      refine ⟨by simp, Nat.le_of_lt h.2, ?_, ?_⟩
      · simp only [hset]
        rw [hdrop, List.forall_mem_cons] at hsize
        refine List.forall_mem_cons.mpr ⟨?_, hsize.2⟩
        simp only [Buffer.advance, gt_iff_lt, Nat.not_lt.mpr hle, if_false]
        exact Nat.sub_pos_of_lt hless
      · simp only [hset]
        rw [hdrop, flatten_cons, flatten_cons, Buffer.bytes_advance,
          List.drop_append_of_le_length (by simpa using hle)]
  | case2 pos n h avail hless ih =>
      have hdrop : arr.drop pos = arr.get ⟨pos, h.2⟩ :: arr.drop (pos + 1) :=
        List.drop_eq_getElem_cons h.2
      have hle : (arr.get ⟨pos, h.2⟩).size ≤ n := Nat.not_lt.mp hless
      have hstep : consumeLoop arr pos n =
          consumeLoop arr (pos + 1) (n - (arr.get ⟨pos, h.2⟩).size) := by
        rw [consumeLoop, dif_pos h]
        exact (if_neg hless).trans (by rw [sizeSub_of_le hn hle])
      have havail : sizeSub n avail = n - (arr.get ⟨pos, h.2⟩).size := sizeSub_of_le hn hle
      rw [havail] at ih
      rw [hdrop, List.forall_mem_cons] at hsize
      obtain ⟨hlength, hbound, hrest, hbytes⟩ := ih h.2 (by omega) hsize.2
      rw [hstep]
      refine ⟨hlength, hbound, hrest, ?_⟩
      have hused : (arr.get ⟨pos, h.2⟩).bytes.drop n = [] :=
        List.drop_eq_nil_of_le (by rw [Buffer.length_bytes]; exact hle)
      rw [hbytes, hdrop, flatten_cons, List.drop_append, hused, List.nil_append,
        Buffer.length_bytes]
  | case3 pos n h =>
      have hstep : consumeLoop arr pos n = (arr, pos) := by
        rw [consumeLoop, dif_neg h]
      rw [hstep]
      refine ⟨rfl, hpos, hsize, ?_⟩
      rcases Nat.eq_zero_or_pos n with rfl | hsome
      · rw [List.drop_zero]
      · rw [List.drop_eq_nil_of_le (Nat.not_lt.mp fun hlt => h ⟨hsome, hlt⟩)]
        simp

/-- Where a `buffer_param` over `bs` is once `consumed` has been consumed: the
buffers `loaded` have been passed, and what is left of the window comes before the
rest of the sequence. A window that is not full is the last one. -/
structure At (bs loaded : List Buffer) (consumed : List Nat) (p : Param) : Prop where
  split : bs = loaded ++ p.it
  bytes : flatten bs = consumed ++ (flatten p.live ++ flatten p.it)
  pos_le : p.pos ≤ p.arr.length
  length_le : p.arr.length ≤ maxIovec
  size_pos : ∀ b ∈ p.live, b.size > 0
  full : p.it ≠ [] → p.arr.length = maxIovec
  count : p.it ≠ [] → maxIovec ∣ (filled loaded).length ∧ filled loaded ≠ []

theorem filled_append (l₁ l₂ : List Buffer) : filled (l₁ ++ l₂) = filled l₁ ++ filled l₂ :=
  List.filter_append ..

theorem size_pos_of_mem_filled {bufs : List Buffer} : ∀ b ∈ filled bufs, b.size > 0 := by
  intro b hb
  simpa using (List.mem_filter.mp hb).2

@[simp]
theorem live_refill (p : Param) : p.refill.live = (refillLoop p.it []).2 := rfl

theorem at_refill (bs loaded : List Buffer) (consumed : List Nat) (p : Param)
    (hsplit : bs = loaded ++ p.it)
    (hbytes : flatten bs = consumed ++ flatten p.it)
    (hcount : p.it ≠ [] → maxIovec ∣ (filled loaded).length) :
    ∃ taken, Refilled p.it [] taken (refillLoop p.it []) ∧
      At bs (loaded ++ taken) consumed p.refill := by
  obtain ⟨taken, hr⟩ := refillLoop_spec p.it [] (by simp)
  have hstored : (refillLoop p.it []).2 = filled taken := hr.stored
  refine ⟨taken, hr, ?_, ?_, Nat.zero_le _, hr.length_le, ?_, hr.full, ?_⟩
  · rw [List.append_assoc]
    exact hsplit.trans (congrArg _ hr.split)
  · rw [live_refill, hstored, flatten_filled, hbytes]
    refine congrArg _ ?_
    calc flatten p.it = flatten (taken ++ p.refill.it) := congrArg _ hr.split
      _ = flatten taken ++ flatten p.refill.it := List.flatMap_append
  · rw [live_refill, hstored]
    exact size_pos_of_mem_filled
  · intro hit
    have hsome : p.it ≠ [] := by
      intro hnil
      rw [hr.split] at hnil
      exact hit (List.append_eq_nil_iff.mp hnil).2
    have htaken : (filled taken).length = maxIovec := hstored ▸ hr.full hit
    rw [filled_append]
    refine ⟨?_, ?_⟩
    · rw [List.length_append, htaken]
      exact Nat.dvd_add (hcount hsome) (Nat.dvd_refl _)
    · intro hnil
      rw [(List.append_eq_nil_iff.mp hnil).2] at htaken
      exact absurd htaken (by decide)

theorem at_bufferParam (bs : List Buffer) : ∃ loaded, At bs loaded [] (bufferParam bs) := by
  obtain ⟨taken, -, hat⟩ := at_refill bs [] [] ⟨bs, [], 0⟩ rfl rfl fun _ => Nat.dvd_zero _
  exact ⟨_, hat⟩

section Moves

variable {bs loaded : List Buffer} {consumed : List Nat} {p : Param}

theorem At.refill (h : At bs loaded consumed p) (hused : p.live = []) :
    ∃ taken, Refilled p.it [] taken (refillLoop p.it []) ∧
      At bs (loaded ++ taken) consumed p.refill :=
  at_refill bs loaded consumed p h.split (by rw [h.bytes, hused, flatten_nil, List.nil_append])
    fun hit => (h.count hit).1

theorem data_of_live (hlive : p.live ≠ []) : p.data = (p.live, p) := by
  have hpos : ¬ p.pos ≥ p.arr.length := fun h => hlive (List.drop_eq_nil_of_le h)
  simp only [Param.data, if_neg hpos]
  exact if_neg (by omega)

theorem data_of_used (hlive : p.live = []) : p.data = (p.refill.live, p.refill) := by
  have hpos : p.pos ≥ p.arr.length := List.drop_eq_nil_iff.mp hlive
  simp only [Param.data, if_pos hpos]
  split_ifs with hnone
  · have hnil : p.refill.live = [] := List.eq_nil_of_length_eq_zero hnone
    rw [hnil]
  · rfl

/-- What `data` gives: the window is what it leaves to consume, and is empty only at
the end of the sequence. -/
structure Window (bs : List Buffer) (consumed : List Nat) (r : List Buffer × Param) :
    Prop where
  is_at : ∃ loaded, At bs loaded consumed r.2
  live : r.2.live = r.1
  none : r.1 = [] → r.2.it = []

theorem At.data (h : At bs loaded consumed p) : Window bs consumed p.data := by
  by_cases hlive : p.live = []
  · obtain ⟨taken, hr, hat⟩ := h.refill hlive
    rw [data_of_used hlive]
    refine ⟨⟨_, hat⟩, rfl, fun hnone => ?_⟩
    by_contra hit
    have hlength : p.refill.live.length = maxIovec := hr.full hit
    rw [show p.refill.live = [] from hnone] at hlength
    exact absurd hlength (by decide)
  · rw [data_of_live hlive]
    exact ⟨⟨loaded, h⟩, rfl, fun hnone => absurd hnone hlive⟩

theorem At.consume (h : At bs loaded consumed p) {n : Nat} (hn : n < sizeValues) :
    At bs loaded (consumed ++ (flatten p.live).take n) (p.consume n) ∧
      flatten (p.consume n).live = (flatten p.live).drop n := by
  obtain ⟨hlength, hpos, hsize, hbytes⟩ := consumeLoop_spec p.arr p.pos n h.pos_le hn h.size_pos
  have hlive : flatten (p.consume n).live = (flatten p.live).drop n := hbytes
  refine ⟨⟨h.split, ?_, hpos.trans (Nat.le_of_eq hlength.symm),
    (Nat.le_of_eq hlength).trans h.length_le, hsize, fun hit => hlength.trans (h.full hit),
    h.count⟩, hlive⟩
  rw [hlive, List.append_assoc, ← List.append_assoc _ _ (flatten (p.consume n).it),
    List.take_append_drop]
  exact h.bytes

end Moves

/-- The calls on a `buffer_param`. -/
inductive Op where
  | data
  | consume (n : Fin sizeValues)

/-- A `buffer_param` and the bytes consumed from its windows so far. -/
structure Session where
  param : Param
  consumed : List Nat

def start (bs : List Buffer) : Session := ⟨bufferParam bs, []⟩

/-- One call; a caller consumes no more than is left of the window. -/
def step (s : Session) : Op → Option Session
  | .data => some ⟨s.param.data.2, s.consumed⟩
  | .consume n =>
      if n ≤ totalSize s.param.live then
        some ⟨s.param.consume n, s.consumed ++ (flatten s.param.live).take n⟩
      else none

def run : Session → List Op → Option Session
  | s, [] => some s
  | s, op :: ops => (step s op).bind fun s' => run s' ops

theorem run_append (s : Session) (ops₁ ops₂ : List Op) :
    run s (ops₁ ++ ops₂) = (run s ops₁).bind fun s' => run s' ops₂ := by
  induction ops₁ generalizing s with
  | nil => rfl
  | cons op ops ih =>
      simp only [List.cons_append, run]
      cases step s op with
      | none => rfl
      | some s' => exact ih s'

theorem at_step {bs : List Buffer} {s s' : Session} {op : Op} (h : step s op = some s')
    (hat : ∃ loaded, At bs loaded s.consumed s.param) :
    ∃ loaded, At bs loaded s'.consumed s'.param := by
  obtain ⟨loaded, hat⟩ := hat
  cases op with
  | data =>
      obtain rfl := Option.some.inj h
      exact hat.data.is_at
  | consume n =>
      simp only [step, Option.ite_none_right_eq_some, Option.some.injEq] at h
      obtain ⟨-, rfl⟩ := h
      exact ⟨loaded, (hat.consume n.isLt).1⟩

theorem at_run {bs : List Buffer} {s s' : Session} {ops : List Op} (h : run s ops = some s')
    (hat : ∃ loaded, At bs loaded s.consumed s.param) :
    ∃ loaded, At bs loaded s'.consumed s'.param := by
  induction ops generalizing s with
  | nil =>
      obtain rfl := Option.some.inj h
      exact hat
  | cons op ops ih =>
      obtain ⟨s₁, hstep, hrest⟩ := Option.bind_eq_some_iff.mp h
      exact ih hrest (at_step hstep hat)

theorem totalSize_eq_zero_iff {bufs : List Buffer} (h : ∀ b ∈ bufs, b.size > 0) :
    totalSize bufs = 0 ↔ bufs = [] := by
  cases bufs with
  | nil => simp [totalSize]
  | cons b rest =>
      have hb := h b (by simp)
      simp [totalSize]
      omega

theorem buffer_param_windows_cover (bs : List Buffer) (ops : List Op) (s : Session)
    (h : run (start bs) ops = some s) :
    s.param.data.1.length ≤ 16 ∧ (∀ b ∈ s.param.data.1, b.size ≠ 0) ∧
      s.consumed ++ flatten s.param.data.1 <+: flatten bs ∧
      (s.param.data.1 = [] ↔ s.consumed = flatten bs) ∧
      s.param.data.2.live = s.param.data.1 := by
  obtain ⟨loaded, hat⟩ := at_run h (at_bufferParam bs)
  obtain ⟨⟨loaded', hat'⟩, hlive, hnone⟩ := hat.data
  have hbytes := hat'.bytes
  rw [hlive] at hbytes
  have hsize : ∀ b ∈ s.param.data.1, b.size > 0 := by
    intro b hb
    exact hat'.size_pos b (hlive ▸ hb)
  refine ⟨?_, fun b hb => Nat.pos_iff_ne_zero.mp (hsize b hb), ?_, ?_, hlive⟩
  · have hle := hat'.length_le
    rw [← hlive, Param.live, List.length_drop]
    exact (Nat.sub_le ..).trans hle
  · rw [hbytes, ← List.append_assoc]
    exact List.prefix_append ..
  · constructor
    · intro hempty
      rw [hbytes, hempty, hnone hempty]
      simp
    · intro hall
      have hlength := congrArg List.length hbytes
      rw [← hall, List.length_append, List.length_append, length_flatten] at hlength
      exact (totalSize_eq_zero_iff hsize).mp (by omega)

/-- Two buffers, consumed in two steps across an empty one. -/
theorem buffer_param_windows_cover_at :
    ∃ s, run (start [⟨10, 2, by decide⟩, ⟨20, 0, by decide⟩, ⟨30, 3, by decide⟩])
        [.data, .consume ⟨3, by decide⟩] = some s ∧
      s.consumed = [10, 11, 30] ∧
        s.consumed ++ flatten s.param.data.1 <+: [10, 11, 30, 31, 32] := by
  have hrun : (run (start [⟨10, 2, by decide⟩, ⟨20, 0, by decide⟩, ⟨30, 3, by decide⟩])
      [.data, .consume ⟨3, by decide⟩]).map Session.consumed = some [10, 11, 30] := by
    decide +kernel
  obtain ⟨s, hrun, hconsumed⟩ := Option.map_eq_some_iff.mp hrun
  exact ⟨s, hrun, hconsumed, (buffer_param_windows_cover _ _ s hrun).2.2.1⟩

/-- The calls `consume(n_1)`, …, `consume(n_k)`. -/
def Param.consumeAll (p : Param) (ns : List (Fin sizeValues)) : Param :=
  ns.foldl (fun p n => p.consume n) p

/-- Once the whole window is consumed, the next `data` returns an empty one. -/
def LastWindow (p : Param) : Prop :=
  ∀ ns : List (Fin sizeValues), (ns.map Fin.val).sum = totalSize p.live →
    (p.consumeAll ns).data.1 = []

/-- The windows are all full and some empty buffer comes after the last of them. -/
def EmptyTail (bs : List Buffer) : Prop :=
  filled bs ≠ [] ∧ maxIovec ∣ (filled bs).length ∧ ∃ b ∈ bs.getLast?, b.size = 0

section Last

variable {bs loaded : List Buffer} {consumed : List Nat} {p : Param}

theorem run_consumeAll (s : Session) (h : At bs loaded s.consumed s.param)
    (ns : List (Fin sizeValues)) (hns : (ns.map Fin.val).sum ≤ totalSize s.param.live) :
    ∃ s', run s (ns.map Op.consume) = some s' ∧ s'.param = s.param.consumeAll ns ∧
      s'.param.it = s.param.it ∧ At bs loaded s'.consumed s'.param ∧
      totalSize s'.param.live = totalSize s.param.live - (ns.map Fin.val).sum := by
  induction ns generalizing s with
  | nil => exact ⟨s, rfl, rfl, rfl, h, by simp⟩
  | cons n ns ih =>
      simp only [List.map_cons, List.sum_cons] at hns
      obtain ⟨hat, hlive⟩ := h.consume n.isLt
      have hsize : totalSize (s.param.consume n).live = totalSize s.param.live - n := by
        rw [← length_flatten, hlive, List.length_drop, length_flatten]
      obtain ⟨s', hrun, hparam, hit, hat', hleft⟩ :=
        ih ⟨s.param.consume n, s.consumed ++ (flatten s.param.live).take n⟩ hat (by
          simp only [hsize]
          omega)
      refine ⟨s', ?_, hparam, hit, hat', ?_⟩
      · simp only [List.map_cons, run, step]
        rw [if_pos (by omega)]
        exact hrun
      · rw [hleft]
        simp only [hsize, List.map_cons, List.sum_cons]
        omega

/-- The sizes of the buffers of a window, to be consumed one after the other. -/
def sizes (bufs : List Buffer) : List (Fin sizeValues) := bufs.map fun b => ⟨b.size, b.size_lt⟩

theorem sum_sizes (bufs : List Buffer) : ((sizes bufs).map Fin.val).sum = totalSize bufs := by
  simp [sizes, totalSize, Function.comp_def]

theorem At.live_consumeAll (h : At bs loaded consumed p) {ns : List (Fin sizeValues)}
    (hns : (ns.map Fin.val).sum = totalSize p.live) :
    (p.consumeAll ns).live = [] ∧ (p.consumeAll ns).it = p.it := by
  obtain ⟨s', -, hparam, hit, hat, hleft⟩ := run_consumeAll ⟨p, consumed⟩ h ns (Nat.le_of_eq hns)
  rw [hns, Nat.sub_self] at hleft
  rw [← hparam]
  exact ⟨(totalSize_eq_zero_iff hat.size_pos).mp hleft, hit⟩

theorem refillLoop_eq_nil_iff (bufs : List Buffer) :
    (refillLoop bufs []).2 = [] ↔ filled bufs = [] := by
  obtain ⟨taken, hr⟩ := refillLoop_spec bufs [] (by simp)
  have hstored : (refillLoop bufs []).2 = filled taken := hr.stored
  constructor
  · intro hnil
    have hend : (refillLoop bufs []).1 = [] := by
      by_contra hit
      have hlength := hr.full hit
      rw [hnil] at hlength
      exact absurd hlength (by decide)
    have hsplit := hr.split
    rw [hend, List.append_nil] at hsplit
    rw [hsplit, ← hstored, hnil]
  · intro hnone
    rw [hr.split, filled_append] at hnone
    rw [hstored]
    exact (List.append_eq_nil_iff.mp hnone).1

theorem At.lastWindow_iff (h : At bs loaded consumed p) : LastWindow p ↔ filled p.it = [] := by
  have hnext : ∀ ns : List (Fin sizeValues), (ns.map Fin.val).sum = totalSize p.live →
      ((p.consumeAll ns).data.1 = [] ↔ filled p.it = []) := by
    intro ns hns
    obtain ⟨hlive, hit⟩ := h.live_consumeAll hns
    rw [data_of_used hlive, live_refill, hit]
    exact refillLoop_eq_nil_iff p.it
  constructor
  · intro hlast
    exact (hnext _ (sum_sizes p.live)).mp (hlast _ (sum_sizes p.live))
  · intro hnone ns hns
    exact (hnext ns hns).mpr hnone

theorem At.emptyTail (h : At bs loaded consumed p) (hit : p.it ≠ []) (hnone : filled p.it = []) :
    EmptyTail bs := by
  obtain ⟨hdvd, hsome⟩ := h.count hit
  have hfilled : filled bs = filled loaded := by
    rw [h.split, filled_append, hnone, List.append_nil]
  refine ⟨hfilled ▸ hsome, hfilled ▸ hdvd, ?_⟩
  rw [h.split, List.getLast?_append]
  obtain ⟨b, hb⟩ := Option.isSome_iff_exists.mp (List.getLast?_isSome.mpr hit)
  rw [hb]
  refine ⟨b, rfl, ?_⟩
  have hzero := (List.filter_eq_nil_iff.mp hnone) b (List.mem_of_getLast? hb)
  simpa using hzero

/-- A refill ahead of an empty tail stops before it, with a full window. -/
theorem EmptyTail.refillLoop {bufs : List Buffer} (h : EmptyTail bufs) :
    (refillLoop bufs []).1 ≠ [] ∧ (refillLoop bufs []).2 ≠ [] ∧
      (refillLoop bufs []).1.length < bufs.length := by
  obtain ⟨hsome, hdvd, b, hb, hzero⟩ := h
  obtain ⟨taken, hr⟩ := refillLoop_spec bufs [] (by simp)
  have hstored : (BufferParam.refillLoop bufs []).2 = filled taken := hr.stored
  have hit : (BufferParam.refillLoop bufs []).1 ≠ [] := by
    intro hend
    have hall : taken = bufs := by
      have hsplit := hr.split
      rwa [hend, List.append_nil, eq_comm] at hsplit
    subst hall
    have hle := hr.length_le
    rw [hstored] at hle
    have hfull : (filled taken).length = maxIovec :=
      Nat.le_antisymm hle (Nat.le_of_dvd (List.length_pos_iff.mpr hsome) hdvd)
    obtain ⟨b', hb', hpos⟩ := hr.last (by decide) (hstored ▸ hfull)
    obtain rfl : b = b' := Option.some.inj (hb.symm.trans hb')
    omega
  have hfull : (filled taken).length = maxIovec := hstored ▸ hr.full hit
  have hlength := congrArg List.length hr.split
  have htaken : (filled taken).length ≤ taken.length := List.length_filter_le ..
  have hmax : maxIovec = 16 := rfl
  rw [List.length_append] at hlength
  refine ⟨hit, ?_, by omega⟩
  rw [hstored]
  exact List.ne_nil_of_length_pos (by omega)

theorem At.emptyTail_it (h : At bs loaded consumed p) (htail : EmptyTail bs) (hit : p.it ≠ [])
    (hmore : filled p.it ≠ []) : EmptyTail p.it := by
  obtain ⟨-, hdvd, b, hb, hzero⟩ := htail
  rw [h.split, filled_append, List.length_append] at hdvd
  refine ⟨hmore, (Nat.dvd_add_right (h.count hit).1).mp hdvd, b, ?_, hzero⟩
  obtain ⟨b', hb'⟩ := Option.isSome_iff_exists.mp (List.getLast?_isSome.mpr hit)
  rw [h.split, List.getLast?_append, hb'] at hb
  exact hb'.trans hb

/-- Consuming window after window comes to the last one, with only empty buffers
after it. -/
theorem exists_run_to_tail (htail : EmptyTail bs) (n : Nat) (s : Session) (ops : List Op)
    (hn : s.param.it.length ≤ n) (hrun : run (start bs) ops = some s)
    (hlive : s.param.live ≠ []) (hit : s.param.it ≠ []) :
    ∃ ops' s', run (start bs) ops' = some s' ∧ s'.param.live ≠ [] ∧ s'.param.it ≠ [] ∧
      filled s'.param.it = [] := by
  induction n generalizing s ops with
  | zero => exact absurd (List.eq_nil_of_length_eq_zero (Nat.le_zero.mp hn)) hit
  | succ n ih =>
      by_cases hmore : filled s.param.it = []
      · exact ⟨ops, s, hrun, hlive, hit, hmore⟩
      · obtain ⟨loaded, hat⟩ := at_run hrun (at_bufferParam bs)
        obtain ⟨hit', hlive', hless⟩ := (hat.emptyTail_it htail hit hmore).refillLoop
        obtain ⟨s₁, hconsume, hparam, hit₁, hat₁, hleft⟩ :=
          run_consumeAll s hat (sizes s.param.live) (Nat.le_of_eq (sum_sizes _))
        have hused : s₁.param.live = [] := by
          rw [sum_sizes, Nat.sub_self] at hleft
          exact (totalSize_eq_zero_iff hat₁.size_pos).mp hleft
        have hdata : s₁.param.data.2 = s₁.param.refill := by rw [data_of_used hused]
        have hrefill : s₁.param.refill.it = (refillLoop s.param.it []).1 := by
          rw [← hit₁]
          rfl
        refine ih ⟨s₁.param.data.2, s₁.consumed⟩
          (ops ++ ((sizes s.param.live).map Op.consume ++ [.data])) ?_ ?_ ?_ ?_
        · simp only [hdata, hrefill]
          omega
        · rw [run_append, hrun, Option.bind_some, run_append, hconsume, Option.bind_some]
          rfl
        · simp only [hdata, live_refill, hit₁]
          exact hlive'
        · simp only [hdata, hrefill]
          exact hit'

theorem exists_run_of_emptyTail (htail : EmptyTail bs) :
    ∃ ops s, run (start bs) ops = some s ∧ s.param.live ≠ [] ∧ s.param.it ≠ [] ∧
      filled s.param.it = [] :=
  exists_run_to_tail htail _ (start bs) [] (Nat.le_refl _) rfl htail.refillLoop.2.1
    htail.refillLoop.1

end Last

theorem more_eq_false_iff (p : Param) : p.more = false ↔ p.it = [] := by
  simp [Param.more]

theorem more_tells_last_window_iff (bs : List Buffer) :
    (∀ ops s, run (start bs) ops = some s →
      (s.param.data.2.more = false ↔ LastWindow s.param.data.2)) ↔
      ¬ (filled bs ≠ [] ∧ 16 ∣ (filled bs).length ∧ ∃ b ∈ bs.getLast?, b.size = 0) := by
  constructor
  · intro hall htail
    obtain ⟨ops, s, hrun, hlive, hit, hnone⟩ := exists_run_of_emptyTail htail
    obtain ⟨loaded, hat⟩ := at_run hrun (at_bufferParam bs)
    have hmore := hall ops s hrun
    rw [data_of_live hlive, more_eq_false_iff, hat.lastWindow_iff] at hmore
    exact hit (hmore.mpr hnone)
  · intro htail ops s hrun
    obtain ⟨loaded, hat⟩ := at_run hrun (at_bufferParam bs)
    obtain ⟨⟨loaded', hat'⟩, -, -⟩ := hat.data
    rw [more_eq_false_iff, hat'.lastWindow_iff]
    constructor
    · intro hend
      rw [hend]
      rfl
    · intro hnone
      by_contra hit
      exact htail (hat'.emptyTail hit hnone)

/-- Sixteen buffers of one byte and an empty one. -/
def fullThenEmpty : List Buffer :=
  List.replicate 16 ⟨10, 1, one_lt_sizeValues⟩ ++ [⟨20, 0, sizeValues_pos⟩]

/-- At the only window of `fullThenEmpty`, `more` is true. -/
theorem more_true_at_last_window :
    ¬ ∀ ops s, run (start fullThenEmpty) ops = some s →
      (s.param.data.2.more = false ↔ LastWindow s.param.data.2) := by
  intro hall
  obtain ⟨loaded, hat⟩ := at_bufferParam fullThenEmpty
  obtain ⟨⟨loaded', hat'⟩, -, -⟩ := hat.data
  have hlast : LastWindow (bufferParam fullThenEmpty).data.2 := hat'.lastWindow_iff.mpr (by decide)
  have hmore : (bufferParam fullThenEmpty).data.2.more = true := by decide
  exact absurd ((hall [] (start fullThenEmpty) rfl).mpr hlast) (by simp [hmore, start])

end Capy.BufferParam
