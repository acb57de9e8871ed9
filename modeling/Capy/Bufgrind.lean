import Capy.BufferSlice

namespace Capy.Bufgrind

open Buffers
open BufferSlice

/-- A buffer sequence, or a single buffer, which `buffer_slice` slices to a buffer. -/
inductive Source where
  | sequence (seq : Sequence)
  | single (b : Buffer)

namespace Source

def buffers : Source → List Buffer
  | .sequence seq => seq.buffers
  | .single b => [b]

/-- `buffer_slice(bs, offset, length)`. -/
def slice : Source → Fin sizeValues → Fin sizeValues → Source
  | .sequence seq, offset, length => .sequence (bufferSlice seq offset length)
  | .single b, offset, length => .single (bufferSliceSingle b offset length)

theorem flatten_slice (bs : Source) (offset length : Fin sizeValues) :
    flatten (bs.slice offset length).buffers =
      cut length ((flatten bs.buffers).drop offset) := by
  cases bs with
  | sequence seq => exact flatten_bufferSlice seq offset length
  | single b =>
      simp only [slice, buffers, flatten_cons, flatten_nil, List.append_nil]
      exact bytes_bufferSliceSingle b offset length

end Source

/-- The fields of a `bufgrind`. -/
structure Grinder where
  bs : Source
  size : Fin sizeValues
  step : Fin sizeValues
  pos : Fin sizeValues

def zero : Fin sizeValues := ⟨0, sizeValues_pos⟩

def one : Fin sizeValues := ⟨1, one_lt_sizeValues⟩

def maximum : Fin sizeValues := ⟨sizeMax, sizeMax_lt_sizeValues⟩

/-- Addition of `std::size_t`, which wraps. -/
def sizeAdd (a b : Fin sizeValues) : Fin sizeValues :=
  ⟨(a + b) % sizeValues, Nat.mod_lt _ sizeValues_pos⟩

/-- `std::min`. -/
def stdMin (a b : Fin sizeValues) : Fin sizeValues := if b < a then b else a

/-- The constructor of `bufgrind`. -/
def bufgrind (bs : Source) (step : Fin sizeValues) : Grinder where
  bs := bs
  size := ⟨bufferSize bs.buffers, bufferSize_lt bs.buffers⟩
  step := if step > zero then step else one
  pos := zero

/-- The first `pos` bytes and the rest. -/
def halves (bs : Source) (pos : Fin sizeValues) : Source × Source :=
  (bs.slice zero pos, bs.slice pos maximum)

namespace Grinder

/-- `operator bool`. -/
def more (g : Grinder) : Bool := g.pos ≤ g.size

/-- The `await_resume` of `next()`, whose awaitable is always ready. -/
def next (g : Grinder) : (Source × Source) × Grinder :=
  (halves g.bs g.pos,
    { g with
      pos := if g.pos < g.size then stdMin (sizeAdd g.pos g.step) g.size else sizeAdd g.pos one })

/-- `while(g) co_await g.next()`, with the positions visited and what each call
returned; `none` when the steps run out. -/
def visits : Nat → Grinder → Option (List (Fin sizeValues × (Source × Source)))
  | 0, _ => none
  | steps + 1, g =>
      if g.more then (visits steps g.next.2).map ((g.pos, g.next.1) :: ·) else some []

end Grinder

/-- The multiples of `s` below `total` that are not below `p`, in order, and `total`. -/
def splitPointsFrom (total s p : Nat) : List Nat :=
  ((List.range' p (total - p)).filter fun q => s ∣ q) ++ [total]

/-- `0`, `s`, `2 * s` and so on below `total`, and `total`. -/
def splitPoints (total s : Nat) : List Nat :=
  ((List.range total).filter fun q => s ∣ q) ++ [total]

theorem splitPointsFrom_zero (total s : Nat) : splitPointsFrom total s 0 = splitPoints total s := by
  rw [splitPointsFrom, splitPoints, List.range_eq_range', Nat.sub_zero]

theorem splitPointsFrom_end {total s p : Nat} (h : total ≤ p) :
    splitPointsFrom total s p = [total] := by
  rw [splitPointsFrom, Nat.sub_eq_zero_of_le h]
  rfl

theorem splitPointsFrom_multiple {total s p : Nat} (hs : 0 < s) (hp : s ∣ p) (hlt : p < total) :
    splitPointsFrom total s p = p :: splitPointsFrom total s (p + s) := by
  have hgap : ∀ n, n < s → (List.range' (p + 1) n).filter (fun q => s ∣ q) = [] := by
    intro n hn
    refine List.filter_eq_nil_iff.mpr fun q hq => ?_
    obtain ⟨hpq, hqn⟩ := List.mem_range'_1.mp hq
    have hrest : ¬ s ∣ q - p := Nat.not_dvd_of_pos_of_lt (by omega) (by omega)
    simp only [decide_eq_true_eq]
    exact fun hq => hrest (Nat.dvd_sub hq hp)
  have hhead : total - p = total - (p + 1) + 1 := by omega
  rw [splitPointsFrom, hhead, List.range'_succ, List.filter_cons_of_pos (by simpa using hp),
    List.cons_append]
  congr 1
  rcases Nat.lt_or_ge (p + s) total with hin | hout
  · have hsplit : total - (p + 1) = (s - 1) + (total - (p + s)) := by omega
    have hnext : p + 1 + 1 * (s - 1) = p + s := by omega
    rw [hsplit, ← List.range'_append, List.filter_append, hgap _ (by omega), hnext]
    rfl
  · rw [hgap _ (by omega), splitPointsFrom_end hout]
    rfl

theorem val_stdMin (a b : Fin sizeValues) : (stdMin a b : Nat) = min (a : Nat) b := by
  unfold stdMin
  split_ifs with h
  · rw [Nat.min_eq_right (Nat.le_of_lt h)]
  · rw [Nat.min_eq_left (Nat.le_of_not_lt h)]

/-- The position of a grinder before a call of `next`. -/
structure Grinder.At (g : Grinder) (total s p : Nat) : Prop where
  size : (g.size : Nat) = total
  step : (g.step : Nat) = s
  pos : (g.pos : Nat) = p

theorem sizeValues_eq : sizeValues = 2 ^ 63 + 2 ^ 63 := by decide

theorem sizeAdd_of_multiple {a b : Fin sizeValues} (hdvd : (b : Nat) ∣ a)
    (ha : (a : Nat) < 2 ^ 63) : (sizeAdd a b : Nat) = a + b := by
  refine Nat.mod_eq_of_lt ?_
  have hvalues := sizeValues_eq
  rcases Nat.eq_zero_or_pos (a : Nat) with hzero | hpos
  · rw [hzero, Nat.zero_add]
    exact b.isLt
  · have hle : (b : Nat) ≤ a := Nat.le_of_dvd hpos hdvd
    omega

theorem Grinder.At.next {g : Grinder} {total s p : Nat} (h : g.At total s p) (hdvd : s ∣ p)
    (hlt : p < total) (htotal : total < 2 ^ 63) : g.next.2.At total s (min (p + s) total) := by
  obtain ⟨hsize, hstep, hpos⟩ := h
  have hsum : (sizeAdd g.pos g.step : Nat) = p + s := by
    rw [sizeAdd_of_multiple (by rwa [hstep, hpos]) (by omega), hpos, hstep]
  have hbelow : g.pos < g.size := by
    rw [Fin.lt_def, hpos, hsize]
    exact hlt
  refine ⟨hsize, hstep, ?_⟩
  simp only [Grinder.next, if_pos hbelow]
  rw [val_stdMin, hsum, hsize]

theorem Grinder.At.last {g : Grinder} {total s : Nat} (h : g.At total s total)
    (htotal : total < 2 ^ 63) : g.more = true ∧ g.next.2.more = false := by
  obtain ⟨hsize, -, hpos⟩ := h
  have hvalues := sizeValues_eq
  have hend : ¬ g.pos < g.size := by
    rw [Fin.lt_def, hpos, hsize]
    exact Nat.lt_irrefl total
  have hpast : (sizeAdd g.pos one : Nat) = total + 1 := by
    simp only [sizeAdd, one, hpos]
    exact Nat.mod_eq_of_lt (by omega)
  constructor
  · simp only [Grinder.more, decide_eq_true_eq, Fin.le_def, hpos, hsize]
    exact Nat.le_refl total
  · simp only [Grinder.more, Grinder.next, if_neg hend, decide_eq_false_iff_not, Fin.le_def,
      hpast, hsize]
    omega

/-- What the loop visits, starting at a position. -/
def Visits (g : Grinder) (n : Nat) (points : List Nat) : Prop :=
  ∃ vs, (∀ steps, n ≤ steps → g.visits steps = some vs) ∧
    vs.map (fun v => (v.1 : Nat)) = points ∧ ∀ v ∈ vs, v.2 = halves g.bs v.1

theorem visits_last {g : Grinder} {total s n : Nat} (hat : g.At total s total)
    (htotal : total < 2 ^ 63) (hn : 2 ≤ n) : Visits g n (splitPointsFrom total s total) := by
  obtain ⟨hmore, hdone⟩ := hat.last htotal
  refine ⟨[(g.pos, g.next.1)], ?_, ?_, ?_⟩
  · intro steps hsteps
    obtain ⟨steps, rfl⟩ := Nat.exists_eq_add_of_le' (Nat.le_trans hn hsteps)
    simp [Grinder.visits, hmore, hdone]
  · simp [splitPointsFrom_end (Nat.le_refl total), hat.pos]
  · simp [Grinder.next]

theorem Visits.cons {g : Grinder} {n : Nat} {points : List Nat} (h : Visits g.next.2 n points)
    (hmore : g.more = true) : Visits g (n + 1) (g.pos :: points) := by
  obtain ⟨vs, hvisits, hpoints, hhalves⟩ := h
  refine ⟨(g.pos, g.next.1) :: vs, ?_, ?_, ?_⟩
  · intro steps hsteps
    obtain ⟨steps, rfl⟩ := Nat.exists_eq_add_of_le' (show 1 ≤ steps by omega)
    simp [Grinder.visits, hmore, hvisits steps (by omega)]
  · rw [List.map_cons, hpoints]
  · intro v hv
    rcases List.mem_cons.mp hv with rfl | hv
    · rfl
    · exact hhalves v hv

/-- The loop goes through the split points that are left. -/
theorem visits_splitPoints {s total : Nat} (hs : 0 < s) (htotal : total < 2 ^ 63) (n : Nat)
    {g : Grinder} {p : Nat} (hat : g.At total s p) (hn : total - p ≤ n)
    (hp : p = total ∨ p < total ∧ s ∣ p) : Visits g (n + 2) (splitPointsFrom total s p) := by
  induction n generalizing g p with
  | zero =>
      obtain rfl : p = total := by omega
      exact visits_last hat htotal (Nat.le_refl _)
  | succ n ih =>
      rcases hp with rfl | ⟨hlt, hdvd⟩
      · exact visits_last hat htotal (by omega)
      · have hmore : g.more = true := by
          simp only [Grinder.more, decide_eq_true_eq, Fin.le_def, hat.pos, hat.size]
          exact Nat.le_of_lt hlt
        have hat' := hat.next hdvd hlt htotal
        rw [splitPointsFrom_multiple hs hdvd hlt, ← hat.pos]
        refine Visits.cons ?_ hmore
        rw [hat.pos]
        rcases Nat.lt_or_ge (p + s) total with hin | hout
        · rw [Nat.min_eq_left (Nat.le_of_lt hin)] at hat'
          exact ih hat' (by omega) (.inr ⟨hin, Nat.dvd_add hdvd (Nat.dvd_refl s)⟩)
        · rw [Nat.min_eq_right hout] at hat'
          rw [splitPointsFrom_end hout, ← splitPointsFrom_end (Nat.le_refl total)]
          exact ih hat' (by omega) (.inl rfl)

theorem halves_bytes (bs : Source) (pos : Fin sizeValues) (hpos : (pos : Nat) < sizeMax) :
    flatten (halves bs pos).1.buffers = (flatten bs.buffers).take pos ∧
      flatten (halves bs pos).2.buffers = (flatten bs.buffers).drop pos := by
  constructor
  · have hbounded : ¬ (pos : Nat) = sizeMax := by omega
    rw [halves, Source.flatten_slice, cut, if_neg hbounded]
    rfl
  · have hmaximum : (maximum : Nat) = sizeMax := rfl
    rw [halves, Source.flatten_slice, cut, if_pos hmaximum]

theorem le_of_mem_splitPoints {total s q : Nat} (h : q ∈ splitPoints total s) : q ≤ total := by
  rcases List.mem_append.mp h with h | h
  · exact Nat.le_of_lt (List.mem_range.mp (List.mem_of_mem_filter h))
  · exact Nat.le_of_eq (List.mem_singleton.mp h)

/-- The loop over a grinder ends after it has visited the multiples of the step below
the size of the sequence and then the size, and at each of them the two halves are
the bytes before it and the rest. -/
theorem bufgrind_visits_all_splits (bs : Source) (step : Fin sizeValues)
    (htotal : totalSize bs.buffers < 2 ^ 63) :
    ∃ n vs, (∀ steps, n ≤ steps → (bufgrind bs step).visits steps = some vs) ∧
      vs.map (fun v => (v.1 : Nat)) = splitPoints (totalSize bs.buffers) (max step 1) ∧
      ∀ v ∈ vs, flatten v.2.1.buffers = (flatten bs.buffers).take v.1 ∧
        flatten v.2.2.buffers = (flatten bs.buffers).drop v.1 ∧
        flatten v.2.1.buffers ++ flatten v.2.2.buffers = flatten bs.buffers := by
  have hvalues := sizeValues_eq
  have hmax : sizeMax + 1 = sizeValues := by decide
  have hat : (bufgrind bs step).At (totalSize bs.buffers) (max step 1) 0 := by
    refine ⟨?_, ?_, rfl⟩
    · exact (bufferSize_eq bs.buffers).trans (Nat.mod_eq_of_lt (by omega))
    · simp only [bufgrind]
      split_ifs with hpos
      · exact (Nat.max_eq_left hpos).symm
      · have hzero : (step : Nat) = 0 := Nat.eq_zero_of_not_pos hpos
        rw [hzero]
        rfl
  have hstart : 0 = totalSize bs.buffers ∨ 0 < totalSize bs.buffers ∧ max (step : Nat) 1 ∣ 0 := by
    rcases Nat.eq_zero_or_pos (totalSize bs.buffers) with hzero | hpos
    · exact .inl hzero.symm
    · exact .inr ⟨hpos, Nat.dvd_zero _⟩
  obtain ⟨vs, hvisits, hpoints, hhalves⟩ :=
    visits_splitPoints (by omega) htotal _ hat (Nat.le_refl _) hstart
  rw [splitPointsFrom_zero] at hpoints
  refine ⟨_, vs, hvisits, hpoints, fun v hv => ?_⟩
  have hle : (v.1 : Nat) ≤ totalSize bs.buffers := by
    have hmem : (v.1 : Nat) ∈ vs.map fun v => (v.1 : Nat) := List.mem_map_of_mem hv
    rw [hpoints] at hmem
    exact le_of_mem_splitPoints hmem
  have hsplit : v.2 = halves bs v.1 := hhalves v hv
  obtain ⟨hfirst, hsecond⟩ := halves_bytes bs v.1 (by omega)
  rw [hsplit]
  refine ⟨hfirst, hsecond, ?_⟩
  rw [hfirst, hsecond, List.take_append_drop]

theorem bufgrind_visits_all_splits_withEmpty :
    totalSize (Source.sequence (.ofList
        [⟨10, 3, by decide⟩, ⟨20, 0, by decide⟩, ⟨30, 4, by decide⟩])).buffers = 7 ∧
      ∃ n vs, (∀ steps, n ≤ steps →
          (bufgrind (.sequence (.ofList
            [⟨10, 3, by decide⟩, ⟨20, 0, by decide⟩, ⟨30, 4, by decide⟩]))
            ⟨3, by decide⟩).visits steps = some vs) ∧
        vs.map (fun v => (v.1 : Nat)) = [0, 3, 6, 7] := by
  refine ⟨by decide, ?_⟩
  obtain ⟨n, vs, hvisits, hpoints, -⟩ := bufgrind_visits_all_splits
    (.sequence (.ofList [⟨10, 3, by decide⟩, ⟨20, 0, by decide⟩, ⟨30, 4, by decide⟩]))
    ⟨3, by decide⟩ (by decide)
  exact ⟨n, vs, hvisits, hpoints⟩

end Capy.Bufgrind
