import Capy.ConsumingBuffers

namespace Capy.BufferSlice

open Buffers

/-- A bidirectional range of buffers. An iterator is a position, so the iterators of a
slice are those of the sequence under it, at any depth. -/
structure Sequence where
  first : Nat
  last : Nat
  deref : Nat → Buffer
  first_le_last : first ≤ last

namespace Sequence

/-- The buffers of a sequence, in order. -/
def buffers (seq : Sequence) : List Buffer :=
  (List.range' seq.first (seq.last - seq.first)).map seq.deref

/-- A container of buffers. -/
def ofList (bufs : List Buffer) : Sequence where
  first := 0
  last := bufs.length
  deref i := bufs.getD i ⟨0, 0, by decide⟩
  first_le_last := Nat.zero_le _

/-- `for(; it != end; ++it)`, with the buffers it reads; `none` when the steps
run out. -/
def forward (seq : Sequence) : Nat → Nat → Option (List Buffer)
  | 0, _ => none
  | steps + 1, it =>
      if it = seq.last then some []
      else (seq.forward steps (it + 1)).map (seq.deref it :: ·)

/-- `while(it != begin)` over `*--it`. -/
def backward (seq : Sequence) : Nat → Nat → Option (List Buffer)
  | 0, _ => none
  | steps + 1, it =>
      if it = seq.first then some []
      else (seq.backward steps (it - 1)).map (seq.deref (it - 1) :: ·)

theorem buffers_ofList (bufs : List Buffer) : (ofList bufs).buffers = bufs := by
  apply List.ext_getElem
  · simp [buffers, ofList]
  · intro i hi hi'
    simp [buffers, ofList, hi']

theorem forward_eq (seq : Sequence) {it steps : Nat} (hit : it ≤ seq.last)
    (hsteps : seq.last - it < steps) :
    seq.forward steps it = some ((List.range' it (seq.last - it)).map seq.deref) := by
  induction steps generalizing it with
  | zero => omega
  | succ steps ih =>
      rw [forward]
      split_ifs with hend
      · simp [hend]
      · have hcount : seq.last - it = seq.last - (it + 1) + 1 := by omega
        rw [ih (by omega) (by omega), hcount, List.range'_succ]
        rfl

theorem backward_eq (seq : Sequence) {it steps : Nat} (hit : seq.first ≤ it)
    (hsteps : it - seq.first < steps) :
    seq.backward steps it =
      some ((List.range' seq.first (it - seq.first)).map seq.deref).reverse := by
  induction steps generalizing it with
  | zero => omega
  | succ steps ih =>
      rw [backward]
      split_ifs with hbegin
      · simp [hbegin]
      · have hcount : it - seq.first = it - 1 - seq.first + 1 := by omega
        have hlast : seq.first + 1 * (it - 1 - seq.first) = it - 1 := by omega
        rw [ih (by omega) (by omega), hcount, List.range'_concat, hlast]
        simp

end Sequence

/-- The fields of a `slice_of`. -/
structure SliceOf where
  first : Nat
  last : Nat
  frontSkip : Nat
  backSkip : Nat

/-- The call of `adjust` that `*cur` makes. -/
def SliceOf.trim (s : SliceOf) (seq : Sequence) (cur : Nat) : Trim where
  buffer := seq.deref cur
  front := if cur = s.first then s.frontSkip else 0
  back := if cur + 1 = s.last then s.backSkip else 0

/-- `const_iterator::operator*`. -/
def SliceOf.deref (s : SliceOf) (seq : Sequence) (cur : Nat) : Buffer :=
  adjust (s.trim seq cur).buffer (s.trim seq cur).front (s.trim seq cur).back

/-- The walk to byte `offset`, over the `left` buffers from `first_` to `last_`;
gives `first_` and `front_skip_`. -/
def seekFirst (deref : Nat → Buffer) : Nat → Nat → Nat → Nat × Nat
  | 0, first, _ => (first, 0)
  | left + 1, first, skip =>
      let sz := (deref first).size
      if skip < sz then (first, skip) else seekFirst deref left (first + 1) (sizeSub skip sz)

/-- The walk over `length` bytes from `first_`; gives `last_` and `back_skip_`. -/
def seekLast (deref : Nat → Buffer) : Nat → Nat → Nat → Nat → Nat × Nat
  | 0, cursor, _, _ => (cursor, 0)
  | left + 1, cursor, cursorFront, length =>
      if length = 0 then (cursor, 0)
      else
        let avail := sizeSub (deref cursor).size cursorFront
        if length ≤ avail then (cursor + 1, sizeSub avail length)
        else seekLast deref left (cursor + 1) 0 (sizeSub length avail)

/-- The constructor `slice_of(bs, offset, length)`. -/
def sliceOf (seq : Sequence) (offset length : Nat) : SliceOf :=
  let (first, frontSkip) := seekFirst seq.deref (seq.last - seq.first) seq.first offset
  if first = seq.last then ⟨first, seq.last, frontSkip, 0⟩
  else if length = sizeMax then ⟨first, seq.last, frontSkip, 0⟩
  else
    let (last, backSkip) := seekLast seq.deref (seq.last - first) first frontSkip length
    ⟨first, last, frontSkip, backSkip⟩

/-- The buffers at `n` positions from `first` on. -/
def between (deref : Nat → Buffer) (first n : Nat) : List Buffer :=
  (List.range' first n).map deref

theorem between_succ (deref : Nat → Buffer) (first n : Nat) :
    between deref first (n + 1) = deref first :: between deref (first + 1) n := by
  simp [between, List.range'_succ]

@[simp]
theorem isEmpty_between (deref : Nat → Buffer) (first n : Nat) :
    (between deref first n).isEmpty = decide (n = 0) := by
  cases n <;> simp [between]

theorem bytes_adjust {b : Buffer} {front back : Nat} (h : front + back ≤ b.size) :
    (adjust b front back).bytes = (b.bytes.drop front).take (b.size - front - back) := by
  have hfront : sizeSub b.size front = b.size - front := sizeSub_of_le b.size_lt (by omega)
  have hlt : b.size - front < sizeValues := Nat.lt_of_le_of_lt (Nat.sub_le ..) b.size_lt
  have hsize : (adjust b front back).size = b.size - front - back := by
    change sizeSub (sizeSub b.size front) back = b.size - front - back
    rw [hfront, sizeSub_of_le hlt (by omega)]
  have hsplit : List.range' (b.data + front) (b.size - front) =
      List.range' (b.data + front) (b.size - front - back) ++
        List.range' (b.data + front + (b.size - front - back)) back := by
    rw [List.range'_append_1]
    congr 1
    omega
  rw [Buffer.bytes, hsize, Buffer.bytes, List.drop_range', Nat.mul_one, hsplit,
    List.take_left' (List.length_range' ..)]
  rfl

/-- What the walk to `offset` finds, `n` buffers being ahead of it. -/
theorem seekFirst_spec (deref : Nat → Buffer) (n first skip : Nat) (hskip : skip < sizeValues) :
    ∃ k ≤ n, (seekFirst deref n first skip).1 = first + k ∧
      (k = n → (seekFirst deref n first skip).2 = 0) ∧
      (k < n → (seekFirst deref n first skip).2 < (deref (first + k)).size) ∧
      (flatten (between deref (first + k) (n - k))).drop (seekFirst deref n first skip).2 =
        (flatten (between deref first n)).drop skip := by
  induction n generalizing first skip with
  | zero => exact ⟨0, Nat.le_refl _, rfl, fun _ => rfl, by simp, by simp [between]⟩
  | succ n ih =>
      simp only [seekFirst]
      split_ifs with hin
      · exact ⟨0, Nat.zero_le _, rfl, by simp, fun _ => hin, by simp⟩
      · rw [sizeSub_of_le hskip (by omega)]
        obtain ⟨k, hk, hfirst, hnone, hless, hbytes⟩ :=
          ih (first + 1) (skip - (deref first).size) (by omega)
        have hpos : first + (k + 1) = first + 1 + k := by omega
        refine ⟨k + 1, by omega, by rw [hfirst, hpos], fun h => hnone (by omega),
          fun h => ?_, ?_⟩
        · rw [hpos]
          exact hless (by omega)
        · have hused : (deref first).bytes.drop skip = [] :=
            List.drop_eq_nil_of_le (by rw [Buffer.length_bytes]; omega)
          rw [hpos, Nat.add_sub_add_right, hbytes, between_succ, flatten_cons, List.drop_append,
            hused, List.nil_append, Buffer.length_bytes]

theorem seekLast_spec (deref : Nat → Buffer) (n cursor front length : Nat)
    (hlength : length < sizeValues) (hfront : n ≠ 0 → front ≤ (deref cursor).size) :
    ∃ k ≤ n, (seekLast deref n cursor front length).1 = cursor + k ∧
      (k = 0 → (seekLast deref n cursor front length).2 = 0) ∧
      (∀ t ∈ sliceTrims (between deref cursor k) front (seekLast deref n cursor front length).2,
        t.Fits) ∧
      flatten (Buffers.sliceOf (between deref cursor k) front
          (seekLast deref n cursor front length).2) =
        ((flatten (between deref cursor n)).drop front).take length := by
  induction n generalizing cursor front length with
  | zero => exact ⟨0, Nat.le_refl _, rfl, fun _ => rfl, by simp [between, sliceTrims],
      by simp [between, Buffers.sliceOf]⟩
  | succ n ih =>
      have hle : front ≤ (deref cursor).size := hfront (Nat.succ_ne_zero n)
      have havail : sizeSub (deref cursor).size front = (deref cursor).size - front :=
        sizeSub_of_le (deref cursor).size_lt hle
      have hlt : (deref cursor).size - front < sizeValues :=
        Nat.lt_of_le_of_lt (Nat.sub_le ..) (deref cursor).size_lt
      have hbytes : ((deref cursor).bytes.drop front).length = (deref cursor).size - front := by
        simp
      simp only [seekLast, havail]
      split_ifs with hzero hin
      · exact ⟨0, Nat.zero_le _, rfl, fun _ => rfl, by simp [between, sliceTrims],
          by simp [between, Buffers.sliceOf, hzero]⟩
      · -- the range ends in the buffer at the cursor
        rw [sizeSub_of_le hlt hin]
        have hfits : front + ((deref cursor).size - front - length) ≤ (deref cursor).size := by
          omega
        have hleft : (deref cursor).size - front - ((deref cursor).size - front - length) =
            length := by omega
        refine ⟨1, by omega, rfl, by simp, ?_, ?_⟩
        · simpa [between_succ, between, sliceTrims, Trim.Fits] using hfits
        · rw [between_succ, between_succ, flatten_cons,
            List.drop_append_of_le_length (by simpa using hle),
            List.take_append_of_le_length (by rw [hbytes]; exact hin)]
          simp [between, Buffers.sliceOf, bytes_adjust hfits, hleft]
      · rw [sizeSub_of_le hlength (by omega)]
        obtain ⟨k, hk, hlast, hnone, hfits, htake⟩ :=
          ih (cursor + 1) 0 (length - ((deref cursor).size - front)) (by omega) (by simp)
        refine ⟨k + 1, by omega, by rw [hlast]; omega, by simp, ?_, ?_⟩
        · rw [between_succ, sliceTrims, isEmpty_between, List.forall_mem_cons]
          refine ⟨?_, hfits⟩
          split_ifs with hk0
          · simp only [decide_eq_true_eq] at hk0
            simpa [Trim.Fits, hnone hk0] using hle
          · simpa [Trim.Fits] using hle
        · have hback : (if decide (k = 0) = true then
              (seekLast deref n (cursor + 1) 0 (length - ((deref cursor).size - front))).2
              else 0) = 0 := by
            split_ifs with hk0
            · exact hnone (by simpa using hk0)
            · rfl
          have hall : ((deref cursor).bytes.drop front).take length =
              (deref cursor).bytes.drop front :=
            List.take_of_length_le (by rw [hbytes]; omega)
          rw [between_succ, Buffers.sliceOf, isEmpty_between, hback, flatten_cons, htake,
            bytes_adjust_front hle, between_succ, flatten_cons,
            List.drop_append_of_le_length (by simpa using hle), List.take_append, hall, hbytes,
            List.drop_zero]

/-- What lies under a slice, the calls of `adjust` and the bytes it shows. -/
structure Cut (seq : Sequence) (offset length : Nat) (s : SliceOf) : Prop where
  first_le : seq.first ≤ s.first
  first_le_last : s.first ≤ s.last
  last_le : s.last ≤ seq.last
  fits : ∀ t ∈ sliceTrims (between seq.deref s.first (s.last - s.first)) s.frontSkip s.backSkip,
    t.Fits
  bytes : flatten (Buffers.sliceOf (between seq.deref s.first (s.last - s.first))
    s.frontSkip s.backSkip) =
      if length = sizeMax then (flatten seq.buffers).drop offset
      else ((flatten seq.buffers).drop offset).take length

theorem cut_sliceOf (seq : Sequence) {offset length : Nat} (ho : offset < sizeValues)
    (hl : length < sizeValues) : Cut seq offset length (sliceOf seq offset length) := by
  obtain ⟨k, hk, hfirst, hnone, hless, hbytes⟩ :=
    seekFirst_spec seq.deref (seq.last - seq.first) seq.first offset ho
  have hle := seq.first_le_last
  have hbound : seq.first + k ≤ seq.last := by omega
  simp only [sliceOf]
  rcases hseek : seekFirst seq.deref (seq.last - seq.first) seq.first offset with ⟨first, skip⟩
  rw [hseek] at hfirst hnone hless hbytes
  simp only at hfirst hnone hless hbytes
  subst hfirst
  have hcount : seq.last - (seq.first + k) = seq.last - seq.first - k := by omega
  have hskip : ∀ b ∈ (between seq.deref (seq.first + k) (seq.last - (seq.first + k))).head?,
      skip ≤ b.size := by
    intro b hb
    rcases Nat.lt_or_ge k (seq.last - seq.first) with h | h
    · have hn : seq.last - (seq.first + k) = seq.last - (seq.first + k) - 1 + 1 := by omega
      rw [hn, between_succ] at hb
      obtain rfl := Option.some.inj hb
      exact Nat.le_of_lt (hless h)
    · rw [hnone (by omega)]
      exact Nat.zero_le _
  have htoEnd : flatten (Buffers.sliceOf
      (between seq.deref (seq.first + k) (seq.last - (seq.first + k))) skip 0) =
      (flatten seq.buffers).drop offset := by
    rw [flatten_sliceOf hskip, hcount, hbytes]
    rfl
  split_ifs with hend hmax
  · -- nothing is left after `offset`
    simp only at hend
    have hnothing : (flatten seq.buffers).drop offset = [] := by
      rw [← htoEnd, hend]
      simp [between, Buffers.sliceOf]
    exact ⟨by simp, hbound, by simp, fits_sliceTrims_front hskip, by simp [htoEnd, hnothing]⟩
  · exact ⟨by simp, hbound, by simp, fits_sliceTrims_front hskip, by simp [htoEnd, hmax]⟩
  · simp only at hend
    have hfront : seq.last - (seq.first + k) ≠ 0 → skip ≤ (seq.deref (seq.first + k)).size :=
      fun h => Nat.le_of_lt (hless (by omega))
    obtain ⟨j, hj, hlast, -, hfits, htake⟩ := seekLast_spec seq.deref
      (seq.last - (seq.first + k)) (seq.first + k) skip length hl hfront
    rcases hwalk : seekLast seq.deref (seq.last - (seq.first + k)) (seq.first + k) skip length
      with ⟨last, back⟩
    rw [hwalk] at hlast hfits htake
    simp only at hlast hfits htake
    subst hlast
    have hwidth : seq.first + k + j - (seq.first + k) = j := by omega
    refine ⟨by simp, by simp, by simp only; omega, ?_, ?_⟩
    · simpa only [hwidth] using hfits
    · simp only [hwidth, htake, if_neg hmax]
      rw [← flatten_sliceOf hskip, htoEnd]

/-- `buffer_slice` of a sequence that is not a single buffer. The sizes are
`std::size_t`. -/
def bufferSlice (seq : Sequence) (offset length : Fin sizeValues) : Sequence where
  first := (sliceOf seq offset length).first
  last := (sliceOf seq offset length).last
  deref := (sliceOf seq offset length).deref seq
  first_le_last := (cut_sliceOf seq offset.isLt length.isLt).first_le_last

/-- `buffer_slice` of a single buffer. -/
def bufferSliceSingle (b : Buffer) (offset length : Fin sizeValues) : Buffer :=
  let b := b.advance offset
  if length < b.size then ⟨b.data, length, length.isLt⟩ else b

/-- What is left of some bytes when `length` is asked for. -/
def cut {α : Type} (length : Nat) (bytes : List α) : List α :=
  if length = sizeMax then bytes else bytes.take length

theorem map_trim (s : SliceOf) (seq : Sequence) (n cur : Nat) (hcur : s.first ≤ cur)
    (hlast : cur + n = s.last) :
    (List.range' cur n).map (s.trim seq) =
      sliceTrims (between seq.deref cur n) (if cur = s.first then s.frontSkip else 0)
        s.backSkip := by
  induction n generalizing cur with
  | zero => rfl
  | succ n ih =>
      have hnext : ¬ cur + 1 = s.first := by omega
      have hend : (decide (n = 0) = true) = (cur + 1 = s.last) := by
        simp only [decide_eq_true_eq, eq_iff_iff]
        omega
      rw [between_succ, sliceTrims, isEmpty_between, List.range'_succ, List.map_cons,
        ih (cur + 1) (by omega) (by omega), if_neg hnext]
      simp only [SliceOf.trim, hend]

section Slice

variable (seq : Sequence) (offset length : Fin sizeValues)

theorem map_trim_sliceOf :
    (List.range' (bufferSlice seq offset length).first
        ((bufferSlice seq offset length).last - (bufferSlice seq offset length).first)).map
        ((sliceOf seq offset length).trim seq) =
      sliceTrims (between seq.deref (sliceOf seq offset length).first
          ((sliceOf seq offset length).last - (sliceOf seq offset length).first))
        (sliceOf seq offset length).frontSkip (sliceOf seq offset length).backSkip := by
  have hle : (sliceOf seq offset length).first ≤ (sliceOf seq offset length).last :=
    (cut_sliceOf seq offset.isLt length.isLt).first_le_last
  have htrim := map_trim (sliceOf seq offset length) seq
    ((sliceOf seq offset length).last - (sliceOf seq offset length).first)
    (sliceOf seq offset length).first (Nat.le_refl _) (by omega)
  rwa [if_pos rfl] at htrim

theorem fits_bufferSlice {cur : Nat} (hfirst : (bufferSlice seq offset length).first ≤ cur)
    (hlast : cur < (bufferSlice seq offset length).last) :
    ((sliceOf seq offset length).trim seq cur).Fits := by
  apply (cut_sliceOf seq offset.isLt length.isLt).fits
  rw [← map_trim_sliceOf]
  exact List.mem_map_of_mem (List.mem_range'_1.mpr ⟨hfirst, by omega⟩)

theorem flatten_bufferSlice :
    flatten (bufferSlice seq offset length).buffers =
      cut length ((flatten seq.buffers).drop offset) := by
  have hbuffers : (bufferSlice seq offset length).buffers =
      Buffers.sliceOf (between seq.deref (sliceOf seq offset length).first
          ((sliceOf seq offset length).last - (sliceOf seq offset length).first))
        (sliceOf seq offset length).frontSkip (sliceOf seq offset length).backSkip := by
    rw [sliceOf_eq_map, ← map_trim_sliceOf, List.map_map]
    rfl
  rw [hbuffers, (cut_sliceOf seq offset.isLt length.isLt).bytes]
  rfl

end Slice

theorem cut_eq_take {α : Type} {length : Nat} {bytes : List α} (h : bytes.length < sizeValues) :
    cut length bytes = bytes.take length := by
  unfold cut
  split_ifs with hmax
  · rw [List.take_of_length_le (by rw [hmax]; unfold sizeMax; omega)]
  · rfl

/-- The single-buffer path shows the bytes that the general one does. -/
theorem bytes_bufferSliceSingle (b : Buffer) (offset length : Fin sizeValues) :
    (bufferSliceSingle b offset length).bytes = cut length (b.bytes.drop offset) := by
  have hlength : (b.bytes.drop offset).length < sizeValues := by
    rw [List.length_drop, Buffer.length_bytes]
    exact Nat.lt_of_le_of_lt (Nat.sub_le ..) b.size_lt
  rw [cut_eq_take hlength, ← Buffer.bytes_advance]
  simp only [bufferSliceSingle]
  split_ifs with hless
  · rw [Buffer.bytes, Buffer.bytes, List.take_range'_of_length_ge (Nat.le_of_lt hless)]
  · rw [List.take_of_length_le (by rw [Buffer.length_bytes]; omega)]

/-- The length of a slice of a slice: a slice to the end sets no bound. -/
def nestedLength (l1 o2 l2 : Nat) : Nat := if l1 = sizeMax then l2 else min l2 (l1 - o2)

theorem cut_drop_cut {α : Type} (bytes : List α) {l1 o2 l2 : Nat} (h1 : l1 < sizeValues)
    (h2 : l2 < sizeValues) :
    cut l2 ((cut l1 bytes).drop o2) = cut (nestedLength l1 o2 l2) (bytes.drop o2) := by
  have hmax : sizeMax + 1 = sizeValues := by decide
  rcases eq_or_ne l1 sizeMax with hto | hbounded
  · simp only [nestedLength, cut, if_pos hto]
  · have hinner : (cut l1 bytes).drop o2 = (bytes.drop o2).take (l1 - o2) := by
      rw [cut, if_neg hbounded, List.drop_take]
    have hlength : nestedLength l1 o2 l2 = min l2 (l1 - o2) := if_neg hbounded
    have hne : min l2 (l1 - o2) ≠ sizeMax := by omega
    rw [hinner, hlength, cut, cut, if_neg hne]
    split_ifs with hto
    · rw [Nat.min_eq_right (by omega)]
    · rw [List.take_take]

theorem flatten_nested (seq : Sequence) (o1 l1 o2 l2 : Fin sizeValues) :
    flatten (bufferSlice (bufferSlice seq o1 l1) o2 l2).buffers =
      cut (nestedLength l1 o2 l2) ((flatten seq.buffers).drop (o1 + o2)) := by
  rw [flatten_bufferSlice, flatten_bufferSlice, cut_drop_cut _ l1.isLt l2.isLt, List.drop_drop]

theorem nestedLength_lt (l1 o2 l2 : Fin sizeValues) : nestedLength l1 o2 l2 < sizeValues := by
  unfold nestedLength
  split_ifs
  · exact l2.isLt
  · exact Nat.lt_of_le_of_lt (Nat.min_le_left ..) l2.isLt

theorem buffer_slice_is_exact (seq : Sequence) (offset length : Fin sizeValues) :
    (∃ steps bufs,
      (bufferSlice seq offset length).forward steps (bufferSlice seq offset length).first =
        some bufs ∧
      flatten bufs = cut length ((flatten seq.buffers).drop offset) ∧
      (bufferSlice seq offset length).backward steps (bufferSlice seq offset length).last =
        some bufs.reverse) ∧
      (∀ cur, (bufferSlice seq offset length).first ≤ cur →
        cur < (bufferSlice seq offset length).last →
        ((sliceOf seq offset length).trim seq cur).front +
            ((sliceOf seq offset length).trim seq cur).back ≤ (seq.deref cur).size) ∧
      (∀ b, (bufferSliceSingle b offset length).bytes =
        flatten (bufferSlice (.ofList [b]) offset length).buffers) ∧
      ∀ o2 l2, flatten (bufferSlice (bufferSlice seq offset length) o2 l2).buffers =
          cut (nestedLength length o2 l2) ((flatten seq.buffers).drop (offset + o2)) ∧
        ∀ h : (offset : Nat) + o2 < sizeValues,
          flatten (bufferSlice (bufferSlice seq offset length) o2 l2).buffers =
            flatten (bufferSlice seq ⟨offset + o2, h⟩
              ⟨nestedLength length o2 l2, nestedLength_lt length o2 l2⟩).buffers := by
  have hle := (bufferSlice seq offset length).first_le_last
  refine ⟨⟨_, (bufferSlice seq offset length).buffers,
    Sequence.forward_eq _ hle (Nat.lt_succ_self _), flatten_bufferSlice seq offset length,
    Sequence.backward_eq _ hle (Nat.lt_succ_self _)⟩, ?_, ?_, ?_⟩
  · intro cur hfirst hlast
    exact fits_bufferSlice seq offset length hfirst hlast
  · intro b
    rw [bytes_bufferSliceSingle, flatten_bufferSlice, Sequence.buffers_ofList, flatten_cons,
      flatten_nil, List.append_nil]
  · intro o2 l2
    refine ⟨flatten_nested seq offset length o2 l2, fun h => ?_⟩
    rw [flatten_nested, flatten_bufferSlice]

end Capy.BufferSlice
