import Capy.Buffers

namespace Capy.BufferCopy

open Buffers

/-- The bytes of memory, by address. -/
abbrev Memory := Nat → UInt8

/-- `std::memcpy`. -/
def memcpy (mem : Memory) (dest src n : Nat) : Memory := fun a =>
  if dest ≤ a ∧ a < dest + n then mem (src + (a - dest)) else mem a

/-- The variables of the loop; `it0` and `it1` are what is left of the source
and of the destination. -/
structure Copy where
  mem : Memory
  total : Nat
  pos0 : Nat
  pos1 : Nat
  it0 : List Buffer
  it1 : List Buffer

/-- The bytes that one round of the loop copies. -/
def amount (atMost total : Nat) (b0 b1 : Buffer) : Nat :=
  let n := b0.size
  let n := if n > b1.size then b1.size else n
  if n > sizeSub atMost total then sizeSub atMost total else n

/-- One round of the loop, at buffers `b0` and `b1` with `rest0` and `rest1`
after them. -/
def copyRound (atMost : Nat) (s : Copy) (b0 : Buffer) (rest0 : List Buffer) (b1 : Buffer)
    (rest1 : List Buffer) : Copy :=
  let b0' := b0.advance s.pos0
  let b1' := b1.advance s.pos1
  let n := amount atMost s.total b0' b1'
  { mem := if n ≠ 0 then memcpy s.mem b1'.data b0'.data n else s.mem
    total := (s.total + n) % sizeValues
    pos0 := if n = b0'.size then 0 else (s.pos0 + n) % sizeValues
    pos1 := if n = b1'.size then 0 else (s.pos1 + n) % sizeValues
    it0 := if n = b0'.size then rest0 else b0 :: rest0
    it1 := if n = b1'.size then rest1 else b1 :: rest1 }

/-- The loop; `none` when the steps run out. -/
def copyLoop (atMost : Nat) : Nat → Copy → Option (Nat × Memory)
  | 0, _ => none
  | steps + 1, s =>
      match s.it0, s.it1 with
      | b0 :: rest0, b1 :: rest1 =>
          if s.total < atMost then copyLoop atMost steps (copyRound atMost s b0 rest0 b1 rest1)
          else some (s.total, s.mem)
      | _, _ => some (s.total, s.mem)

/-- `buffer_copy(dest, src, at_most)`, with the result and the memory after it. -/
def bufferCopy (steps : Nat) (mem : Memory) (dest src : List Buffer) (atMost : Nat) :
    Option (Nat × Memory) :=
  copyLoop atMost steps ⟨mem, 0, 0, 0, src, dest⟩

/-- The first `n` addresses of `dest` hold what the first `n` of `src` held, and
the rest of memory is as it was. -/
structure Copied (before after : Memory) (dest src : List Nat) (n : Nat) : Prop where
  bytes : (dest.take n).map after = (src.take n).map before
  frame : ∀ a, a ∉ dest.take n → after a = before a

theorem memcpy_of_notMem (mem : Memory) {dest src n a : Nat} (h : a ∉ List.range' dest n) :
    memcpy mem dest src n a = mem a := by
  unfold memcpy
  rw [if_neg]
  rintro ⟨hle, hlt⟩
  exact h (List.mem_range'_1.mpr ⟨hle, hlt⟩)

theorem map_memcpy (mem : Memory) (dest src n : Nat) :
    (List.range' dest n).map (memcpy mem dest src n) = (List.range' src n).map mem := by
  apply List.ext_getElem
  · simp
  · intro i hi hi'
    have hin : i < n := by simpa using hi
    simp [memcpy, hin]

theorem Copied.refl (mem : Memory) (dest src : List Nat) : Copied mem mem dest src 0 :=
  ⟨rfl, fun _ _ => rfl⟩

theorem Copied.memcpy {before after : Memory} {dest src : List Nat} {total d s n : Nat}
    (h : Copied before after dest src total) (hnodup : dest.Nodup)
    (hdisjoint : ∀ a ∈ dest, a ∉ src) (hd : (dest.drop total).take n = List.range' d n)
    (hs : (src.drop total).take n = List.range' s n) :
    Copied before (BufferCopy.memcpy after d s n) dest src (total + n) := by
  have hdest : dest.take (total + n) = dest.take total ++ List.range' d n := by
    rw [List.take_add, hd]
  have hsrc : src.take (total + n) = src.take total ++ List.range' s n := by
    rw [List.take_add, hs]
  have hold : ∀ a ∈ dest.take total, a ∉ List.range' d n := by
    have happart := (hdest ▸ hnodup.sublist (List.take_sublist ..) :
      (dest.take total ++ List.range' d n).Nodup)
    intro a ha ha'
    exact (List.nodup_append.mp happart).2.2 a ha a ha' rfl
  have hread : ∀ a ∈ List.range' s n, after a = before a := by
    intro a ha
    apply h.frame
    intro hdest'
    have hsrc' : a ∈ src := List.mem_of_mem_drop (List.mem_of_mem_take (hs.symm ▸ ha))
    exact hdisjoint a (List.mem_of_mem_take hdest') hsrc'
  refine ⟨?_, fun a ha => ?_⟩
  · rw [hdest, hsrc, List.map_append, List.map_append, map_memcpy]
    congr 1
    · rw [← h.bytes]
      exact List.map_congr_left fun a ha => memcpy_of_notMem after (hold a ha)
    · exact List.map_congr_left hread
  · rw [hdest, List.mem_append, not_or] at ha
    rw [memcpy_of_notMem after ha.2, h.frame a ha.1]

/-- A cursor `it`, `pos` that has `total` bytes of `bytes` behind it. -/
structure Ahead (bytes : List Nat) (total : Nat) (it : List Buffer) (pos : Nat) : Prop where
  total_le : total ≤ bytes.length
  pos_le : ∀ b ∈ it.head?, pos ≤ b.size
  ahead : (flatten it).drop pos = bytes.drop total

theorem Ahead.start (bufs : List Buffer) : Ahead (flatten bufs) 0 bufs 0 :=
  ⟨Nat.zero_le _, fun _ _ => Nat.zero_le _, rfl⟩

theorem Ahead.eq_length {bytes : List Nat} {total pos : Nat} (h : Ahead bytes total [] pos) :
    total = bytes.length := by
  have hnil : bytes.drop total = [] := by
    rw [← h.ahead]
    simp
  have hle := List.drop_eq_nil_iff.mp hnil
  have := h.total_le
  omega

section Cursor

variable {bytes : List Nat} {total pos : Nat} {b : Buffer} {rest : List Buffer}

theorem Ahead.drop_eq (h : Ahead bytes total (b :: rest) pos) :
    bytes.drop total = (b.advance pos).bytes ++ flatten rest := by
  have hpos : pos ≤ b.size := h.pos_le b rfl
  rw [← h.ahead, flatten_cons, List.drop_append_of_le_length (by simpa using hpos),
    Buffer.bytes_advance]

theorem Ahead.take_eq (h : Ahead bytes total (b :: rest) pos) {n : Nat}
    (hn : n ≤ (b.advance pos).size) :
    (bytes.drop total).take n = List.range' (b.advance pos).data n := by
  rw [h.drop_eq, List.take_append_of_le_length (by simpa using hn), Buffer.bytes,
    List.take_range'_of_length_ge hn]

theorem Ahead.step (h : Ahead bytes total (b :: rest) pos) {n : Nat}
    (hn : n ≤ (b.advance pos).size) :
    Ahead bytes (total + n) (if n = (b.advance pos).size then rest else b :: rest)
      (if n = (b.advance pos).size then 0 else (pos + n) % sizeValues) := by
  have hpos : pos ≤ b.size := h.pos_le b rfl
  have hsize : (b.advance pos).size = b.size - pos := by
    simp [Buffer.advance, Nat.not_lt.mpr hpos]
  have hlt := b.size_lt
  have hlength : bytes.length - total = (b.advance pos).size + totalSize rest := by
    rw [← List.length_drop, h.drop_eq, List.length_append, Buffer.length_bytes, length_flatten]
  have hle := h.total_le
  split_ifs with hall
  · refine ⟨by omega, fun _ _ => Nat.zero_le _, ?_⟩
    rw [List.drop_zero, ← List.drop_drop, h.drop_eq, List.drop_left' (by simp [hall])]
  · have hmod : (pos + n) % sizeValues = pos + n := Nat.mod_eq_of_lt (by omega)
    refine ⟨by omega, ?_, ?_⟩
    · rintro b' hb'
      obtain rfl := Option.some.inj hb'
      omega
    · rw [hmod, ← List.drop_drop, h.ahead, List.drop_drop]

end Cursor

/-- Where the loop is: both cursors have the bytes copied behind them. -/
structure Reached (before : Memory) (dest src : List Buffer) (atMost : Nat) (s : Copy) :
    Prop where
  total_le : s.total ≤ atMost
  source : Ahead (flatten src) s.total s.it0 s.pos0
  destination : Ahead (flatten dest) s.total s.it1 s.pos1
  copied : Copied before s.mem (flatten dest) (flatten src) s.total

theorem amount_eq {atMost total : Nat} (hmost : atMost < sizeValues) (htotal : total ≤ atMost)
    (b0 b1 : Buffer) : amount atMost total b0 b1 = min (min b0.size b1.size) (atMost - total) := by
  simp only [amount, sizeSub_of_le hmost htotal]
  split_ifs <;> omega

/-- What is left to do: every round uses up a buffer or reaches the limit. -/
def roundsLeft (atMost : Nat) (s : Copy) : Nat :=
  s.it0.length + s.it1.length + if s.total < atMost then 1 else 0

section Round

variable {before : Memory} {dest src : List Buffer} {atMost : Nat} {s : Copy}
variable {b0 b1 : Buffer} {rest0 rest1 : List Buffer}

theorem Reached.round (h : Reached before dest src atMost s) (hmost : atMost < sizeValues)
    (hnodup : (flatten dest).Nodup) (hdisjoint : ∀ a ∈ flatten dest, a ∉ flatten src)
    (h0 : s.it0 = b0 :: rest0) (h1 : s.it1 = b1 :: rest1) :
    Reached before dest src atMost (copyRound atMost s b0 rest0 b1 rest1) := by
  obtain ⟨hle, hsrc, hdest, hcopied⟩ := h
  rw [h0] at hsrc
  rw [h1] at hdest
  have hamount := amount_eq hmost hle (b0.advance s.pos0) (b1.advance s.pos1)
  simp only [copyRound]
  generalize hn : amount atMost s.total (b0.advance s.pos0) (b1.advance s.pos1) = n at hamount ⊢
  have hn0 : n ≤ (b0.advance s.pos0).size := by omega
  have hn1 : n ≤ (b1.advance s.pos1).size := by omega
  have hmod : (s.total + n) % sizeValues = s.total + n := Nat.mod_eq_of_lt (by omega)
  refine ⟨?_, ?_, ?_, ?_⟩
  · simp only [hmod]
    omega
  · simpa only [hmod] using hsrc.step hn0
  · simpa only [hmod] using hdest.step hn1
  · simp only [hmod]
    split_ifs with hsome
    · exact hcopied.memcpy hnodup hdisjoint (hdest.take_eq hn1) (hsrc.take_eq hn0)
    · obtain rfl : n = 0 := by omega
      exact hcopied

theorem roundsLeft_round (h : Reached before dest src atMost s) (hmost : atMost < sizeValues)
    (hless : s.total < atMost) (h0 : s.it0 = b0 :: rest0) (h1 : s.it1 = b1 :: rest1) :
    roundsLeft atMost (copyRound atMost s b0 rest0 b1 rest1) < roundsLeft atMost s := by
  have hamount := amount_eq hmost h.total_le (b0.advance s.pos0) (b1.advance s.pos1)
  have hmod : (s.total + amount atMost s.total (b0.advance s.pos0) (b1.advance s.pos1)) %
      sizeValues = s.total + amount atMost s.total (b0.advance s.pos0) (b1.advance s.pos1) :=
    Nat.mod_eq_of_lt (by omega)
  simp only [roundsLeft, copyRound, h0, h1, if_pos hless, hmod]
  split_ifs <;> simp only [List.length_cons] <;> omega

end Round

/-- What `buffer_copy` gives: the result and the memory. -/
structure Result (before : Memory) (dest src : List Buffer) (atMost : Nat)
    (r : Nat × Memory) : Prop where
  total : r.1 = min (min (totalSize dest) (totalSize src)) atMost
  copied : Copied before r.2 (flatten dest) (flatten src) r.1

theorem copyLoop_spec {before : Memory} {dest src : List Buffer} {atMost : Nat}
    (hmost : atMost < sizeValues) (hnodup : (flatten dest).Nodup)
    (hdisjoint : ∀ a ∈ flatten dest, a ∉ flatten src) (steps : Nat) (s : Copy)
    (h : Reached before dest src atMost s) (hsteps : roundsLeft atMost s < steps) :
    ∃ r, copyLoop atMost steps s = some r ∧ Result before dest src atMost r := by
  induction steps generalizing s with
  | zero => omega
  | succ steps ih =>
      have hsrc := h.source.total_le
      have hdest := h.destination.total_le
      have hle := h.total_le
      rw [length_flatten] at hsrc hdest
      rw [copyLoop]
      split
      · rename_i b0 rest0 b1 rest1 h0 h1
        split_ifs with hless
        · have hround := roundsLeft_round h hmost hless h0 h1
          exact ih _ (h.round hmost hnodup hdisjoint h0 h1) (by omega)
        · exact ⟨_, rfl, by simp only; omega, h.copied⟩
      · rename_i hend
        refine ⟨_, rfl, ?_, h.copied⟩
        -- one of the two sequences is at its end
        rcases h0 : s.it0 with _ | ⟨b0, rest0⟩
        · have hall := (h0 ▸ h.source).eq_length
          rw [length_flatten] at hall
          simp only
          omega
        · rcases h1 : s.it1 with _ | ⟨b1, rest1⟩
          · have hall := (h1 ▸ h.destination).eq_length
            rw [length_flatten] at hall
            simp only
            omega
          · exact absurd h1 (hend b0 rest0 b1 rest1 h0)

theorem buffer_copy_copies_common_prefix (mem : Memory) (dest src : List Buffer) (atMost : Nat)
    (hmost : atMost < sizeValues) (hnodup : (flatten dest).Nodup)
    (hdisjoint : ∀ a ∈ flatten dest, a ∉ flatten src) :
    ∃ steps n mem', bufferCopy steps mem dest src atMost = some (n, mem') ∧
      n = min (min (totalSize dest) (totalSize src)) atMost ∧
      ((flatten dest).take n).map mem' = ((flatten src).take n).map mem ∧
      ∀ a, a ∉ (flatten dest).take n → mem' a = mem a := by
  have hreached : Reached mem dest src atMost ⟨mem, 0, 0, 0, src, dest⟩ :=
    ⟨Nat.zero_le _, Ahead.start src, Ahead.start dest, Copied.refl mem _ _⟩
  obtain ⟨⟨n, mem'⟩, hloop, htotal, hcopied⟩ :=
    copyLoop_spec hmost hnodup hdisjoint _ _ hreached (Nat.lt_succ_self _)
  exact ⟨_, n, mem', hloop, htotal, hcopied.bytes, hcopied.frame⟩

theorem buffer_copy_copies_common_prefix_at :
    ∃ steps mem', bufferCopy steps (fun a => UInt8.ofNat a)
        [⟨10, 2, by decide⟩, ⟨20, 0, by decide⟩, ⟨30, 4, by decide⟩]
        [⟨100, 3, by decide⟩, ⟨200, 5, by decide⟩] 4 = some (4, mem') ∧
      [10, 11, 30, 31].map mem' = [100, 101, 102, 200] := by
  obtain ⟨steps, n, mem', hrun, hn, hbytes, -⟩ :=
    buffer_copy_copies_common_prefix (fun a => UInt8.ofNat a)
      [⟨10, 2, by decide⟩, ⟨20, 0, by decide⟩, ⟨30, 4, by decide⟩]
      [⟨100, 3, by decide⟩, ⟨200, 5, by decide⟩] 4 (by decide) (by decide) (by decide)
  obtain rfl : n = 4 := hn
  exact ⟨steps, mem', hrun, hbytes⟩

end Capy.BufferCopy
