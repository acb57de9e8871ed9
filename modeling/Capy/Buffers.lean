import Mathlib.Algebra.GroupWithZero.Nat
import Mathlib.Data.List.Basic
import Mathlib.Algebra.BigOperators.Group.List.Basic

/-!
Buffers, buffer sequences and the cursor over them: `buffers.hpp`, the iteration
of `detail/slice_of.hpp` and `buffers/consuming_buffers.hpp`. A buffer sequence
is the list of its buffers, and a pair of iterators into it is the list of what
lies between them.
-/

namespace Capy.Buffers

/-- The number of values of `std::size_t`. -/
def sizeValues : Nat := 2 ^ 64

theorem sizeValues_pos : 0 < sizeValues := by decide

theorem one_lt_sizeValues : 1 < sizeValues := by decide

theorem two_lt_sizeValues : 2 < sizeValues := by decide

theorem four_lt_sizeValues : 4 < sizeValues := by decide

/-- `SIZE_MAX`. -/
def sizeMax : Nat := sizeValues - 1

theorem sizeMax_lt_sizeValues : sizeMax < sizeValues := by decide

/-- Subtraction of `std::size_t`, which wraps. -/
def sizeSub (a b : Nat) : Nat := (a + sizeValues - b % sizeValues) % sizeValues

theorem sizeSub_of_le {a b : Nat} (ha : a < sizeValues) (h : b ≤ a) :
    sizeSub a b = a - b := by
  unfold sizeSub
  rw [Nat.mod_eq_of_lt (Nat.lt_of_le_of_lt h ha), Nat.sub_add_comm h,
    Nat.add_mod_right, Nat.mod_eq_of_lt (by omega)]

/-- A `mutable_buffer` or `const_buffer`. -/
structure Buffer where
  data : Nat
  size : Nat
  size_lt : size < sizeValues
  deriving DecidableEq

/-- The addresses of the bytes of a buffer. -/
def Buffer.bytes (b : Buffer) : List Nat := List.range' b.data b.size

/-- `mutable_buffer::operator+=` and `const_buffer::operator+=`. -/
def Buffer.advance (b : Buffer) (n : Nat) : Buffer where
  data := b.data + if n > b.size then b.size else n
  size := b.size - if n > b.size then b.size else n
  size_lt := Nat.lt_of_le_of_lt (Nat.sub_le ..) b.size_lt

/-- The addresses of the bytes of a sequence, in order. -/
def flatten (bufs : List Buffer) : List Nat := bufs.flatMap Buffer.bytes

/-- `buffer_size`, which adds up in `std::size_t`. -/
def bufferSize (bufs : List Buffer) : Nat :=
  bufs.foldl (fun n b => (n + b.size) % sizeValues) 0

/-- `buffer_empty`. -/
def bufferEmpty (bufs : List Buffer) : Bool := bufs.all fun b => b.size = 0

/-- The total size in exact arithmetic. -/
def totalSize (bufs : List Buffer) : Nat := (bufs.map Buffer.size).sum

@[simp]
theorem Buffer.length_bytes (b : Buffer) : b.bytes.length = b.size := by
  simp [Buffer.bytes]

theorem Buffer.bytes_advance (b : Buffer) (n : Nat) : (b.advance n).bytes = b.bytes.drop n := by
  rw [Buffer.bytes, Buffer.bytes, List.drop_range', Nat.mul_one]
  simp only [Buffer.advance]
  split_ifs with h
  · rw [Nat.sub_self, Nat.sub_eq_zero_of_le (Nat.le_of_lt h)]
    rfl
  · rfl

@[simp]
theorem flatten_nil : flatten [] = [] := rfl

@[simp]
theorem flatten_cons (b : Buffer) (bufs : List Buffer) :
    flatten (b :: bufs) = b.bytes ++ flatten bufs := by
  simp [flatten]

@[simp]
theorem length_flatten (bufs : List Buffer) : (flatten bufs).length = totalSize bufs := by
  induction bufs with
  | nil => rfl
  | cons b bufs ih => simp [totalSize, ih]

theorem bufferSize_eq (bufs : List Buffer) : bufferSize bufs = totalSize bufs % sizeValues := by
  have hfold : ∀ n, bufs.foldl (fun n b => (n + b.size) % sizeValues) (n % sizeValues) =
      (n + totalSize bufs) % sizeValues := by
    intro n
    induction bufs generalizing n with
    | nil => simp [totalSize]
    | cons b bufs ih =>
        rw [List.foldl_cons, Nat.mod_add_mod, ih]
        simp [totalSize, Nat.add_assoc]
  simpa [bufferSize] using hfold 0

theorem bufferSize_lt (bufs : List Buffer) : bufferSize bufs < sizeValues := by
  rw [bufferSize_eq]
  exact Nat.mod_lt _ (by decide)

theorem bufferEmpty_iff (bufs : List Buffer) : bufferEmpty bufs = true ↔ totalSize bufs = 0 := by
  induction bufs with
  | nil => simp [bufferEmpty, totalSize]
  | cons b bufs ih =>
      simp only [bufferEmpty, totalSize, List.all_eq_true, decide_eq_true_eq] at ih
      simp [bufferEmpty, totalSize, ih]

theorem bufferSize_of_empty {bufs : List Buffer} (h : bufferEmpty bufs = true) :
    bufferSize bufs = 0 := by
  rw [bufferSize_eq, (bufferEmpty_iff bufs).mp h]
  rfl

/-- `slice_of::adjust`. -/
def adjust (b : Buffer) (front back : Nat) : Buffer where
  data := b.data + front
  size := sizeSub (sizeSub b.size front) back
  size_lt := Nat.mod_lt _ (by decide)

/-- What iterating a `slice_of` yields: the front bytes are trimmed from the
first buffer and the back bytes from the last one. -/
def sliceOf : List Buffer → Nat → Nat → List Buffer
  | [], _, _ => []
  | b :: rest, front, back =>
      adjust b front (if rest.isEmpty then back else 0) :: sliceOf rest 0 back

theorem bytes_adjust_front {b : Buffer} {front : Nat} (h : front ≤ b.size) :
    (adjust b front 0).bytes = b.bytes.drop front := by
  have hsub : sizeSub b.size front = b.size - front := sizeSub_of_le b.size_lt h
  have hlt : b.size - front < sizeValues := Nat.lt_of_le_of_lt (Nat.sub_le ..) b.size_lt
  have hsize : (adjust b front 0).size = b.size - front := by
    change sizeSub (sizeSub b.size front) 0 = b.size - front
    rw [hsub, sizeSub_of_le hlt (Nat.zero_le _), Nat.sub_zero]
  rw [Buffer.bytes, hsize, Buffer.bytes, List.drop_range', Nat.mul_one]
  rfl

theorem flatten_sliceOf {bufs : List Buffer} {front : Nat}
    (h : ∀ b ∈ bufs.head?, front ≤ b.size) :
    flatten (sliceOf bufs front 0) = (flatten bufs).drop front := by
  induction bufs generalizing front with
  | nil => simp [sliceOf]
  | cons b rest ih =>
      have hb : front ≤ b.size := h b (by simp)
      simp only [sliceOf, ite_self, flatten_cons]
      rw [bytes_adjust_front hb, ih (by simp), List.drop_zero,
        List.drop_append_of_le_length (by simpa using hb)]

/-- A `consuming_buffers`: the buffers from `first_` to `last_` and
`front_skip_`. -/
structure ConsumingBuffers where
  first : List Buffer
  frontSkip : Nat

def consumingBuffers (bufs : List Buffer) : ConsumingBuffers := ⟨bufs, 0⟩

def ConsumingBuffers.data (c : ConsumingBuffers) : List Buffer := sliceOf c.first c.frontSkip 0

/-- The loop of `consume`. -/
def consumeLoop : List Buffer → Nat → Nat → ConsumingBuffers
  | [], skip, _ => ⟨[], skip⟩
  | b :: rest, skip, n =>
      if n = 0 then ⟨b :: rest, skip⟩
      else
        let avail := sizeSub b.size skip
        if n < avail then ⟨b :: rest, (skip + n) % sizeValues⟩
        else consumeLoop rest 0 (sizeSub n avail)

def ConsumingBuffers.consume (c : ConsumingBuffers) (n : Nat) : ConsumingBuffers :=
  consumeLoop c.first c.frontSkip n

/-- The bytes trimmed from the first buffer are not all of it, or none. -/
def ConsumingBuffers.Valid (c : ConsumingBuffers) : Prop :=
  c.frontSkip = 0 ∨ ∃ b ∈ c.first.head?, c.frontSkip < b.size

theorem valid_consumingBuffers (bufs : List Buffer) : (consumingBuffers bufs).Valid := .inl rfl

theorem ConsumingBuffers.Valid.frontSkip_le {c : ConsumingBuffers} (h : c.Valid) :
    ∀ b ∈ c.first.head?, c.frontSkip ≤ b.size := by
  intro b hb
  rcases h with h | ⟨b', hb', h⟩
  · omega
  · obtain rfl : b' = b := Option.some.inj (hb'.symm.trans hb)
    omega

theorem flatten_data {c : ConsumingBuffers} (h : c.Valid) :
    flatten c.data = (flatten c.first).drop c.frontSkip :=
  flatten_sliceOf h.frontSkip_le

@[simp]
theorem flatten_data_consumingBuffers (bufs : List Buffer) :
    flatten (consumingBuffers bufs).data = flatten bufs := by
  rw [flatten_data (valid_consumingBuffers bufs)]
  simp [consumingBuffers]

theorem consumeLoop_spec (bufs : List Buffer) (skip n : Nat) (hn : n < sizeValues)
    (h : (ConsumingBuffers.mk bufs skip).Valid) :
    (consumeLoop bufs skip n).Valid ∧
      flatten (consumeLoop bufs skip n).data =
        (flatten (ConsumingBuffers.mk bufs skip).data).drop n := by
  induction bufs generalizing skip n with
  | nil => simp [consumeLoop, ConsumingBuffers.data, sliceOf, h]
  | cons b rest ih =>
      have hskip : skip ≤ b.size := h.frontSkip_le b rfl
      have havail : sizeSub b.size skip = b.size - skip := sizeSub_of_le b.size_lt hskip
      rw [flatten_data h, List.drop_drop]
      simp only [consumeLoop, havail]
      split_ifs with hzero hless
      · subst hzero
        exact ⟨h, by rw [flatten_data h, Nat.add_zero]⟩
      · have hsum : skip + n < b.size := by omega
        have hmod : (skip + n) % sizeValues = skip + n :=
          Nat.mod_eq_of_lt (Nat.lt_trans hsum b.size_lt)
        rw [hmod]
        have hvalid : (ConsumingBuffers.mk (b :: rest) (skip + n)).Valid := .inr ⟨b, rfl, hsum⟩
        exact ⟨hvalid, flatten_data hvalid⟩
      · -- the first buffer is used up
        have hle : b.size - skip ≤ n := by omega
        rw [sizeSub_of_le hn hle]
        obtain ⟨hvalid, hbytes⟩ := ih 0 (n - (b.size - skip)) (by omega) (.inl rfl)
        refine ⟨hvalid, ?_⟩
        have hused : b.bytes.drop (skip + n) = [] :=
          List.drop_eq_nil_of_le (by rw [Buffer.length_bytes]; omega)
        rw [hbytes, flatten_data (.inl rfl), List.drop_zero, flatten_cons, List.drop_append,
          hused, List.nil_append, Buffer.length_bytes]
        congr 1
        omega

theorem ConsumingBuffers.Valid.consume {c : ConsumingBuffers} (h : c.Valid) {n : Nat}
    (hn : n < sizeValues) : (c.consume n).Valid :=
  (consumeLoop_spec c.first c.frontSkip n hn h).1

theorem flatten_data_consume {c : ConsumingBuffers} (h : c.Valid) {n : Nat}
    (hn : n < sizeValues) : flatten (c.consume n).data = (flatten c.data).drop n :=
  (consumeLoop_spec c.first c.frontSkip n hn h).2

end Capy.Buffers
