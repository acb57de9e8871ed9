import Mathlib.Algebra.GroupWithZero.Nat
import Mathlib.Data.List.Nodup
import Mathlib.Logic.Function.Basic

/-!
The recycling memory resource: `recycling_memory_resource.hpp` and its source
file. What a thread does to its own pool is one step, and so is what it does to
the global pool under the mutex, each call of `::operator new` and each call of
`::operator delete`.
-/

namespace Capy.RecyclingPool

open Function

def numClasses : Nat := 6

def minClassSize : Nat := 64

def bucketCapacity : Nat := 16

/-- `std::bit_ceil` of a number above one. -/
def bitCeil (n : Nat) : Nat := 2 ^ ((n - 1).log2 + 1)

/-- `std::countr_zero` of a 64-bit number. -/
def countrZero (n : Nat) : Nat := ((List.range 64).find? n.testBit).getD 64

def roundUpPow2 (n : Nat) : Nat := if n ≤ minClassSize then minClassSize else bitCeil n

def getClassIndex (rounded : Nat) : Nat :=
  let idx := countrZero rounded - 6
  if idx < numClasses then idx else numClasses

/-- The size class of a request. -/
def classOf (bytes : Nat) : Nat := getClassIndex (roundUpPow2 bytes)

/-- The size of the blocks of a class. -/
def classSize (idx : Nat) : Nat := 2 ^ (idx + 6)

theorem countrZero_two_pow {k : Nat} (hk : k < 64) : countrZero (2 ^ k) = k := by
  have hfind : (List.range 64).find? (2 ^ k).testBit = some k := by
    rw [List.find?_range_eq_some]
    refine ⟨by simp, by simpa using hk, fun j hj => ?_⟩
    simp [Nat.ne_of_gt hj]
  rw [countrZero, hfind]
  rfl

theorem roundUpPow2_spec {n : Nat} (hn : n ≤ 2 ^ 63) :
    ∃ k, 6 ≤ k ∧ k < 64 ∧ roundUpPow2 n = 2 ^ k ∧ n ≤ 2 ^ k := by
  unfold roundUpPow2
  split_ifs with hmin
  · exact ⟨6, by omega, by omega, rfl, hmin⟩
  · have hne : n - 1 ≠ 0 := by simp only [minClassSize] at hmin; omega
    refine ⟨(n - 1).log2 + 1, ?_, ?_, rfl, ?_⟩
    · have hlog : 6 ≤ (n - 1).log2 := (Nat.le_log2 hne).mpr (by
        simp only [minClassSize] at hmin
        omega)
      omega
    · have hlog : (n - 1).log2 < 63 := (Nat.log2_lt hne).mpr (by omega)
      omega
    · have := @Nat.lt_log2_self (n - 1)
      omega

theorem getClassIndex_two_pow {k : Nat} (hk : k < 64) :
    getClassIndex (2 ^ k) = if k - 6 < numClasses then k - 6 else numClasses := by
  simp only [getClassIndex, countrZero_two_pow hk]

theorem roundUpPow2_of_class {n : Nat} (hn : n ≤ 2 ^ 63) (hclass : classOf n < numClasses) :
    roundUpPow2 n = classSize (classOf n) := by
  obtain ⟨k, hlow, hhigh, hround, -⟩ := roundUpPow2_spec hn
  have hidx := getClassIndex_two_pow hhigh
  rw [classOf, hround] at hclass ⊢
  split_ifs at hidx with hlt
  · rw [hidx, classSize]
    congr 1
    omega
  · omega

theorem le_classSize {n : Nat} (hn : n ≤ 2 ^ 63) (hclass : classOf n < numClasses) :
    n ≤ classSize (classOf n) := by
  obtain ⟨k, -, -, hround, hle⟩ := roundUpPow2_spec hn
  rw [← roundUpPow2_of_class hn hclass, hround]
  exact hle

structure Bucket where
  count : Nat
  ptrs : Nat → Nat

def Bucket.empty : Bucket := ⟨0, fun _ => 0⟩

def Bucket.pop (b : Bucket) : Option (Bucket × Nat) :=
  if b.count = 0 then none else some ({ b with count := b.count - 1 }, b.ptrs (b.count - 1))

/-- The bulk `pop(bucket& b)`: all blocks but the last go to the other bucket. -/
def Bucket.popInto (src b : Bucket) : Option (Bucket × Bucket × Nat) :=
  if src.count = 0 then none
  else
    let ptrs := (List.range src.count).foldl (fun ps i => update ps i (src.ptrs i)) b.ptrs
    some ({ src with count := 0 }, ⟨src.count - 1, ptrs⟩, ptrs (src.count - 1))

def Bucket.push (b : Bucket) (p : Nat) : Option Bucket :=
  if bucketCapacity ≤ b.count then none
  else some ⟨b.count + 1, update b.ptrs b.count p⟩

/-- The cached blocks. -/
def Bucket.slots (b : Bucket) : List Nat := (List.range b.count).map b.ptrs

@[simp]
theorem Bucket.length_slots (b : Bucket) : b.slots.length = b.count := by
  simp [Bucket.slots]

theorem Bucket.slots_eq_nil {b : Bucket} : b.slots = [] ↔ b.count = 0 := by
  simp [← List.length_eq_zero_iff]

theorem Bucket.slots_pop {b b' : Bucket} {p : Nat} (h : b.pop = some (b', p)) :
    b.slots = b'.slots ++ [p] := by
  simp only [Bucket.pop, Option.ite_none_left_eq_some, Option.some.injEq, Prod.mk.injEq] at h
  obtain ⟨hcount, rfl, rfl⟩ := h
  obtain ⟨n, hn⟩ : ∃ n, b.count = n + 1 := ⟨b.count - 1, by omega⟩
  simp [Bucket.slots, hn, List.range_succ]

theorem Bucket.slots_push {b b' : Bucket} {p : Nat} (h : b.push p = some b') :
    b'.slots = b.slots ++ [p] ∧ b'.count ≤ bucketCapacity := by
  simp only [Bucket.push, Option.ite_none_left_eq_some, Option.some.injEq] at h
  obtain ⟨hcount, rfl⟩ := h
  refine ⟨?_, by simp only; omega⟩
  simp only [Bucket.slots, List.range_succ, List.map_append, List.map_cons, List.map_nil,
    update_self]
  congr 1
  refine List.map_congr_left fun i hi => update_of_ne ?_ ..
  exact Nat.ne_of_lt (List.mem_range.mp hi)

theorem foldl_copy (src dst : Nat → Nat) (n : Nat) :
    (List.range n).foldl (fun ps i => update ps i (src i)) dst =
      fun j => if j < n then src j else dst j := by
  induction n with
  | zero => simp
  | succ n ih =>
      rw [List.range_succ, List.foldl_append, ih]
      funext j
      simp only [List.foldl_cons, List.foldl_nil, update_apply]
      split_ifs with hj hlt hlt <;> first | rfl | omega | (subst hj; rfl)

theorem Bucket.slots_popInto {src src' b b' : Bucket} {p : Nat}
    (h : src.popInto b = some (src', b', p)) :
    src.slots = b'.slots ++ [p] ∧ src'.slots = [] := by
  simp only [Bucket.popInto, Option.ite_none_left_eq_some, Option.some.injEq,
    Prod.mk.injEq] at h
  obtain ⟨hcount, rfl, rfl, rfl⟩ := h
  refine ⟨?_, rfl⟩
  obtain ⟨n, hn⟩ : ∃ n, src.count = n + 1 := ⟨src.count - 1, by omega⟩
  simp only [Bucket.slots, foldl_copy]
  simp only [hn, Nat.add_sub_cancel, List.range_succ, List.map_append, List.map_cons,
    List.map_nil, Nat.lt_succ_self, if_true]
  congr 1
  refine List.map_congr_left fun i hi => ?_
  rw [if_pos (Nat.lt_succ_of_lt (List.mem_range.mp hi))]

/-- What a thread is doing: nothing, or inside a call that has left its fast
path. `opNew` keeps the requested size and the size of the block. -/
inductive Pc where
  | idle
  | allocateSlow (bytes : Nat)
  | opNew (bytes size : Nat)
  | deallocateSlow (p idx : Nat)
  | opDelete (p : Nat)
  deriving DecidableEq

/-- The thread-local flags of a thread: whether its janitor is constructed,
`pool_drained` and `thread_armed()`. -/
structure Thread where
  janitor : Bool := false
  poolDrained : Bool := false
  armed : Bool := false
  pc : Pc := .idle

/-- A pool belongs to a thread or is the global one. -/
inductive Owner where
  | thread (t : Nat)
  | global
  deriving DecidableEq

/-- The threads, the buckets of all pools, the sizes of the blocks that
`::operator new` returned and that are not deleted, and the requested sizes of
the blocks that callers hold. -/
structure Pool where
  threads : Nat → Thread
  buckets : Owner → Nat → Bucket
  blocks : Nat → Option Nat
  live : Nat → Option Nat

def newPool : Pool := ⟨fun _ => {}, fun _ _ => .empty, fun _ => none, fun _ => none⟩

def Pool.setThread (s : Pool) (t : Nat) (x : Thread) : Pool :=
  { s with threads := update s.threads t x }

def Pool.setPc (s : Pool) (t : Nat) (pc : Pc) : Pool :=
  s.setThread t { s.threads t with pc := pc }

def Pool.setBucket (s : Pool) (o : Owner) (idx : Nat) (b : Bucket) : Pool :=
  { s with buckets := update s.buckets o (update (s.buckets o) idx b) }

/-- The call returns the block to its caller. -/
def Pool.handOut (s : Pool) (p bytes : Nat) : Pool :=
  { s with live := update s.live p (some bytes) }

/-- `::operator delete`. -/
def Pool.free (s : Pool) (p : Nat) : Pool := { s with blocks := update s.blocks p none }

/-- `arm_thread_cleanup`: the new flags and whether the local pool can be used. -/
def armThreadCleanup (x : Thread) : Thread × Bool :=
  if x.poolDrained then (x, false) else ({ x with janitor := true }, true)

def allocateFast (s : Pool) (t bytes : Nat) : Pool :=
  let idx := classOf bytes
  if numClasses ≤ idx then s.setPc t (.opNew bytes bytes)
  else
    match (s.buckets (.thread t) idx).pop with
    | some (b, p) => (s.setBucket (.thread t) idx b).handOut p bytes
    | none => s.setPc t (.allocateSlow bytes)

/-- `allocate_slow` up to the end of its critical section. -/
def allocateSlow (s : Pool) (t bytes : Nat) : Pool :=
  let idx := classOf bytes
  let (x, cache) := armThreadCleanup (s.threads t)
  let opNew := Pc.opNew bytes (roundUpPow2 bytes)
  if cache then
    match (s.buckets .global idx).popInto (s.buckets (.thread t) idx) with
    | some (src, b, p) =>
        (((s.setThread t { x with pc := .idle }).setBucket .global idx src).setBucket
          (.thread t) idx b).handOut p bytes
    | none => s.setThread t { x with pc := opNew }
  else
    match (s.buckets .global idx).pop with
    | some (src, p) =>
        ((s.setThread t { x with pc := .idle }).setBucket .global idx src).handOut p bytes
    | none => s.setThread t { x with pc := opNew }

/-- `deallocate_fast` of a block that its caller has given up. -/
def deallocateFast (s : Pool) (t p bytes : Nat) : Pool :=
  let idx := classOf bytes
  if numClasses ≤ idx then s.free p
  else
    let x := s.threads t
    let (x, cache) := if x.armed then (x, true) else armThreadCleanup x
    if cache then
      match (s.buckets (.thread t) idx).push p with
      | some b => (s.setThread t { x with armed := true }).setBucket (.thread t) idx b
      | none => s.setThread t { x with armed := true, pc := .deallocateSlow p idx }
    else s.setThread t { x with pc := .deallocateSlow p idx }

/-- `deallocate_slow` up to the end of its critical section. -/
def deallocateSlow (s : Pool) (t p idx : Nat) : Pool :=
  match (s.buckets .global idx).push p with
  | some b => (s.setPc t .idle).setBucket .global idx b
  | none => s.setPc t (.opDelete p)

/-- The blocks that the thread has cached. -/
def cached (s : Pool) (t : Nat) : List Nat :=
  (List.range numClasses).flatMap fun idx => (s.buckets (.thread t) idx).slots

/-- `~janitor`. -/
def runJanitor (s : Pool) (t : Nat) : Pool where
  threads := update s.threads t { s.threads t with poolDrained := true, armed := false }
  buckets := update s.buckets (.thread t) fun idx =>
    if idx < numClasses then { s.buckets (.thread t) idx with count := 0 }
    else s.buckets (.thread t) idx
  blocks p := if p ∈ cached s t then none else s.blocks p
  live := s.live

/-- `advance` goes on with the call that a thread is in; where that calls
`::operator new`, it returns the given block or throws. -/
inductive Event where
  | allocate (t bytes : Nat)
  | deallocate (t p bytes : Nat)
  | advance (t : Nat) (fresh : Option Nat)
  | exit (t : Nat)

def advance (s : Pool) (t : Nat) (fresh : Option Nat) : Option Pool :=
  match (s.threads t).pc with
  | .idle => none
  | .allocateSlow bytes => some (allocateSlow s t bytes)
  | .opNew bytes size =>
      match fresh with
      | none => some (s.setPc t .idle)
      | some p =>
          if s.blocks p = none then
            some (({ s with blocks := update s.blocks p (some size) }.setPc t .idle).handOut
              p bytes)
          else none
  | .deallocateSlow p idx => some (deallocateSlow s t p idx)
  | .opDelete p => some ((s.setPc t .idle).free p)

def step (s : Pool) : Event → Option Pool
  | .allocate t bytes =>
      if (s.threads t).pc = .idle ∧ bytes ≤ 2 ^ 63 then some (allocateFast s t bytes) else none
  | .deallocate t p bytes =>
      -- the caller holds the block and gives it up
      if (s.threads t).pc = .idle ∧ s.live p = some bytes then
        some (deallocateFast { s with live := update s.live p none } t p bytes)
      else none
  | .advance t fresh => advance s t fresh
  | .exit t =>
      if (s.threads t).pc = .idle ∧ (s.threads t).janitor ∧ ¬ (s.threads t).poolDrained then
        some (runJanitor s t)
      else none

inductive Reachable : Pool → Prop
  | new : Reachable newPool
  | step {s s' e} : Reachable s → step s e = some s' → Reachable s'

end Capy.RecyclingPool
