import Mathlib.Data.List.Nodup
import Capy.CallStack

/-!
The invoker frame cache of `strand_service.cpp`: one atomic slot that is also the
closed flag, raced by `operator new` and `operator delete` of the invokers'
promise and by `shutdown`. Each access to the slot is one step, together with the
call of `::operator new` or `::operator delete` that follows it. All frames have
one size and are those of one service, so the trailer is left out.
-/

namespace Capy.StrandFrameCache

open Capy.CallStack

/-- A block from `::operator new`: its address and the number of blocks obtained
before it. The address of a block that was freed may come again. -/
structure Block where
  addr : Nat
  serial : Nat
  deriving DecidableEq

/-- A `void*`: null, `kCacheClosed` or a block. -/
inductive Pointer where
  | null
  | closed
  | block (b : Block)
  deriving DecidableEq

def Pointer.addr : Pointer → Nat
  | .null => 0
  | .closed => 1
  | .block b => b.addr

/-- The slot `invoker_frame_cache_`, the blocks obtained from `::operator new`, the
frames that are live (until `operator delete` comes to the slot), what was passed
to `::operator delete`, whether `shutdown` was called and whether it has stored the
closed marker. -/
structure Cache where
  slot : Pointer := .null
  obtained : List Block := []
  live : List Pointer := []
  freed : List Pointer := []
  shutdown : Bool := false
  closed : Bool := false
  deriving DecidableEq

/-- Where an activation stands, at its next access to the slot: `operator new` at
the load or at the compare-exchange of the address it saw, `operator delete` of a
frame, and `shutdown`. -/
inductive Pc where
  | newLoad
  | newExchange (p : Nat)
  | deleteExchange (p : Pointer)
  | shutdownExchange
  deriving DecidableEq

/-- Whether a weak compare-exchange fails spuriously, and what `::operator new`
returns, if it does not throw; steps that do not use them ignore them. -/
structure Choice where
  spurious : Bool
  fresh : Option Nat

/-- The address belongs to a block that has not been freed. -/
def Cache.InUse (s : Cache) (a : Nat) : Prop :=
  ∃ b ∈ s.obtained, b.addr = a ∧ .block b ∉ s.freed

instance (s : Cache) (a : Nat) : Decidable (s.InUse a) :=
  inferInstanceAs (Decidable (∃ b ∈ s.obtained, b.addr = a ∧ .block b ∉ s.freed))

/-- `::operator new` and the return of its block as a frame. It gives an address
that is not in use, nor null or the closed marker. -/
def newBlock (s : Cache) : Option Nat → Option (Cache × Option Pc)
  | none => some (s, none)
  | some a =>
      if a ≠ Pointer.null.addr ∧ a ≠ Pointer.closed.addr ∧ ¬ s.InUse a then
        some ({ s with
          obtained := s.obtained ++ [⟨a, s.obtained.length⟩]
          live := s.live ++ [.block ⟨a, s.obtained.length⟩] }, none)
      else none

/-- The condition of the loop of `operator new` when the slot was seen to hold the
address `p`, up to the next access. -/
def tryTake (s : Cache) (p : Nat) (fresh : Option Nat) : Option (Cache × Option Pc) :=
  if p ≠ Pointer.null.addr ∧ p ≠ Pointer.closed.addr then some (s, some (.newExchange p))
  else newBlock s fresh

def exec (s : Cache) : Pc → Choice → Option (Cache × Option Pc)
  | .newLoad, c => tryTake s s.slot.addr c.fresh
  | .newExchange p, c =>
      if s.slot.addr = p ∧ c.spurious = false then
        some ({ s with slot := .null, live := s.live ++ [s.slot] }, none)
      else tryTake s s.slot.addr c.fresh
  | .deleteExchange p, _ =>
      if s.slot = .null then
        some ({ s with slot := p, live := s.live.erase p }, none)
      else some ({ s with live := s.live.erase p, freed := s.freed ++ [p] }, none)
  | .shutdownExchange, _ =>
      some ({ s with
        slot := .closed
        closed := true
        freed := if s.slot = .null then s.freed else s.freed ++ [s.slot] }, none)

inductive Entry where
  | operatorNew
  | operatorDelete (p : Pointer)
  | shutdown
  deriving DecidableEq

/-- A live frame is deleted by one call, and the service shuts down once. -/
def enter (s : Cache) (fs : List (Frame Pc)) : Entry → Option (Cache × Option Pc)
  | .operatorNew => some (s, some .newLoad)
  | .operatorDelete p =>
      if p ∈ s.live ∧ ∀ f ∈ fs, f.pc ≠ .deleteExchange p then some (s, some (.deleteExchange p))
      else none
  | .shutdown =>
      if s.shutdown then none else some ({ s with shutdown := true }, some .shutdownExchange)

def machine : Machine Cache Pc Choice Entry :=
  Machine.ofSteps (fun _ => false) (fun s _ _ => exec s) (fun s fs _ => enter s fs)

def Initial (s : State Cache Pc) : Prop := s = ⟨{}, []⟩

def Reachable : State Cache Pc → Prop := machine.Reachable Initial

/-- How often a block is a live frame, in the slot or freed. -/
def Cache.places (s : Cache) (b : Block) : Nat :=
  s.live.count (.block b) + (if s.slot = .block b then 1 else 0) + s.freed.count (.block b)

/-- What holds of the cache between steps. -/
structure Sound (s : Cache) : Prop where
  once : ∀ b ∈ s.obtained, s.places b = 1
  live_block : ∀ p ∈ s.live, ∃ b ∈ s.obtained, p = .block b
  freed_block : ∀ p ∈ s.freed, ∃ b ∈ s.obtained, p = .block b
  slot_block : ∀ b, s.slot = .block b → b ∈ s.obtained
  serial_lt : ∀ b ∈ s.obtained, b.serial < s.obtained.length
  addr_ne : ∀ b ∈ s.obtained, b.addr ≠ 0 ∧ b.addr ≠ 1
  distinct : ∀ b ∈ s.obtained, ∀ b' ∈ s.obtained, .block b ∉ s.freed → .block b' ∉ s.freed →
    b.addr = b'.addr → b = b'
  slot_closed : s.slot = .closed ↔ s.closed = true
  closed_shutdown : s.closed = true → s.shutdown = true

/-- What holds of the calls in progress. -/
structure Calls (s : Cache) (fs : List (Frame Pc)) : Prop where
  exchanges : ∀ f ∈ fs, ∀ p, f.pc = .newExchange p → p ≠ 0 ∧ p ≠ 1
  deletes : ∀ f ∈ fs, ∀ p, f.pc = .deleteExchange p → p ∈ s.live
  delete_once : ∀ p, fs.countP (fun f => f.pc = .deleteExchange p) ≤ 1
  closes : ∀ f ∈ fs, f.pc = .shutdownExchange → s.shutdown = true ∧ s.closed = false
  close_once : fs.countP (fun f => f.pc = .shutdownExchange) ≤ 1

/-- What the step of an activation can be. -/
inductive Step (s : Cache) : Pc → Cache → Option Pc → Prop
  | look {pc} : pc = .newLoad ∨ (∃ p, pc = .newExchange p) → s.slot.addr ≠ 0 →
      s.slot.addr ≠ 1 → Step s pc s (some (.newExchange s.slot.addr))
  | throws {pc} : pc = .newLoad ∨ (∃ p, pc = .newExchange p) → Step s pc s none
  | obtains {pc} (a : Nat) : pc = .newLoad ∨ (∃ p, pc = .newExchange p) → a ≠ 0 → a ≠ 1 →
      ¬ s.InUse a →
      Step s pc { s with
        obtained := s.obtained ++ [⟨a, s.obtained.length⟩]
        live := s.live ++ [.block ⟨a, s.obtained.length⟩] } none
  | takes {p} : s.slot.addr = p →
      Step s (.newExchange p) { s with slot := .null, live := s.live ++ [s.slot] } none
  | parks {p} : s.slot = .null →
      Step s (.deleteExchange p) { s with slot := p, live := s.live.erase p } none
  | frees {p} : s.slot ≠ .null →
      Step s (.deleteExchange p) { s with
        live := s.live.erase p
        freed := s.freed ++ [p] } none
  | closes :
      Step s .shutdownExchange { s with
        slot := .closed
        closed := true
        freed := if s.slot = .null then s.freed else s.freed ++ [s.slot] } none

theorem step_of_tryTake {s s' : Cache} {pc : Pc} {fresh : Option Nat} {q : Option Pc}
    (hpc : pc = .newLoad ∨ ∃ p, pc = .newExchange p)
    (h : tryTake s s.slot.addr fresh = some (s', q)) : Step s pc s' q := by
  unfold tryTake at h
  split_ifs at h with hsome
  · obtain ⟨rfl, rfl⟩ := Prod.mk.inj (Option.some.inj h)
    exact .look hpc hsome.1 hsome.2
  · cases fresh with
    | none =>
        obtain ⟨rfl, rfl⟩ := Prod.mk.inj (Option.some.inj h)
        exact .throws hpc
    | some a =>
        simp only [newBlock, Option.ite_none_right_eq_some, Option.some.injEq,
          Prod.mk.injEq] at h
        obtain ⟨⟨hnull, hclosed, hfresh⟩, rfl, rfl⟩ := h
        exact .obtains a hpc hnull hclosed hfresh

theorem step_of_exec {s s' : Cache} {pc : Pc} {c : Choice} {q : Option Pc}
    (h : exec s pc c = some (s', q)) : Step s pc s' q := by
  cases pc with
  | newLoad => exact step_of_tryTake (.inl rfl) h
  | newExchange p =>
      simp only [exec] at h
      split_ifs at h with htake
      · obtain ⟨rfl, rfl⟩ := Prod.mk.inj (Option.some.inj h)
        exact .takes htake.1
      · exact step_of_tryTake (.inr ⟨p, rfl⟩) h
  | deleteExchange p =>
      simp only [exec] at h
      split_ifs at h with hnull
      · obtain ⟨rfl, rfl⟩ := Prod.mk.inj (Option.some.inj h)
        exact .parks hnull
      · obtain ⟨rfl, rfl⟩ := Prod.mk.inj (Option.some.inj h)
        exact .frees hnull
  | shutdownExchange =>
      simp only [exec, Option.some.injEq, Prod.mk.injEq] at h
      obtain ⟨rfl, rfl⟩ := h
      exact .closes

section Sound

variable {s : Cache}

theorem Sound.newBlock (h : Sound s) {a : Nat} (hnull : a ≠ 0) (hclosed : a ≠ 1)
    (hfresh : ¬ s.InUse a) :
    Sound { s with
      obtained := s.obtained ++ [⟨a, s.obtained.length⟩]
      live := s.live ++ [.block ⟨a, s.obtained.length⟩] } := by
  have hnew : ⟨a, s.obtained.length⟩ ∉ s.obtained := fun hmem =>
    Nat.lt_irrefl _ (h.serial_lt _ hmem)
  have hlive : .block ⟨a, s.obtained.length⟩ ∉ s.live := by
    intro hmem
    obtain ⟨b, hb, heq⟩ := h.live_block _ hmem
    exact hnew (Pointer.block.inj heq ▸ hb)
  have hfreed : .block ⟨a, s.obtained.length⟩ ∉ s.freed := by
    intro hmem
    obtain ⟨b, hb, heq⟩ := h.freed_block _ hmem
    exact hnew (Pointer.block.inj heq ▸ hb)
  constructor
  case once =>
    intro b hb
    rcases List.mem_append.mp hb with hb | hb
    · have hne : b ≠ ⟨a, s.obtained.length⟩ := fun heq => hnew (heq ▸ hb)
      have honce := h.once b hb
      simp only [Cache.places, List.count_append] at honce ⊢
      rw [List.count_singleton]
      simpa [hne.symm] using honce
    · obtain rfl := List.mem_singleton.mp hb
      have hslot : s.slot ≠ .block ⟨a, s.obtained.length⟩ := fun heq =>
        hnew (h.slot_block _ heq)
      simp [Cache.places, List.count_eq_zero_of_not_mem hlive,
        List.count_eq_zero_of_not_mem hfreed, hslot]
  case live_block =>
    intro p hp
    rcases List.mem_append.mp hp with hp | hp
    · obtain ⟨b, hb, rfl⟩ := h.live_block p hp
      exact ⟨b, List.mem_append_left _ hb, rfl⟩
    · obtain rfl := List.mem_singleton.mp hp
      exact ⟨_, List.mem_append_right _ (by simp), rfl⟩
  case freed_block =>
    intro p hp
    obtain ⟨b, hb, rfl⟩ := h.freed_block p hp
    exact ⟨b, List.mem_append_left _ hb, rfl⟩
  case slot_block => exact fun b hb => List.mem_append_left _ (h.slot_block b hb)
  case serial_lt =>
    intro b hb
    simp only [List.length_append, List.length_singleton]
    rcases List.mem_append.mp hb with hb | hb
    · exact Nat.lt_succ_of_lt (h.serial_lt b hb)
    · obtain rfl := List.mem_singleton.mp hb
      exact Nat.lt_succ_self _
  case addr_ne =>
    intro b hb
    rcases List.mem_append.mp hb with hb | hb
    · exact h.addr_ne b hb
    · obtain rfl := List.mem_singleton.mp hb
      exact ⟨hnull, hclosed⟩
  case distinct =>
    intro b hb b' hb' hn hn' haddr
    rcases List.mem_append.mp hb with hb | hb <;> rcases List.mem_append.mp hb' with hb' | hb'
    · exact h.distinct b hb b' hb' hn hn' haddr
    · obtain rfl := List.mem_singleton.mp hb'
      exact absurd ⟨b, hb, haddr, hn⟩ hfresh
    · obtain rfl := List.mem_singleton.mp hb
      exact absurd ⟨b', hb', haddr.symm, hn'⟩ hfresh
    · rw [List.mem_singleton.mp hb, List.mem_singleton.mp hb']
  case slot_closed => exact h.slot_closed
  case closed_shutdown => exact h.closed_shutdown

theorem Sound.move (h : Sound s) {s' : Cache} (hobtained : s'.obtained = s.obtained)
    (hplaces : ∀ b ∈ s.obtained, s'.places b = s.places b)
    (hlive : ∀ p ∈ s'.live, p ∈ s.live ∨ ∃ b ∈ s.obtained, p = .block b)
    (hfreed : ∀ p ∈ s'.freed, p ∈ s.freed ∨ ∃ b ∈ s.obtained, p = .block b)
    (hkept : ∀ p ∈ s.freed, p ∈ s'.freed)
    (hslot : ∀ b, s'.slot = .block b → b ∈ s.obtained)
    (hclosed : s'.slot = .closed ↔ s'.closed = true)
    (hshutdown : s'.closed = true → s'.shutdown = true) : Sound s' where
  once b hb := by
    rw [hobtained] at hb
    rw [hplaces b hb]
    exact h.once b hb
  live_block p hp := by
    rw [hobtained]
    exact (hlive p hp).elim (h.live_block p) id
  freed_block p hp := by
    rw [hobtained]
    exact (hfreed p hp).elim (h.freed_block p) id
  slot_block b hb := hobtained ▸ hslot b hb
  serial_lt := by
    rw [hobtained]
    exact h.serial_lt
  addr_ne := by
    rw [hobtained]
    exact h.addr_ne
  distinct := by
    rw [hobtained]
    intro b hb b' hb' hn hn'
    exact h.distinct b hb b' hb' (fun hf => hn (hkept _ hf)) fun hf => hn' (hkept _ hf)
  slot_closed := hclosed
  closed_shutdown := hshutdown

theorem Sound.take (h : Sound s) {b : Block} (hslot : s.slot = .block b) :
    Sound { s with slot := .null, live := s.live ++ [s.slot] } := by
  have hmem : b ∈ s.obtained := h.slot_block b hslot
  refine h.move rfl ?_ ?_ (fun p hp => .inl hp) (fun p hp => hp) (by simp) ?_ h.closed_shutdown
  · intro b' _
    simp only [Cache.places, hslot, List.count_append, List.count_singleton, Pointer.block.injEq,
      reduceCtorEq, if_false, beq_iff_eq]
    omega
  · intro p hp
    rcases List.mem_append.mp hp with hp | hp
    · exact .inl hp
    · obtain rfl := List.mem_singleton.mp hp
      exact .inr ⟨b, hmem, hslot⟩
  · have hopen : ¬ s.closed = true := fun hc => by simp [h.slot_closed.mpr hc] at hslot
    simpa using hopen

theorem count_erase_block {l : List Pointer} {b : Block} (h : .block b ∈ l) (b' : Block) :
    (l.erase (.block b)).count (.block b') + (if b = b' then 1 else 0) = l.count (.block b') := by
  have hcount : 0 < l.count (.block b) := List.count_pos_iff.mpr h
  simp only [List.count_erase, beq_iff_eq, Pointer.block.injEq]
  split_ifs with heq
  · subst heq
    omega
  · omega

theorem Sound.park (h : Sound s) {b : Block} (hlive : .block b ∈ s.live) (hslot : s.slot = .null) :
    Sound { s with slot := .block b, live := s.live.erase (.block b) } := by
  obtain ⟨_, hmem, heq⟩ := h.live_block _ hlive
  obtain rfl := Pointer.block.inj heq
  refine h.move rfl ?_ (fun p hp => .inl (List.mem_of_mem_erase hp)) (fun p hp => .inl hp)
    (fun p hp => hp) ?_ ?_ h.closed_shutdown
  · intro b' _
    have hcount := count_erase_block hlive b'
    simp only [Cache.places, hslot, Pointer.block.injEq, reduceCtorEq, if_false]
    omega
  · rintro b' hb'
    obtain rfl := Pointer.block.inj hb'
    exact hmem
  · have hopen : ¬ s.closed = true := fun hc => by simp [h.slot_closed.mpr hc] at hslot
    simpa using hopen

theorem Sound.free (h : Sound s) {b : Block} (hlive : .block b ∈ s.live) :
    Sound { s with live := s.live.erase (.block b), freed := s.freed ++ [.block b] } := by
  obtain ⟨_, hmem, heq⟩ := h.live_block _ hlive
  obtain rfl := Pointer.block.inj heq
  refine h.move rfl ?_ (fun p hp => .inl (List.mem_of_mem_erase hp)) ?_
    (fun p hp => List.mem_append_left _ hp) h.slot_block h.slot_closed h.closed_shutdown
  · intro b' _
    have hcount := count_erase_block hlive b'
    simp only [Cache.places, List.count_append, List.count_singleton, beq_iff_eq,
      Pointer.block.injEq]
    omega
  · intro p hp
    rcases List.mem_append.mp hp with hp | hp
    · exact .inl hp
    · exact .inr ⟨b, hmem, List.mem_singleton.mp hp⟩

theorem Sound.close (h : Sound s) (hopen : s.closed = false) (hshutdown : s.shutdown = true) :
    Sound { s with
      slot := .closed
      closed := true
      freed := if s.slot = .null then s.freed else s.freed ++ [s.slot] } := by
  cases hslot : s.slot with
  | null =>
      refine h.move rfl ?_ (fun p hp => .inl hp) (fun p hp => .inl (by simpa using hp))
        (fun p hp => by simpa using hp) (by simp) (by simp) fun _ => hshutdown
      intro b _
      simp [Cache.places, hslot]
  | closed => exact absurd (h.slot_closed.mp hslot) (by simp [hopen])
  | block b =>
      have hmem : b ∈ s.obtained := h.slot_block b hslot
      refine h.move rfl ?_ (fun p hp => .inl hp) ?_ (fun p hp => by simp [hp]) (by simp) (by simp)
        fun _ => hshutdown
      · intro b' _
        simp only [Cache.places, hslot, reduceCtorEq, if_false, List.count_append,
          List.count_singleton, beq_iff_eq, Pointer.block.injEq]
        omega
      · intro p hp
        simp only [reduceCtorEq, if_false, List.mem_append, List.mem_singleton] at hp
        exact hp.imp id fun heq => ⟨b, hmem, heq⟩

end Sound

theorem exists_block {p : Pointer} (hnull : p.addr ≠ 0) (hclosed : p.addr ≠ 1) :
    ∃ b, p = .block b := by
  cases p with
  | null => exact absurd rfl hnull
  | closed => exact absurd rfl hclosed
  | block b => exact ⟨b, rfl⟩

theorem Sound.step {s s' : Cache} {l r : List (Frame Pc)} {t : Nat} {pc : Pc} {q : Option Pc}
    (h : Sound s) (hcalls : Calls s (l ++ ⟨t, pc⟩ :: r)) (hstep : Step s pc s' q) : Sound s' := by
  have hmem : ⟨t, pc⟩ ∈ l ++ ⟨t, pc⟩ :: r := by simp
  cases hstep with
  | look => exact h
  | throws => exact h
  | obtains a hpc hnull hclosed hfresh => exact h.newBlock hnull hclosed hfresh
  | @takes p haddr =>
      obtain ⟨hnull, hclosed⟩ := hcalls.exchanges _ hmem p rfl
      obtain ⟨b, hslot⟩ := exists_block (haddr ▸ hnull) (haddr ▸ hclosed)
      exact h.take hslot
  | @parks p hnull =>
      have hlive := hcalls.deletes _ hmem p rfl
      obtain ⟨b, -, rfl⟩ := h.live_block p hlive
      exact h.park hlive hnull
  | @frees p hsome =>
      have hlive := hcalls.deletes _ hmem p rfl
      obtain ⟨b, -, rfl⟩ := h.live_block p hlive
      exact h.free hlive
  | closes =>
      obtain ⟨hshutdown, hopen⟩ := hcalls.closes _ hmem rfl
      exact h.close hopen hshutdown

section Calls

variable {s s' : Cache} {l r fs : List (Frame Pc)} {t : Nat} {pc : Pc} {q : Option Pc}

theorem Calls.replace (h : Calls s (l ++ ⟨t, pc⟩ :: r))
    (hq : ∀ pc', q = some pc' → ∃ p, pc' = .newExchange p ∧ p ≠ 0 ∧ p ≠ 1)
    (hlive : ∀ f ∈ l ++ r, ∀ p, f.pc = .deleteExchange p → p ∈ s.live → p ∈ s'.live)
    (hclose : ∀ f ∈ l ++ r, f.pc = .shutdownExchange →
      s'.shutdown = s.shutdown ∧ s'.closed = s.closed) :
    Calls s' (l ++ q.toList.map (Frame.mk t) ++ r) := by
  constructor
  case exchanges =>
    rw [forall_replace]
    refine ⟨(forall_split.mp h.exchanges).1, ?_⟩
    intro pc' hpc' p hp
    obtain ⟨p', rfl, hne⟩ := hq pc' hpc'
    obtain rfl := Pc.newExchange.inj hp
    exact hne
  case deletes =>
    rw [forall_replace]
    refine ⟨fun f hf p hp => hlive f hf p hp ((forall_split.mp h.deletes).1 f hf p hp), ?_⟩
    intro pc' hpc' p hp
    obtain ⟨p', rfl, -⟩ := hq pc' hpc'
    simp at hp
  case delete_once =>
    intro p
    have hone := h.delete_once p
    have hnone : (q.elim false fun pc => decide (pc = .deleteExchange p)) = false := by
      cases q with
      | none => rfl
      | some pc' =>
          obtain ⟨p', rfl, -⟩ := hq pc' rfl
          simp
    rw [countP_split] at hone
    rw [countP_replace, hnone, Bool.toNat_false]
    omega
  case closes =>
    rw [forall_replace]
    refine ⟨?_, ?_⟩
    · intro f hf hpc
      obtain ⟨hshutdown, hclosed⟩ := hclose f hf hpc
      rw [hshutdown, hclosed]
      exact (forall_split.mp h.closes).1 f hf hpc
    · intro pc' hpc' hp
      obtain ⟨p', rfl, -⟩ := hq pc' hpc'
      simp at hp
  case close_once =>
    have hone := h.close_once
    have hnone : (q.elim false fun pc => decide (pc = .shutdownExchange)) = false := by
      cases q with
      | none => rfl
      | some pc' =>
          obtain ⟨p', rfl, -⟩ := hq pc' rfl
          simp
    rw [countP_split] at hone
    rw [countP_replace, hnone, Bool.toNat_false]
    omega

theorem Calls.step (h : Calls s (l ++ ⟨t, pc⟩ :: r)) (hstep : Step s pc s' q) :
    Calls s' (l ++ q.toList.map (Frame.mk t) ++ r) := by
  -- no other call deletes the frame that this one does
  have herase : ∀ p, pc = .deleteExchange p → ∀ f ∈ l ++ r, ∀ p', f.pc = .deleteExchange p' →
      p' ∈ s.live → p' ∈ s.live.erase p := by
    rintro p rfl f hf p' hp' hlive
    have hother := rest_of_countP_le_one (h.delete_once p) (by simp) f hf
    refine (List.mem_erase_of_ne ?_).mpr hlive
    rintro rfl
    simp [hp'] at hother
  cases hstep with
  | look hpc hnull hclosed =>
      refine h.replace ?_ (fun _ _ _ _ hp => hp) fun _ _ _ => ⟨rfl, rfl⟩
      rintro pc' hpc'
      obtain rfl := Option.some.inj hpc'
      exact ⟨_, rfl, hnull, hclosed⟩
  | throws => exact h.replace (by simp) (fun _ _ _ _ hp => hp) fun _ _ _ => ⟨rfl, rfl⟩
  | obtains a =>
      exact h.replace (by simp) (fun _ _ _ _ hp => List.mem_append_left _ hp)
        fun _ _ _ => ⟨rfl, rfl⟩
  | takes =>
      exact h.replace (by simp) (fun _ _ _ _ hp => List.mem_append_left _ hp)
        fun _ _ _ => ⟨rfl, rfl⟩
  | parks => exact h.replace (by simp) (herase _ rfl) fun _ _ _ => ⟨rfl, rfl⟩
  | frees => exact h.replace (by simp) (herase _ rfl) fun _ _ _ => ⟨rfl, rfl⟩
  | closes =>
      refine h.replace (by simp) (fun _ _ _ _ hp => hp) fun f hf hpc => ?_
      have hother := rest_of_countP_le_one h.close_once (by simp) f hf
      simp [hpc] at hother

theorem Calls.push (h : Calls s fs) (hlive : s'.live = s.live)
    (hopen : s'.closed = s.closed) (hshutdown : s.shutdown = true → s'.shutdown = true)
    (hnew : ∀ p, pc ≠ .newExchange p)
    (hdelete : ∀ p, pc = .deleteExchange p → p ∈ s.live ∧ ∀ f ∈ fs, f.pc ≠ .deleteExchange p)
    (hclose : pc = .shutdownExchange → s'.shutdown = true ∧ s.closed = false ∧
      ∀ f ∈ fs, f.pc ≠ .shutdownExchange) :
    Calls s' ((some pc).toList.map (Frame.mk t) ++ fs) := by
  constructor
  case exchanges =>
    refine forall_enter.mpr ⟨h.exchanges, ?_⟩
    rintro pc' hpc' p hp
    obtain rfl := Option.some.inj hpc'
    exact absurd hp (hnew p)
  case deletes =>
    rw [hlive]
    refine forall_enter.mpr ⟨h.deletes, ?_⟩
    rintro pc' hpc' p hp
    obtain rfl := Option.some.inj hpc'
    exact (hdelete p hp).1
  case delete_once =>
    intro p
    rw [countP_enter]
    by_cases hp : pc = .deleteExchange p
    · have hzero : fs.countP (fun f => decide (f.pc = .deleteExchange p)) = 0 :=
        List.countP_eq_zero.mpr fun f hf => by simpa using (hdelete p hp).2 f hf
      rw [hzero]
      exact Nat.le_of_eq (by simp [hp])
    · have hone := h.delete_once p
      simpa [hp] using hone
  case closes =>
    rw [hopen]
    refine forall_enter.mpr ⟨fun f hf hpc => ?_, ?_⟩
    · obtain ⟨hs, hc⟩ := h.closes f hf hpc
      exact ⟨hshutdown hs, hc⟩
    · rintro pc' hpc' hp
      obtain rfl := Option.some.inj hpc'
      exact ⟨(hclose hp).1, (hclose hp).2.1⟩
  case close_once =>
    rw [countP_enter]
    by_cases hp : pc = .shutdownExchange
    · have hzero : fs.countP (fun f => decide (f.pc = .shutdownExchange)) = 0 :=
        List.countP_eq_zero.mpr fun f hf => by simpa using (hclose hp).2.2 f hf
      rw [hzero]
      exact Nat.le_of_eq (by simp [hp])
    · have hone := h.close_once
      simpa [hp] using hone

theorem Calls.enter {e : Entry} (hsound : Sound s) (h : Calls s fs)
    (henter : enter s fs e = some (s', q)) : Calls s' (q.toList.map (Frame.mk t) ++ fs) := by
  cases e with
  | operatorNew =>
      obtain ⟨rfl, rfl⟩ := Prod.mk.inj (Option.some.inj henter)
      exact h.push rfl rfl id (by simp) (by simp) (by simp)
  | operatorDelete p =>
      simp only [StrandFrameCache.enter, Option.ite_none_right_eq_some, Option.some.injEq,
        Prod.mk.injEq] at henter
      obtain ⟨hp, rfl, rfl⟩ := henter
      refine h.push rfl rfl id (by simp) ?_ (by simp)
      rintro p' hp'
      obtain rfl := Pc.deleteExchange.inj hp'
      exact hp
  | shutdown =>
      simp only [StrandFrameCache.enter, Option.ite_none_left_eq_some, Option.some.injEq,
        Prod.mk.injEq] at henter
      obtain ⟨hs, rfl, rfl⟩ := henter
      have hopen : s.closed = false := by
        cases hc : s.closed with
        | false => rfl
        | true => exact absurd (hsound.closed_shutdown hc) hs
      exact h.push rfl rfl (fun _ => rfl) (by simp) (by simp) fun _ =>
        ⟨rfl, hopen, fun f hf hpc => hs (h.closes f hf hpc).1⟩

theorem Sound.enter {e : Entry} (h : Sound s) (henter : enter s fs e = some (s', q)) :
    Sound s' := by
  cases e with
  | operatorNew =>
      obtain ⟨rfl, rfl⟩ := Prod.mk.inj (Option.some.inj henter)
      exact h
  | operatorDelete p =>
      simp only [StrandFrameCache.enter, Option.ite_none_right_eq_some, Option.some.injEq,
        Prod.mk.injEq] at henter
      obtain ⟨-, rfl, rfl⟩ := henter
      exact h
  | shutdown =>
      simp only [StrandFrameCache.enter, Option.ite_none_left_eq_some, Option.some.injEq,
        Prod.mk.injEq] at henter
      obtain ⟨-, rfl, rfl⟩ := henter
      exact h.move rfl (fun _ _ => rfl) (fun p hp => .inl hp) (fun p hp => .inl hp)
        (fun p hp => hp) h.slot_block h.slot_closed fun _ => rfl

end Calls

theorem sound_preserved : machine.Preserves (fun _ _ => true) fun s fs => Sound s ∧ Calls s fs := by
  apply Machine.Preserves.ofSteps
  · intro s l t pc r c s' q h _ _ _ hexec
    have hstep := step_of_exec hexec
    exact ⟨h.1.step h.2 hstep, h.2.step hstep⟩
  · intro s fs t e s' q h _ _ _ henter
    exact ⟨h.1.enter henter, h.2.enter h.1 henter⟩

theorem sound_of_reachable {s : State Cache Pc} (h : Reachable s) :
    Sound s.shared ∧ Calls s.shared s.frames := by
  refine sound_preserved.reachable ?_ ?_ h
  · rintro s rfl
    rfl
  · rintro s rfl
    exact ⟨⟨by simp, by simp, by simp, by simp, by simp, by simp, by simp, by simp, by simp⟩,
      ⟨by simp, by simp, by simp, by simp, by simp⟩⟩

theorem Sound.nodup {s : Cache} (h : Sound s) {l : List Pointer}
    (hblock : ∀ p ∈ l, ∃ b ∈ s.obtained, p = .block b)
    (hle : ∀ b, l.count (.block b) ≤ s.places b) : l.Nodup := by
  rw [List.nodup_iff_count_le_one]
  intro p
  by_cases hp : p ∈ l
  · obtain ⟨b, hb, rfl⟩ := hblock p hp
    exact Nat.le_trans (hle b) (Nat.le_of_eq (h.once b hb))
  · rw [List.count_eq_zero_of_not_mem hp]
    exact Nat.zero_le _

theorem Sound.nodup_live {s : Cache} (h : Sound s) : s.live.Nodup :=
  h.nodup h.live_block fun b => by unfold Cache.places; omega

theorem Sound.nodup_freed {s : Cache} (h : Sound s) : s.freed.Nodup :=
  h.nodup h.freed_block fun b => by unfold Cache.places; omega

theorem Sound.notMem_freed_of_live {s : Cache} (h : Sound s) {b : Block} (hb : b ∈ s.obtained)
    (hlive : .block b ∈ s.live) : .block b ∉ s.freed := by
  have honce := h.once b hb
  have hcount : 0 < s.live.count (.block b) := List.count_pos_iff.mpr hlive
  unfold Cache.places at honce
  exact List.count_eq_zero.mp (by omega)

theorem Sound.nodup_addr {s : Cache} (h : Sound s) : (s.live.map Pointer.addr).Nodup := by
  refine List.Nodup.map_on ?_ h.nodup_live
  intro p hp p' hp' haddr
  obtain ⟨b, hb, rfl⟩ := h.live_block p hp
  obtain ⟨b', hb', rfl⟩ := h.live_block p' hp'
  rw [h.distinct b hb b' hb' (h.notMem_freed_of_live hb hp) (h.notMem_freed_of_live hb' hp') haddr]

/-- Once the cache is closed and no frame is live, every block is freed. -/
theorem Sound.all_freed {s : Cache} (h : Sound s) (hclosed : s.closed = true)
    (hlive : s.live = []) :
    ∀ b ∈ s.obtained, .block b ∈ s.freed := by
  intro b hb
  have honce := h.once b hb
  simp only [Cache.places, hlive, List.count_nil, h.slot_closed.mpr hclosed, reduceCtorEq,
    if_false] at honce
  exact List.count_pos_iff.mp (by omega)

theorem closed_of_step {s s' : State Cache Pc} {e : Event Choice Entry}
    (h : machine.step s e = some s') (hclosed : s.shared.closed = true) :
    s'.shared.closed = true := by
  rcases Machine.ofSteps_step_cases h with ⟨t, c, l, pc, r, q, -, -, -, hexec, -⟩ |
    ⟨t, a, q, -, henter, -⟩
  · generalize s'.shared = s₁ at hexec ⊢
    cases step_of_exec hexec <;> first | exact hclosed | rfl
  · generalize s'.shared = s₁ at henter ⊢
    cases a with
    | operatorNew =>
        obtain ⟨rfl, -⟩ := Prod.mk.inj (Option.some.inj henter)
        exact hclosed
    | operatorDelete p =>
        simp only [enter, Option.ite_none_right_eq_some, Option.some.injEq,
          Prod.mk.injEq] at henter
        obtain ⟨-, rfl, -⟩ := henter
        exact hclosed
    | shutdown =>
        simp only [enter, Option.ite_none_left_eq_some, Option.some.injEq,
          Prod.mk.injEq] at henter
        obtain ⟨-, rfl, -⟩ := henter
        exact hclosed

theorem closed_of_run {s s' : State Cache Pc} (es : List (Event Choice Entry))
    (h : machine.runEvents s es = some s') (hclosed : s.shared.closed = true) :
    s'.shared.closed = true := by
  induction es generalizing s with
  | nil =>
      obtain rfl := Option.some.inj h
      exact hclosed
  | cons e es ih =>
      obtain ⟨s₁, hstep, hrest⟩ := Option.bind_eq_some_iff.mp h
      exact ih hrest (closed_of_step hstep hclosed)

theorem invoker_frame_cache_keeps_blocks {s : State Cache Pc} (h : Reachable s) :
    (∀ b ∈ s.shared.obtained,
      s.shared.live.count (.block b) + (if s.shared.slot = .block b then 1 else 0) +
        s.shared.freed.count (.block b) = 1) ∧
      (s.shared.live.map Pointer.addr).Nodup ∧
      s.shared.freed.Nodup ∧
      (∀ p ∈ s.shared.live ++ s.shared.freed, ∃ b ∈ s.shared.obtained, p = .block b ∧
        b.addr ≠ Pointer.closed.addr) ∧
      (s.shared.closed = true → ∀ es s', machine.runEvents s es = some s' →
        s'.shared.slot = .closed) ∧
      (s.shared.closed = true → s.shared.live = [] →
        ∀ b ∈ s.shared.obtained, .block b ∈ s.shared.freed) := by
  obtain ⟨hsound, -⟩ := sound_of_reachable h
  refine ⟨hsound.once, hsound.nodup_addr, hsound.nodup_freed, ?_, ?_, hsound.all_freed⟩
  · intro p hp
    rcases List.mem_append.mp hp with hp | hp
    · obtain ⟨b, hb, rfl⟩ := hsound.live_block p hp
      exact ⟨b, hb, rfl, (hsound.addr_ne b hb).2⟩
    · obtain ⟨b, hb, rfl⟩ := hsound.freed_block p hp
      exact ⟨b, hb, rfl, (hsound.addr_ne b hb).2⟩
  · intro hclosed es s' hrun
    have hreach : Reachable s' := h.runWhen es hrun
    exact (sound_of_reachable hreach).1.slot_closed.mpr (closed_of_run es hrun hclosed)

/-- Two frames, one of them parked and taken again past a spurious failure, with the
shutdown between their deletions. -/
def twoFrames : List (Event Choice Entry) :=
  [.enter 0 .operatorNew, .run 0 ⟨false, some 16⟩,
    .enter 1 .operatorNew, .run 1 ⟨false, some 32⟩,
    .enter 0 (.operatorDelete (.block ⟨16, 0⟩)), .run 0 ⟨false, none⟩,
    .enter 0 .operatorNew, .run 0 ⟨false, none⟩, .run 0 ⟨true, none⟩, .run 0 ⟨false, none⟩,
    .enter 0 (.operatorDelete (.block ⟨16, 0⟩)), .run 0 ⟨false, none⟩,
    .enter 2 .shutdown, .run 2 ⟨false, none⟩,
    .enter 1 (.operatorDelete (.block ⟨32, 1⟩)), .run 1 ⟨false, none⟩]

theorem invoker_frame_cache_keeps_blocks_twoFrames :
    ∃ s, machine.runEvents ⟨{}, []⟩ twoFrames = some s ∧
      s.shared.freed = [.block ⟨16, 0⟩, .block ⟨32, 1⟩] ∧
      ∀ b ∈ s.shared.obtained, .block b ∈ s.shared.freed := by
  obtain ⟨s, hrun, hclosed, hlive, hfreed⟩ : ∃ s,
      machine.runEvents ⟨{}, []⟩ twoFrames = some s ∧ s.shared.closed = true ∧
        s.shared.live = [] ∧ s.shared.freed = [.block ⟨16, 0⟩, .block ⟨32, 1⟩] :=
    ⟨_, rfl, rfl, rfl, rfl⟩
  have hreach : Reachable s := Machine.ReachableWhen.runWhen (.init rfl) twoFrames hrun
  exact ⟨s, hrun, hfreed, (invoker_frame_cache_keeps_blocks hreach).2.2.2.2.2 hclosed hlive⟩

end Capy.StrandFrameCache
