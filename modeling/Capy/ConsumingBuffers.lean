import Capy.Buffers

namespace Capy.Buffers

/-- One call of `slice_of::adjust`. -/
structure Trim where
  buffer : Buffer
  front : Nat
  back : Nat

/-- The size that `adjust` computes is at least zero. -/
def Trim.Fits (t : Trim) : Prop := t.front + t.back ≤ t.buffer.size

/-- The calls of `adjust` that iterating a `slice_of` makes. -/
def sliceTrims : List Buffer → Nat → Nat → List Trim
  | [], _, _ => []
  | b :: rest, front, back =>
      ⟨b, front, if rest.isEmpty then back else 0⟩ :: sliceTrims rest 0 back

theorem sliceOf_eq_map (bufs : List Buffer) (front back : Nat) :
    sliceOf bufs front back =
      (sliceTrims bufs front back).map fun t => adjust t.buffer t.front t.back := by
  induction bufs generalizing front with
  | nil => rfl
  | cons b rest ih => simp [sliceOf, sliceTrims, ih]

theorem fits_sliceTrims_front {bufs : List Buffer} {front : Nat}
    (h : ∀ b ∈ bufs.head?, front ≤ b.size) : ∀ t ∈ sliceTrims bufs front 0, t.Fits := by
  induction bufs generalizing front with
  | nil => simp [sliceTrims]
  | cons b rest ih =>
      have hb : front ≤ b.size := h b rfl
      simp only [sliceTrims, ite_self, List.mem_cons, forall_eq_or_imp]
      exact ⟨by simpa [Trim.Fits] using hb, ih (by simp)⟩

/-- The cursor at every evaluation of the condition of the loop of `consume`,
and the one it leaves behind. -/
def consumeStates : List Buffer → Nat → Nat → List ConsumingBuffers
  | [], skip, _ => [⟨[], skip⟩]
  | b :: rest, skip, n =>
      ⟨b :: rest, skip⟩ ::
        if n = 0 then []
        else
          let avail := sizeSub b.size skip
          if n < avail then [⟨b :: rest, (skip + n) % sizeValues⟩]
          else consumeStates rest 0 (sizeSub n avail)

/-- The last object that a call of `consume` goes through is the one it leaves. -/
theorem getLast?_consumeStates (bufs : List Buffer) (skip n : Nat) :
    (consumeStates bufs skip n).getLast? = some (consumeLoop bufs skip n) := by
  induction bufs generalizing skip n with
  | nil => rfl
  | cons b rest ih =>
      simp only [consumeStates, consumeLoop]
      split_ifs with hzero hless
      · rfl
      · rfl
      · rw [List.getLast?_cons, ih]
        rfl

theorem valid_consumeStates (bufs : List Buffer) (skip n : Nat) (hn : n < sizeValues)
    (h : (ConsumingBuffers.mk bufs skip).Valid) : ∀ c ∈ consumeStates bufs skip n, c.Valid := by
  induction bufs generalizing skip n with
  | nil => simpa [consumeStates] using h
  | cons b rest ih =>
      have hskip : skip ≤ b.size := h.frontSkip_le b rfl
      have havail : sizeSub b.size skip = b.size - skip := sizeSub_of_le b.size_lt hskip
      simp only [consumeStates, havail, List.mem_cons, forall_eq_or_imp]
      refine ⟨h, ?_⟩
      split_ifs with hzero hless
      · simp
      · have hsum : skip + n < b.size := by omega
        rw [Nat.mod_eq_of_lt (Nat.lt_trans hsum b.size_lt)]
        rintro c hc
        obtain rfl := List.mem_singleton.mp hc
        exact .inr ⟨b, rfl, hsum⟩
      · rw [sizeSub_of_le hn (by omega)]
        exact ih 0 (n - (b.size - skip)) (by omega) (.inl rfl)

namespace ConsumingBuffers

/-- The calls `consume(n_1)`, …, `consume(n_k)`. -/
def consumeAll (c : ConsumingBuffers) (ns : List Nat) : ConsumingBuffers := ns.foldl consume c

/-- The states that a history of calls goes through, inside the calls too. -/
def visited (c : ConsumingBuffers) : List Nat → List ConsumingBuffers
  | [] => [c]
  | n :: ns => consumeStates c.first c.frontSkip n ++ visited (c.consume n) ns

theorem Valid.visited {c : ConsumingBuffers} (h : c.Valid) {ns : List Nat}
    (hns : ∀ n ∈ ns, n < sizeValues) : ∀ c' ∈ c.visited ns, c'.Valid := by
  induction ns generalizing c with
  | nil => simpa [ConsumingBuffers.visited] using h
  | cons n ns ih =>
      have hn : n < sizeValues := hns n (by simp)
      intro c' hc'
      rcases List.mem_append.mp hc' with hin | hlater
      · exact valid_consumeStates c.first c.frontSkip n hn h c' hin
      · exact ih (h.consume hn) (fun m hm => hns m (by simp [hm])) c' hlater

theorem getLast?_visited (c : ConsumingBuffers) (ns : List Nat) :
    (c.visited ns).getLast? = some (c.consumeAll ns) := by
  induction ns generalizing c with
  | nil => rfl
  | cons n ns ih =>
      rw [ConsumingBuffers.visited, List.getLast?_append, ih]
      rfl

theorem Valid.consumeAll {c : ConsumingBuffers} (h : c.Valid) {ns : List Nat}
    (hns : ∀ n ∈ ns, n < sizeValues) : (c.consumeAll ns).Valid :=
  h.visited hns _ (List.mem_of_getLast? (c.getLast?_visited ns))

theorem flatten_data_consumeAll {c : ConsumingBuffers} (h : c.Valid) {ns : List Nat}
    (hns : ∀ n ∈ ns, n < sizeValues) :
    flatten (c.consumeAll ns).data = (flatten c.data).drop ns.sum := by
  induction ns generalizing c with
  | nil => simp [ConsumingBuffers.consumeAll]
  | cons n ns ih =>
      have hn : n < sizeValues := hns n (by simp)
      have hrest : ∀ m ∈ ns, m < sizeValues := fun m hm => hns m (by simp [hm])
      calc flatten (c.consumeAll (n :: ns)).data
          = flatten ((c.consume n).consumeAll ns).data := rfl
        _ = (flatten (c.consume n).data).drop ns.sum := ih (h.consume hn) hrest
        _ = ((flatten c.data).drop n).drop ns.sum := by rw [flatten_data_consume h hn]
        _ = (flatten c.data).drop (n :: ns).sum := by rw [List.drop_drop, List.sum_cons]

theorem Valid.fits {c : ConsumingBuffers} (h : c.Valid) :
    ∀ t ∈ sliceTrims c.first c.frontSkip 0, t.Fits :=
  fits_sliceTrims_front h.frontSkip_le

end ConsumingBuffers

theorem consuming_buffers_is_byte_cursor (bufs : List Buffer) (ns : List Nat)
    (hns : ∀ n ∈ ns, n < sizeValues) :
    flatten ((consumingBuffers bufs).consumeAll ns).data =
        (flatten bufs).drop (min ns.sum (totalSize bufs)) ∧
      (∀ c ∈ (consumingBuffers bufs).visited ns,
        (c.frontSkip = 0 ∨ ∃ b ∈ c.first.head?, c.frontSkip < b.size) ∧
        (∀ b ∈ c.first.head?, c.frontSkip ≤ b.size ∧
          sizeSub b.size c.frontSkip = b.size - c.frontSkip) ∧
        ∀ t ∈ sliceTrims c.first c.frontSkip 0, t.front + t.back ≤ t.buffer.size) ∧
      ∀ a b, a + b < sizeValues →
        flatten ((((consumingBuffers bufs).consumeAll ns).consume a).consume b).data =
          flatten (((consumingBuffers bufs).consumeAll ns).consume (a + b)).data := by
  have hinit : (consumingBuffers bufs).Valid := valid_consumingBuffers bufs
  have hvalid : ((consumingBuffers bufs).consumeAll ns).Valid := hinit.consumeAll hns
  refine ⟨?_, ?_, ?_⟩
  · rw [ConsumingBuffers.flatten_data_consumeAll hinit hns, flatten_data_consumingBuffers,
      ← length_flatten, List.drop_eq_drop_iff, Nat.min_assoc, Nat.min_self]
  · intro c hc
    have hc' : c.Valid := hinit.visited hns c hc
    exact ⟨hc', fun b hb => ⟨hc'.frontSkip_le b hb, sizeSub_of_le b.size_lt
      (hc'.frontSkip_le b hb)⟩, hc'.fits⟩
  · intro a b hab
    have ha : a < sizeValues := by omega
    have hb : b < sizeValues := by omega
    rw [flatten_data_consume (hvalid.consume ha) hb, flatten_data_consume hvalid ha,
      flatten_data_consume hvalid hab, List.drop_drop]

theorem consuming_buffers_is_byte_cursor_at :
    (∀ n ∈ [2, 5], n < sizeValues) ∧
      flatten ((consumingBuffers [⟨10, 3, by decide⟩, ⟨20, 0, by decide⟩,
          ⟨30, 5, by decide⟩]).consumeAll [2, 5]).data = [34] := by
  refine ⟨by decide, ?_⟩
  rw [(consuming_buffers_is_byte_cursor _ _ (by decide)).1]
  decide

end Capy.Buffers
