import Capy.Join
import Mathlib.Algebra.Order.BigOperators.Group.Finset

namespace Capy.Join

open Function

/-- The runner has not dropped its share. -/
def Pc.share {Work : Type} : Pc Work → Nat
  | .finalLast | .loseLast | .done => 0
  | _ => 1

/-- The runner has dropped the last share and not acted on it yet. -/
def Pc.last {Work : Type} : Pc Work → Nat
  | .finalLast | .loseLast => 1
  | _ => 0

/-- What the flags of a runner say of where it stands. -/
def BranchOk {Outcome Work : Type} (b : Branch Outcome Work) : Prop :=
  match b.pc with
  | .created | .posted =>
      b.outcome = none ∧ b.lost = false ∧ b.requested = false ∧ b.abandoned = false
  | .awaiting => b.outcome = none ∧ b.lost = false ∧ b.requested = false
  | .working _ => b.outcome ≠ none ∧ b.lost = false ∧ b.abandoned = false
  | .finalSuspend => (b.abandoned = true ↔ b.outcome = none) ∧ b.lost = false
  | .loseBranch => b.outcome = none ∧ b.lost = false
  | .finalLost | .loseStop => b.outcome = none ∧ b.lost = true
  | .loseRelease | .loseLast => b.outcome = none ∧ b.lost = true ∧ b.requested = true
  | .finalRelease | .finalLast | .done =>
      (b.lost = true ↔ b.outcome = none) ∧ (b.lost = true → b.requested = true)

variable {n : Nat} {Outcome Work : Fin n → Type} {σ : Type}

/-- What every run of a join keeps. -/
structure Shares (c : Core) (b : ∀ i, Branch (Outcome i) (Work i)) : Prop where
  remaining : c.remaining = ∑ i, (b i).pc.share
  decided : ∑ i, (b i).pc.last + c.resumed + c.abandoned = if c.remaining = 0 then 1 else 0
  branches : ∀ i, BranchOk (b i)
  lost : c.lost = true ↔ ∃ i, (b i).lost = true
  stop : c.stop = true ↔ c.parentStop = true ∨ ∃ i, (b i).requested = true
  resumed : 0 < c.resumed → c.lost = false
  abandoned : 0 < c.abandoned → c.lost = true
  posted : c.posted ≤ n ∧ ∀ i : Fin n, i.val < c.posted ↔ (b i).pc ≠ .created

section Update

variable {B : Fin n → Type} (b : ∀ i, B i) (i : Fin n) (x : B i)

theorem sum_update (f : ∀ i, B i → Nat) :
    ∑ j, f j (update b i x j) + f i (b i) = ∑ j, f j (b j) + f i x := by
  rw [← Finset.add_sum_erase _ _ (Finset.mem_univ i),
    ← Finset.add_sum_erase _ (fun j => f j (b j)) (Finset.mem_univ i), update_self]
  have hrest : ∑ j ∈ Finset.univ.erase i, f j (update b i x j) =
      ∑ j ∈ Finset.univ.erase i, f j (b j) := by
    refine Finset.sum_congr rfl fun j hj => ?_
    rw [update_of_ne (Finset.ne_of_mem_erase hj)]
  omega

theorem forall_update {p : ∀ i, B i → Prop} (hx : p i x) (h : ∀ j, j ≠ i → p j (b j)) :
    ∀ j, p j (update b i x j) := by
  intro j
  rcases eq_or_ne j i with rfl | hj
  · rwa [update_self]
  · rw [update_of_ne hj]
    exact h j hj

theorem exists_update_or {p : ∀ i, B i → Prop} (hx : p i (b i) → p i x) :
    ((∃ j, p j (b j)) ∨ p i x) ↔ ∃ j, p j (update b i x j) := by
  constructor
  · rintro (⟨j, hj⟩ | hi)
    · rcases eq_or_ne j i with rfl | hne
      · exact ⟨j, by rw [update_self]; exact hx hj⟩
      · exact ⟨j, by rwa [update_of_ne hne]⟩
    · exact ⟨i, by rwa [update_self]⟩
  · rintro ⟨j, hj⟩
    rcases eq_or_ne j i with rfl | hne
    · exact .inr (by rwa [update_self] at hj)
    · exact .inl ⟨j, by rwa [update_of_ne hne] at hj⟩

end Update

section Preservation

variable {c : Core} {b : ∀ i, Branch (Outcome i) (Work i)}

theorem Shares.held (h : Shares c b) {i : Fin n} (hi : (b i).pc.share = 1) :
    0 < c.remaining := by
  have hle : (b i).pc.share ≤ ∑ j, (b j).pc.share :=
    Finset.single_le_sum (f := fun j => (b j).pc.share) (fun _ _ => Nat.zero_le _)
      (Finset.mem_univ i)
  have := h.remaining
  omega

/-- While a share is held the parent has not been resumed or abandoned. -/
theorem Shares.undecided (h : Shares c b) {i : Fin n} (hi : (b i).pc.share = 1) :
    c.resumed = 0 ∧ c.abandoned = 0 := by
  have hpos := h.held hi
  have hdecided := h.decided
  rw [if_neg (by omega)] at hdecided
  omega

theorem Shares.posted_update (h : Shares c b) {i : Fin n}
    {x : Branch (Outcome i) (Work i)} (hi : (b i).pc ≠ .created) (hx : x.pc ≠ .created) :
    c.posted ≤ n ∧ ∀ j : Fin n, j.val < c.posted ↔ (update b i x j).pc ≠ .created := by
  refine ⟨h.posted.1, fun j => ?_⟩
  rcases eq_or_ne j i with rfl | hj
  · rw [update_self, h.posted.2 j]
    simp [hx, hi]
  · rw [update_of_ne hj, h.posted.2 j]

theorem Shares.lost_of (h : Shares c b) {i : Fin n} (hi : (b i).lost = true) :
    c.lost = true :=
  h.lost.mpr ⟨i, hi⟩

theorem Shares.stop_of (h : Shares c b) {i : Fin n} (hi : (b i).requested = true) :
    c.stop = true :=
  h.stop.mpr (.inr ⟨i, hi⟩)

theorem Shares.update (h : Shares c b) {c' : Core} {i : Fin n}
    {x : Branch (Outcome i) (Work i)}
    (hremaining : c'.remaining + (b i).pc.share = c.remaining + x.pc.share)
    (hdecided : x.pc.last + c'.resumed + c'.abandoned + (if c.remaining = 0 then 1 else 0) =
      (b i).pc.last + c.resumed + c.abandoned + (if c'.remaining = 0 then 1 else 0))
    (hok : BranchOk x)
    (hlost : c'.lost = (c.lost || x.lost)) (hlostMono : (b i).lost = true → x.lost = true)
    (hstop : c'.stop = (c.stop || x.requested))
    (hstopMono : (b i).requested = true → x.requested = true)
    (hparent : c'.parentStop = c.parentStop)
    (hresumed : 0 < c'.resumed → c'.lost = false)
    (habandoned : 0 < c'.abandoned → c'.lost = true)
    (hposted : c'.posted ≤ n ∧
      ∀ j : Fin n, j.val < c'.posted ↔ (Function.update b i x j).pc ≠ .created) :
    Shares c' (Function.update b i x) := by
  have hs := sum_update b i x fun _ b => b.pc.share
  have hl := sum_update b i x fun _ b => b.pc.last
  constructor
  · have := h.remaining
    omega
  · have := h.decided
    omega
  · exact forall_update b i x (p := fun _ b => BranchOk b) hok fun j _ => h.branches j
  · rw [hlost, Bool.or_eq_true, h.lost]
    exact exists_update_or b i x (p := fun _ b => b.lost = true) hlostMono
  · rw [hstop, hparent, Bool.or_eq_true, h.stop, or_assoc]
    exact or_congr_right
      (exists_update_or b i x (p := fun _ b => b.requested = true) hstopMono)
  · exact hresumed
  · exact habandoned
  · exact hposted

theorem Shares.next_created (h : Shares c b) (hlt : c.posted < n) :
    (b ⟨c.posted, hlt⟩).pc = .created := by
  by_contra hne
  have := (h.posted.2 ⟨c.posted, hlt⟩).mpr hne
  simp at this

theorem Shares.post (h : Shares c b) (hlt : c.posted < n) :
    Shares { c with posted := c.posted + 1 }
      (Function.update b ⟨c.posted, hlt⟩ { b ⟨c.posted, hlt⟩ with pc := .posted }) := by
  have hpc := h.next_created hlt
  have hi := h.branches ⟨c.posted, hlt⟩
  simp only [BranchOk, hpc] at hi
  refine h.update (by simp [hpc, Pc.share]) (by simp [hpc, Pc.last]) hi (by simp [hi.2.1]) id
    (by simp [hi.2.2.1]) id rfl h.resumed h.abandoned ⟨hlt, fun j => ?_⟩
  have hj := h.posted.2 j
  rcases eq_or_ne j ⟨c.posted, hlt⟩ with rfl | hne
  · simp
  · have : j.val ≠ c.posted := fun heq => hne (Fin.ext heq)
    rw [update_of_ne hne, ← hj]
    simp only
    omega

section Moves

variable (h : Shares c b) {i : Fin n} {x : Branch (Outcome i) (Work i)}

include h

theorem Shares.or_lost (hlost : x.lost = (b i).lost) : c.lost = (c.lost || x.lost) := by
  cases hi : (b i).lost
  · simp [hlost, hi]
  · simp [h.lost_of hi]

theorem Shares.or_requested (hrequested : x.requested = (b i).requested) :
    c.stop = (c.stop || x.requested) := by
  cases hi : (b i).requested
  · simp [hrequested, hi]
  · simp [h.stop_of hi]

theorem Shares.move (hshare : (b i).pc.share = x.pc.share)
    (hlast : (b i).pc.last = x.pc.last) (hok : BranchOk x) (hlost : x.lost = (b i).lost)
    (hrequested : x.requested = (b i).requested) (hcreated : (b i).pc ≠ .created)
    (hcreated' : x.pc ≠ .created) : Shares c (Function.update b i x) :=
  h.update (by omega) (by omega) hok (h.or_lost hlost) (by simp [hlost])
    (h.or_requested hrequested) (by simp [hrequested]) rfl h.resumed h.abandoned
    (h.posted_update hcreated hcreated')

theorem Shares.storeLost (hshare : (b i).pc.share = 1) (hshare' : x.pc.share = 1)
    (hlast : (b i).pc.last = x.pc.last) (hok : BranchOk x) (hlost : x.lost = true)
    (hrequested : x.requested = (b i).requested) (hcreated : (b i).pc ≠ .created)
    (hcreated' : x.pc ≠ .created) :
    Shares { c with lost := true } (Function.update b i x) := by
  have hundecided := h.undecided hshare
  exact h.update (by simp [hshare, hshare']) (by simp [hlast]) hok (by simp [hlost])
    (fun _ => hlost) (h.or_requested hrequested) (by simp [hrequested]) rfl
    (by simp [hundecided.1]) (by simp) (h.posted_update hcreated hcreated')

theorem Shares.requestStop (hshare : (b i).pc.share = x.pc.share)
    (hlast : (b i).pc.last = x.pc.last) (hok : BranchOk x) (hlost : x.lost = (b i).lost)
    (hrequested : x.requested = true) (hcreated : (b i).pc ≠ .created)
    (hcreated' : x.pc ≠ .created) :
    Shares { c with stop := true } (Function.update b i x) :=
  h.update (by simp [hshare]) (by simp [hlast]) hok (h.or_lost hlost) (by simp [hlost])
    (by simp [hrequested]) (fun _ => hrequested) rfl h.resumed h.abandoned
    (h.posted_update hcreated hcreated')

theorem Shares.release (hshare : (b i).pc.share = 1) (hshare' : x.pc.share = 0)
    (hlast : (b i).pc.last = 0) (hlast' : x.pc.last = if c.remaining = 1 then 1 else 0)
    (hok : BranchOk x) (hlost : x.lost = (b i).lost)
    (hrequested : x.requested = (b i).requested) (hcreated : (b i).pc ≠ .created)
    (hcreated' : x.pc ≠ .created) :
    Shares { c with remaining := c.remaining - 1 } (Function.update b i x) := by
  have hheld := h.held hshare
  refine h.update ?_ ?_ hok (h.or_lost hlost) (by simp [hlost]) (h.or_requested hrequested)
    (by simp [hrequested]) rfl h.resumed h.abandoned (h.posted_update hcreated hcreated')
  · simp only [hshare, hshare']
    omega
  · simp only [hlast, hlast']
    split <;> split <;> split <;> omega

/-- The runner that dropped the last share acts on the parent. -/
theorem Shares.decide {c' : Core} (hshare : (b i).pc.share = 0) (hlast : (b i).pc.last = 1)
    (hpc : x.pc = .done) (hok : BranchOk x) (hlost : x.lost = (b i).lost)
    (hrequested : x.requested = (b i).requested) (hcreated : (b i).pc ≠ .created)
    (hcore : (c' = { c with resumed := c.resumed + 1 } ∧ c.lost = false) ∨
      (c' = { c with abandoned := c.abandoned + 1 } ∧ c.lost = true)) :
    Shares c' (Function.update b i x) := by
  have hcreated' : x.pc ≠ .created := by simp [hpc]
  have hshare' : x.pc.share = 0 := by rw [hpc, Pc.share]
  have hlast' : x.pc.last = 0 := by simp [hpc, Pc.last]
  rcases hcore with ⟨rfl, hfound⟩ | ⟨rfl, hfound⟩
  · refine h.update ?_ ?_ hok (h.or_lost hlost) (by simp [hlost]) (h.or_requested hrequested)
      (by simp [hrequested]) rfl (fun _ => hfound) h.abandoned
      (h.posted_update hcreated hcreated')
    · simp only [hshare, hshare']
    · simp only [hlast, hlast']
      omega
  · refine h.update ?_ ?_ hok (h.or_lost hlost) (by simp [hlost]) (h.or_requested hrequested)
      (by simp [hrequested]) rfl h.resumed (fun _ => hfound)
      (h.posted_update hcreated hcreated')
    · simp only [hshare, hshare']
    · simp only [hlast, hlast']
      omega

end Moves

theorem Step.shares {body : Body n Outcome Work σ} {x x' : σ} {c' : Core}
    {b' : ∀ i, Branch (Outcome i) (Work i)} (hstep : Step body c x b c' x' b')
    (h : Shares c b) : Shares c' b' := by
  cases hstep with
  | post hlt => exact h.post hlt
  | parentStop => exact { h with stop := by simp }
  | @start i hpc =>
      have hi := h.branches i
      refine h.move ?_ ?_ ?_ rfl rfl ?_ ?_ <;> simp_all [Pc.share, Pc.last, BranchOk]
  | @destroy i hpc =>
      have hi := h.branches i
      rcases hpc with hpc | hpc
      · refine h.move ?_ ?_ ?_ rfl rfl ?_ ?_ <;> simp_all [Pc.share, Pc.last, BranchOk]
      · refine h.move ?_ ?_ ?_ rfl rfl ?_ ?_ <;> simp_all [Pc.share, Pc.last, BranchOk]
  | @complete i o hpc ha =>
      have hi := h.branches i
      cases hw : body.begin i o
      · refine h.move ?_ ?_ ?_ rfl rfl ?_ ?_ <;> simp_all [Pc.share, Pc.last, BranchOk]
      · refine h.move ?_ ?_ ?_ rfl rfl ?_ ?_ <;> simp_all [Pc.share, Pc.last, BranchOk]
  | @abandon i hpc =>
      have hi := h.branches i
      refine h.move rfl rfl ?_ rfl rfl ?_ ?_ <;> simp_all [BranchOk]
  | @unwind i hpc ha =>
      have hi := h.branches i
      refine h.move ?_ ?_ ?_ rfl rfl ?_ ?_ <;> simp_all [Pc.share, Pc.last, BranchOk]
  | @work i w hpc =>
      have hi := h.branches i
      have hstop : (c.stop || body.stops i w) =
          (c.stop || ((b i).requested || body.stops i w)) := by
        rw [← Bool.or_assoc, ← h.or_requested rfl]
      cases hw : (body.step i x w).2
      · refine h.update ?_ ?_ ?_ (h.or_lost rfl) id hstop ?_ rfl h.resumed h.abandoned
          (h.posted_update ?_ ?_) <;> simp_all [Pc.share, Pc.last, BranchOk]
      · refine h.update ?_ ?_ ?_ (h.or_lost rfl) id hstop ?_ rfl h.resumed h.abandoned
          (h.posted_update ?_ ?_) <;> simp_all [Pc.share, Pc.last, BranchOk]
  | @finalAbandoned i hpc ha =>
      have hi := h.branches i
      refine h.storeLost ?_ ?_ ?_ ?_ rfl rfl ?_ ?_ <;>
        simp_all [Pc.share, Pc.last, BranchOk]
  | @finalFinished i hpc ha =>
      have hi := h.branches i
      refine h.move ?_ ?_ ?_ rfl rfl ?_ ?_ <;> simp_all [Pc.share, Pc.last, BranchOk]
  | @finalStop i hpc =>
      have hi := h.branches i
      refine h.requestStop ?_ ?_ ?_ rfl rfl ?_ ?_ <;> simp_all [Pc.share, Pc.last, BranchOk]
  | @finalRelease i hpc hr =>
      have hi := h.branches i
      refine h.release ?_ ?_ ?_ ?_ ?_ rfl rfl ?_ ?_ <;> simp_all [Pc.share, Pc.last, BranchOk]
  | @finalReleaseLast i hpc hr =>
      have hi := h.branches i
      refine h.release ?_ ?_ ?_ ?_ ?_ rfl rfl ?_ ?_ <;> simp_all [Pc.share, Pc.last, BranchOk]
  | @finalAbandons i hpc hl =>
      have hi := h.branches i
      refine h.decide ?_ ?_ rfl ?_ rfl rfl ?_ (.inr ⟨rfl, hl⟩) <;>
        simp_all [Pc.share, Pc.last, BranchOk]
  | @finalResumes i hpc hl =>
      have hi := h.branches i
      refine h.decide ?_ ?_ rfl ?_ rfl rfl ?_ (.inl ⟨rfl, hl⟩) <;>
        simp_all [Pc.share, Pc.last, BranchOk]
  | @loseBranch i hpc =>
      have hi := h.branches i
      refine h.storeLost ?_ ?_ ?_ ?_ rfl rfl ?_ ?_ <;>
        simp_all [Pc.share, Pc.last, BranchOk]
  | @loseStop i hpc =>
      have hi := h.branches i
      refine h.requestStop ?_ ?_ ?_ rfl rfl ?_ ?_ <;> simp_all [Pc.share, Pc.last, BranchOk]
  | @loseRelease i hpc hr =>
      have hi := h.branches i
      refine h.release ?_ ?_ ?_ ?_ ?_ rfl rfl ?_ ?_ <;> simp_all [Pc.share, Pc.last, BranchOk]
  | @loseReleaseLast i hpc hr =>
      have hi := h.branches i
      refine h.release ?_ ?_ ?_ ?_ ?_ rfl rfl ?_ ?_ <;> simp_all [Pc.share, Pc.last, BranchOk]
  | @loseAbandons i hpc =>
      have hi := h.branches i
      simp only [BranchOk, hpc] at hi
      refine h.decide ?_ ?_ rfl ?_ rfl rfl ?_ (.inr ⟨rfl, h.lost_of hi.2.1⟩) <;>
        simp_all [Pc.share, Pc.last, BranchOk]

end Preservation

/-- What a step does to the outcomes and to the work of the runners, and to the
calls of `request_stop` by those that are not lost. -/
inductive Progress (body : Body n Outcome Work σ) (x : σ)
    (b : ∀ i, Branch (Outcome i) (Work i)) : σ → (∀ i, Branch (Outcome i) (Work i)) → Prop
  | other {b'} : (∀ j, (b' j).outcome = (b j).outcome ∧ (b' j).pending = (b j).pending ∧
        ((b' j).lost = false → (b j).lost = false ∧ (b' j).requested = (b j).requested)) →
      Progress body x b x b'
  | complete {i o y} : (b i).outcome = none → (b i).pending = none →
      (b i).requested = false → y.outcome = some o → y.pending = body.begin i o →
      y.requested = false → Progress body x b x (update b i y)
  | work {i w y} : (b i).pending = some w → (b i).lost = false →
      y.outcome = (b i).outcome → y.pending = (body.step i x w).2 →
      y.requested = ((b i).requested || body.stops i w) →
      Progress body x b (body.step i x w).1 (update b i y)

theorem Progress.of_update {body : Body n Outcome Work σ} {x : σ}
    {b : ∀ i, Branch (Outcome i) (Work i)} {i : Fin n} {y : Branch (Outcome i) (Work i)}
    (houtcome : y.outcome = (b i).outcome) (hpending : y.pending = (b i).pending)
    (hlost : y.lost = true ∨ (y.lost = (b i).lost ∧ y.requested = (b i).requested)) :
    Progress body x b x (update b i y) := by
  refine .other fun j => ?_
  rcases eq_or_ne j i with rfl | hj
  · rw [update_self]
    refine ⟨houtcome, hpending, fun hfound => ?_⟩
    rcases hlost with hlost | ⟨hlost, hrequested⟩
    · simp [hfound] at hlost
    · exact ⟨hlost ▸ hfound, hrequested⟩
  · simp [update_of_ne hj]

theorem Step.progress {body : Body n Outcome Work σ} {x x' : σ} {c c' : Core}
    {b b' : ∀ i, Branch (Outcome i) (Work i)} (hstep : Step body c x b c' x' b')
    (h : Shares c b) : Progress body x b x' b' := by
  cases hstep with
  | post hlt =>
      exact .of_update rfl (by simp [Branch.pending, h.next_created hlt]) (.inr ⟨rfl, rfl⟩)
  | parentStop => exact .other fun _ => ⟨rfl, rfl, fun hfound => ⟨hfound, rfl⟩⟩
  | @complete i o hpc ha =>
      have hi := h.branches i
      simp only [BranchOk, hpc] at hi
      refine .complete (o := o) hi.1 (by simp [Branch.pending, hpc]) hi.2.2 rfl ?_ hi.2.2
      cases hw : body.begin i o <;> simp [Branch.pending]
  | @work i w hpc =>
      have hi := h.branches i
      simp only [BranchOk, hpc] at hi
      refine .work (by simp [Branch.pending, hpc]) hi.2.1 rfl ?_ rfl
      cases hw : (body.step i x w).2 <;> simp [Branch.pending]
  | @finalStop i hpc =>
      have hi := h.branches i
      simp only [BranchOk, hpc] at hi
      exact .of_update rfl (by simp [Branch.pending, hpc]) (.inl hi.2)
  | @loseStop i hpc =>
      have hi := h.branches i
      simp only [BranchOk, hpc] at hi
      exact .of_update rfl (by simp [Branch.pending, hpc]) (.inl hi.2)
  | finalAbandoned hpc =>
      exact .of_update rfl (by simp [Branch.pending, hpc]) (.inl rfl)
  | loseBranch hpc => exact .of_update rfl (by simp [Branch.pending, hpc]) (.inl rfl)
  | abandon hpc => exact .of_update rfl rfl (.inr ⟨rfl, rfl⟩)
  | destroy hpc =>
      rcases hpc with hpc | hpc <;>
        exact .of_update rfl (by simp [Branch.pending, hpc]) (.inr ⟨rfl, rfl⟩)
  | start hpc => exact .of_update rfl (by simp [Branch.pending, hpc]) (.inr ⟨rfl, rfl⟩)
  | unwind hpc => exact .of_update rfl (by simp [Branch.pending, hpc]) (.inr ⟨rfl, rfl⟩)
  | finalFinished hpc =>
      exact .of_update rfl (by simp [Branch.pending, hpc]) (.inr ⟨rfl, rfl⟩)
  | finalRelease hpc =>
      exact .of_update rfl (by simp [Branch.pending, hpc]) (.inr ⟨rfl, rfl⟩)
  | finalReleaseLast hpc =>
      exact .of_update rfl (by simp [Branch.pending, hpc]) (.inr ⟨rfl, rfl⟩)
  | finalAbandons hpc =>
      exact .of_update rfl (by simp [Branch.pending, hpc]) (.inr ⟨rfl, rfl⟩)
  | finalResumes hpc =>
      exact .of_update rfl (by simp [Branch.pending, hpc]) (.inr ⟨rfl, rfl⟩)
  | loseRelease hpc =>
      exact .of_update rfl (by simp [Branch.pending, hpc]) (.inr ⟨rfl, rfl⟩)
  | loseReleaseLast hpc =>
      exact .of_update rfl (by simp [Branch.pending, hpc]) (.inr ⟨rfl, rfl⟩)
  | loseAbandons hpc =>
      exact .of_update rfl (by simp [Branch.pending, hpc]) (.inr ⟨rfl, rfl⟩)

theorem shares_initial (hn : 0 < n) :
    Shares { remaining := n } fun i => ({} : Branch (Outcome i) (Work i)) := by
  constructor
  · simp [Pc.share]
  · simp [Pc.last, hn.ne']
  all_goals simp [BranchOk]

section Reachable

variable {body : Body n Outcome Work σ} {x : σ} {s : State Outcome Work σ}

theorem shares_reachable (hn : 0 < n) (h : Reachable body x s) : Shares s.core s.branch := by
  induction h with
  | initial => exact shares_initial hn
  | step _ hstep ih => exact (step_step hstep).shares ih

theorem Reachable.invariant {I : σ → (∀ i, Branch (Outcome i) (Work i)) → Prop} (hn : 0 < n)
    (hinit : I x fun _ => {})
    (hstep : ∀ {y b y' b'}, I y b → Progress body y b y' b' → I y' b')
    (h : Reachable body x s) : I s.shared s.branch := by
  induction h with
  | initial => exact hinit
  | step hs hnext ih => exact hstep ih ((step_step hnext).progress (shares_reachable hn hs))

end Reachable

/-- The parent is resumed once or abandoned once, when every branch has finished
or is lost, and it is resumed just when none is lost. Until then some step other
than a stop request of the parent can be taken. -/
structure JoinsOnce (body : Body n Outcome Work σ) (s : State Outcome Work σ) : Prop where
  once : s.core.resumed + s.core.abandoned ≤ 1
  decided : s.core.resumed + s.core.abandoned = 1 ↔ ∀ i, (s.branch i).pc = .done
  resumed : s.core.resumed = 1 ↔
    ∀ i, (s.branch i).pc = .done ∧ (s.branch i).outcome ≠ none
  ended : ∀ i, (s.branch i).pc = .done →
    ((s.branch i).lost = true ↔ (s.branch i).outcome = none)
  enabled : ∀ i, (s.branch i).pc ≠ .done →
    ∃ e, e ≠ .parentStop ∧ (step body s e).isSome = true

theorem Pc.done_of_share {W : Type} {pc : Pc W} (hshare : pc.share = 0) (hlast : pc.last = 0) :
    pc = .done := by
  cases pc <;> simp_all [Pc.share, Pc.last]

section Consequences

variable {c : Core} {b : ∀ i, Branch (Outcome i) (Work i)}

theorem Shares.all_done_iff (h : Shares c b) :
    c.resumed + c.abandoned = 1 ↔ ∀ i, (b i).pc = .done := by
  have hremaining := h.remaining
  have hdecided := h.decided
  constructor
  · intro hone i
    have hzero : c.remaining = 0 := by
      by_contra hne
      rw [if_neg hne] at hdecided
      omega
    rw [if_pos hzero] at hdecided
    have hshare : ∑ i, (b i).pc.share = 0 := by omega
    have hlast : ∑ i, (b i).pc.last = 0 := by omega
    exact Pc.done_of_share (Finset.sum_eq_zero_iff.mp hshare i (Finset.mem_univ i))
      (Finset.sum_eq_zero_iff.mp hlast i (Finset.mem_univ i))
  · intro hdone
    have hzero : c.remaining = 0 := by
      rw [hremaining]
      exact Finset.sum_eq_zero fun i _ => by rw [hdone i, Pc.share]
    have hlast : ∑ i, (b i).pc.last = 0 :=
      Finset.sum_eq_zero fun i _ => by simp [hdone i, Pc.last]
    rw [if_pos hzero] at hdecided
    omega

theorem Shares.ended (h : Shares c b) {i : Fin n} (hi : (b i).pc = .done) :
    (b i).lost = true ↔ (b i).outcome = none := by
  have hok := h.branches i
  simp only [BranchOk, hi] at hok
  exact hok.1

theorem Shares.outcome_of_lost (h : Shares c b) {i : Fin n} (hi : (b i).lost = true) :
    (b i).outcome = none := by
  have hok := h.branches i
  unfold BranchOk at hok
  split at hok <;> simp_all

theorem Shares.resumed_iff (h : Shares c b) :
    c.resumed = 1 ↔ ∀ i, (b i).pc = .done ∧ (b i).outcome ≠ none := by
  have hle : c.resumed + c.abandoned ≤ 1 := by
    have := h.decided
    split at this <;> omega
  constructor
  · intro hone i
    have hdone := h.all_done_iff.mp (by omega) i
    refine ⟨hdone, fun hnone => ?_⟩
    have hlost := h.lost_of ((h.ended hdone).mpr hnone)
    simp [h.resumed (by omega)] at hlost
  · intro hall
    have hone := h.all_done_iff.mpr fun i => (hall i).1
    have hfound : c.lost = false := by
      by_contra hlost
      obtain ⟨i, hi⟩ := h.lost.mp (by simpa using hlost)
      exact (hall i).2 ((h.ended (hall i).1).mp hi)
    have : c.abandoned = 0 := by
      by_contra hne
      have := h.abandoned (by omega)
      simp [hfound] at this
    omega

theorem Shares.pending_of_resumed (h : Shares c b) (hresumed : c.resumed = 1) (i : Fin n) :
    (b i).pending = none := by
  simp [Branch.pending, (h.resumed_iff.mp hresumed i).1]

theorem Shares.outcome_of_resumed (h : Shares c b) (hresumed : c.resumed = 1) (i : Fin n) :
    ∃ o, (b i).outcome = some o :=
  Option.ne_none_iff_exists'.mp (h.resumed_iff.mp hresumed i).2

end Consequences

theorem step_enabled {body : Body n Outcome Work σ} {s : State Outcome Work σ}
    (h : Shares s.core s.branch) {i : Fin n} (hi : (s.branch i).pc ≠ .done) :
    ∃ e, e ≠ .parentStop ∧ (step body s e).isSome = true := by
  cases hpc : (s.branch i).pc with
  | created =>
      have hlt : ¬i.val < s.core.posted := by
        rw [h.posted.2 i]
        simp [hpc]
      have := i.isLt
      exact ⟨.post, by simp, by simp [step, show s.core.posted < n by omega]⟩
  | posted => exact ⟨.start i, by simp, by simp [step, hpc]⟩
  | awaiting => exact ⟨.destroy i, by simp, by simp [step, hpc]⟩
  | done => exact absurd hpc hi
  | finalSuspend =>
      refine ⟨.run i, by simp, ?_⟩
      simp only [step, run, hpc]
      split <;> rfl
  | finalLast =>
      refine ⟨.run i, by simp, ?_⟩
      simp only [step, run, hpc]
      split <;> rfl
  | _ => exact ⟨.run i, by simp, by simp [step, run, hpc]⟩

theorem joinsOnce_reachable {body : Body n Outcome Work σ} {x : σ}
    {s : State Outcome Work σ} (hn : 0 < n) (h : Reachable body x s) : JoinsOnce body s := by
  have hshares := shares_reachable hn h
  constructor
  · have := hshares.decided
    split at this <;> omega
  · exact hshares.all_done_iff
  · exact hshares.resumed_iff
  · exact fun i hi => hshares.ended hi
  · exact fun i hi => step_enabled hshares hi

end Capy.Join
