import Capy.RecyclingPoolBlocks

namespace Capy.RecyclingPool

open Function

/-- The thread caches what it deallocates: its cleanup is armed, or this call
arms it. -/
def Caches (x : Thread) (janitor : Bool) : Prop :=
  x.armed = true ∧ janitor = x.janitor ∨
    x.armed = false ∧ x.poolDrained = false ∧ janitor = true

theorem armThreadCleanup_of_drained {x : Thread} (h : x.poolDrained = true) :
    armThreadCleanup x = (x, false) := by
  simp [armThreadCleanup, h]

theorem armThreadCleanup_of_not_drained {x : Thread} (h : x.poolDrained = false) :
    armThreadCleanup x = ({ x with janitor := true }, true) := by
  simp [armThreadCleanup, h]

inductive Step (s : Pool) : Pool → Prop
  | requestLarge {t bytes} : (s.threads t).pc = .idle → numClasses ≤ classOf bytes →
      Step s (s.setPc t (.opNew bytes bytes))
  | popLocal {t bytes b p} : (s.threads t).pc = .idle → bytes ≤ 2 ^ 63 →
      classOf bytes < numClasses → (s.buckets (.thread t) (classOf bytes)).pop = some (b, p) →
      Step s ((s.setBucket (.thread t) (classOf bytes) b).handOut p bytes)
  | missLocal {t bytes} : (s.threads t).pc = .idle → bytes ≤ 2 ^ 63 →
      classOf bytes < numClasses → (s.buckets (.thread t) (classOf bytes)).count = 0 →
      Step s (s.setPc t (.allocateSlow bytes))
  | refill {t bytes src b p} : (s.threads t).pc = .allocateSlow bytes →
      (s.threads t).poolDrained = false →
      (s.buckets .global (classOf bytes)).popInto (s.buckets (.thread t) (classOf bytes)) =
        some (src, b, p) →
      Step s ((((s.setThread t { s.threads t with janitor := true, pc := .idle }).setBucket
        .global (classOf bytes) src).setBucket (.thread t) (classOf bytes) b).handOut p bytes)
  | popGlobal {t bytes src p} : (s.threads t).pc = .allocateSlow bytes →
      (s.threads t).poolDrained = true →
      (s.buckets .global (classOf bytes)).pop = some (src, p) →
      Step s (((s.setPc t .idle).setBucket .global (classOf bytes) src).handOut p bytes)
  | missGlobal {t bytes} : (s.threads t).pc = .allocateSlow bytes →
      Step s (s.setThread t
        { (armThreadCleanup (s.threads t)).1 with pc := .opNew bytes (roundUpPow2 bytes) })
  | newBlock {t bytes size p} : (s.threads t).pc = .opNew bytes size → s.blocks p = none →
      Step s (({ s with blocks := update s.blocks p (some size) }.setPc t .idle).handOut
        p bytes)
  | newThrows {t bytes size} : (s.threads t).pc = .opNew bytes size →
      Step s (s.setPc t .idle)
  | deleteLarge {p bytes} : s.live p = some bytes → numClasses ≤ classOf bytes →
      Step s ({ s with live := update s.live p none }.free p)
  | pushLocal {t p bytes janitor b} : (s.threads t).pc = .idle → s.live p = some bytes →
      classOf bytes < numClasses → Caches (s.threads t) janitor →
      (s.buckets (.thread t) (classOf bytes)).push p = some b →
      Step s (({ s with live := update s.live p none }.setThread t
        { s.threads t with janitor := janitor, armed := true }).setBucket
          (.thread t) (classOf bytes) b)
  | fullLocal {t p bytes janitor} : (s.threads t).pc = .idle → s.live p = some bytes →
      classOf bytes < numClasses → Caches (s.threads t) janitor →
      Step s ({ s with live := update s.live p none }.setThread t
        { s.threads t with
          janitor := janitor
          armed := true
          pc := .deallocateSlow p (classOf bytes) })
  | bypassLocal {t p bytes} : (s.threads t).pc = .idle → s.live p = some bytes →
      classOf bytes < numClasses →
      Step s ({ s with live := update s.live p none }.setPc t
        (.deallocateSlow p (classOf bytes)))
  | pushGlobal {t p idx b} : (s.threads t).pc = .deallocateSlow p idx →
      (s.buckets .global idx).push p = some b →
      Step s ((s.setPc t .idle).setBucket .global idx b)
  | fullGlobal {t p idx} : (s.threads t).pc = .deallocateSlow p idx →
      Step s (s.setPc t (.opDelete p))
  | delete {t p} : (s.threads t).pc = .opDelete p → Step s ((s.setPc t .idle).free p)
  | exit {t} : (s.threads t).pc = .idle → Step s (runJanitor s t)

theorem allocateFast_step {s : Pool} {t bytes : Nat} (hidle : (s.threads t).pc = .idle)
    (hbytes : bytes ≤ 2 ^ 63) : Step s (allocateFast s t bytes) := by
  simp only [allocateFast]
  split_ifs with hlarge
  · exact .requestLarge hidle hlarge
  · split
    · rename_i b p hpop
      exact .popLocal hidle hbytes (Nat.not_le.mp hlarge) hpop
    · rename_i hpop
      refine .missLocal hidle hbytes (Nat.not_le.mp hlarge) ?_
      by_contra hcount
      simp [Bucket.pop, hcount] at hpop

theorem allocateSlow_step {s : Pool} {t bytes : Nat}
    (hpc : (s.threads t).pc = .allocateSlow bytes) : Step s (allocateSlow s t bytes) := by
  have hmiss := Step.missGlobal hpc
  cases hdrained : (s.threads t).poolDrained
  · rw [armThreadCleanup_of_not_drained hdrained] at hmiss
    simp only [allocateSlow, armThreadCleanup_of_not_drained hdrained, if_true]
    split
    · rename_i src b p hpop
      exact .refill hpc hdrained hpop
    · exact hmiss
  · rw [armThreadCleanup_of_drained hdrained] at hmiss
    simp only [allocateSlow, armThreadCleanup_of_drained hdrained, Bool.false_eq_true, if_false]
    split
    · rename_i src p hpop
      exact .popGlobal hpc hdrained hpop
    · exact hmiss

theorem deallocateFast_caches {s : Pool} {t p bytes : Nat} {janitor : Bool}
    (hidle : (s.threads t).pc = .idle) (hlive : s.live p = some bytes)
    (hclass : classOf bytes < numClasses) (hcaches : Caches (s.threads t) janitor) :
    Step s (match (s.buckets (.thread t) (classOf bytes)).push p with
      | some b => ({ s with live := update s.live p none }.setThread t
          { s.threads t with janitor := janitor, armed := true }).setBucket
            (.thread t) (classOf bytes) b
      | none => { s with live := update s.live p none }.setThread t
          { s.threads t with
            janitor := janitor
            armed := true
            pc := .deallocateSlow p (classOf bytes) }) := by
  split
  · rename_i b hpush
    exact .pushLocal hidle hlive hclass hcaches hpush
  · exact .fullLocal hidle hlive hclass hcaches

theorem deallocateFast_step {s : Pool} {t p bytes : Nat} (hidle : (s.threads t).pc = .idle)
    (hlive : s.live p = some bytes) :
    Step s (deallocateFast { s with live := update s.live p none } t p bytes) := by
  by_cases hlarge : numClasses ≤ classOf bytes
  · simp only [deallocateFast, if_pos hlarge]
    exact .deleteLarge hlive hlarge
  · have hclass := Nat.not_le.mp hlarge
    simp only [deallocateFast, if_neg hlarge]
    cases harmed : (s.threads t).armed
    · cases hdrained : (s.threads t).poolDrained
      · rw [armThreadCleanup_of_not_drained hdrained]
        exact deallocateFast_caches hidle hlive hclass (.inr ⟨harmed, hdrained, rfl⟩)
      · rw [armThreadCleanup_of_drained hdrained]
        exact .bypassLocal hidle hlive hclass
    · exact deallocateFast_caches hidle hlive hclass (.inl ⟨harmed, rfl⟩)

theorem step_cases {s s' : Pool} {e : Event} (h : step s e = some s') : Step s s' := by
  cases e with
  | allocate t bytes =>
      simp only [step, Option.ite_none_right_eq_some, Option.some.injEq] at h
      obtain ⟨⟨hidle, hbytes⟩, rfl⟩ := h
      exact allocateFast_step hidle hbytes
  | deallocate t p bytes =>
      simp only [step, Option.ite_none_right_eq_some, Option.some.injEq] at h
      obtain ⟨⟨hidle, hlive⟩, rfl⟩ := h
      exact deallocateFast_step hidle hlive
  | exit t =>
      simp only [step, Option.ite_none_right_eq_some, Option.some.injEq] at h
      obtain ⟨⟨hidle, -⟩, rfl⟩ := h
      exact .exit hidle
  | advance t fresh =>
      simp only [step, advance] at h
      split at h
      · simp at h
      · rename_i bytes hpc
        obtain rfl := Option.some.inj h
        exact allocateSlow_step hpc
      · rename_i bytes size hpc
        cases fresh with
        | none =>
            obtain rfl := Option.some.inj h
            exact .newThrows hpc
        | some p =>
            simp only [Option.ite_none_right_eq_some, Option.some.injEq] at h
            obtain ⟨hfree, rfl⟩ := h
            exact .newBlock hpc hfree
      · rename_i p idx hpc
        obtain rfl := Option.some.inj h
        simp only [deallocateSlow]
        split
        · rename_i b hpush
          exact .pushGlobal hpc hpush
        · exact .fullGlobal hpc
      · rename_i p hpc
        obtain rfl := Option.some.inj h
        exact .delete hpc

/-- The buckets hold different blocks, and not too many. -/
def Bounded (s : Pool) : Prop :=
  ∀ o idx, (s.buckets o idx).slots.Nodup ∧ (s.buckets o idx).count ≤ bucketCapacity

/-- What the flags of a thread and its place in a call say of its pool. -/
structure ThreadOk (x : Thread) (pool : Nat → Bucket) : Prop where
  uncached : x.janitor = false ∨ x.poolDrained = true →
    ∀ idx < numClasses, (pool idx).count = 0
  armed : x.armed = true → x.janitor = true ∧ x.poolDrained = false
  refill : ∀ bytes, x.pc = .allocateSlow bytes →
    bytes ≤ 2 ^ 63 ∧ classOf bytes < numClasses ∧ (pool (classOf bytes)).count = 0
  request : ∀ bytes size, x.pc = .opNew bytes size → Fits (.live bytes) size

/-- What every run of the resource keeps. -/
structure Invariant (s : Pool) : Prop where
  placed : Placed s
  bounded : Bounded s
  threads : ∀ t, ThreadOk (s.threads t) (s.buckets (.thread t))

theorem fits_classSize {bytes : Nat} (hbytes : bytes ≤ 2 ^ 63)
    (hclass : classOf bytes < numClasses) : Fits (.live bytes) (classSize (classOf bytes)) :=
  ⟨le_classSize hbytes hclass, fun _ => rfl⟩

theorem Invariant.placed_step {s s' : Pool} (h : Invariant s) (hstep : Step s s') :
    Placed s' := by
  obtain ⟨hp, hb, ht⟩ := h
  cases hstep with
  | requestLarge hpc | missLocal hpc | missGlobal hpc | newThrows hpc =>
      refine hp.setThread ?_
      rw [hpc]
      rfl
  | popLocal hpc hbytes hclass hpop =>
      exact (hp.pop hclass (hb ..).1 (Bucket.slots_pop hpop)).handOut
        (fits_classSize hbytes hclass)
  | @refill t bytes src b p hpc hdrained hpop =>
      obtain ⟨hbytes, hclass, hempty⟩ := (ht t).refill bytes hpc
      obtain ⟨hslots, hsrc⟩ := Bucket.slots_popInto hpop
      have hp₀ := hp.setThread (x := { s.threads t with janitor := true, pc := .idle })
        (by rw [hpc]; rfl)
      have hne : Owner.thread t ≠ .global := nofun
      have hlocal : (((s.setThread t { s.threads t with janitor := true, pc := .idle }).setBucket
          .global (classOf bytes) b).buckets (.thread t) (classOf bytes)).slots = [] := by
        rw [setBucket_buckets_ne _ _ _ hne]
        exact Bucket.slots_eq_nil.mpr hempty
      have hp₁ := (hp₀.pop hclass (hb ..).1 hslots).shift hne hlocal (b := b)
        (by simp [setBucket_buckets]) hsrc
      rw [setBucket_setBucket] at hp₁
      exact hp₁.handOut (fits_classSize hbytes hclass)
  | @popGlobal t bytes src p hpc hdrained hpop =>
      obtain ⟨hbytes, hclass, -⟩ := (ht t).refill bytes hpc
      have hp₀ := hp.setThread (x := { s.threads t with pc := .idle }) (by rw [hpc]; rfl)
      exact (hp₀.pop hclass (hb ..).1 (Bucket.slots_pop hpop)).handOut
        (fits_classSize hbytes hclass)
  | @newBlock t bytes size p hpc hfree =>
      have hp₀ := hp.setThread (x := { s.threads t with pc := .idle }) (by rw [hpc]; rfl)
      exact (hp₀.new hfree size).handOut ((ht t).request bytes size hpc)
  | deleteLarge hlive =>
      obtain ⟨n, hbut, -⟩ := hp.giveUp hlive
      exact hbut.free
  | @pushLocal t p bytes janitor b hpc hlive hclass hcaches hpush =>
      have hp₀ := hp.setThread
        (x := { s.threads t with janitor := janitor, armed := true }) rfl
      obtain ⟨n, hbut, -, hsize⟩ := hp₀.giveUp hlive
      obtain rfl := hsize hclass
      exact hbut.push hclass (Bucket.slots_push hpush).1
  | fullLocal hpc hlive hclass | bypassLocal hpc hlive hclass =>
      obtain ⟨n, hbut, -, hsize⟩ := hp.giveUp hlive
      obtain rfl := hsize hclass
      refine hbut.toHand (i := some _) (by simp [hpc, Pc.held]) rfl ?_
      rintro i ⟨⟩
      exact ⟨hclass, rfl⟩
  | @pushGlobal t p idx b hpc hpush =>
      obtain ⟨n, hbut, hfits⟩ := hp.release (x := { s.threads t with pc := .idle })
        (i := some idx) (by rw [hpc]; rfl) rfl
      obtain ⟨hclass, rfl⟩ := hfits _ rfl
      exact hbut.push hclass (Bucket.slots_push hpush).1
  | @fullGlobal t p idx hpc =>
      obtain ⟨n, hbut, -⟩ := hp.release (x := { s.threads t with pc := .idle }) (i := some idx)
        (by rw [hpc]; rfl) rfl
      have hp₁ := hbut.toHand (t := t) (x := { s.threads t with pc := .opDelete p }) (i := none)
        (by simp [Pool.setThread, Pc.held]) rfl nofun
      rwa [setThread_setThread] at hp₁
  | @delete t p hpc =>
      obtain ⟨n, hbut, -⟩ := hp.release (x := { s.threads t with pc := .idle })
        (i := none) (by rw [hpc]; rfl) rfl
      exact hbut.free
  | exit => exact hp.runJanitor

theorem Bounded.setBucket {s : Pool} (h : Bounded s) {o : Owner} {idx : Nat} {b : Bucket}
    (hnodup : b.slots.Nodup) (hcount : b.count ≤ bucketCapacity) :
    Bounded (s.setBucket o idx b) := by
  intro o' i
  by_cases hsame : o' = o ∧ i = idx
  · obtain ⟨rfl, rfl⟩ := hsame
    rw [setBucket_buckets, update_self]
    exact ⟨hnodup, hcount⟩
  · have heq : (s.setBucket o idx b).buckets o' i = s.buckets o' i := by
      by_cases ho : o' = o
      · subst ho
        have hi : i ≠ idx := fun hi => hsame ⟨rfl, hi⟩
        rw [setBucket_buckets, update_of_ne hi]
      · rw [setBucket_buckets_ne _ _ _ ho]
    rw [heq]
    exact h o' i

theorem Bounded.pop {s : Pool} (h : Bounded s) {o : Owner} {idx p : Nat} {b : Bucket}
    (hslots : (s.buckets o idx).slots = b.slots ++ [p]) :
    b.slots.Nodup ∧ b.count ≤ bucketCapacity := by
  obtain ⟨hnodup, hcount⟩ := h o idx
  have hlength := congrArg List.length hslots
  rw [hslots] at hnodup
  refine ⟨(List.nodup_append.mp hnodup).1, ?_⟩
  simp at hlength
  omega

theorem Invariant.push {s : Pool} (h : Invariant s) {o : Owner} {idx p : Nat} {b : Bucket}
    {pl : Place} (hidx : idx < numClasses) (hat : At s pl p) (hne : pl ≠ .slot o idx)
    (hpush : (s.buckets o idx).push p = some b) :
    b.slots.Nodup ∧ b.count ≤ bucketCapacity := by
  obtain ⟨hslots, hcount⟩ := Bucket.slots_push hpush
  refine ⟨?_, hcount⟩
  have hfresh : p ∉ (s.buckets o idx).slots := fun hp => hne (h.placed.unique hat ⟨hidx, hp⟩)
  rw [hslots, ← List.concat_eq_append]
  exact (h.bounded ..).1.concat hfresh

theorem Invariant.bounded_step {s s' : Pool} (h : Invariant s) (hstep : Step s s') :
    Bounded s' := by
  have hb := h.bounded
  cases hstep with
  | popLocal _ _ _ hpop =>
      obtain ⟨hnodup, hcount⟩ := hb.pop (Bucket.slots_pop hpop)
      exact hb.setBucket hnodup hcount
  | @refill t bytes src b p _ _ hpop =>
      obtain ⟨hslots, hsrc⟩ := Bucket.slots_popInto hpop
      obtain ⟨hnodup, hcount⟩ := hb.pop hslots
      have hsrcCount : src.count ≤ bucketCapacity := by
        rw [Bucket.slots_eq_nil.mp hsrc]
        exact Nat.zero_le _
      have hsrcNodup : src.slots.Nodup := by
        rw [hsrc]
        exact List.nodup_nil
      refine Bounded.setBucket (Bounded.setBucket ?_ hsrcNodup hsrcCount) hnodup hcount
      exact hb
  | popGlobal _ _ hpop =>
      obtain ⟨hnodup, hcount⟩ := hb.pop (Bucket.slots_pop hpop)
      refine Bounded.setBucket ?_ hnodup hcount
      exact hb
  | @pushLocal t p bytes idx b _ hlive hclass _ hpush =>
      have hat : At s (.live bytes) p := hlive
      obtain ⟨hnodup, hcount⟩ := h.push hclass hat (by simp) hpush
      refine Bounded.setBucket ?_ hnodup hcount
      exact hb
  | @pushGlobal t p idx b hpc hpush =>
      have hat : At s (.hand t (some idx)) p := by simp [At, hpc, Pc.held]
      obtain ⟨n, -, hfits⟩ := h.placed.block hat
      obtain ⟨hnodup, hcount⟩ := h.push (hfits idx rfl).1 hat (by simp) hpush
      refine Bounded.setBucket ?_ hnodup hcount
      exact hb
  | @exit t =>
      intro o idx
      by_cases ho : o = .thread t
      · subst ho
        simp only [runJanitor, update_self]
        split_ifs
        · exact ⟨by simp [Bucket.slots], Nat.zero_le _⟩
        · exact hb ..
      · simpa [runJanitor, ho] using hb o idx
  | _ => exact hb

section Threads

variable {x : Thread} {pool : Nat → Bucket}

theorem ThreadOk.setPc (h : ThreadOk x pool) {pc : Pc}
    (hrefill : ∀ bytes, pc = .allocateSlow bytes →
      bytes ≤ 2 ^ 63 ∧ classOf bytes < numClasses ∧ (pool (classOf bytes)).count = 0)
    (hrequest : ∀ bytes size, pc = .opNew bytes size → Fits (.live bytes) size) :
    ThreadOk { x with pc := pc } pool :=
  ⟨h.uncached, h.armed, hrefill, hrequest⟩

theorem ThreadOk.cache (hjanitor : x.janitor = true) (hdrained : x.poolDrained = false)
    (hrefill : ∀ bytes, x.pc ≠ .allocateSlow bytes)
    (hrequest : ∀ bytes size, x.pc = .opNew bytes size → Fits (.live bytes) size) :
    ThreadOk x pool where
  uncached h := by simp [hjanitor, hdrained] at h
  armed _ := ⟨hjanitor, hdrained⟩
  refill bytes h := absurd h (hrefill bytes)
  request := hrequest

theorem ThreadOk.pop (h : ThreadOk x pool) {idx : Nat} {b : Bucket}
    (hcount : b.count ≤ (pool idx).count) : ThreadOk x (update pool idx b) := by
  have hle : ∀ i, (update pool idx b i).count ≤ (pool i).count := by
    intro i
    by_cases hi : i = idx
    · subst hi
      rwa [update_self]
    · exact Nat.le_of_eq (by rw [update_of_ne hi])
  refine ⟨fun hno i hi => ?_, h.armed, fun bytes hpc => ?_, h.request⟩
  · exact Nat.le_zero.mp ((h.uncached hno i hi) ▸ hle i)
  · obtain ⟨hbytes, hclass, hzero⟩ := h.refill bytes hpc
    exact ⟨hbytes, hclass, Nat.le_zero.mp (hzero ▸ hle _)⟩

theorem fits_roundUpPow2 {bytes : Nat} (hbytes : bytes ≤ 2 ^ 63)
    (hclass : classOf bytes < numClasses) : Fits (.live bytes) (roundUpPow2 bytes) := by
  rw [roundUpPow2_of_class hbytes hclass]
  exact fits_classSize hbytes hclass

theorem ThreadOk.arm (h : ThreadOk x pool) {bytes : Nat} (hpc : x.pc = .allocateSlow bytes) :
    ThreadOk { (armThreadCleanup x).1 with pc := .opNew bytes (roundUpPow2 bytes) } pool := by
  obtain ⟨hbytes, hclass, -⟩ := h.refill bytes hpc
  have hrequest : ∀ n size, Pc.opNew bytes (roundUpPow2 bytes) = .opNew n size →
      Fits (.live n) size := by
    rintro n size ⟨⟩
    exact fits_roundUpPow2 hbytes hclass
  cases hdrained : x.poolDrained
  · rw [armThreadCleanup_of_not_drained hdrained]
    exact .cache rfl hdrained nofun hrequest
  · rw [armThreadCleanup_of_drained hdrained]
    exact h.setPc nofun hrequest

theorem Caches.janitor {janitor : Bool} (hcaches : Caches x janitor) (h : ThreadOk x pool) :
    janitor = true ∧ x.poolDrained = false := by
  rcases hcaches with ⟨harmed, rfl⟩ | ⟨-, hdrained, hjanitor⟩
  · exact h.armed harmed
  · exact ⟨hjanitor, hdrained⟩

end Threads

theorem Step.thread {s s' : Pool} (hstep : Step s s')
    (h : ∀ t, ThreadOk (s.threads t) (s.buckets (.thread t))) :
    ∃ t, ThreadOk (s'.threads t) (s'.buckets (.thread t)) ∧
      ∀ u ≠ t, s'.threads u = s.threads u ∧ s'.buckets (.thread u) = s.buckets (.thread u) := by
  have hne : ∀ t, Owner.thread t ≠ .global := by simp
  cases hstep with
  | @requestLarge t bytes hpc hlarge =>
      refine ⟨t, ?_, fun u hu => ⟨setThread_threads_ne _ _ hu, rfl⟩⟩
      rw [Pool.setPc, setThread_threads_self]
      refine (h t).setPc (by simp) ?_
      rintro n size ⟨⟩
      exact ⟨Nat.le_refl _, fun hsmall => absurd hlarge (Nat.not_le.mpr hsmall)⟩
  | @popLocal t bytes b p hpc hbytes hclass hpop =>
      refine ⟨t, ?_, fun u hu => ⟨rfl, setBucket_buckets_ne _ _ _ (by simpa using hu)⟩⟩
      rw [handOut_buckets, setBucket_buckets]
      refine (h t).pop ?_
      have hlength := congrArg List.length (Bucket.slots_pop hpop)
      simp at hlength
      omega
  | @missLocal t bytes hpc hbytes hclass hempty =>
      refine ⟨t, ?_, fun u hu => ⟨setThread_threads_ne _ _ hu, rfl⟩⟩
      rw [Pool.setPc, setThread_threads_self]
      refine (h t).setPc ?_ (by simp)
      rintro n ⟨⟩
      exact ⟨hbytes, hclass, hempty⟩
  | @refill t bytes src b p hpc hdrained hpop =>
      refine ⟨t, ?_, fun u hu => ⟨setThread_threads_ne _ _ hu, ?_⟩⟩
      · simp only [handOut_threads, setBucket_threads, setThread_threads_self]
        exact .cache rfl hdrained (by simp) (by simp)
      · rw [handOut_buckets, setBucket_buckets_ne _ _ _ (by simpa using hu),
          setBucket_buckets_ne _ _ _ (hne u), setThread_buckets]
  | @popGlobal t bytes src p hpc hdrained hpop =>
      refine ⟨t, ?_, fun u hu => ⟨setThread_threads_ne _ _ hu, ?_⟩⟩
      · simp only [handOut_threads, handOut_buckets, setBucket_threads,
          setBucket_buckets_ne _ _ _ (hne t), Pool.setPc, setThread_threads_self]
        exact (h t).setPc (by simp) (by simp)
      · rw [handOut_buckets, setBucket_buckets_ne _ _ _ (hne u)]
        rfl
  | @missGlobal t bytes hpc =>
      refine ⟨t, ?_, fun u hu => ⟨setThread_threads_ne _ _ hu, rfl⟩⟩
      rw [setThread_threads_self]
      exact (h t).arm hpc
  | @newBlock t bytes size p hpc hfree =>
      refine ⟨t, ?_, fun u hu => ⟨setThread_threads_ne _ _ hu, rfl⟩⟩
      rw [handOut_threads, Pool.setPc, setThread_threads_self]
      exact (h t).setPc (by simp) (by simp)
  | @newThrows t bytes size hpc =>
      refine ⟨t, ?_, fun u hu => ⟨setThread_threads_ne _ _ hu, rfl⟩⟩
      rw [Pool.setPc, setThread_threads_self]
      exact (h t).setPc (by simp) (by simp)
  | deleteLarge => exact ⟨0, h 0, fun u _ => ⟨rfl, rfl⟩⟩
  | @pushLocal t p bytes janitor b hpc hlive hclass hcaches hpush =>
      obtain ⟨hjanitor, hdrained⟩ := hcaches.janitor (h t)
      refine ⟨t, ?_, fun u hu => ⟨setThread_threads_ne _ _ hu,
        setBucket_buckets_ne _ _ _ (by simpa using hu)⟩⟩
      rw [setBucket_threads, setThread_threads_self]
      exact .cache hjanitor hdrained (by simp [hpc]) (by simp [hpc])
  | @fullLocal t p bytes janitor hpc hlive hclass hcaches =>
      obtain ⟨hjanitor, hdrained⟩ := hcaches.janitor (h t)
      refine ⟨t, ?_, fun u hu => ⟨setThread_threads_ne _ _ hu, rfl⟩⟩
      rw [setThread_threads_self]
      exact .cache hjanitor hdrained (by simp) (by simp)
  | @bypassLocal t p bytes hpc hlive hclass =>
      refine ⟨t, ?_, fun u hu => ⟨setThread_threads_ne _ _ hu, rfl⟩⟩
      rw [Pool.setPc, setThread_threads_self]
      exact (h t).setPc (by simp) (by simp)
  | @pushGlobal t p idx b hpc hpush =>
      refine ⟨t, ?_, fun u hu => ⟨setThread_threads_ne _ _ hu,
        setBucket_buckets_ne _ _ _ (hne u)⟩⟩
      simp only [setBucket_threads, setBucket_buckets_ne _ _ _ (hne t), Pool.setPc,
        setThread_threads_self]
      exact (h t).setPc (by simp) (by simp)
  | @fullGlobal t p idx hpc =>
      refine ⟨t, ?_, fun u hu => ⟨setThread_threads_ne _ _ hu, rfl⟩⟩
      rw [Pool.setPc, setThread_threads_self]
      exact (h t).setPc (by simp) (by simp)
  | @delete t p hpc =>
      refine ⟨t, ?_, fun u hu => ⟨setThread_threads_ne _ _ hu, rfl⟩⟩
      rw [free_threads, Pool.setPc, setThread_threads_self]
      exact (h t).setPc (by simp) (by simp)
  | @exit t hpc =>
      refine ⟨t, ?_, fun u hu => by simp [runJanitor, hu]⟩
      simp only [runJanitor, update_self]
      refine ⟨fun _ i hi => by simp [hi], by simp, by simp [hpc], by simp [hpc]⟩

theorem Invariant.step {s s' : Pool} (h : Invariant s) (hstep : Step s s') : Invariant s' := by
  refine ⟨h.placed_step hstep, h.bounded_step hstep, fun u => ?_⟩
  obtain ⟨t, ht, hother⟩ := hstep.thread h.threads
  by_cases hu : u = t
  · exact hu ▸ ht
  · rw [(hother u hu).1, (hother u hu).2]
    exact h.threads u

theorem not_at_newPool (pl : Place) (p : Nat) : ¬ At newPool pl p := by
  cases pl <;> simp [At, newPool, Pc.held, Bucket.slots, Bucket.empty]

theorem invariant_reachable {s : Pool} (h : Reachable s) : Invariant s := by
  induction h with
  | new =>
      refine ⟨⟨?_, ?_, nofun⟩, fun _ _ => ⟨List.nodup_nil, Nat.zero_le _⟩,
        fun t => ⟨fun _ _ _ => rfl, nofun, nofun, nofun⟩⟩
      · intro p pl pl' hat
        exact absurd hat (not_at_newPool pl p)
      · intro p pl hat
        exact absurd hat (not_at_newPool pl p)
  | step _ hstep ih => exact ih.step (step_cases hstep)

theorem setThread_drained {s : Pool} {t u : Nat} {x : Thread}
    (hx : x.poolDrained = (s.threads t).poolDrained) :
    ((s.setThread t x).threads u).poolDrained = (s.threads u).poolDrained := by
  by_cases hu : u = t
  · rw [hu, setThread_threads_self, hx]
  · rw [setThread_threads_ne _ _ hu]

theorem Step.drained {s s' : Pool} (hstep : Step s s') {u : Nat}
    (h : (s.threads u).poolDrained = true) : (s'.threads u).poolDrained = true := by
  cases hstep with
  | popLocal | deleteLarge => exact h
  | @missGlobal t bytes =>
      refine (setThread_drained ?_).trans h
      simp only [armThreadCleanup]
      split_ifs <;> rfl
  | @exit t =>
      by_cases hu : u = t
      · simp [runJanitor, hu]
      · simpa [runJanitor, hu] using h
  | _ =>
      refine (setThread_drained ?_).trans h
      rfl

def runEvents (s : Pool) : List Event → Option Pool
  | [] => some s
  | e :: es => (step s e).bind fun s' => runEvents s' es

theorem reachable_of_runEvents {s s' : Pool} (hs : Reachable s) (es : List Event)
    (h : runEvents s es = some s') : Reachable s' := by
  induction es generalizing s with
  | nil =>
      obtain rfl := Option.some.inj h
      exact hs
  | cons e es ih =>
      obtain ⟨s₁, hstep, hrest⟩ := Option.bind_eq_some_iff.mp h
      exact ih (.step hs hstep) hrest

end Capy.RecyclingPool
