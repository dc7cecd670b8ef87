/-
Purpose: In every run of the buffer cache the list is a ring of all buffers in
  the order of their release, no sector is cached twice, busy buffers have one
  holder, what is cached is on the disk, and no request is lost.
-/
import Mathlib.Data.Fintype.Card
import Xv6.Conc.Bcache

namespace Xv6.Bcache

open Function (update update_self update_of_ne update_apply forall_update_iff)

variable {δ : Type} {s t : Bcache δ} {order : List Buf} {havedisk1 : Bool}
variable {α : Type}

/-- What holds in every state; `order` are the buffers from `head.next` on. -/
structure Coherent (s : Bcache δ) (order : List Buf) : Prop where
  ring : s.links.Ring none (order.map some)
  all : ∀ b, b ∈ order
  sorted : order.Pairwise fun b c => s.released c ≤ s.released b
  stamped : ∀ b, s.released b ≤ s.clock
  unique : ∀ b c dev, s.dev b = some dev → s.dev c = some dev → s.sector b = s.sector c → b = c
  named : ∀ b, s.busy b = true ∨ s.valid b = true → ∃ dev, s.dev b = some dev
  held_busy : ∀ p b, b ∈ s.held p → s.busy b = true
  busy_held : ∀ b, s.busy b = true → ∃ p, b ∈ s.held p
  one_holder : ∀ p q b, b ∈ s.held p → b ∈ s.held q → p = q
  held_nodup : ∀ p, (s.held p).Nodup
  rests : ∀ b, s.busy b = false → s.touched b = false
  queue_nodup : s.queue.Nodup
  queued : ∀ b, b ∈ s.queue → (∃ p sleeping, s.control p = .disk b sleeping) ∧
    (s.valid b = false ∨ s.dirty b = true)
  dirty_queued : ∀ b, s.dirty b = true → b ∈ s.queue
  waits : ∀ p b sleeping, s.control p = .disk b sleeping → b ∈ s.held p
  gots : ∀ p b, s.control p = .got b → b ∈ s.held p ∧ b ∉ s.queue

theorem of_update {β : Type} [DecidableEq α] {f : α → β} {a c : α} {x y : β}
    (shows : update f a x c = y) (ne : x ≠ y) : c ≠ a ∧ f c = y := by
  by_cases same : c = a
  · rw [same, update_self] at shows
    exact absurd shows ne
  · rw [update_of_ne same] at shows
    exact ⟨same, shows⟩

namespace Coherent

variable {p dev sector : Nat} {b : Buf}

/-! ## Facts about one state -/

section

variable (inv : s.Coherent order)
include inv

theorem nodup : order.Nodup := by
  have nodup := (List.nodup_cons.mp inv.ring.nodup).2
  exact nodup.of_map

theorem length : (order.map some).length < Fs.NBUF + 1 := by
  have bound := List.Nodup.length_le_card inv.nodup
  rw [Fintype.card_fin] at bound
  rw [List.length_map]
  omega

/-- A process outside the disk driver holds no buffer of a request. -/
theorem not_queued (holds : b ∈ s.held p) (outside : ∀ sleeping, s.control p ≠ .disk b sleeping) :
    b ∉ s.queue := by
  intro member
  obtain ⟨⟨q, sleeping, waiting⟩, -⟩ := inv.queued b member
  have same := inv.one_holder p q b holds (inv.waits q b sleeping waiting)
  subst same
  exact outside sleeping waiting

/-- The first loop of `bget` finds the sector if it is cached. -/
theorem cached_eq (dev sector : Nat) : s.cached dev sector =
      order.find? fun b => s.dev b == some dev && s.sector b == sector := by
  unfold cached
  rw [inv.ring.search_next inv.length, List.find?_map]
  exact Option.bind_map.trans (Option.bind_fun_some _)

theorem cached_some (found : s.cached dev sector = some b) :
    s.dev b = some dev ∧ s.sector b = sector := by
  rw [inv.cached_eq] at found
  have test := List.find?_some found
  simpa using test

theorem cached_none (missing : s.cached dev sector = none) (b : Buf)
    (named : s.dev b = some dev) : s.sector b ≠ sector := by
  rw [inv.cached_eq, List.find?_eq_none] at missing
  have test := missing b (inv.all b)
  intro same
  exact test (by simp [named, same])

theorem victim_eq : s.victim = order.reverse.find? fun b => !s.busy b := by
  unfold victim
  rw [inv.ring.search_prev inv.length, ← List.map_reverse, List.find?_map]
  exact Option.bind_map.trans (Option.bind_fun_some _)

/-- The recycled buffer is not busy, and no other such buffer was released
before it. -/
theorem victim_oldest (found : s.victim = some b) :
    s.busy b = false ∧ ∀ c, s.busy c = false → s.released b ≤ s.released c := by
  rw [inv.victim_eq, List.find?_eq_some_iff_append] at found
  obtain ⟨free, before, after, split, skipped⟩ := found
  refine ⟨by simpa using free, fun c rest => ?_⟩
  have sorted := List.pairwise_reverse.mpr inv.sorted
  rw [split] at sorted
  have member : c ∈ before ++ b :: after := by
    rw [← split, List.mem_reverse]
    exact inv.all c
  rcases List.mem_append.mp member with early | late
  · have busy := skipped c early
    rw [rest] at busy
    cases busy
  · rcases List.mem_cons.mp late with rfl | later
    · exact le_refl _
    · exact (List.pairwise_cons.mp (List.pairwise_append.mp sorted).2.1).1 c later

end

/-! ## Steps -/

section

variable (inv : s.Coherent order)
include inv

theorem goto (control : BufControl)
    (before : ∀ b sleeping, s.control p = .disk b sleeping → b ∈ s.queue →
      ∃ again, control = .disk b again)
    (disk : ∀ b sleeping, control = .disk b sleeping → b ∈ s.held p)
    (got : ∀ b, control = .got b → b ∈ s.held p ∧ b ∉ s.queue) :
    (s.goto p control).Coherent order := by
  refine { inv with queued := ?_, waits := ?_, gots := ?_ }
  · intro b member
    obtain ⟨⟨q, sleeping, waiting⟩, flags⟩ := inv.queued b member
    refine ⟨⟨q, ?_⟩, flags⟩
    by_cases same : q = p
    · subst same
      simp only [Bcache.goto, update_self]
      exact before b sleeping waiting member
    · simp only [Bcache.goto, update_of_ne same]
      exact ⟨sleeping, waiting⟩
  · exact (forall_update_iff s.control fun q now => ∀ b sleeping, now = .disk b sleeping →
      b ∈ s.held q).mpr ⟨disk, fun q _ => inv.waits q⟩
  · exact (forall_update_iff s.control fun q now => ∀ b, now = .got b →
      b ∈ s.held q ∧ b ∉ s.queue).mpr
      ⟨got, fun q _ => inv.gots q⟩

theorem goto_outside (control : BufControl) (outside : ∀ b sleeping, s.control p ≠ .disk b sleeping)
    (disk : ∀ b sleeping, control ≠ .disk b sleeping)
    (got : ∀ b, control = .got b → b ∈ s.held p ∧ b ∉ s.queue) :
    (s.goto p control).Coherent order :=
  inv.goto control (fun b sleeping here => absurd here (outside b sleeping))
    (fun b sleeping there => absurd there (disk b sleeping)) got

theorem take (outside : ∀ c sleeping, s.control p ≠ .disk c sleeping) (free : s.busy b = false)
    (name : s.dev b = some dev) : Coherent (Bcache.goto { s with
      busy := update s.busy b true
      held := update s.held p (b :: s.held p) } p (.got b)) order := by
  have unheld : ∀ q, b ∉ s.held q := by
    intro q member
    rw [inv.held_busy q b member] at free
    cases free
  have mem : ∀ q c, c ∈ update s.held p (b :: s.held p) q ↔ c ∈ s.held q ∨ q = p ∧ c = b := by
    intro q c
    by_cases same : q = p
    · subst same
      rw [update_self, List.mem_cons]
      tauto
    · rw [update_of_ne same]
      tauto
  refine goto_outside ?_ (.got b) outside nofun ?_
  rotate_left
  · -- it is in no request, or somebody would hold it
    rintro c ⟨rfl⟩
    refine ⟨(mem p b).mpr (.inr ⟨rfl, rfl⟩), fun member => ?_⟩
    obtain ⟨⟨q, sleeping, waiting⟩, -⟩ := inv.queued b member
    exact unheld q (inv.waits q b sleeping waiting)
  refine { inv with
    named := ?_, held_busy := ?_, busy_held := ?_, one_holder := ?_,
    held_nodup := ?_, rests := ?_, waits := ?_, gots := ?_ }
  · intro c flags
    by_cases same : c = b
    · rw [same]
      exact ⟨dev, name⟩
    · simp only [update_of_ne same] at flags
      exact inv.named c flags
  · intro q c member
    by_cases same : c = b
    · rw [same]
      exact update_self ..
    · rcases (mem q c).mp member with old | new
      · simp only [update_of_ne same]
        exact inv.held_busy q c old
      · exact absurd new.2 same
  · intro c busy
    by_cases same : c = b
    · exact ⟨p, (mem p c).mpr (.inr ⟨rfl, same⟩)⟩
    · simp only [update_of_ne same] at busy
      obtain ⟨q, member⟩ := inv.busy_held c busy
      exact ⟨q, (mem q c).mpr (.inl member)⟩
  · intro q r c memberQ memberR
    rcases (mem q c).mp memberQ with oldQ | newQ
    · rcases (mem r c).mp memberR with oldR | newR
      · exact inv.one_holder q r c oldQ oldR
      · rw [newR.2] at oldQ
        exact absurd oldQ (unheld q)
    · rcases (mem r c).mp memberR with oldR | newR
      · rw [newQ.2] at oldR
        exact absurd oldR (unheld r)
      · rw [newQ.1, newR.1]
  · exact (forall_update_iff s.held fun _ held => held.Nodup).mpr
      ⟨List.nodup_cons.mpr ⟨unheld p, inv.held_nodup p⟩, fun q _ => inv.held_nodup q⟩
  · intro c rest
    obtain ⟨other, rest⟩ := of_update rest nofun
    exact inv.rests c rest
  · intro q c sleeping waiting
    exact (mem q c).mpr (.inl (inv.waits q c sleeping waiting))
  · intro q c here
    obtain ⟨holds, unqueued⟩ := inv.gots q c here
    exact ⟨(mem q c).mpr (.inl holds), unqueued⟩

theorem rename (b : Buf) (missing : s.cached dev sector = none) : Coherent { s with
      dev := update s.dev b (some dev)
      sector := update s.sector b sector
      valid := update s.valid b false
      dirty := update s.dirty b false } order := by
  refine { inv with
    unique := ?_, named := ?_, queued := ?_, dirty_queued := ?_ }
  · intro c e dev' nameC nameE sectors
    simp only [update_apply] at nameC nameE sectors
    split_ifs at nameC nameE sectors with sameC sameE sameE
    · rw [sameC, sameE]
    · cases nameC
      exact absurd sectors.symm (inv.cached_none missing e nameE)
    · cases nameE
      exact absurd sectors (inv.cached_none missing c nameC)
    · exact inv.unique c e dev' nameC nameE sectors
  · intro c flags
    by_cases same : c = b
    · subst same
      exact ⟨dev, update_self ..⟩
    · simp only [update_of_ne same] at flags ⊢
      exact inv.named c flags
  · intro c member
    obtain ⟨waiting, flags⟩ := inv.queued c member
    refine ⟨waiting, ?_⟩
    by_cases same : c = b
    · subst same
      exact .inl (update_self ..)
    · simp only [update_of_ne same]
      exact flags
  · intro c dirty
    obtain ⟨other, dirty⟩ := of_update dirty nofun
    exact inv.dirty_queued c dirty

/-- The critical section of `bget`. -/
theorem bget (here : s.control p = .getting dev sector)
    (taken : s.bget p dev sector = some t) : t.Coherent order := by
  have outside : ∀ b sleeping, s.control p ≠ .disk b sleeping := by
    rw [here]
    exact nofun
  unfold Bcache.bget at taken
  cases found : s.cached dev sector with
  | some b =>
    simp only [found] at taken
    split at taken
    · cases taken
      exact inv.goto_outside _ outside nofun nofun
    · rename_i free
      rw [Bool.not_eq_true] at free
      cases taken
      exact inv.take outside free (inv.cached_some found).1
  | none =>
    simp only [found] at taken
    cases oldest : s.victim with
    | none =>
      rw [oldest] at taken
      cases taken
    | some b =>
      rw [oldest] at taken
      cases taken
      exact (inv.rename b found).take outside (inv.victim_oldest oldest).1
        (update_self ..)

/-- `iderw` puts the request for a buffer that needs a transfer into the queue;
`bwrite` sets its flag first. -/
theorem iderw (dirty : Buf → Bool) (holds : b ∈ s.held p)
    (outside : ∀ c sleeping, s.control p ≠ .disk c sleeping)
    (same : ∀ c, c ≠ b → dirty c = s.dirty c)
    (work : s.valid b = false ∨ dirty b = true)
    (taken : iderw havedisk1 { s with dirty := dirty } p b = some t) :
    t.Coherent order := by
  have fresh := inv.not_queued holds (outside b)
  unfold Bcache.iderw Bcache.goto at taken
  split at taken
  · cases taken
  cases taken
  refine { inv with
    queue_nodup := ?_, queued := ?_, dirty_queued := ?_, waits := ?_, gots := ?_ }
  · exact List.nodup_append.mpr ⟨inv.queue_nodup,
      List.nodup_singleton b, fun x inQueue y last eq =>
        fresh (by rwa [← List.mem_singleton.mp last, ← eq])⟩
  · intro c member
    rcases List.mem_append.mp member with old | new
    · obtain ⟨⟨q, sleeping, waiting⟩, flags⟩ := inv.queued c old
      have otherBuf : c ≠ b := ne_of_mem_of_not_mem old fresh
      have other : q ≠ p := by
        rintro rfl
        exact outside c sleeping waiting
      refine ⟨⟨q, sleeping, ?_⟩, ?_⟩
      · simp only [update_of_ne other]
        exact waiting
      · simp only [same c otherBuf]
        exact flags
    · rw [List.mem_singleton.mp new]
      exact ⟨⟨p, true, update_self ..⟩, work⟩
  · intro c isDirty
    by_cases here : c = b
    · rw [here]
      exact List.mem_append_right _ (List.mem_singleton_self b)
    · simp only [same c here] at isDirty
      exact List.mem_append_left _ (inv.dirty_queued c isDirty)
  · refine (forall_update_iff s.control fun q now => ∀ c sleeping, now = .disk c sleeping →
      c ∈ s.held q).mpr ⟨?_, fun q _ => inv.waits q⟩
    rintro _ _ ⟨⟩
    exact holds
  · intro q c there
    obtain ⟨other, there⟩ := of_update there nofun
    obtain ⟨holdsC, notOld⟩ := inv.gots q c there
    refine ⟨holdsC, fun member => ?_⟩
    rcases List.mem_append.mp member with old | new
    · exact notOld old
    · rw [List.mem_singleton.mp new] at holdsC
      exact other (inv.one_holder q p b holdsC holds)

end

end Coherent

/-- `wakeup` does not move a process into or out of the disk driver, or to the
end of `bget`. -/
theorem wakeup_control {p : Nat} {b c : Buf} :
    ((∃ sleeping, (s.wakeup b).control p = .disk c sleeping) ↔
      ∃ sleeping, s.control p = .disk c sleeping) ∧
    ((s.wakeup b).control p = .got c ↔ s.control p = .got c) := by
  cases here : s.control p with
  | idle | getting dev sector | got e => simp [wakeup, here]
  | asleep e dev sector =>
    by_cases same : e = b <;> simp [wakeup, here, same]
  | disk e sleeping =>
    cases sleeping with
    | false => simp [wakeup, here]
    | true => by_cases same : e = b <;> simp [wakeup, here, same]

namespace Coherent

variable {b : Buf} {p : Nat}

section

variable (inv : s.Coherent order)
include inv

theorem wakeup (b : Buf) : (s.wakeup b).Coherent order := by
  refine { inv with queued := ?_, waits := ?_, gots := ?_ }
  · intro c member
    obtain ⟨⟨q, waiting⟩, flags⟩ := inv.queued c member
    exact ⟨⟨q, wakeup_control.1.mpr waiting⟩, flags⟩
  · intro q c sleeping waiting
    obtain ⟨before, was⟩ := wakeup_control.1.mp ⟨sleeping, waiting⟩
    exact inv.waits q c before was
  · intro q c here
    exact inv.gots q c (wakeup_control.2.mp here)

theorem transfer {rest : List Buf} {dev : Nat} (data : Buf → δ) (disk : Nat → Nat → δ)
    (first : s.queue = b :: rest) (name : s.dev b = some dev) :
    Coherent { s with
      queue := rest
      data := data
      disk := disk
      valid := update s.valid b true
      dirty := update s.dirty b false
      touched := update s.touched b false } order := by
  have nodup := inv.queue_nodup
  rw [first, List.nodup_cons] at nodup
  have inQueue : ∀ c, c ∈ rest → c ∈ s.queue ∧ c ≠ b := by
    intro c member
    refine ⟨by rw [first]; exact List.mem_cons_of_mem b member, ?_⟩
    rintro rfl
    exact nodup.1 member
  refine { inv with
    named := ?_, rests := ?_, queue_nodup := nodup.2,
    queued := ?_, dirty_queued := ?_, gots := ?_ }
  · intro c flags
    by_cases same : c = b
    · rw [same]
      exact ⟨dev, name⟩
    · simp only [update_of_ne same] at flags
      exact inv.named c flags
  · exact (forall_update_iff _ fun c now => s.busy c = false → now = false).mpr
      ⟨fun _ => rfl, fun c _ => inv.rests c⟩
  · intro c member
    obtain ⟨old, other⟩ := inQueue c member
    simp only [update_of_ne other]
    exact inv.queued c old
  · intro c dirty
    obtain ⟨other, dirty⟩ := of_update dirty nofun
    have member := inv.dirty_queued c dirty
    rw [first] at member
    exact (List.mem_cons.mp member).resolve_left other
  · intro q c here
    obtain ⟨holds, unqueued⟩ := inv.gots q c here
    exact ⟨holds, fun member => unqueued (inQueue c member).1⟩

theorem ideintr (taken : s.ideintr = some t) : t.Coherent order := by
  unfold Bcache.ideintr at taken
  cases first : s.queue with
  | nil =>
    rw [first] at taken
    cases taken
  | cons b rest =>
    cases name : s.dev b with
    | none =>
      simp only [first, name, reduceCtorEq] at taken
    | some dev =>
      simp only [first, name, Option.some.injEq] at taken
      rw [← taken]
      exact (inv.transfer _ _ first name).wakeup b

theorem ring_front (b : Buf) : ∃ left right, order = left ++ b :: right ∧
      ((s.links.unlink (some b)).insertFront none (some b)).Ring none
        ((b :: (left ++ right)).map some) := by
  obtain ⟨left, right, split⟩ := List.append_of_mem (inv.all b)
  refine ⟨left, right, split, ?_⟩
  have ring := inv.ring
  have nodup := inv.nodup
  rw [split] at nodup
  rw [split, List.map_append, List.map_cons] at ring
  have out := ring.unlink
  rw [← List.map_append] at out
  refine out.insertFront ?_
  simp only [List.mem_cons, reduceCtorEq, List.mem_map, Option.some.injEq,
    exists_eq_right, false_or]
  exact (List.nodup_middle.mp nodup).notMem

theorem release (owns : s.Owns p b) (clean : s.touched b = false) : ∃ order', Coherent { s with
      links := (s.links.unlink (some b)).insertFront none (some b)
      busy := update s.busy b false
      held := update s.held p ((s.held p).erase b)
      released := update s.released b (s.clock + 1)
      clock := s.clock + 1 } order' := by
  obtain ⟨idle, holds⟩ := owns
  obtain ⟨left, right, split, ring⟩ := inv.ring_front b
  have nodup := inv.nodup
  rw [split] at nodup
  have away : b ∉ left ++ right := (List.nodup_middle.mp nodup).notMem
  have mem : ∀ q c, c ∈ update s.held p ((s.held p).erase b) q ↔ c ∈ s.held q ∧ c ≠ b := by
    intro q c
    by_cases same : q = p
    · subst same
      rw [update_self, (inv.held_nodup q).mem_erase_iff, and_comm]
    · rw [update_of_ne same]
      refine ⟨fun member => ⟨member, ?_⟩, And.left⟩
      rintro rfl
      exact same (inv.one_holder q p c member holds)
  refine ⟨b :: (left ++ right), { inv with
    ring := ring, all := ?_, sorted := ?_, stamped := ?_, named := ?_,
    held_busy := ?_, busy_held := ?_, one_holder := ?_, held_nodup := ?_,
    rests := ?_, waits := ?_, gots := ?_ }⟩
  · intro c
    have member := inv.all c
    rw [split] at member
    simp only [List.mem_append, List.mem_cons] at member ⊢
    tauto
  · have sorted := inv.sorted
    rw [split] at sorted
    refine List.pairwise_cons.mpr ⟨?_, ?_⟩
    · intro c member
      have other : c ≠ b := ne_of_mem_of_not_mem member away
      simp only [update_self, update_of_ne other]
      exact Nat.le_succ_of_le (inv.stamped c)
    · have rest : (left ++ right).Pairwise fun c e =>
          s.released e ≤ s.released c :=
        sorted.sublist ((List.sublist_cons_self b right).append_left left)
      refine rest.imp_of_mem fun {c e} memberC memberE le => ?_
      have otherC : c ≠ b := ne_of_mem_of_not_mem memberC away
      have otherE : e ≠ b := ne_of_mem_of_not_mem memberE away
      simp only [update_of_ne otherC, update_of_ne otherE]
      exact le
  · exact (forall_update_iff _ fun _ now => now ≤ s.clock + 1).mpr
      ⟨le_refl _, fun c _ => Nat.le_succ_of_le (inv.stamped c)⟩
  · intro c flags
    by_cases same : c = b
    · rw [same]
      exact inv.named b (.inl (inv.held_busy p b holds))
    · simp only [update_of_ne same] at flags
      exact inv.named c flags
  · intro q c member
    obtain ⟨old, other⟩ := (mem q c).mp member
    simp only [update_of_ne other]
    exact inv.held_busy q c old
  · intro c busy
    obtain ⟨other, busy⟩ := of_update busy nofun
    obtain ⟨q, member⟩ := inv.busy_held c busy
    exact ⟨q, (mem q c).mpr ⟨member, other⟩⟩
  · intro q r c memberQ memberR
    exact inv.one_holder q r c ((mem q c).mp memberQ).1 ((mem r c).mp memberR).1
  · exact (forall_update_iff s.held fun _ held => held.Nodup).mpr
      ⟨(inv.held_nodup p).erase b, fun q _ => inv.held_nodup q⟩
  · exact (forall_update_iff _ fun c now => now = false → s.touched c = false).mpr
      ⟨fun _ => clean, fun c _ => inv.rests c⟩
  · intro q c sleeping waiting
    have old := inv.waits q c sleeping waiting
    refine (mem q c).mpr ⟨old, ?_⟩
    rintro rfl
    have same := inv.one_holder q p c old holds
    subst same
    rw [idle] at waiting
    cases waiting
  · intro q c here
    obtain ⟨old, unqueued⟩ := inv.gots q c here
    refine ⟨(mem q c).mpr ⟨old, ?_⟩, unqueued⟩
    rintro rfl
    have same := inv.one_holder q p c old holds
    subst same
    rw [idle] at here
    cases here

theorem store (data : δ) (owns : s.Owns p b) : Coherent { s with
      data := update s.data b data
      touched := update s.touched b true } order := by
  have busy := inv.held_busy p b owns.2
  refine { inv with rests := ?_ }
  intro c free
  have other : c ≠ b := by
    rintro rfl
    exact absurd (busy.symm.trans free) (by decide)
  simp only [update_of_ne other]
  exact inv.rests c free

theorem look_done {sleeping : Bool} (here : s.control p = .disk b sleeping)
    (done : s.valid b = true ∧ s.dirty b = false) : (s.goto p .idle).Coherent order := by
  refine inv.goto .idle ?_ nofun nofun
  intro c asleep waiting member
  rw [here, BufControl.disk.injEq] at waiting
  rw [← waiting.1] at member
  rcases (inv.queued b member).2 with invalid | dirty
  · exact absurd (done.1.symm.trans invalid) (by decide)
  · exact absurd (dirty.symm.trans done.2) (by decide)

theorem step {move : Move δ} (taken : step havedisk1 s move = some t) :
    ∃ order', t.Coherent order' := by
  cases move with simp only [Bcache.step] at taken
  | bread p dev sector =>
    obtain ⟨idle, ⟨⟩⟩ := Option.ite_none_right_eq_some.mp taken
    refine ⟨order, inv.goto_outside _ ?_ nofun nofun⟩
    rw [idle]
    exact nofun
  | bget p =>
    split at taken
    · next here => exact ⟨order, inv.bget here taken⟩
    · cases taken
  | check p =>
    split at taken
    · next b here =>
      have outside : ∀ c sleeping, s.control p ≠ .disk c sleeping := by
        rw [here]
        exact nofun
      split at taken
      · cases taken
        exact ⟨order, inv.goto_outside .idle outside nofun nofun⟩
      · next invalid =>
        exact ⟨order, inv.iderw s.dirty (inv.gots p b here).1 outside (fun _ _ => rfl)
          (.inl (Bool.eq_false_of_not_eq_true invalid)) taken⟩
    · cases taken
  | look p =>
    split at taken
    · next b here =>
      split at taken <;> cases taken
      · next done => exact ⟨order, inv.look_done here done⟩
      · -- the request is still the one it waits for
        refine ⟨order, inv.goto (.disk b true) ?_ ?_ nofun⟩
        · intro c asleep waiting _
          rw [here, BufControl.disk.injEq] at waiting
          exact ⟨true, by rw [waiting.1]⟩
        · rintro c asleep ⟨⟩
          exact inv.waits p b false here
    · cases taken
  | store p b data =>
    obtain ⟨owns, ⟨⟩⟩ := Option.ite_none_right_eq_some.mp taken
    exact ⟨order, inv.store data owns⟩
  | bwrite p b =>
    simp only [Option.ite_none_right_eq_some] at taken
    obtain ⟨⟨idle, holds⟩, -, taken⟩ := taken
    refine ⟨order, inv.iderw (update s.dirty b true) holds ?_
      (fun _ other => update_of_ne other ..)
      (.inr (update_self ..)) taken⟩
    rw [idle]
    exact nofun
  | brelse p b =>
    simp only [Bcache.brelse, Option.ite_none_right_eq_some] at taken
    obtain ⟨⟨owns, clean⟩, -, ⟨⟩⟩ := taken
    obtain ⟨order', released⟩ := inv.release owns clean
    exact ⟨order', released.wakeup b⟩
  | ideintr => exact ⟨order, inv.ideintr taken⟩

end

end Coherent

/-! ## What the buffers hold -/

/-- The controller can address the sector. -/
def Addressed (dev sector : Nat) : Prop := dev ≤ 1 ∧ sector < 2 ^ 28

instance (dev sector : Nat) : Decidable (Addressed dev sector) :=
  inferInstanceAs (Decidable (_ ∧ _))

/-- Processes ask only for sectors that the controller can address. -/
def Move.Addressed : Move δ → Prop
  | .bread _ dev sector => Bcache.Addressed dev sector
  | _ => True

instance : DecidablePred (Move.Addressed (δ := δ))
  | .bread _ dev sector => inferInstanceAs (Decidable (Bcache.Addressed dev sector))
  | .bget _ | .check _ | .look _ | .store _ _ _ | .bwrite _ _ | .brelse _ _ | .ideintr =>
    inferInstanceAs (Decidable True)

/-- The states of the runs in which they do. -/
abbrev ReachesAddressed (havedisk1 : Bool) : Bcache δ → Prop :=
  Reach Starts (fun s move t => step havedisk1 s move = some t) (fun _ move => move.Addressed)

/-- The sector that a process in `bget` asks for. -/
def asks : BufControl → Option (Nat × Nat)
  | .getting dev sector => some (dev, sector)
  | .asleep _ dev sector => some (dev, sector)
  | _ => none

/-- What a buffer holds is on the disk, as long as every sector asked for can be addressed. -/
structure Current (s : Bcache δ) : Prop where
  asked : ∀ p dev sector, asks (s.control p) = some (dev, sector) → Addressed dev sector
  named : ∀ b dev, s.dev b = some dev → Addressed dev (s.sector b)
  data : ∀ b dev, s.valid b = true → s.dirty b = false → s.touched b = false →
    s.dev b = some dev → s.data b = s.disk dev (s.sector b)

theorem idestart_of_addressed {dev sector : Nat} (addressed : Addressed dev sector) :
    idestart dev sector = (dev, sector) := by
  obtain ⟨small, low⟩ := addressed
  exact Prod.ext (Nat.mod_eq_of_lt (by omega)) (Nat.mod_eq_of_lt low)

theorem wakeup_asks (b : Buf) (p : Nat) : asks ((s.wakeup b).control p) = asks (s.control p) := by
  cases here : s.control p with
  | idle | getting dev sector | got e => simp [wakeup, here]
  | asleep e dev sector =>
    by_cases same : e = b <;> simp [wakeup, here, same, asks]
  | disk e sleeping =>
    cases sleeping <;> by_cases same : e = b <;> simp [wakeup, here, same, asks]

namespace Current

variable {p : Nat} {b : Buf}

section

variable (current : s.Current)
include current

theorem goto (control : BufControl)
    (asked : ∀ dev sector, asks control = some (dev, sector) → Addressed dev sector) :
    (s.goto p control).Current :=
  { current with
    asked := (forall_update_iff s.control fun _ now => ∀ dev sector,
      asks now = some (dev, sector) → Addressed dev sector).mpr
        ⟨asked, fun q _ => current.asked q⟩ }

theorem wakeup (b : Buf) : (s.wakeup b).Current :=
  { current with asked := fun p => (wakeup_asks b p).symm ▸ current.asked p }

/-- The critical section of `bget`: a buffer with a new name is not valid. -/
theorem bget {dev sector : Nat} (here : s.control p = .getting dev sector)
    (taken : s.bget p dev sector = some t) : t.Current := by
  have addressed : Addressed dev sector := current.asked p dev sector (by rw [here]; rfl)
  unfold Bcache.bget at taken
  split at taken
  · split at taken <;> cases taken
    · exact current.goto _ (by rintro _ _ ⟨⟩; exact addressed)
    · exact { current.goto (.got _) nofun with }
  · split at taken <;> cases taken
    next b _ =>
    refine { current.goto (.got b) nofun with named := ?_, data := ?_ }
    · intro c dev' name
      simp only [update_apply] at name ⊢
      split_ifs at name ⊢ with same
      · cases name
        exact addressed
      · exact current.named c dev' name
    · intro c dev' valid clean untouched name
      obtain ⟨other, valid⟩ := of_update valid nofun
      simp only [Bcache.goto, update_of_ne other] at clean name ⊢
      exact current.data c dev' valid clean untouched name

/-- `iderw` is for a buffer that is not valid or that `bwrite` has marked. -/
theorem iderw (dirty : Buf → Bool) (same : ∀ c, c ≠ b → dirty c = s.dirty c)
    (work : s.valid b = false ∨ dirty b = true)
    (taken : iderw havedisk1 { s with dirty := dirty } p b = some t) : t.Current := by
  unfold Bcache.iderw at taken
  split at taken <;> cases taken
  refine { current.goto (.disk b true) nofun with data := ?_ }
  intro c dev valid clean untouched name
  have other : c ≠ b := by
    rintro rfl
    rcases work with invalid | isDirty
    · exact absurd (valid.symm.trans invalid) (by decide)
    · exact absurd (isDirty.symm.trans clean) (by decide)
  exact current.data c dev valid ((same c other).symm.trans clean) untouched name

/-- The disk has moved the sector of the first request, which no other buffer is for. -/
theorem ideintr (inv : s.Coherent order) (taken : s.ideintr = some t) : t.Current := by
  unfold Bcache.ideintr at taken
  split at taken
  · cases taken
  next b rest _ =>
  split at taken
  · cases taken
  next dev name =>
  simp only [idestart_of_addressed (current.named b dev name), Option.some.injEq] at taken
  rw [← taken]
  apply Current.wakeup
  refine { current with data := ?_ }
  intro c dev' valid clean untouched nameC
  by_cases same : c = b
  · subst same
    cases name.symm.trans nameC
    cases dirty : s.dirty c <;> simp
  · simp only [update_of_ne same] at valid clean untouched
    have before := current.data c dev' valid clean untouched nameC
    cases dirty : s.dirty b with
    | false => simpa [update_of_ne same] using before
    | true =>
      simp only [if_true]
      by_cases sameDev : dev' = dev
      · subst sameDev
        have otherSector : s.sector c ≠ s.sector b := fun eq =>
          same (inv.unique c b dev' nameC name eq)
        rw [update_self, update_of_ne otherSector]
        exact before
      · rw [update_of_ne sameDev]
        exact before

/-- Every step for a sector that can be addressed keeps the buffers current. -/
theorem step {move : Move δ} (inv : s.Coherent order) (addressed : move.Addressed)
    (taken : step havedisk1 s move = some t) : t.Current := by
  cases move with simp only [Bcache.step] at taken
  | bread p dev sector =>
    obtain ⟨-, ⟨⟩⟩ := Option.ite_none_right_eq_some.mp taken
    exact current.goto _ (by rintro _ _ ⟨⟩; exact addressed)
  | bget p =>
    split at taken
    · next here => exact current.bget here taken
    · cases taken
  | check p =>
    split at taken
    · split at taken
      · cases taken
        exact current.goto .idle nofun
      · next invalid =>
        exact current.iderw s.dirty (fun _ _ => rfl) (.inl (Bool.eq_false_of_not_eq_true invalid))
          taken
    · cases taken
  | look p =>
    split at taken
    · split at taken <;> cases taken
      · exact current.goto .idle nofun
      · exact current.goto (.disk _ true) nofun
    · cases taken
  | store p b data =>
    obtain ⟨-, ⟨⟩⟩ := Option.ite_none_right_eq_some.mp taken
    refine { current with data := ?_ }
    intro c dev valid clean untouched name
    obtain ⟨other, untouched⟩ := of_update untouched nofun
    simp only [update_of_ne other]
    exact current.data c dev valid clean untouched name
  | bwrite p b =>
    simp only [Option.ite_none_right_eq_some] at taken
    exact current.iderw (update s.dirty b true) (fun _ other => update_of_ne other ..)
      (.inr (update_self ..)) taken.2.2
  | brelse p b =>
    simp only [Bcache.brelse, Option.ite_none_right_eq_some] at taken
    obtain ⟨-, -, ⟨⟩⟩ := taken
    apply Current.wakeup
    exact { current with }
  | ideintr => exact current.ideintr inv taken

end

end Current

/-! ## Runs -/

/-- The loop of `binit`: every buffer goes to the front. -/
theorem ring_foldl (fresh done : List Buf) (links : Links BufNode)
    (ring : links.Ring none (done.map some)) (nodup : (fresh.reverse ++ done).Nodup) :
    (fresh.foldl (fun links b => links.insertFront none (some b)) links).Ring
      none ((fresh.reverse ++ done).map some) := by
  induction fresh generalizing done links with
  | nil => exact ring
  | cons b rest ih =>
    rw [List.reverse_cons, List.append_assoc, List.singleton_append] at nodup ⊢
    refine ih (b :: done) _ ?_ nodup
    refine ring.insertFront ?_
    simp only [List.mem_cons, reduceCtorEq, List.mem_map,
      Option.some.injEq, exists_eq_right, false_or]
    exact (List.nodup_cons.mp (List.nodup_append.mp nodup).2.1).1

theorem ring_init : initLinks.Ring none ((List.finRange Fs.NBUF).reverse.map some) := by
  have built := ring_foldl (List.finRange Fs.NBUF) []
    { next := fun _ => none, prev := fun _ => none }
    ⟨⟨rfl, rfl⟩, List.nodup_singleton none⟩
    (by
      rw [List.append_nil, List.nodup_reverse]
      exact List.nodup_finRange _)
  rw [List.append_nil] at built
  exact built

theorem Starts.coherent (starts : Starts s) : s.Coherent (List.finRange Fs.NBUF).reverse where
  ring := starts.links ▸ ring_init
  all b := List.mem_reverse.mpr (List.mem_finRange b)
  sorted := List.pairwise_of_forall fun b c => by simp [starts.released]
  stamped b := by simp [starts.released]
  unique b c dev := by simp [starts.dev]
  named b := by simp [starts.busy, starts.valid]
  held_busy p b := by simp [starts.held]
  busy_held b := by simp [starts.busy]
  one_holder p q b := by simp [starts.held]
  held_nodup p := by simp [starts.held]
  rests b _ := starts.touched b
  queue_nodup := by simp [starts.queue]
  queued b := by simp [starts.queue]
  dirty_queued b := by simp [starts.dirty]
  waits p b sleeping := by simp [starts.control]
  gots p b := by simp [starts.control]

theorem Starts.current (starts : Starts s) : s.Current where
  asked p dev sector := by simp [starts.control, asks]
  named b dev := by simp [starts.dev]
  data b dev := by simp [starts.valid]

theorem Coherent.clean (inv : s.Coherent order) {b : Buf} (free : s.busy b = false) :
    s.dirty b = false := by
  rw [Bool.eq_false_iff]
  intro dirty
  obtain ⟨⟨p, sleeping, waiting⟩, -⟩ := inv.queued b (inv.dirty_queued b dirty)
  have busy := inv.held_busy p b (inv.waits p b sleeping waiting)
  exact absurd (busy.symm.trans free) (by decide)

/-- The buffer holds the contents of its sector. -/
def OnDisk (s : Bcache δ) (b : Buf) : Prop :=
  ∃ dev, s.dev b = some dev ∧ s.data b = s.disk dev (s.sector b)

/-- In every run, the list through `head` holds each buffer once and its two
pointers are inverse to each other; no sector is cached twice; a busy buffer
has exactly one holder; and `bget` recycles the buffer that was released longest
ago.  A valid buffer that is not busy holds what is on the disk in the runs
whose sectors the controller can address. -/
theorem bcache_coherent (havedisk1 : Bool) :
    (∀ s : Bcache δ, Reaches havedisk1 s →
      (∃ order : List Buf, order.Nodup ∧ (∀ b, b ∈ order) ∧
        s.links.Ring none (order.map some)) ∧
      (∀ node, s.links.prev (s.links.next node) = node ∧
        s.links.next (s.links.prev node) = node) ∧
      (∀ b c dev, s.dev b = some dev → s.dev c = some dev → s.sector b = s.sector c → b = c) ∧
      (∀ b, s.busy b = true → ∃! p, b ∈ s.held p) ∧
      (∀ b, s.victim = some b → s.busy b = false ∧
        ∀ c, s.busy c = false → s.released b ≤ s.released c)) ∧
    ∀ s : Bcache δ, ReachesAddressed havedisk1 s →
      ∀ b, s.busy b = false → s.valid b = true → s.OnDisk b := by
  constructor
  · intro s reached
    obtain ⟨order, inv⟩ : ∃ order, s.Coherent order :=
      reached.invariant (I := fun s => ∃ order, Coherent s order)
        (fun _ starts => ⟨_, starts.coherent⟩)
        (fun _ _ _ ⟨_, inv⟩ _ taken => inv.step taken)
    refine ⟨⟨order, inv.nodup, inv.all, inv.ring⟩, ?_,
      inv.unique, ?_, fun b => inv.victim_oldest⟩
    · obtain ⟨forth, back⟩ := inv.ring.path.inverse
      have member : ∀ node : BufNode, node ∈ none :: order.map some := by
        intro node
        cases node with
        | none => exact List.mem_cons_self
        | some b =>
          exact List.mem_cons_of_mem _ (List.mem_map_of_mem (inv.all b))
      intro node
      refine ⟨forth node (member node), back node ?_⟩
      rw [List.mem_append, List.mem_singleton, or_comm, ← List.mem_cons]
      exact member node
    · intro b busy
      obtain ⟨p, holds⟩ := inv.busy_held b busy
      exact ⟨p, holds, fun q also => inv.one_holder q p b also holds⟩
  · intro s reached b free valid
    obtain ⟨current, order, inv⟩ : s.Current ∧ ∃ order, s.Coherent order :=
      reached.invariant (I := fun s => s.Current ∧ ∃ order, Coherent s order)
        (fun _ starts => ⟨starts.current, _, starts.coherent⟩)
        (fun _ _ _ ⟨current, _, inv⟩ addressed taken =>
          ⟨current.step inv addressed taken, inv.step taken⟩)
    obtain ⟨dev, name⟩ := inv.named b (.inr valid)
    exact ⟨dev, name, current.data b dev valid (inv.clean free) (inv.rests b free) name⟩

/-- An empty cache over a disk whose sectors hold their own numbers. -/
def empty : Bcache Nat where
  links := initLinks
  dev _ := none
  sector _ := 0
  busy _ := false
  valid _ := false
  dirty _ := false
  data _ := 0
  queue := []
  disk _ sector := sector
  control _ := .idle
  held _ := []
  touched _ := false
  released _ := 0
  clock := 0

theorem empty_starts : Starts empty :=
  ⟨rfl, fun _ => rfl, fun _ => rfl, fun _ => rfl, fun _ => rfl, rfl,
    fun _ => rfl, fun _ => rfl, fun _ => rfl, fun _ => rfl, rfl⟩

/-- Process 0 reads sector 7 and changes it while process 1 waits for it; then
process 1 gets it from the cache. -/
def handOver : List (Move Nat) :=
  [.bread 0 1 7, .bget 0, .check 0, .ideintr, .look 0, .bread 1 1 7, .bget 1,
    .store 0 0 70, .bwrite 0 0, .ideintr, .look 0, .brelse 0 0, .bget 1,
    .check 1, .brelse 1 0]

theorem handOver_run : ((handOver.foldlM (fun s move =>
      if decide move.Addressed then step true s move else none) empty).map fun s =>
      (s.busy 0, s.valid 0, s.data 0, s.disk 1 7, s.clock)) =
      some (false, true, 70, 70, 2) := by
  decide +kernel

theorem handOver_coherent : ∃ s : Bcache Nat, ReachesAddressed true s ∧
    s.busy 0 = false ∧ s.disk 1 7 = 70 ∧ s.OnDisk 0 ∧
    ∀ b c dev, s.dev b = some dev → s.dev c = some dev → s.sector b = s.sector c → b = c := by
  obtain ⟨s, run, facts⟩ := Option.map_eq_some_iff.mp handOver_run
  simp only [Prod.mk.injEq] at facts
  obtain ⟨free, valid, -, disk, -⟩ := facts
  have reached : ReachesAddressed true s :=
    Reach.checked (fun _ move (addressed : decide move.Addressed = true) =>
      of_decide_eq_true addressed) (.start empty_starts) run
  exact ⟨s, reached, free, disk, (bcache_coherent true).2 s reached 0 free valid,
    ((bcache_coherent true).1 s (reached.weaken fun _ _ _ => trivial)).2.2.1⟩

/-- A process reads sector 5 and writes what it calls sector 0x10000005: the same one. -/
def twoNames : List (Move Nat) :=
  [.bread 0 1 5, .bget 0, .check 0, .ideintr, .look 0, .brelse 0 0,
    .bread 0 1 0x10000005, .bget 0, .check 0, .ideintr, .look 0,
    .store 0 1 99, .bwrite 0 1, .ideintr, .look 0, .brelse 0 1]

theorem twoNames_run : ((twoNames.foldlM (step true) empty).map fun s =>
      ((s.busy 0, s.valid 0, s.dev 0), s.sector 0, s.data 0, s.disk 1 5)) =
      some ((false, true, some 1), 5, 5, 99) := by
  decide +kernel

/-- The buffer of sector 5 still holds what the sector held before. -/
theorem twoNames_stale : ∃ s : Bcache Nat, Reaches true s ∧
    s.busy 0 = false ∧ s.valid 0 = true ∧ ¬s.OnDisk 0 := by
  obtain ⟨s, run, facts⟩ := Option.map_eq_some_iff.mp twoNames_run
  simp only [Prod.mk.injEq] at facts
  obtain ⟨⟨free, valid, name⟩, sector, data, disk⟩ := facts
  refine ⟨s, Reach.foldlM (.start empty_starts) run, free, valid, ?_⟩
  rintro ⟨dev, named, same⟩
  cases name.symm.trans named
  rw [sector, data, disk] at same
  exact absurd same (by decide)

/-! ## The requests of `iderw` -/

/-- Whoever waits for the disk has a request in the queue, or has been woken after it was done. -/
def Answered (s : Bcache δ) : Prop := ∀ p b sleeping, s.control p = .disk b sleeping →
  b ∈ s.queue ∨ sleeping = false ∧ s.valid b = true ∧ s.dirty b = false

/-- `wakeup` lets no process fall asleep, and leaves none asleep on its channel. -/
theorem wakeup_disk {p : Nat} {b c : Buf} {sleeping : Bool}
    (waits : (s.wakeup b).control p = .disk c sleeping) :
    ∃ before, s.control p = .disk c before ∧ (before = false ∨ c = b → sleeping = false) := by
  obtain ⟨before, was⟩ := wakeup_control.1.mp ⟨sleeping, waits⟩
  refine ⟨before, was, ?_⟩
  cases before <;> by_cases same : c = b <;> simp_all [Bcache.wakeup]

namespace Answered

variable {p : Nat} {b : Buf} (answered : s.Answered)
include answered

theorem goto (control : BufControl) (there : ∀ b sleeping, control = .disk b sleeping →
      b ∈ s.queue ∨ sleeping = false ∧ s.valid b = true ∧ s.dirty b = false) :
    (s.goto p control).Answered :=
  (forall_update_iff s.control fun _ now => ∀ b sleeping, now = .disk b sleeping →
    b ∈ s.queue ∨ sleeping = false ∧ s.valid b = true ∧ s.dirty b = false).mpr
      ⟨there, fun q _ => answered q⟩

theorem wakeup (b : Buf) : (s.wakeup b).Answered := by
  intro q c sleeping waits
  obtain ⟨before, was, woken⟩ := wakeup_disk waits
  exact (answered q c before was).imp_right fun ⟨awake, done⟩ => ⟨woken (.inl awake), done⟩

theorem flags (valid dirty : Buf → Bool) (others : ∀ q sleeping, s.control q ≠ .disk b sleeping)
    (same : ∀ c, c ≠ b → valid c = s.valid c ∧ dirty c = s.dirty c) :
    Answered { s with valid := valid, dirty := dirty } := by
  intro q c sleeping waits
  obtain ⟨sameValid, sameDirty⟩ := same c (by rintro rfl; exact others q sleeping waits)
  simp only [sameValid, sameDirty]
  exact answered q c sleeping waits

theorem iderw (taken : iderw havedisk1 s p b = some t) : t.Answered := by
  unfold Bcache.iderw at taken
  split at taken <;> cases taken
  refine (forall_update_iff s.control fun _ now => ∀ c sleeping, now = .disk c sleeping →
    c ∈ s.queue ++ [b] ∨ sleeping = false ∧ s.valid c = true ∧ s.dirty c = false).mpr ⟨?_, ?_⟩
  · rintro c sleeping ⟨⟩
    exact .inl (List.mem_append_right _ (List.mem_singleton_self b))
  · intro q _ c sleeping waits
    exact (answered q c sleeping waits).imp_left (List.mem_append_left [b])

theorem ideintr (taken : s.ideintr = some t) : t.Answered := by
  unfold Bcache.ideintr at taken
  split at taken
  · cases taken
  next b rest first =>
  split at taken <;> cases taken
  intro q c sleeping waits
  obtain ⟨before, was, woken⟩ := wakeup_disk waits
  by_cases same : c = b
  · subst same
    exact .inr ⟨woken (.inr rfl), update_self .., update_self ..⟩
  · have old := answered q c before was
    rw [first, List.mem_cons] at old
    refine (old.imp_left fun member => member.resolve_left same).imp_right ?_
    rintro ⟨awake, valid, clean⟩
    exact ⟨woken (.inl awake), (update_of_ne same ..).trans valid,
      (update_of_ne same ..).trans clean⟩

theorem step {move : Move δ} (inv : s.Coherent order)
    (taken : step havedisk1 s move = some t) : t.Answered := by
  cases move with simp only [Bcache.step] at taken
  | bread p dev sector =>
    obtain ⟨-, ⟨⟩⟩ := Option.ite_none_right_eq_some.mp taken
    exact answered.goto _ nofun
  | bget p =>
    split at taken
    · unfold Bcache.bget at taken
      split at taken
      · split at taken <;> cases taken <;> exact answered.goto _ nofun
      · split at taken <;> cases taken
        next b oldest =>
        -- the recycled buffer is free, and who waits for one holds it
        have free := (inv.victim_oldest oldest).1
        have recycled := answered.flags (b := b) (update s.valid b false)
          (update s.dirty b false) ?_ fun c other => ⟨update_of_ne other .., update_of_ne other ..⟩
        · exact recycled.goto (.got b) nofun
        · intro q sleeping waits
          have busy := inv.held_busy q b (inv.waits q b sleeping waits)
          exact absurd (busy.symm.trans free) (by decide)
    · cases taken
  | check p =>
    split at taken
    · split at taken
      · cases taken
        exact answered.goto .idle nofun
      · exact answered.iderw taken
    · cases taken
  | look p =>
    split at taken
    · next b here =>
      split at taken <;> cases taken
      · exact answered.goto .idle nofun
      · next notDone =>
        refine answered.goto (.disk b true) ?_
        rintro c sleeping ⟨⟩
        exact .inl ((answered p b false here).resolve_right fun done => notDone done.2)
    · cases taken
  | store p b data =>
    obtain ⟨-, ⟨⟩⟩ := Option.ite_none_right_eq_some.mp taken
    exact answered
  | bwrite p b =>
    simp only [Option.ite_none_right_eq_some] at taken
    obtain ⟨⟨idle, holds⟩, -, taken⟩ := taken
    -- who waits for a buffer is its holder, but the holder is here
    refine (answered.flags (b := b) s.valid (update s.dirty b true) ?_ ?_).iderw taken
    · intro q sleeping waits
      cases inv.one_holder p q b holds (inv.waits q b sleeping waits)
      exact absurd (idle.symm.trans waits) nofun
    · exact fun c other => ⟨rfl, update_of_ne other ..⟩
  | brelse p b =>
    simp only [Bcache.brelse, Option.ite_none_right_eq_some] at taken
    obtain ⟨-, -, ⟨⟩⟩ := taken
    apply Answered.wakeup
    exact answered
  | ideintr => exact answered.ideintr taken

end Answered

theorem answered_of_reaches (reached : Reaches havedisk1 s) :
    s.Answered ∧ ∃ order, s.Coherent order := by
  apply reached.invariant
  · exact fun s starts => ⟨fun p b sleeping => by simp [starts.control], _, starts.coherent⟩
  · rintro s move t ⟨answered, order, inv⟩ - taken
    exact ⟨answered.step inv taken, inv.step taken⟩

/-- No wakeup is lost: from every state of a run, one interrupt for each request of the queue leads
to a state where nobody sleeps in `iderw`. -/
theorem requests_complete (reached : Reaches havedisk1 s) :
    ∃ t, (List.replicate s.queue.length .ideintr).foldlM (step havedisk1) s = some t ∧
      ∀ p b, t.control p ≠ .disk b true := by
  induction queue : s.queue generalizing s with
  | nil =>
    refine ⟨s, rfl, fun p b asleep => ?_⟩
    obtain member | ⟨⟨⟩, -⟩ := (answered_of_reaches reached).1 p b true asleep
    rw [queue] at member
    cases member
  | cons b rest ih =>
    obtain ⟨-, order, inv⟩ := answered_of_reaches reached
    obtain ⟨⟨p, sleeping, waits⟩, -⟩ := inv.queued b (queue ▸ List.mem_cons_self)
    have busy := inv.held_busy p b (inv.waits p b sleeping waits)
    obtain ⟨dev, name⟩ := inv.named b (.inl busy)
    obtain ⟨t, taken, left⟩ : ∃ t, step havedisk1 s .ideintr = some t ∧ t.queue = rest := by
      simp [step, ideintr, queue, name, wakeup]
    obtain ⟨u, run, awake⟩ := ih (reached.next trivial taken) left
    refine ⟨u, ?_, awake⟩
    rw [List.length_cons, List.replicate_succ, List.foldlM_cons, taken]
    exact run

/-- The first read of that run. -/
theorem first_read_completes : ∃ s, (handOver.take 3).foldlM (step true) empty = some s ∧
    ∃ t, (List.replicate s.queue.length .ideintr).foldlM (step true) s = some t ∧
      ∀ p b, t.control p ≠ .disk b true := by
  obtain ⟨s, run⟩ := Option.isSome_iff_exists.mp
    (show ((handOver.take 3).foldlM (step true) empty).isSome from by decide +kernel)
  exact ⟨s, run, requests_complete (Reach.foldlM (.start empty_starts) run)⟩

end Xv6.Bcache
