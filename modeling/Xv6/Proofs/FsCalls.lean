/-
Purpose: The calls that link, unlink, make and open files keep the invariant
  of the inode cache.
-/
import Xv6.Proofs.FsPaths

namespace Xv6.Fs

open PanicM

variable {C : Prop} {s : FileSys} {hold : InodePtr → Nat} {c dp ip : InodePtr}

/-! ## Links -/

theorem wp_linkUndo (inv : Consistent C s (addRef hold ip)) :
    wp (linkUndo ip) (fun _ s' => Consistent C s' hold ∧ Stable C hold s s') Tolerated s := by
  unfold linkUndo
  refine wp_seq (wp_ilock inv addRef_pos) ?_
  rintro _ s₁ ⟨locked, stable₁, valid₁, _⟩
  refine wp_seq (wp_addLink (-1) locked addRef_pos valid₁) ?_
  rintro _ s₂ ⟨linked, stable₂⟩
  exact ((stable₁.trans stable₂).mono le_addRef).since_pure (wp_iunlockput linked)

theorem wp_sysLink (old new : List UInt8) (inv : Consistent C s hold) (held : 0 < hold c) :
    wp (sysLink c old new) (fun _ s' => Consistent C s' hold ∧ Stable C hold s s') Tolerated s := by
  unfold sysLink
  refine wp_seq (wp_namei old inv held) ?_
  rintro found s₁ ⟨walked, stable₁⟩
  cases found with
  | none => exact ⟨walked, stable₁⟩
  | some ip =>
    simp only
    refine wp_seq (wp_ilock walked addRef_pos) ?_
    rintro _ s₂ ⟨locked, stable₂, valid₂, _⟩
    have until₂ := stable₁.trans (stable₂.mono le_addRef)
    rw [wp_bind, wp_get, wp_ite]
    constructor
    · exact fun _ => until₂.since_pure (wp_iunlockput locked)
    · intro _
      refine wp_seq (wp_addLink 1 locked addRef_pos valid₂) ?_
      rintro _ s₃ ⟨linked, stable₃⟩
      refine wp_seq (wp_iunlock linked addRef_pos) ?_
      rintro _ s₄ ⟨unlocked, stable₄⟩
      have until₄ := until₂.trans ((stable₃.trans stable₄).mono le_addRef)
      have heldC : 0 < addRef hold ip c := held.trans_le (le_addRef c)
      unfold nameiparent
      refine wp_seq (wp_namex new true unlocked heldC) ?_
      rintro found s₅ ⟨walked', stable₅⟩
      have until₅ := until₄.trans (stable₅.mono le_addRef)
      cases found with
      | none => exact until₅.since (wp_linkUndo walked')
      | some place =>
        obtain ⟨dp, name⟩ := place
        have heldIp : 0 < addRef (addRef hold ip) dp ip :=
          addRef_pos.trans_le (le_addRef ip)
        simp only
        refine wp_seq (wp_ilock walked' addRef_pos) ?_
        rintro _ s₆ ⟨locked', stable₆, valid₆, _⟩
        rw [wp_bind, wp_get]
        refine wp_seq (wp_dirlink name locked' addRef_pos valid₆ (locked'.inums ip heldIp)) ?_
        rintro result s₇ ⟨entered, stable₇⟩
        have until₇ := until₅.trans (((stable₆.trans stable₇).mono le_addRef).mono le_addRef)
        rw [wp_ite]
        constructor
        · intro _
          refine wp_seq (wp_iunlockput entered) ?_
          rintro _ s₈ ⟨released, stable₈⟩
          exact (until₇.trans (stable₈.mono le_addRef)).since (wp_linkUndo released)
        · intro _
          refine wp_seq (wp_iunlockput entered) ?_
          rintro _ s₈ ⟨released, stable₈⟩
          exact (until₇.trans (stable₈.mono le_addRef)).since_pure (wp_iput released)

theorem wp_isdirempty (inv : Consistent C s hold) (held : 0 < hold c)
    (valid : (s.icache c).valid = true) (type : (s.icache c).type = T_DIR) :
    wp (isdirempty c) (fun _ s' => Consistent C s' hold ∧ Stable C hold s s' ∧ (C → s' = s))
      Tolerated s := by
  unfold isdirempty
  rw [wp_bind]
  refine wp_withInode_reads (P := fun place : Nat × Bool => place.1 % DIRENTSIZE = 0)
    (R := fun _ => True) inv held valid type
    (wp_direntScan_ready _ FsPanic.noConfusion _ _
      (inv.ready held valid (by rw [type]; decide)) (Nat.mul_mod_left ..)) ?_
    fun _ t _ strict after stable => ⟨after, stable, fun c => (strict c).1⟩
  intro _ dir
  have whole := dir.whole
  refine wp_direntScan_there (k := 2) .isdirempty (· != 0) dir inv.idle type _ ?_
    fun _ _ _ _ _ => ⟨⟨rfl, rfl⟩, trivial⟩
  intro some
  simp only [Inode.entries, DIRENTSIZE] at *
  omega

/-- The part of `unlinkEntry` that clears the entry holds the inode all the time. -/
theorem clearEntry_eq (dp : InodePtr) (off : Nat) (rest : FM Int) : (do
      let written ← withInode dp fun node =>
        writei node (List.replicate DIRENTSIZE 0) off
      if written ≠ DIRENTSIZE then throw .unlinkWritei else rest) = (do
      let _ ← withInode dp (clearEntry off)
      rest) := by
  refine ext_wp fun Q E s run => ?_
  rw [wp_bind, wp_withInode] at run ⊢
  unfold clearEntry
  rw [wp_bind]
  refine wp_imp run fun written d run => ?_
  rw [wp_ite] at run ⊢
  exact run

theorem wp_clear {off : Nat} (inv : Consistent C s hold) (held : 0 < hold dp)
    (valid : (s.icache dp).valid = true) (type : (s.icache dp).type = T_DIR)
    (aligned : off % DIRENTSIZE = 0) (inside : C → off < (s.icache dp).size) :
    wp (withInode dp (clearEntry off)) (fun _ s' => Consistent C s' hold ∧ Stable C hold s s')
      Tolerated s := by
  have ready := inv.ready held valid (by rw [type]; decide)
  refine Stable.step C hold (.clear dp off) rfl
    (fun c => ⟨⟨inv.positive held, valid⟩, type, aligned, inside c⟩) ?_
  refine wp_imp (wp_withInode_entry inv held valid type (wp_clearEntry_ready ready aligned)
    fun c dir whole => ?_) fun _ _ ⟨after, stable⟩ => ⟨stable, fun stable => ⟨after, stable⟩⟩
  obtain ⟨k, rfl⟩ := Nat.dvd_of_mod_eq_zero aligned
  exact wp_clearEntry ready dir type (inside c) fun d ip wrote =>
    ⟨wrote.stored whole, wrote.cleared dir (inside c)⟩

theorem wp_unlinkEntry {off : Nat} (inv : Consistent C s (addRef (addRef hold dp) ip))
    (validDp : (s.icache dp).valid = true) (validIp : (s.icache ip).valid = true)
    (type : (s.icache dp).type = T_DIR) (aligned : off % DIRENTSIZE = 0)
    (inside : C → off < (s.icache dp).size) :
    wp (unlinkEntry dp ip off) (fun _ s' => Consistent C s' hold ∧ Stable C hold s s')
      Tolerated s := by
  have heldIp : 0 < addRef (addRef hold dp) ip ip := addRef_pos
  have heldDp : 0 < addRef (addRef hold dp) ip dp := addRef_pos.trans_le (le_addRef dp)
  have less : hold ≤ addRef (addRef hold dp) ip := le_addRef.trans le_addRef
  -- The exit for a directory that still has entries.
  have refuse : ∀ s₁, Consistent C s₁ (addRef (addRef hold dp) ip) →
      Stable C (addRef (addRef hold dp) ip) s s₁ →
      wp (do
        iunlockput ip
        iunlockput dp
        pure (-1 : Int))
        (fun _ s' => Consistent C s' hold ∧ Stable C hold s s') Tolerated s₁ := by
    intro s₁ before stable₁
    refine wp_seq (wp_iunlockput before) ?_
    rintro _ s₂ ⟨released, stable₂⟩
    exact ((stable₁.mono less).trans (stable₂.mono le_addRef)).since_pure (wp_iunlockput released)
  -- The two counts, after the entry has been erased.
  have finish : ∀ s₁, Consistent C s₁ (addRef (addRef hold dp) ip) →
      Stable C (addRef (addRef hold dp) ip) s s₁ →
      wp (do
        iunlockput dp
        addLink ip (-1)
        iunlockput ip
        pure (0 : Int))
        (fun _ s' => Consistent C s' hold ∧ Stable C hold s s') Tolerated s₁ := by
    intro s₁ before stable₁
    have less' : addRef hold ip ≤ addRef (addRef hold dp) ip := by
      rw [addRef_comm]
      exact le_addRef
    rw [addRef_comm] at before
    refine wp_seq (wp_iunlockput before) ?_
    rintro _ s₂ ⟨released, stable₂⟩
    have until₂ := (stable₁.mono less').trans stable₂
    refine wp_seq (wp_addLink (-1) released addRef_pos (until₂.valid ip addRef_pos validIp).1) ?_
    rintro _ s₃ ⟨linked, stable₃⟩
    exact ((until₂.trans stable₃).mono le_addRef).since_pure (wp_iunlockput linked)
  have still := Stable.refl (C := C) (addRef (addRef hold dp) ip) s
  unfold unlinkEntry
  rw [wp_bind, wp_get, wp_ite]
  refine ⟨fun _ => FsPanic.noConfusion, fun _ => ?_⟩
  by_cases dir : (s.icache ip).type = T_DIR
  · simp only [if_pos dir]
    refine wp_seq (wp_isdirempty inv heldIp validIp dir) ?_
    rintro empty s₁ ⟨scanned, stable₁, same⟩
    obtain ⟨valid₁, type₁⟩ := stable₁.valid dp heldDp validDp
    rw [wp_ite]
    refine ⟨fun _ => refuse s₁ scanned stable₁, fun _ => ?_⟩
    rw [clearEntry_eq]
    refine wp_seq (wp_clear scanned heldDp valid₁ (type₁.trans type) aligned
      fun c => same c ▸ inside c) ?_
    rintro _ s₂ ⟨erased, stable₂⟩
    refine wp_seq (wp_addLink (-1) erased heldDp (stable₂.valid dp heldDp valid₁).1) ?_
    rintro _ s₃ ⟨linked, stable₃⟩
    exact finish s₃ linked (stable₁.trans (stable₂.trans stable₃))
  · simp only [if_neg dir]
    rw [wp_bind, wp_pure, wp_ite]
    refine ⟨fun _ => refuse s inv still, fun _ => ?_⟩
    rw [clearEntry_eq]
    refine wp_seq (wp_clear inv heldDp validDp type aligned inside) ?_
    rintro _ s₂ ⟨erased, stable₂⟩
    exact finish s₂ erased stable₂

theorem wp_sysUnlink (path : List UInt8) (inv : Consistent C s hold) (held : 0 < hold c) :
    wp (sysUnlink c path) (fun _ s' => Consistent C s' hold ∧ Stable C hold s s') Tolerated s := by
  unfold sysUnlink nameiparent
  refine wp_seq (wp_namex path true inv held) ?_
  rintro found s₁ ⟨walked, stable₁⟩
  cases found with
  | none => exact ⟨walked, stable₁⟩
  | some place =>
    obtain ⟨dp, name⟩ := place
    simp only
    refine wp_seq (wp_ilock walked addRef_pos) ?_
    rintro _ s₂ ⟨locked, stable₂, valid₂, _⟩
    have until₂ := stable₁.trans (stable₂.mono le_addRef)
    rw [wp_ite]
    refine ⟨fun _ => until₂.since_pure (wp_iunlockput locked), fun _ => ?_⟩
    refine wp_seq (wp_dirlookup name locked addRef_pos valid₂) ?_
    rintro there s₃ ⟨looked, stable₃, type, inside, _⟩
    have until₃ := until₂.trans (stable₃.mono le_addRef)
    cases there with
    | none => exact until₃.since_pure (wp_iunlockput looked)
    | some place =>
      obtain ⟨ip, off⟩ := place
      obtain ⟨aligned, below⟩ := inside (ip, off) rfl
      have heldDp : 0 < addRef (addRef hold dp) ip dp :=
        addRef_pos.trans_le (le_addRef dp)
      obtain ⟨valid₃, type₃⟩ := stable₃.valid dp addRef_pos valid₂
      simp only
      refine wp_seq (wp_ilock looked addRef_pos) ?_
      rintro _ s₄ ⟨taken, stable₄, valid₄, node⟩
      obtain ⟨validDp, type₄⟩ := stable₄.valid dp heldDp valid₃
      have copy := looked.copy_kept taken stable₄ node heldDp heldDp valid₃
      exact (until₃.trans ((stable₄.mono le_addRef).mono le_addRef)).since
        (wp_unlinkEntry taken validDp valid₄ (type₄.trans (type₃.trans type)) aligned
          (by rwa [copy]))

theorem wp_makeNode (path : List UInt8) {type : UInt16}
    (major minor : UInt16) (inv : Consistent C s hold)
    (held : 0 < hold c) (typed : type ≠ 0) (checked : type = T_CHECKED → C) :
    wp (makeNode c path type major minor)
      (fun _ s' => Consistent C s' hold ∧ Stable C hold s s') Tolerated s := by
  unfold makeNode
  refine wp_seq (wp_create path major minor inv held typed checked) ?_
  rintro made s₁ ⟨created, stable₁, _⟩
  cases made with
  | none => exact ⟨created, stable₁⟩
  | some ip =>
    exact stable₁.since_pure (wp_iunlockput created)

/-- The inode that `open` gets is not a directory unless it is opened for
reading only. -/
theorem wp_openInode (path : List UInt8) {omode : Nat}
    (inv : Consistent C s hold) (held : 0 < hold c)
    (unchecked : hasFlag omode O_CREATE = true → hasFlag omode O_CHECKED = false) :
    wp (openInode c path omode) (fun r s' =>
      Consistent C s' (addRefs hold r) ∧ Stable C hold s s' ∧
      ∀ ip ∈ r, (s'.icache ip).valid = true ∧
        ((s'.icache ip).type = T_DIR → omode = O_RDONLY)) Tolerated s := by
  unfold openInode
  rw [wp_ite]
  constructor
  · intro creates
    rw [unchecked creates]
    refine wp_imp (wp_create path 0 0 inv held (by decide) nofun) ?_
    rintro made s₁ ⟨created, stable₁, facts⟩
    refine ⟨created, stable₁, fun ip mem => ?_⟩
    obtain ⟨valid, type⟩ := facts ip mem
    refine ⟨valid, fun dir => ?_⟩
    rw [type] at dir
    exact absurd dir (by decide)
  · intro _
    refine wp_seq (wp_namei path inv held) ?_
    rintro found s₁ ⟨walked, stable₁⟩
    cases found with
    | none => exact ⟨walked, stable₁, nofun⟩
    | some ip =>
      simp only
      refine wp_seq (wp_ilock walked addRef_pos) ?_
      rintro _ s₂ ⟨locked, stable₂, valid₂, _⟩
      have until₂ := stable₁.trans (stable₂.mono le_addRef)
      rw [wp_bind, wp_get, wp_ite]
      constructor
      · intro _
        refine wp_seq (wp_iunlockput locked) ?_
        rintro _ s₃ ⟨after, stable₃⟩
        exact ⟨after, until₂.trans stable₃, nofun⟩
      · intro allowed
        refine ⟨locked, until₂, ?_⟩
        rintro _ ⟨⟩
        refine ⟨valid₂, fun dir => ?_⟩
        by_contra written
        exact allowed ⟨dir, written⟩

end Xv6.Fs
