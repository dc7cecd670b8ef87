/-
Purpose: Directories, paths and the creation of files keep the invariant of
  the inode cache.
-/
import Xv6.Proofs.FsCache

namespace Xv6.Fs

open PanicM
open FsPanic (noConfusion)

variable {C : Prop} {s : FileSys} {hold : InodePtr → Nat} {c dp ip : InodePtr}

/-- The reference that comes with a pointer, if there is one. -/
def addRefs (hold : InodePtr → Nat) : Option InodePtr → InodePtr → Nat
  | none => hold
  | some c => addRef hold c

/-! ## Directories -/

/-- A copy stays while no inode changes. -/
theorem Consistent.copy_kept {s' : FileSys} {hold' : InodePtr → Nat}
    (before : Consistent C s hold) (after : Consistent C s' hold') (stable : Stable C hold s s')
    (node : s'.node = s.node) (held : 0 < hold c) (held' : 0 < hold' c)
    (valid : (s.icache c).valid = true) : (s'.icache c).toDinode = (s.icache c).toDinode := by
  rw [← after.node_held held' (stable.valid c held valid).1, stable.inum c held, node,
    before.node_held held valid]

theorem wp_dirlookup (name : List UInt8) (inv : Consistent C s hold)
    (held : 0 < hold dp) (valid : (s.icache dp).valid = true) :
    wp (dirlookup dp name) (fun r s' =>
      Consistent C s' (addRefs hold (r.map Prod.fst)) ∧ Stable C hold s s' ∧
      (s.icache dp).type = T_DIR ∧
      (∀ found ∈ r, found.2 % DIRENTSIZE = 0 ∧ (C → found.2 < (s'.icache dp).size)) ∧
      (C → r = none → s' = s ∧ ¬ (s.disk.slots (s.icache dp).toDinode).Bound
        (nameKey (nameBytes name)))) Tolerated s := by
  unfold dirlookup
  rw [wp_bind, wp_get, wp_ite]
  refine ⟨fun _ => noConfusion, fun type => ?_⟩
  rw [not_not] at type
  rw [wp_bind]
  refine wp_withInode_reads (P := fun found => ∀ inum off, found = some (inum, off) →
      inum < s.disk.superblock.ninodes ∧ off % DIRENTSIZE = 0)
    (R := fun found => (∀ place ∈ found, place.2 < (s.icache dp).size) ∧
      (found = none → ¬ (s.disk.slots (s.icache dp).toDinode).Bound (nameKey (nameBytes name))))
    inv held valid type
    (wp_dirlookupLoop_ready name _ (inv.ready held valid (by rw [type]; decide)) type
      (inv.listed held valid).1 0)
    (fun _ dir => wp_lookupEntry dir inv.idle type (fun inum k binds => ⟨⟨rfl, rfl⟩, by
        rintro _ ⟨⟩
        exact dir.slot_lt binds, nofun⟩)
      fun unbound => ⟨⟨rfl, rfl⟩, nofun, fun _ => unbound⟩) ?_
  intro found t inside strict after stable
  cases found with
  | none => exact ⟨after, stable, type, nofun, fun c _ => ⟨(strict c).1, (strict c).2.2 rfl⟩⟩
  | some place =>
    obtain ⟨inum, off⟩ := place
    obtain ⟨small, aligned⟩ := inside inum off rfl
    rw [← stable.superblock] at small
    simp only
    refine wp_seq (wp_iget after small) ?_
    rintro ip s'' ⟨got, stable', _, node⟩
    refine ⟨got, stable.trans stable', type, ?_, nofun⟩
    rintro _ ⟨⟩
    refine ⟨aligned, fun c => ?_⟩
    have copy := after.copy_kept got stable' node held (held.trans_le (le_addRef dp))
      (stable.valid dp held valid).1
    rw [copy, (strict c).1]
    exact (strict c).2.1 _ rfl

/-- `dirlink` of a name that is not bound holds the inode all the time. -/
theorem dirlink_eq (dp : InodePtr) (name : List UInt8) (inum : Nat) : dirlink dp name inum = (do
      match ← dirlookup dp name with
      | some (ip, _) => do
          iput ip
          pure (-1)
      | none => withInode dp (bindEntry name inum)) := by
  unfold dirlink
  congr 1
  funext found
  cases found with
  | some entry => rfl
  | none =>
    refine ext_wp fun Q E s run => ?_
    simp only [wp_bind, wp_withInode, FileSys.leave_self,
      FileSys.leave_disk, FileSys.leave_leave] at run
    simp only [wp_withInode, bindEntry, wp_bind]
    refine wp_imp run fun scanned d run => wp_imp run fun written d run => ?_
    rw [wp_ite] at run ⊢
    exact run

theorem wp_dirlink (name : List UInt8) {inum : Nat} (inv : Consistent C s hold) (held : 0 < hold dp)
    (valid : (s.icache dp).valid = true) (small : inum < s.disk.superblock.ninodes) :
    wp (dirlink dp name inum) (fun _ s' => Consistent C s' hold ∧ Stable C hold s s')
      Tolerated s := by
  refine Stable.step C hold (.dirlink dp name inum) rfl
    (fun _ => ⟨⟨inv.positive held, valid⟩, small⟩) ?_
  rw [dirlink_eq]
  refine wp_seq (wp_dirlookup name inv held valid) ?_
  rintro found s₁ ⟨looked, stable₁, type, _, missing⟩
  cases found with
  | some place =>
    refine wp_seq (wp_iput looked) ?_
    rintro _ s₂ ⟨after, stable₂⟩
    exact ⟨(stable₁.trans stable₂).weaken, fun stable => ⟨after, stable⟩⟩
  | none =>
    obtain ⟨valid₁, type₁⟩ := stable₁.valid dp held valid
    have dir := type₁.trans type
    have ready := looked.ready held valid₁ (by rw [dir]; decide)
    rw [← stable₁.superblock] at small
    refine wp_imp (wp_withInode_entry looked held valid₁ dir (wp_bindEntry_ready ready small)
      fun c map whole => ?_) fun _ _ ⟨after, stable⟩ =>
        ⟨stable₁.weaken.trans stable, fun stable => ⟨after, stable⟩⟩
    obtain ⟨same, unbound⟩ := missing c rfl
    rw [← same] at unbound
    exact wp_bindEntry ready map dir small (.inl ⟨rfl, nofun⟩) (fun _ => nofun)
      fun k d ip free wrote => ⟨wrote.stored whole, wrote.linked map free unbound⟩

/-! ## Paths -/

theorem wp_namexLoop (parent : Bool) (fuel : Nat) {s : FileSys}
    {ip : InodePtr} (path name : List UInt8) (inv : Consistent C s (addRef hold ip)) :
    wp (namexLoop parent fuel ip path name) (fun r s' =>
      Consistent C s' (addRefs hold (r.map Prod.fst)) ∧ Stable C hold s s')
      Tolerated s := by
  induction fuel generalizing s ip path name with
  | zero => exact ⟨inv, Stable.refl hold s⟩
  | succ fuel ih =>
    unfold namexLoop
    cases element : skipelem path with
    | none =>
      simp only
      rw [wp_ite]
      refine ⟨fun _ => ?_, fun _ => ⟨inv, Stable.refl hold s⟩⟩
      rw [wp_bind]
      exact wp_iput inv
    | some found =>
      obtain ⟨rest, elem⟩ := found
      simp only
      refine wp_seq (wp_ilock inv addRef_pos) ?_
      rintro _ s₁ ⟨locked, stable₁, valid, _⟩
      have stable := stable₁.mono le_addRef
      rw [wp_bind, wp_get, wp_ite]
      refine ⟨fun _ => stable.since_pure (wp_iunlockput locked), fun _ => ?_⟩
      rw [wp_ite]
      constructor
      · intro _
        refine wp_seq (wp_iunlock locked addRef_pos) ?_
        rintro _ s₂ ⟨after, stable₂⟩
        exact ⟨after, stable.trans (stable₂.mono le_addRef)⟩
      · intro _
        refine wp_seq (wp_dirlookup elem locked addRef_pos valid) ?_
        rintro next s₂ ⟨looked, stable₂, _⟩
        have onwards := stable.trans (stable₂.mono le_addRef)
        cases next with
        | none => exact onwards.since_pure (wp_iunlockput looked)
        | some place =>
          have both : Consistent C s₂ (addRef (addRef hold place.1) ip) := by
            rw [addRef_comm]
            exact looked
          simp only
          refine wp_seq (wp_iunlockput both) ?_
          rintro _ s₃ ⟨after, stable₃⟩
          exact (onwards.trans (stable₃.mono le_addRef)).since (ih rest elem after)

theorem wp_namex (path : List UInt8) (parent : Bool)
    (inv : Consistent C s hold) (held : 0 < hold c) :
    wp (namex c path parent) (fun r s' =>
      Consistent C s' (addRefs hold (r.map Prod.fst)) ∧ Stable C hold s s')
      Tolerated s := by
  unfold namex
  by_cases absolute : path.head? = some SLASH
  · rw [if_pos absolute]
    refine wp_seq (wp_iget inv inv.root) ?_
    rintro ip s₁ ⟨got, stable₁, _⟩
    exact stable₁.since (wp_namexLoop parent _ path [] got)
  · rw [if_neg absolute]
    refine wp_seq (wp_idup inv held) ?_
    rintro _ s₁ ⟨got, stable₁, _⟩
    exact stable₁.since (wp_namexLoop parent _ path [] got)

theorem wp_namei (path : List UInt8) (inv : Consistent C s hold) (held : 0 < hold c) :
    wp (namei c path) (fun r s' => Consistent C s' (addRefs hold r) ∧
      Stable C hold s s') Tolerated s := by
  unfold namei
  rw [wp_bind]
  exact wp_namex path false inv held

/-! ## Links and new inodes -/

theorem wp_addLink (delta : UInt16) (inv : Consistent C s hold)
    (held : 0 < hold c) (valid : (s.icache c).valid = true) :
    wp (addLink c delta) (fun _ s' => Consistent C s' hold ∧ Stable C hold s s') Tolerated s := by
  refine Stable.step C hold (.addLink c delta) rfl
    (fun _ => ⟨inv.positive held, valid⟩) ?_
  exact wp_recount inv held valid (fun _ => rfl) fun _ after stable =>
    ⟨stable, fun stable => ⟨after, stable⟩⟩

theorem wp_init (major minor : UInt16) (inv : Consistent C s hold)
    (held : 0 < hold c) (valid : (s.icache c).valid = true) :
    wp (do
      updInode c (Inode.init major minor)
      iupdateAt c) (fun _ s' => Consistent C s' hold ∧ Stable C hold s s') Tolerated s := by
  refine Stable.step C hold (.init c major minor) rfl
    (fun _ => ⟨inv.positive held, valid⟩) ?_
  exact wp_recount inv held valid (fun _ => rfl) fun _ after stable =>
    ⟨stable, fun stable => ⟨after, stable⟩⟩

theorem wp_makeDots {α : Type} {next : FM α} {Q : α → FileSys → Prop}
    {inum parent : Nat} (inv : Consistent C s hold)
    (heldDp : 0 < hold dp) (validDp : (s.icache dp).valid = true)
    (heldIp : 0 < hold ip) (validIp : (s.icache ip).valid = true)
    (small : inum < s.disk.superblock.ninodes) (small' : parent < s.disk.superblock.ninodes)
    (rest : ∀ s', Consistent C s' hold → Stable C hold s s' → wp next Q Tolerated s') :
    wp (do
      addLink dp 1
      if (← dirlink ip dotName inum) < 0 then
        throw .createDots
      if (← dirlink ip dotDotName parent) < 0 then
        throw .createDots
      next) Q Tolerated s := by
  refine wp_seq (wp_addLink 1 inv heldDp validDp) ?_
  rintro _ s₁ ⟨linked, stable₁⟩
  refine wp_seq (wp_dirlink dotName linked heldIp (stable₁.valid ip heldIp validIp).1
    (by rw [stable₁.superblock]; exact small)) ?_
  rintro _ s₂ ⟨dot, stable₂⟩
  have until₂ := stable₁.trans stable₂
  rw [wp_ite]
  refine ⟨fun _ => noConfusion, fun _ => ?_⟩
  refine wp_seq (wp_dirlink dotDotName dot heldIp (until₂.valid ip heldIp validIp).1
    (by rw [until₂.superblock]; exact small')) ?_
  rintro _ s₃ ⟨dotDot, stable₃⟩
  rw [wp_ite]
  exact ⟨fun _ => noConfusion, fun _ =>
    rest s₃ dotDot (until₂.trans stable₃)⟩

theorem wp_createNew (name : List UInt8) {type : UInt16} (major minor : UInt16)
    (inv : Consistent C s (addRef (addRef hold dp) ip)) (validDp : (s.icache dp).valid = true)
    (typed : (s.node (s.icache ip).inum).type = type) :
    wp (createNew dp ip name type major minor) (fun _ s' =>
      Consistent C s' (addRef hold ip) ∧ Stable C hold s s' ∧
      (s'.icache ip).valid = true ∧ (s'.icache ip).type = type)
      Tolerated s := by
  have heldIp : 0 < addRef (addRef hold dp) ip ip := addRef_pos
  have heldDp : 0 < addRef (addRef hold dp) ip dp := addRef_pos.trans_le (le_addRef dp)
  have less : addRef hold ip ≤ addRef (addRef hold dp) ip := by
    rw [addRef_comm]
    exact le_addRef
  unfold createNew
  refine wp_seq (wp_ilock inv heldIp) ?_
  rintro _ s₁ ⟨locked, stable₁, validIp, node⟩
  have typeIp : (s₁.icache ip).type = type := by
    have own := locked.node_held heldIp validIp
    rw [node, stable₁.inum ip heldIp] at own
    rw [← own]
    exact typed
  have validDp₁ := (stable₁.valid dp heldDp validDp).1
  rw [wp_bind]
  refine wp_imp ((wp_bind ..).mp (wp_init major minor locked heldIp validIp)) fun _ s₂ run =>
    wp_seq run ?_
  rintro _ s₃ ⟨written, until₃⟩
  have validIp₃ := (until₃.valid ip heldIp validIp).1
  have validDp₃ := (until₃.valid dp heldDp validDp₁).1
  have smallIp := written.inums ip heldIp
  have smallDp := written.inums dp heldDp
  -- The entry in the parent, after the dots of a new directory.
  have finish : ∀ s₄, Consistent C s₄ (addRef (addRef hold dp) ip) →
      Stable C (addRef (addRef hold dp) ip) s₃ s₄ →
      wp (do
        if (← dirlink dp name (s₃.icache ip).inum) < 0 then
          throw .createDirlink
        iunlockput dp) (fun _ s' =>
          Consistent C s' (addRef hold ip) ∧ Stable C hold s s' ∧
          (s'.icache ip).valid = true ∧ (s'.icache ip).type = type)
        Tolerated s₄ := by
    intro s₄ before stable₄
    refine wp_seq (wp_dirlink name before heldDp (stable₄.valid dp heldDp validDp₃).1
      (by rw [stable₄.superblock]; exact smallIp)) ?_
    rintro _ s₅ ⟨linked, stable₅⟩
    rw [addRef_comm] at linked
    rw [wp_ite]
    refine ⟨fun _ => noConfusion, fun _ => ?_⟩
    refine wp_imp (wp_iunlockput linked) ?_
    rintro _ s₆ ⟨after, stable₆⟩
    have fromLock := ((until₃.trans (stable₄.trans stable₅)).mono less).trans stable₆
    obtain ⟨valid, type⟩ := fromLock.valid ip addRef_pos validIp
    exact ⟨after, ((stable₁.mono less).trans fromLock).mono le_addRef, valid, type.trans typeIp⟩
  rw [wp_bind, wp_get]
  simp only
  rw [wp_ite]
  constructor
  · intro _
    exact wp_makeDots written heldDp validDp₃ heldIp validIp₃ smallIp smallDp finish
  · intro _
    exact finish s₃ written (Stable.refl _ s₃)

theorem wp_create (path : List UInt8) {type : UInt16} (major minor : UInt16)
    (inv : Consistent C s hold) (held : 0 < hold c) (typed : type ≠ 0)
    (checked : type = T_CHECKED → C) :
    wp (create c path type major minor) (fun r s' =>
      Consistent C s' (addRefs hold r) ∧ Stable C hold s s' ∧
      ∀ ip ∈ r, (s'.icache ip).valid = true ∧ (s'.icache ip).type = type)
      Tolerated s := by
  unfold create nameiparent
  refine wp_seq (wp_namex path true inv held) ?_
  rintro found s₁ ⟨walked, stable₁⟩
  cases found with
  | none => exact ⟨walked, stable₁, nofun⟩
  | some place =>
    obtain ⟨dp, name⟩ := place
    simp only
    refine wp_seq (wp_ilock walked addRef_pos) ?_
    rintro _ s₂ ⟨locked, stable₂, valid₂, _⟩
    refine wp_seq (wp_dirlookup name locked addRef_pos valid₂) ?_
    rintro there s₃ ⟨looked, stable₃, _⟩
    have until₃ := stable₁.trans ((stable₂.trans stable₃).mono le_addRef)
    cases there with
    | some other =>
      have both : Consistent C s₃ (addRef (addRef hold other.1) dp) := by
        rw [addRef_comm]
        exact looked
      simp only
      refine wp_seq (wp_iunlockput both) ?_
      rintro _ s₄ ⟨parentDone, stable₄⟩
      refine wp_seq (wp_ilock parentDone addRef_pos) ?_
      rintro _ s₅ ⟨taken, stable₅, valid₅, _⟩
      have until₅ := until₃.trans ((stable₄.trans stable₅).mono le_addRef)
      rw [wp_bind, wp_get, wp_ite]
      constructor
      · intro same
        refine ⟨taken, until₅, ?_⟩
        rintro _ ⟨⟩
        refine ⟨valid₅, ?_⟩
        rcases same with ⟨wanted, found⟩ | ⟨wanted, found⟩
        · exact found.trans wanted.symm
        · exact found.trans wanted.symm
      · intro _
        refine wp_seq (wp_iunlockput taken) ?_
        rintro _ s₆ ⟨after, stable₆⟩
        exact ⟨after, until₅.trans stable₆, nofun⟩
    | none =>
      simp only
      refine wp_seq (wp_ialloc looked typed checked) ?_
      rintro ip s₄ ⟨allocated, stable₄, type₄⟩
      have valid₄ := ((stable₃.trans stable₄).valid dp addRef_pos valid₂).1
      refine wp_seq (wp_createNew name major minor allocated valid₄ type₄) ?_
      rintro _ s₅ ⟨after, stable₅, valid₅, type₅⟩
      refine ⟨after, (until₃.trans (stable₄.mono le_addRef)).trans stable₅, ?_⟩
      rintro _ ⟨⟩
      exact ⟨valid₅, type₅⟩

end Xv6.Fs
