import SuperGlue.Guarantees.RootRecords

/-!
# What revoking and releasing a page destroys

`mman_revoke_page` destroys the mappings below a page and `mman_release_page` the page too, where the
kernel answers each revocation with the frame that is mapped, as `__mapping_destroy` asserts. The
kernel with root-page records does so in every state that the manager leaves it in.
-/
namespace SuperGlue.Guarantees.PageRevocation
open Lib.Transition Source.MemMgr.Frames Source.MemMgr.Mappings Source.Kernel.Mmap MappingCounts MappingTree
  MappingDatabase RootInvariant RootRecords

/-! ## The kernel answers with the frames that are mapped -/

section

variable {c : Config} {maps : MapPtr → Mapping} {live : Finset MapPtr}

/-- Revoking some mappings leaves the page-table entries of the others. -/
theorem revoked_mapped {k : PhysMem} (gone : List MapPtr) (nodup : gone.Nodup) (inside : ∀ y ∈ gone, y ∈ live)
    (unique : ∀ y ∈ live, ∀ z ∈ live, (maps y).spdid = (maps z).spdid → pageIdx (maps y).addr = pageIdx (maps z).addr → y = z)
    (mapped : ∀ y ∈ live, Mapped c k (maps y)) (y : MapPtr) (member : y ∈ live) (other : y ∉ gone) :
    Mapped c (revoked (kernelOps c) maps k gone) (maps y) := by
  induction gone generalizing k live with
  | nil => exact mapped y member
  | cons x gone ih =>
    rw [List.nodup_cons] at nodup
    rw [List.mem_cons, not_or] at other
    have liveX := inside x List.mem_cons_self
    obtain ⟨accepted, _, _, _, slot⟩ := mapped x liveX
    have left : ∀ z ∈ gone, z ∈ live.erase x := by
      intro z later
      refine Finset.mem_erase.mpr ⟨?_, inside z (List.mem_cons_of_mem x later)⟩
      rintro rfl
      exact nodup.1 later
    refine ih nodup.2 left ?_ ?_ ?_ other.2
    · intro y memY z memZ
      exact unique y (Finset.mem_of_mem_erase memY) z (Finset.mem_of_mem_erase memZ)
    · intro z memZ
      obtain ⟨notX, liveZ⟩ := Finset.mem_erase.mp memZ
      refine { mapped z liveZ with slot := ?_ }
      have entry : ((kernelOps c).revoke k (maps x).spdid (maps x).addr).1.pgtbl (maps z).spdid (pageIdx (maps z).addr) =
          (setPte k (maps x).spdid (maps x).addr .empty).pgtbl (maps z).spdid (pageIdx (maps z).addr) := by
        rw [revoke_clears accepted slot]
        split <;> rfl
      rw [entry, setPte_pgtbl, if_neg]
      · exact (mapped z liveZ).slot
      · rintro ⟨spd, page⟩
        exact notX (unique z liveZ x liveX spd page)
    · exact Finset.mem_erase.mpr ⟨other.1, member⟩

end

/-- Between requests the kernel answers every revocation of a live mapping with its frame. -/
theorem kernel_revokes_mapped {c : Config} {s : State PhysMem} {asked : MapPtr → Nat} (h : RootsSettled c s asked) :
    ¬ WrongFrame (kernelOps c) s := by
  rintro ⟨gone, x, nodup, inside, wrong⟩
  rw [List.nodup_cons] at nodup
  obtain ⟨F, _, database⟩ := h.settled
  have later := revoked_mapped gone nodup.2 (fun y mem => inside y (List.mem_cons_of_mem x mem))
    (fun y memY z memZ => counts_unique database.counts memY memZ) h.inv.mapped x (inside x List.mem_cons_self) nodup.1
  rw [revoke_clears later.accepted later.slot] at wrong
  exact wrong rfl

/-! ## What is destroyed -/

variable {κ : Type} {K : KernelOps κ} {s s' : State κ}

/-- A request at `m` destroys exactly the mappings of `gone`. The others keep their page, their frame,
their parent and, apart from `m`, their children. -/
structure Removed (K : KernelOps κ) (m : MapPtr) (gone : MapPtr → Prop) (s s' : State κ) : Prop
    extends Cut K gone s s' where
  page : ∀ x ∈ s'.live, (s'.maps x).spdid = (s.maps x).spdid ∧ (s'.maps x).addr = (s.maps x).addr ∧
    (s'.maps x).f = (s.maps x).f
  children : ∀ x ∈ s'.live, x ≠ m → ∀ y, y ≠ m → ((s'.maps y).p = some x ↔ (s.maps y).p = some x)
  consistent : Consistent s'

theorem Removed.of_cut {m : MapPtr} {gone : MapPtr → Prop} (cut : Cut K gone s s') (before : Consistent s)
    (after : Consistent s') (all : ∀ x, Below s m x → gone x) (only : ∀ x, gone x → x = m ∨ Below s m x) :
    Removed K m gone s s' := by
  obtain ⟨victims, _, _, run⟩ := cut.once
  refine ⟨cut, fun x _ => run.page x, ?_, after⟩
  intro x survivor other y notM
  constructor
  · intro parent
    rw [← cut.parent y (after.parent y x parent).1]
    exact parent
  · intro parent
    have stays : ¬ gone y := by
      intro goneY
      have above := ((only y goneY).resolve_left notM).above parent
      exact ((cut.live x).mp survivor).2 (all x (above.resolve_left other))
    rw [cut.parent y ((cut.live y).mpr ⟨(before.parent y x parent).1, stays⟩)]
    exact parent

end SuperGlue.Guarantees.PageRevocation
