import DsfMmu.RefCounts

namespace DsfMmu

open MmuRuntime BlockManager Context

variable {mmu : MmuRuntime}

theorem refCount_valid {bm : BlockManager} {p : Int} (hv : bm.isValid p) : bm.refCount p = bm.refCounts.entry p :=
  if_pos hv

/-- Below `2^31` blocks the ids that pass the bounds checks are all the ids there are. -/
theorem valid_iff_lt (hsmall : mmu.config.l1BlockCount < 2 ^ 31) (p : Nat) :
    mmu.Valid (p : Int) ↔ p < mmu.config.l1BlockCount := by
  unfold Valid
  rw [IntTable.mem_indices, staticCastInt_of_lt hsmall]
  omega

theorem card_valid (hsmall : mmu.config.l1BlockCount < 2 ^ 31) :
    (IntTable.indices mmu.config.l1BlockCount).card = mmu.config.l1BlockCount := by
  rw [IntTable.card_indices, staticCastInt_of_lt hsmall]
  rfl

theorem u32ToInt_ofNat {i : Nat} (hi : i < 2 ^ 31) : u32ToInt (UInt32.ofNat i) = some (i : Int) := by
  have hi' : (UInt32.ofNat i).toNat = i := by
    rw [UInt32.toNat_ofNat']
    omega
  unfold u32ToInt
  rw [hi', if_neg (by omega)]

theorem mmuResolveRouting_names (h : mmu.Settled) {ctx : CtxHandle} {lb : UInt32} {c : Context} {lvid b : Int}
    (hc : findContext mmu ctx = some c) (hlvid : u32ToInt lb = some lvid) (hn : c.Names mmu.l1Allocator lvid b) :
    mmuResolveRouting mmu ctx lb = .ok ⟨(mmu.block b).info.tier, b, b.toNat * c.blockSizeBytes % 2 ^ 64⟩ := by
  unfold mmuResolveRouting
  rw [hc]
  dsimp only
  rw [hlvid]
  exact resolveRouting_names h hn

/-- No allocation runs out of blocks. -/
def NoExhaustion : StepCondition := fun _ call reply =>
  match call with
  | .allocateBlocks _ _ => reply ≠ .status (.error .outOfMemory)
  | _ => True

instance (mmu : MmuRuntime) (call : Call) (reply : Reply) : Decidable (NoExhaustion mmu call reply) := by
  unfold NoExhaustion
  cases call <;> infer_instance

end DsfMmu
