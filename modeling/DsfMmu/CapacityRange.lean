import DsfMmu.Calls
import DsfMmu.FreeList

namespace DsfMmu

/-- Results that `int` arithmetic can hold. -/
def FitsInt (i : Int) : Prop := -2 ^ 31 ≤ i ∧ i ≤ 2 ^ 31 - 1

instance (i : Int) : Decidable (FitsInt i) := inferInstanceAs (Decidable (-2 ^ 31 ≤ i ∧ i ≤ 2 ^ 31 - 1))

namespace BlockManager

/-- The ids `allocate` gives out when it is called until it fails. -/
def allocateAll (bm : BlockManager) : List Int :=
  match _h : bm.allocate with
  | none => []
  | some (pbid, bm') => pbid :: allocateAll bm'
termination_by bm.freeList.length
decreasing_by
  rw [freeList_of_allocate _h, List.length_append, List.length_singleton]
  exact Nat.lt_succ_self _

theorem allocateAll_eq (bm : BlockManager) : bm.allocateAll = bm.freeList.reverse := by
  induction bm using allocateAll.induct with
  | case1 bm h =>
    rw [allocateAll]
    split
    next => rw [allocate_none.mp h, List.reverse_nil]
    next heq => simp [h] at heq
  | case2 bm pbid bm' h ih =>
    rw [allocateAll]
    split
    next heq => simp [h] at heq
    next heq =>
      obtain ⟨rfl, rfl⟩ := Prod.mk.inj (Option.some.inj (h.symm.trans heq))
      rw [ih, freeList_of_allocate h, List.reverse_append, List.reverse_singleton, List.singleton_append]

end BlockManager

/-- What an instance of `n` blocks owes its ids: all of them free at first, each given out once,
and every bounds check and every scan over exactly `0 .. n - 1`, with no overflow on the way. -/
structure Covers (mmu : MmuRuntime) (n : Nat) : Prop where
  free : mmuGetFreeBlockCount mmu = n
  once : mmu.l1Allocator.allocateAll.Nodup
  handedOut : ∀ p, p ∈ mmu.l1Allocator.allocateAll ↔ 0 ≤ p ∧ p < (n : Int)
  manager : ∀ p, mmu.l1Allocator.isValid p ↔ 0 ≤ p ∧ p < (n : Int)
  directory : ∀ p, mmu.blockDirectory.isValid p ↔ 0 ≤ p ∧ p < (n : Int)
  pages : ∀ id p, (mmu.pool id).ownerPages.InRange p ↔ 0 ≤ p ∧ p < (n : Int)
  scans : scanIds mmu = (List.range n).map Int.ofNat
  /-- `static_cast<int>(total_blocks) - 1`, the `--i` of its loop and the `++pbid` of the scans. -/
  noOverflow : FitsInt (staticCastInt n - 1) ∧ (∀ i ∈ mmu.l1Allocator.freeList, FitsInt (i - 1)) ∧
    ∀ pbid ∈ scanIds mmu, FitsInt (pbid + 1)

/-- What the compiled `mmu_init` returns. -/
def compiledInit (cfg : MmuConfig) (env : HostEnv) : Except MmuError MmuRuntime :=
  match mmuInit cfg env with
  | .error status => .error status
  | .ok mmu => .ok { mmu with l1Allocator := .construct cfg.l1BlockCount.toNat }

section Fresh

variable {cfg : MmuConfig} {env : HostEnv} {mmu : MmuRuntime}

/-- Every vector of the instance has `l1_block_count` places. -/
structure BuiltFor (mmu : MmuRuntime) (n : Nat) : Prop where
  config : mmu.config.l1BlockCount = n
  manager : mmu.l1Allocator = .construct n
  metas : mmu.blockDirectory.metas.size = n
  owners : ∀ id, (mmu.pool id).ownerPages.size = n

theorem compiledInit_builtFor (h : compiledInit cfg env = .ok mmu) : BuiltFor mmu cfg.l1BlockCount.toNat := by
  unfold compiledInit at h
  split at h
  next => cases h
  next start hstart =>
    cases Except.ok.inj h
    unfold mmuInit at hstart
    split at hstart
    next => cases hstart
    next =>
      split at hstart
      next => cases hstart
      next =>
        split at hstart
        next => cases hstart
        next =>
          cases Except.ok.inj hstart
          exact ⟨rfl, rfl, rfl, fun id => by cases id <;> rfl⟩

/-- The runs start from what the compiled `mmu_init` returns, but for the one capacity whose loop start overflows. -/
theorem compiledInit_eq (hne : cfg.l1BlockCount.toNat ≠ 2 ^ 31) : compiledInit cfg env = mmuInit cfg env := by
  unfold compiledInit
  cases hinit : mmuInit cfg env with
  | error status => rfl
  | ok mmu =>
    have hsame : BlockManager.construct cfg.l1BlockCount.toNat = mmu.l1Allocator := by
      rw [BlockManager.construct_eq_new cfg.l1BlockCount.toNat_lt hne]
      unfold mmuInit at hinit
      split at hinit
      next => cases hinit
      next =>
        split at hinit
        next => cases hinit
        next =>
          split at hinit
          next => cases hinit
          next =>
            cases Except.ok.inj hinit
            rfl
    dsimp only
    rw [hsame]

theorem mem_scanIds_iff (p : Int) : p ∈ scanIds mmu ↔ 0 ≤ p ∧ p < staticCastInt mmu.config.l1BlockCount := by
  unfold scanIds
  rw [List.mem_map]
  constructor
  · rintro ⟨k, hk, rfl⟩
    have hbound := List.mem_range.mp hk
    rw [Int.ofNat_eq_natCast]
    omega
  · intro hrange
    refine ⟨p.toNat, List.mem_range.mpr (by omega), ?_⟩
    rw [Int.ofNat_eq_natCast]
    omega

theorem BuiltFor.covers {n : Nat} (h : BuiltFor mmu n) (fits : n < 2 ^ 31) : Covers mmu n := by
  have hcast := staticCastInt_of_lt fits
  have hnew := h.manager.trans (BlockManager.construct_eq_new (by omega) (by omega))
  have hok := BlockManager.new_ok n
  have hrange : ∀ {α : Type} (t : IntTable α), t.size = n → ∀ p, t.InRange p ↔ 0 ≤ p ∧ p < (n : Int) := by
    intro α t hsize p
    rw [IntTable.InRange, hsize, hcast]
  have hmanager : ∀ p, mmu.l1Allocator.isValid p ↔ 0 ≤ p ∧ p < (n : Int) := by
    rw [hnew]
    exact hrange _ rfl
  have hfree : ∀ p, p ∈ mmu.l1Allocator.freeList ↔ 0 ≤ p ∧ p < (n : Int) := by
    intro p
    rw [hnew]
    exact BlockManager.mem_countDown.trans (by rw [hcast, Int.toNat_natCast])
  have hscan : scanIds mmu = (List.range n).map Int.ofNat := by
    rw [scanIds, h.config, hcast, Int.toNat_natCast]
  refine ⟨?_, ?_, ?_, hmanager, hrange _ h.metas, fun id => hrange _ (h.owners id), hscan, ?_, ?_, ?_⟩
  · show mmu.l1Allocator.freeList.length = n
    rw [hnew]
    show (BlockManager.countDown (staticCastInt n).toNat).length = n
    rw [BlockManager.length_countDown, hcast, Int.toNat_natCast]
  · rw [BlockManager.allocateAll_eq, hnew]
    exact List.nodup_reverse.mpr hok.nodup
  · intro p
    rw [BlockManager.allocateAll_eq, List.mem_reverse]
    exact hfree p
  · rw [hcast, FitsInt]
    omega
  · intro i hi
    have hbounds := (hfree i).mp hi
    rw [FitsInt]
    omega
  · intro pbid hmem
    have hbounds := (mem_scanIds_iff pbid).mp hmem
    rw [h.config, hcast] at hbounds
    rw [FitsInt]
    omega

/-- From `2 ^ 31` on no id passes a bounds check, whatever the free list holds. -/
theorem BuiltFor.rejects {n : Nat} (h : BuiltFor mmu n) (wide : 2 ^ 31 ≤ n) (fits : n < 2 ^ 32) (p : Int) :
    ¬mmu.l1Allocator.isValid p := by
  have hneg := staticCastInt_neg wide fits
  rw [h.manager]
  intro hv
  have hpos := hv.1
  have hlt : p < staticCastInt n := hv.2
  omega

end Fresh

/-- An accepted configuration covers its ids exactly when `int` can count them. -/
theorem init_covers_iff {cfg : MmuConfig} {env : HostEnv} {mmu : MmuRuntime} (h : compiledInit cfg env = .ok mmu) :
    Covers mmu cfg.l1BlockCount.toNat ↔ cfg.l1BlockCount.toNat < 2 ^ 31 := by
  have hbuilt := compiledInit_builtFor h
  constructor
  · intro hcovers
    by_contra hwide
    have hreject := hbuilt.rejects (not_lt.mp hwide) cfg.l1BlockCount.toNat_lt 0
    exact hreject ((hcovers.manager 0).mpr ⟨le_rfl, by omega⟩)
  · exact hbuilt.covers

theorem init_covers_small :
    Covers (smallInstance 2 3) 4 ∧ mmuGetFreeBlockCount (smallInstance 2 3) = 4 := by
  have hinit : compiledInit (smallConfig 2 3) grantingHost = .ok (smallInstance 2 3) := by
    rw [compiledInit_eq (by decide)]
    simp [mmuInit, smallInstance, smallConfig, sizeofMmuConfig, mmuApiVersion, grantingHost,
      queryAvailableHostMemoryBytes]
  have hcovers := (init_covers_iff hinit).mpr (by decide)
  exact ⟨hcovers, hcovers.free⟩

/-- One block more than `int` can count. -/
def wideConfig : MmuConfig := ⟨32, 1, 2147483648, 0, 0, 4096, 0⟩

def wideInstance : MmuRuntime :=
  { MmuRuntime.new (resolveConfig wideConfig 0 (by simp [wideConfig])) grantingHost with
    l1Allocator := .construct 2147483648 }

/-- The wrapped loop pushes every id, and the first one handed out fails the bounds check. -/
theorem wide_capacity_truncated :
    compiledInit wideConfig grantingHost = .ok wideInstance ∧
      mmuGetFreeBlockCount wideInstance = 2147483648 ∧
      (∃ bm, wideInstance.l1Allocator.allocate = some (0, bm)) ∧
      ¬wideInstance.l1Allocator.isValid 0 ∧ scanIds wideInstance = [] ∧
      ¬FitsInt (staticCastInt wideConfig.l1BlockCount.toNat - 1) ∧
      ¬Covers wideInstance wideConfig.l1BlockCount.toNat := by
  have hinit : compiledInit wideConfig grantingHost = .ok wideInstance := by
    simp [compiledInit, mmuInit, wideInstance, wideConfig, sizeofMmuConfig, mmuApiVersion, grantingHost,
      queryAvailableHostMemoryBytes]
  have hbuilt : BuiltFor wideInstance 2147483648 := compiledInit_builtFor hinit
  have hstart : (BlockManager.loopStart 2147483648 + 1).toNat = 2147483648 := by decide
  have hlist : wideInstance.l1Allocator.freeList = BlockManager.countDown (2147483647 + 1) := by
    show BlockManager.countDown (BlockManager.loopStart 2147483648 + 1).toNat = _
    rw [hstart]
  have hvalid : ¬wideInstance.l1Allocator.isValid 0 := hbuilt.rejects (by decide) (by decide) 0
  refine ⟨hinit, ?_, ?_, hvalid, by decide, by decide, ?_⟩
  · show wideInstance.l1Allocator.freeList.length = 2147483648
    rw [hlist, BlockManager.length_countDown]
  · unfold BlockManager.allocate
    rw [hlist, BlockManager.getLast?_countDown]
    exact ⟨_, rfl⟩
  · intro hcovers
    exact hvalid ((hcovers.manager 0).mpr ⟨le_rfl, by decide⟩)

/-- With one block more still the loop does not start: nothing is free. -/
theorem construct_freeList_wide {n : Nat} (wide : 2 ^ 31 < n) (fits : n < 2 ^ 32) :
    (BlockManager.construct n).freeList = [] := by
  have hneg := staticCastInt_neg wide.le fits
  have hstart := BlockManager.loopStart_eq fits (by omega)
  have hzero : (BlockManager.loopStart n + 1).toNat = 0 := by omega
  show BlockManager.countDown (BlockManager.loopStart n + 1).toNat = []
  rw [hzero]
  rfl

end DsfMmu
