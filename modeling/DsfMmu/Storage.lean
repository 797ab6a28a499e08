import DsfMmu.BlockView
import DsfMmu.PoolOwnership
import Mathlib.Tactic.Tauto

namespace DsfMmu

namespace MmuRuntime

@[simp] theorem pool_setPool (mmu : MmuRuntime) (id id' : PoolId) (pool : ChunkPool) :
    (mmu.setPool id pool).pool id' = if id' = id then pool else mmu.pool id' := by
  cases id <;> cases id' <;> rfl

/-- The page a block owns in a pool. -/
def page (mmu : MmuRuntime) (id : PoolId) (p : Int) : Option Page :=
  ((mmu.pool id).rawPage p).map fun ptr => ⟨ptr, (mmu.pool id).bytes ptr⟩

/-- The abstraction: what the directory and both pools say about one block. -/
def block (mmu : MmuRuntime) (p : Int) : BlockView :=
  ⟨mmu.blockDirectory.metas.entry p, mmu.page .l1 p, mmu.page .l2 p⟩

def logicalBytes (mmu : MmuRuntime) (p : Int) : Bytes := (mmu.block p).bytes mmu.zeroPage

/-- The ids that pass the bounds checks. -/
def Valid (mmu : MmuRuntime) (p : Int) : Prop := p ∈ IntTable.indices mmu.config.l1BlockCount

instance (mmu : MmuRuntime) (p : Int) : Decidable (mmu.Valid p) :=
  inferInstanceAs (Decidable (p ∈ IntTable.indices mmu.config.l1BlockCount))

/-- The blocks marked resident. -/
def residents (mmu : MmuRuntime) : Finset Int :=
  (IntTable.indices mmu.config.l1BlockCount).filter fun p =>
    (mmu.blockDirectory.metas.entry p).residentInL1 = true

/-- Vector growth never fails inside `AllocateChunk`. -/
def GrowsFreely (mmu : MmuRuntime) : Prop := ∀ k pushed, mmu.host.reply k ≠ .listFull pushed

/-- The slots a pool may have in all. -/
def slotCap (mmu : MmuRuntime) : PoolId → Nat
  | .l1 => mmu.config.l1ResidentBlockLimit - 1 + mmu.config.chunkBlockCount
  | .l2 => mmu.config.l2BlockCount

/-- The tables have the configured sizes and the pools own their slots one by one. -/
structure Sound (mmu : MmuRuntime) : Prop where
  refs_size : mmu.l1Allocator.refCounts.size = mmu.config.l1BlockCount
  metas_size : mmu.blockDirectory.metas.size = mmu.config.l1BlockCount
  owners_size : ∀ id, (mmu.pool id).ownerPages.size = mmu.config.l1BlockCount
  limit : mmu.residentLimit = mmu.config.l1ResidentBlockLimit
  pool_ok : ∀ id, (mmu.pool id).Ok
  l2_capped : (mmu.pool .l2).committedPages ≤ mmu.config.l2BlockCount
  exact : mmu.GrowsFreely → ∀ id, (mmu.pool id).Exact
  slots : mmu.GrowsFreely → ∀ id, (mmu.pool id).totalSlots ≤ mmu.slotCap id

/-- The part of the runtime that only contexts change. -/
structure SameRouting (mmu mmu' : MmuRuntime) : Prop where
  config : mmu'.config = mmu.config
  allocator : mmu'.l1Allocator = mmu.l1Allocator
  contexts : mmu'.contexts = mmu.contexts
  limit : mmu'.residentLimit = mmu.residentLimit
  replies : mmu'.host.reply = mmu.host.reply

theorem SameRouting.refl (mmu : MmuRuntime) : SameRouting mmu mmu := ⟨rfl, rfl, rfl, rfl, rfl⟩

theorem SameRouting.trans {a b c : MmuRuntime} (h : SameRouting a b) (h' : SameRouting b c) :
    SameRouting a c :=
  ⟨h'.config.trans h.config, h'.allocator.trans h.allocator, h'.contexts.trans h.contexts,
    h'.limit.trans h.limit, h'.replies.trans h.replies⟩

theorem SameRouting.zeroPage {mmu mmu' : MmuRuntime} (h : SameRouting mmu mmu') :
    mmu'.zeroPage = mmu.zeroPage := by
  simp [MmuRuntime.zeroPage, h.config]

theorem SameRouting.valid {mmu mmu' : MmuRuntime} (h : SameRouting mmu mmu') (p : Int) :
    mmu'.Valid p ↔ mmu.Valid p := by
  simp [MmuRuntime.Valid, h.config]

/-- The outcome of storage operations: contexts and counts as before, the blocks now `blocks`. -/
structure Effect (mmu mmu' : MmuRuntime) (blocks : Int → BlockView) (residents epoch : Nat) : Prop where
  sound : mmu'.Sound
  routing : SameRouting mmu mmu'
  blocks : mmu'.block = blocks
  residentCount : mmu'.residentCount = residents
  epoch : mmu'.epoch = epoch

theorem Effect.zeroPage {mmu mmu' : MmuRuntime} {blocks : Int → BlockView} {n e : Nat}
    (h : Effect mmu mmu' blocks n e) : mmu'.zeroPage = mmu.zeroPage := h.routing.zeroPage

theorem Sound.effect_refl {mmu : MmuRuntime} (h : mmu.Sound) :
    Effect mmu mmu mmu.block mmu.residentCount mmu.epoch :=
  ⟨h, .refl mmu, rfl, rfl, rfl⟩

theorem Effect.trans {a b c : MmuRuntime} {f g : Int → BlockView} {n m e k : Nat}
    (h : Effect a b f n e) (h' : Effect b c g m k) : Effect a c g m k :=
  ⟨h'.sound, h.routing.trans h'.routing, h'.blocks, h'.residentCount, h'.epoch⟩

section Sound

variable {mmu : MmuRuntime} {p : Int}

theorem Sound.meta_inRange (h : mmu.Sound) : mmu.blockDirectory.isValid p ↔ mmu.Valid p := by
  simp [BlockDirectory.isValid, IntTable.inRange_iff_mem, h.metas_size, Valid]

theorem Sound.refs_inRange (h : mmu.Sound) : mmu.l1Allocator.isValid p ↔ mmu.Valid p := by
  simp [BlockManager.isValid, IntTable.inRange_iff_mem, h.refs_size, Valid]

theorem Sound.owner_inRange (h : mmu.Sound) (id : PoolId) :
    (mmu.pool id).ownerPages.InRange p ↔ mmu.Valid p := by
  simp [IntTable.inRange_iff_mem, h.owners_size id, Valid]

theorem Sound.limit_pos (h : mmu.Sound) : 0 < mmu.residentLimit := by
  rw [h.limit]
  exact mmu.config.limit_pos

end Sound

section Update

variable (mmu : MmuRuntime) (id : PoolId) (pool : ChunkPool)

@[simp] theorem setPool_config : (mmu.setPool id pool).config = mmu.config := by cases id <;> rfl
@[simp] theorem setPool_allocator : (mmu.setPool id pool).l1Allocator = mmu.l1Allocator := by cases id <;> rfl
@[simp] theorem setPool_directory : (mmu.setPool id pool).blockDirectory = mmu.blockDirectory := by
  cases id <;> rfl
@[simp] theorem setPool_contexts : (mmu.setPool id pool).contexts = mmu.contexts := by cases id <;> rfl
@[simp] theorem setPool_limit : (mmu.setPool id pool).residentLimit = mmu.residentLimit := by cases id <;> rfl
@[simp] theorem setPool_count : (mmu.setPool id pool).residentCount = mmu.residentCount := by cases id <;> rfl
@[simp] theorem setPool_epoch : (mmu.setPool id pool).epoch = mmu.epoch := by cases id <;> rfl
@[simp] theorem setPool_host : (mmu.setPool id pool).host = mmu.host := by cases id <;> rfl

theorem setPool_routing : SameRouting mmu (mmu.setPool id pool) := by
  constructor <;> simp

end Update

/-- Soundness reads the sizes, the pools, the limit and the host's replies, nothing else. -/
theorem Sound.of_same {mmu mmu' : MmuRuntime} (h : mmu.Sound) (hconfig : mmu'.config = mmu.config)
    (hrefs : mmu'.l1Allocator.refCounts.size = mmu.l1Allocator.refCounts.size)
    (hmetas : mmu'.blockDirectory.metas.size = mmu.blockDirectory.metas.size)
    (hpool : ∀ id, mmu'.pool id = mmu.pool id) (hlimit : mmu'.residentLimit = mmu.residentLimit)
    (hreply : mmu'.host.reply = mmu.host.reply) : mmu'.Sound := by
  have hgrow : mmu'.GrowsFreely → mmu.GrowsFreely := fun hg k pushed => hreply ▸ hg k pushed
  have hcap : ∀ id, mmu'.slotCap id = mmu.slotCap id := by intro id; cases id <;> simp [slotCap, hconfig]
  constructor
  · rw [hrefs, hconfig]; exact h.refs_size
  · rw [hmetas, hconfig]; exact h.metas_size
  · intro id; rw [hpool, hconfig]; exact h.owners_size id
  · rw [hlimit, hconfig]; exact h.limit
  · intro id; rw [hpool]; exact h.pool_ok id
  · rw [hpool, hconfig]; exact h.l2_capped
  · intro hg id; rw [hpool]; exact h.exact (hgrow hg) id
  · intro hg id; rw [hpool, hcap]; exact h.slots (hgrow hg) id

/-- Replacing one pool by another sound one. -/
theorem Sound.setPool {mmu : MmuRuntime} (h : mmu.Sound) {id : PoolId} {pool : ChunkPool}
    (hsize : pool.ownerPages.size = (mmu.pool id).ownerPages.size) (hok : pool.Ok)
    (hcap : id = .l2 → pool.committedPages ≤ mmu.config.l2BlockCount)
    (hexact : mmu.GrowsFreely → pool.Exact ∧ pool.totalSlots ≤ mmu.slotCap id) :
    (mmu.setPool id pool).Sound := by
  have hgrow : (mmu.setPool id pool).GrowsFreely → mmu.GrowsFreely := by
    intro hg k pushed
    simpa using hg k pushed
  have hslot : ∀ i, (mmu.setPool id pool).slotCap i = mmu.slotCap i := by intro i; cases i <;> simp [slotCap]
  constructor
  · simpa using h.refs_size
  · simpa using h.metas_size
  · intro i
    by_cases hi : i = id
    · subst i
      simpa [hsize] using h.owners_size id
    · simpa [hi] using h.owners_size i
  · simpa using h.limit
  · intro i
    by_cases hi : i = id
    · simpa [hi] using hok
    · simpa [hi] using h.pool_ok i
  · by_cases hi : PoolId.l2 = id
    · simpa [hi] using hcap hi.symm
    · simpa [hi] using h.l2_capped
  · intro hg i
    by_cases hi : i = id
    · simpa [hi] using (hexact (hgrow hg)).1
    · simpa [hi] using h.exact (hgrow hg) i
  · intro hg i
    rw [hslot]
    by_cases hi : i = id
    · subst i
      simpa using (hexact (hgrow hg)).2
    · simpa [hi] using h.slots (hgrow hg) i

theorem page_eq_none {mmu : MmuRuntime} {id : PoolId} {p : Int} :
    mmu.page id p = none ↔ (mmu.pool id).ownerPages.entry p = none := by
  simp [page, ChunkPool.rawPage]

theorem page_eq_some {mmu : MmuRuntime} {id : PoolId} {p : Int} {pg : Page} :
    mmu.page id p = some pg ↔
      (mmu.pool id).ownerPages.entry p = some pg.ptr ∧ pg.bytes = (mmu.pool id).bytes pg.ptr := by
  obtain ⟨ptr, bytes⟩ := pg
  simp only [page, ChunkPool.rawPage, Option.map_eq_some_iff, Page.mk.injEq]
  constructor
  · intro hex
    obtain ⟨a, ha, rfl, rfl⟩ := hex
    exact ⟨ha, rfl⟩
  · intro hboth
    obtain ⟨ha, rfl⟩ := hboth
    exact ⟨ptr, ha, rfl, rfl⟩

/-- A pool's pages depend on its owner table and on the bytes of the owned slots alone. -/
theorem page_congr {mmu mmu' : MmuRuntime} {id : PoolId} {q : Int}
    (howner : (mmu'.pool id).ownerPages.entry q = (mmu.pool id).ownerPages.entry q)
    (hbytes : ∀ ptr, (mmu.pool id).ownerPages.entry q = some ptr →
      (mmu'.pool id).bytes ptr = (mmu.pool id).bytes ptr) :
    mmu'.page id q = mmu.page id q := by
  cases h : (mmu.pool id).ownerPages.entry q with
  | none => rw [page_eq_none.mpr h, page_eq_none.mpr (howner.trans h)]
  | some ptr =>
    simp only [page, ChunkPool.rawPage, howner, h, Option.map_some, hbytes ptr h]

end MmuRuntime

end DsfMmu
