import DsfMmu.StorageEffects

namespace DsfMmu

namespace MmuRuntime

/-- Directory, pools and counter agree with each other; `live` are the blocks in use. -/
structure Coherent (mmu : MmuRuntime) (live : Int → Prop) : Prop where
  sound : mmu.Sound
  valid : ∀ p, live p → mmu.Valid p
  blocks : ∀ p, BlockView.Ok mmu.zeroPage p (live p) (mmu.block p)
  count : mmu.residentCount = mmu.residents.card
  limit : mmu.residentCount ≤ mmu.residentLimit

section Coherent

variable {mmu mmu' : MmuRuntime} {live live' : Int → Prop} {p : Int}

theorem Coherent.congr (h : mmu.Coherent live) (hl : ∀ p, live p ↔ live' p) : mmu.Coherent live' := by
  have he : live = live' := funext fun p => propext (hl p)
  rw [← he]
  exact h

theorem Coherent.ok (h : mmu.Coherent live) (hp : live p) : BlockView.Ok mmu.zeroPage p True (mmu.block p) :=
  (h.blocks p).congr (iff_true_intro hp)

theorem Coherent.unused (h : mmu.Coherent live) (hp : ¬live p) : mmu.block p = .unused :=
  (h.blocks p).unused hp

theorem Coherent.live_iff (h : mmu.Coherent live) : (mmu.block p).info.allocated = true ↔ live p :=
  (h.blocks p).allocated

theorem Coherent.live_of_resident (h : mmu.Coherent live) (hr : (mmu.block p).info.residentInL1 = true) :
    live p := (h.blocks p).resident_live hr

theorem Coherent.mem_residents (h : mmu.Coherent live) :
    p ∈ mmu.residents ↔ (mmu.block p).info.residentInL1 = true := by
  have hmem : p ∈ mmu.residents ↔ mmu.Valid p ∧ (mmu.block p).info.residentInL1 = true := Finset.mem_filter
  rw [hmem]
  exact ⟨And.right, fun hr => ⟨h.valid p (h.live_of_resident hr), hr⟩⟩

theorem Coherent.count_pos (h : mmu.Coherent live) (hr : (mmu.block p).info.residentInL1 = true) :
    0 < mmu.residentCount := by
  rw [h.count]
  exact Finset.card_pos.mpr ⟨p, h.mem_residents.mpr hr⟩

/-- One for a resident block, nothing for any other. -/
def weight (v : BlockView) : Nat := if v.info.residentInL1 then 1 else 0

/-- How the number of residents changes when one block does. -/
theorem residents_update {v : BlockView} (hconfig : mmu'.config = mmu.config) (hv : mmu.Valid p)
    (hblocks : mmu'.block = Function.update mmu.block p v) :
    mmu'.residents.card + weight (mmu.block p) = mmu.residents.card + weight v := by
  have hentry : ∀ q, mmu'.blockDirectory.metas.entry q = (Function.update mmu.block p v q).info := by
    intro q
    rw [← hblocks]
    rfl
  have hself := hentry p
  rw [Function.update_self] at hself
  have hother : ∀ q ≠ p, (mmu'.blockDirectory.metas.entry q).residentInL1 =
      (mmu.blockDirectory.metas.entry q).residentInL1 := by
    intro q hq
    rw [hentry q, Function.update_of_ne hq]
    rfl
  have hcard := card_flag_update (f := fun q => (mmu.blockDirectory.metas.entry q).residentInL1)
    (g := fun q => (mmu'.blockDirectory.metas.entry q).residentInL1) hv hother
  simp only [hself] at hcard
  unfold residents
  rw [hconfig]
  exact hcard

/-- One block changes and is coherent again, and the counter follows. -/
theorem Coherent.of_update {v : BlockView} {n e : Nat} (h : mmu.Coherent live)
    (he : Effect mmu mmu' (Function.update mmu.block p v) n e) (hv : mmu.Valid p)
    (hok : BlockView.Ok mmu.zeroPage p (live' p) v) (hother : ∀ q ≠ p, (live q ↔ live' q))
    (hn : n + weight (mmu.block p) = mmu.residentCount + weight v) (hlimit : n ≤ mmu.residentLimit) :
    mmu'.Coherent live' := by
  refine ⟨he.sound, ?_, ?_, ?_, ?_⟩
  · intro q hq
    rw [he.routing.valid]
    by_cases hqp : q = p
    · exact hqp ▸ hv
    · exact h.valid q ((hother q hqp).mpr hq)
  · intro q
    rw [he.blocks, he.zeroPage]
    by_cases hqp : q = p
    · subst q
      rw [Function.update_self]
      exact hok
    · rw [Function.update_of_ne hqp]
      exact (h.blocks q).congr (hother q hqp)
  · have hcard := residents_update he.routing.config hv he.blocks
    have hcount := h.count
    rw [he.residentCount]
    omega
  · rw [he.residentCount, he.routing.limit]
    exact hlimit

end Coherent

/-- What eviction, promotion and bookkeeping keep: routing, the logical bytes of every block, every
pin count, and the L1 page of every pinned block. -/
structure Quiet (live : Int → Prop) (mmu mmu' : MmuRuntime) : Prop where
  coherent : mmu'.Coherent live
  routing : SameRouting mmu mmu'
  bytes : ∀ q, mmu'.logicalBytes q = mmu.logicalBytes q
  pins : ∀ q, (mmu'.block q).info.pinCount = (mmu.block q).info.pinCount
  kept : ∀ q, 0 < (mmu.block q).info.pinCount → (mmu'.block q).l1 = (mmu.block q).l1

section Quiet

variable {mmu mmu' : MmuRuntime} {live : Int → Prop} {p : Int}

theorem Coherent.quiet_refl (h : mmu.Coherent live) : Quiet live mmu mmu :=
  ⟨h, .refl mmu, fun _ => rfl, fun _ => rfl, fun _ _ => rfl⟩

theorem Quiet.congr {live' : Int → Prop} (h : Quiet live mmu mmu') (hl : ∀ p, live p ↔ live' p) :
    Quiet live' mmu mmu' :=
  ⟨h.coherent.congr hl, h.routing, h.bytes, h.pins, h.kept⟩

theorem Quiet.trans {a b c : MmuRuntime} (h : Quiet live a b) (h' : Quiet live b c) : Quiet live a c := by
  refine ⟨h'.coherent, h.routing.trans h'.routing, fun q => (h'.bytes q).trans (h.bytes q),
    fun q => (h'.pins q).trans (h.pins q), ?_⟩
  intro q hq
  have hq' : 0 < (b.block q).info.pinCount := by
    rw [h.pins]
    exact hq
  exact (h'.kept q hq').trans (h.kept q hq)

theorem Coherent.quiet_same {e : Nat} (h : mmu.Coherent live)
    (he : Effect mmu mmu' mmu.block mmu.residentCount e) : Quiet live mmu mmu' := by
  have hblock := he.blocks
  have hres : mmu'.residents = mmu.residents := by
    have hentry : ∀ q, mmu'.blockDirectory.metas.entry q = mmu.blockDirectory.metas.entry q := by
      intro q
      exact congrArg BlockView.info (congrFun hblock q)
    simp only [residents, he.routing.config, hentry]
  refine ⟨⟨he.sound, ?_, ?_, ?_, ?_⟩, he.routing, ?_, ?_, ?_⟩
  · exact fun q hq => (he.routing.valid q).mpr (h.valid q hq)
  · intro q
    rw [hblock, he.zeroPage]
    exact h.blocks q
  · rw [he.residentCount, hres]
    exact h.count
  · rw [he.residentCount, he.routing.limit]
    exact h.limit
  · intro q
    simp only [logicalBytes, hblock, he.zeroPage]
  · intro q
    rw [hblock]
  · intro q _
    rw [hblock]

/-- One live block changes without changing its bytes or its pins. -/
theorem Coherent.quiet_update {v : BlockView} {n e : Nat} (h : mmu.Coherent live) (hp : live p)
    (he : Effect mmu mmu' (Function.update mmu.block p v) n e) (hok : BlockView.Ok mmu.zeroPage p True v)
    (hbytes : v.bytes mmu.zeroPage = (mmu.block p).bytes mmu.zeroPage)
    (hpins : v.info.pinCount = (mmu.block p).info.pinCount)
    (hkept : 0 < (mmu.block p).info.pinCount → v.l1 = (mmu.block p).l1)
    (hn : n + weight (mmu.block p) = mmu.residentCount + weight v) (hlimit : n ≤ mmu.residentLimit) :
    Quiet live mmu mmu' := by
  have hok' : BlockView.Ok mmu.zeroPage p (live p) v := hok.congr (iff_true_intro hp).symm
  refine ⟨h.of_update he (h.valid p hp) hok' (fun _ _ => Iff.rfl) hn hlimit, he.routing, ?_, ?_, ?_⟩
  · intro q
    simp only [logicalBytes, he.blocks, he.zeroPage]
    exact BlockView.update_field (BlockView.bytes mmu.zeroPage) hbytes q
  · intro q
    rw [he.blocks]
    exact BlockView.update_field (fun v => v.info.pinCount) hpins q
  · intro q hq0
    rw [he.blocks]
    by_cases hq : q = p
    · subst q
      rw [Function.update_self]
      exact hkept hq0
    · rw [Function.update_of_ne hq]

end Quiet

end MmuRuntime

end DsfMmu
