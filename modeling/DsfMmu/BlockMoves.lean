import DsfMmu.TouchOrder
import Mathlib.Logic.Relation

namespace DsfMmu

open MmuRuntime BlockManager Context Relation

namespace BlockView

/-- One change a map makes to block `q` once it has found its own block; `leaves` says that `q` has to leave L1. -/
inductive Move (zero : Bytes) (q : Int) (leaves : Prop) : BlockView → BlockView → Prop
  | demoted {v : BlockView} (ptr : PagePtr) : leaves → Move zero q leaves v (v.demoted zero q ptr)
  | promoted {v : BlockView} (ptr : PagePtr) (epoch : Nat) : Move zero q leaves v (v.promoted zero q ptr epoch)
  | materialised {v : BlockView} (ptr : PagePtr) : Move zero q leaves v (v.materialised zero ptr)
  | pinned {v : BlockView} (pins epoch : Nat) : Move zero q leaves v ((v.withPins pins).touched epoch)
  | touched {v : BlockView} (epoch : Nat) : Move zero q leaves v (v.touched epoch)

abbrev Moves (zero : Bytes) (q : Int) (leaves : Prop) : BlockView → BlockView → Prop :=
  ReflTransGen (Move zero q leaves)

section Moves

variable {zero : Bytes} {q : Int} {leaves : Prop} {v w : BlockView}

/-- None of them looks at the dirty flag. -/
theorem Move.dirty (h : Move zero q leaves v w) : w.info.dirty = v.info.dirty := by
  cases h <;> rfl

theorem Move.inside (h : Move zero q leaves v w) (hin : v.info.residentInL1 = true) (hstays : ¬leaves) :
    w.info.residentInL1 = true := by
  cases h with
  | demoted ptr hleaves => exact absurd hleaves hstays
  | promoted => rfl
  | materialised => exact hin
  | pinned => exact hin
  | touched => exact hin

theorem Moves.dirty (h : Moves zero q leaves v w) : w.info.dirty = v.info.dirty := by
  induction h with
  | refl => rfl
  | tail _ hstep ih => exact hstep.dirty.trans ih

theorem Moves.inside (h : Moves zero q leaves v w) (hin : v.info.residentInL1 = true) (hstays : ¬leaves) :
    w.info.residentInL1 = true := by
  induction h with
  | refl => exact hin
  | tail _ hstep ih => exact hstep.inside ih hstays

end Moves

/-- A block that has just come into use or gone out of it: clean, and if it is resident it has never been copied. -/
structure Blank (v : BlockView) : Prop where
  clean : v.info.dirty = false
  uncopied : v.info.residentInL1 = true → v.l2 = none

theorem unused_blank : Blank unused := ⟨rfl, fun _ => rfl⟩

theorem freshResident_blank (p : Int) (epoch : Nat) : Blank (freshResident p epoch) := ⟨rfl, fun _ => rfl⟩

theorem freshSwapped_blank : Blank freshSwapped := ⟨rfl, fun _ => rfl⟩

theorem cloned_blank (p : Int) (ptr : PagePtr) (source : Bytes) : Blank (cloned p ptr source) :=
  ⟨rfl, fun hr => absurd hr Bool.false_ne_true⟩

end BlockView

/-! What a map moves: the block that has to leave L1 for its own, and its own. -/

/-- The block that has to leave L1 before `p` gets in, if one has to and its copy can be had. -/
def evictedFor (mmu : MmuRuntime) (p : Int) : Option Int :=
  let victim := pickEvictionCandidate mmu p
  if (mmu.block p).info.residentInL1 = true ∨ mmu.residentCount < mmu.residentLimit ∨ victim < 0 then none
  else if (mmu.evictionSupply (mmu.block victim) mmu.stock).isSome then some victim
  else none

/-- The block that a map evicts. -/
def mapEvicts (mmu : MmuRuntime) (ctx : CtxHandle) (lb flags : UInt32) : Option Int :=
  (prepared mmu ctx lb flags).bind fun mid => (routedBlock mid ctx lb).bind fun p => evictedFor mid p

section Moved

variable {mmu mmu' : MmuRuntime} {p : Int}

/-- Every block moves, those that have to leave L1 out of it. -/
def Moved (mmu mmu' : MmuRuntime) (leaves : Int → Prop) : Prop :=
  ∀ q, BlockView.Moves mmu.zeroPage q (leaves q) (mmu.block q) (mmu'.block q)

theorem Moved.of_same {leaves : Int → Prop} (h : mmu'.block = mmu.block) : Moved mmu mmu' leaves := by
  intro q
  rw [h]

theorem Moved.update {leaves : Int → Prop} {v : BlockView} (h : mmu'.block = Function.update mmu.block p v)
    (hv : BlockView.Move mmu.zeroPage p (leaves p) (mmu.block p) v) : Moved mmu mmu' leaves := by
  intro q
  rw [h]
  by_cases hq : q = p
  · rw [hq, Function.update_self]
    exact .single hv
  · rw [Function.update_of_ne hq]

theorem Moved.trans {mid : MmuRuntime} {leaves : Int → Prop} (h : Moved mmu mid leaves)
    (hz : mid.zeroPage = mmu.zeroPage) (h' : Moved mid mmu' leaves) : Moved mmu mmu' leaves := by
  intro q
  have hlater := h' q
  rw [hz] at hlater
  exact (h q).trans hlater

/-- Making room moves no block but the one that has to leave. -/
theorem evictForRoom_moved (h : mmu.Settled) (hout : (mmu.block p).info.residentInL1 = false)
    {r : Except MmuError Unit} (he : evictForRoom mmu p = (r, mmu')) :
    Moved mmu mmu' (fun q => evictedFor mmu p = some q) := by
  rw [evictForRoom_eq h.coherent, evictOnce] at he
  split at he
  next =>
    obtain ⟨_, rfl⟩ := Prod.mk.inj he
    exact .of_same rfl
  next hfull =>
    split at he
    next =>
      obtain ⟨_, rfl⟩ := Prod.mk.inj he
      exact .of_same rfl
    next hneg =>
      have hs := h.coherent.sound
      have hvictim := pickEvictionCandidate_nonneg hneg
      have hv := h.valid (hvictim.is_live h.coherent)
      cases r with
      | error e => exact .of_same (moveBlockToL2_error hs he).blocks
      | ok u =>
        obtain ⟨ptr, heff⟩ := moveBlockToL2_ok hs hv hvictim.resident he
        refine .update heff.blocks (.demoted ptr ?_)
        have hstock := moveBlockToL2_stock hs hv hvictim.allocated hvictim.resident
        unfold evictedFor
        dsimp only
        rw [hout, if_neg (by simp [hfull, hneg])]
        cases hsup : mmu.evictionSupply (mmu.block (pickEvictionCandidate mmu p)) mmu.stock with
        | none =>
          rw [hsup] at hstock
          obtain ⟨e, m, herr⟩ := hstock
          rw [he] at herr
          cases herr
        | some s => rfl

theorem ensureResidentInL1_moved (h : mmu.Settled) (hp : mmu.Live p) {r : Except MmuError Unit}
    (he : ensureResidentInL1 mmu p = (r, mmu')) : Moved mmu mmu' (fun q => evictedFor mmu p = some q) := by
  cases hr : (mmu.block p).info.residentInL1 with
  | true =>
    rw [ensureResidentInL1_inside h hp hr] at he
    obtain ⟨_, rfl⟩ := Prod.mk.inj he
    exact .update (touchBlock_effect h.coherent.sound (h.valid hp)).blocks (.touched _)
  | false =>
    rw [ensureResidentInL1_outside h hp hr] at he
    split at he
    next hroom =>
      obtain ⟨_, rfl⟩ := Prod.mk.inj he
      exact evictForRoom_moved h hr hroom
    next mid hroom =>
      obtain ⟨hq, hlt, hev⟩ := evictForRoom_ok h.coherent hroom
      refine (evictForRoom_moved h hr hroom).trans hq.routing.zeroPage ?_
      have hpmid : (mid.block p).info.residentInL1 = false := by
        rw [hev.self]
        exact hr
      cases r with
      | error e => exact .of_same (hq.coherent.promote_error hlt he).2
      | ok u =>
        obtain ⟨ptr, _, hblock⟩ := hq.coherent.promote hp hpmid hlt he
        exact .update hblock (.promoted ptr _)

/-- So does the whole of a map that has found its block. -/
theorem mapResolved_moved (h : mmu.Settled) {c : Context} {lvid : Int} (hn : c.Names mmu.l1Allocator lvid p)
    {lb flags : UInt32} {r : Except MmuError MappedBlock} (hm : mapResolved mmu c lvid lb flags = (r, mmu')) :
    Moved mmu mmu' (fun q => evictedFor mmu p = some q) := by
  have hp : mmu.Live p := hn.live
  rw [mapResolved_names h hn] at hm
  split at hm
  next hens =>
    obtain ⟨_, rfl⟩ := Prod.mk.inj hm
    exact ensureResidentInL1_moved h hp hens
  next m1 hens =>
    obtain ⟨hq1, hres, _⟩ := ensureResidentInL1_ok h hp hens
    have hs1 := hq1.settled h
    have hp1 : m1.Live p := (hq1.routing.live p).mpr hp
    refine (ensureResidentInL1_moved h hp hens).trans hq1.routing.zeroPage ?_
    split at hm
    next hacq =>
      obtain ⟨_, rfl⟩ := Prod.mk.inj hm
      exact .of_same (hs1.coherent.materialise_error hres hacq).2
    next slot m2 hacq =>
      obtain ⟨_, rfl⟩ := Prod.mk.inj hm
      obtain ⟨hq2, hblock2⟩ := hs1.coherent.materialise hp1 hres hacq
      have hl2 : (m2.block p).l1 = some ⟨slot, BlockView.pageBytes m1.zeroPage (m1.block p).l1⟩ := by
        rw [hblock2, Function.update_self]
        rfl
      have hpin := (pin_touch (hq2.settled hs1) ((hq2.routing.live p).mpr hp1) hl2).2.2
      have hpage : Moved m1 m2 (fun q => evictedFor mmu p = some q) := .update hblock2 (.materialised slot)
      exact hpage.trans hq2.routing.zeroPage (.update hpin (.pinned _ _))

end Moved

/-! The calls that neither map nor unmap leave a block alone or blank. -/

section Renewed

variable {mmu mmu' : MmuRuntime} {ctx : CtxHandle} {lb flags : UInt32}

def Renewed (mmu mmu' : MmuRuntime) : Prop := ∀ q, mmu'.block q = mmu.block q ∨ (mmu'.block q).Blank

theorem Renewed.refl (mmu : MmuRuntime) : Renewed mmu mmu := fun _ => .inl rfl

theorem Forgot.renewed {r : Routing} (h : Forgot mmu mmu' r) : Renewed mmu mmu' := by
  intro q
  by_cases hq : mmu'.Live q
  · exact .inl (h.blocks q hq)
  · refine .inr ?_
    rw [h.settled.coherent.unused hq]
    exact BlockView.unused_blank

theorem Registered.renewed {ids : List Int} {r : Routing} (h : Registered mmu mmu' ids r) : Renewed mmu mmu' := by
  intro q
  by_cases hq : q ∈ ids
  · refine .inr ?_
    rcases h.fresh q hq with ⟨epoch, hv⟩ | hv
    · rw [hv]
      exact BlockView.freshResident_blank q epoch
    · rw [hv]
      exact BlockView.freshSwapped_blank
  · exact .inl (h.blocks q hq)

theorem prepare_renewed (h : mmu.Settled) {r : Except MmuError Int}
    (hr : mmuPrepareBlockForWrite mmu ctx lb = (r, mmu')) : Renewed mmu mmu' := by
  rcases mmuPrepareBlockForWrite_cases h hr with
    ⟨_, rfl, _⟩ | ⟨_, _, _, _, _, _, _, _, rfl⟩ | ⟨c, lvid, b, new, bm, v, _, _, _, _, _, hm, hcase⟩
  · exact .refl _
  · exact .refl _
  · have hv : v.Blank := by
      rcases hcase with ⟨⟨ptr, rfl⟩, _⟩ | ⟨rfl, _⟩
      · exact BlockView.cloned_blank new ptr _
      · exact BlockView.freshSwapped_blank
    intro q
    rw [hm.blocks]
    by_cases hq : q = new
    · rw [hq, Function.update_self]
      exact .inr hv
    · rw [Function.update_of_ne hq]
      exact .inl rfl

/-- Neither a map nor an unmap nor a store. -/
def Call.Renews : Call → Prop
  | .mapLogicalBlock .. | .mapLogicalBlocks .. | .unmapLogicalBlock .. | .unmapLogicalBlocks .. => False
  | .hostWrite .. => False
  | _ => True

theorem perform_renewed (h : mmu.Settled) {call : Call} (hcall : call.Renews) :
    Renewed mmu (perform mmu call).2 := by
  cases call with
  | createContext handle =>
    obtain ⟨r, m, hr⟩ : ∃ r m, mmuCreateContext mmu handle = (r, m) := ⟨_, _, rfl⟩
    simp only [perform, hr]
    rcases mmuCreateContext_cases hr with ⟨_, _, rfl⟩ | ⟨_, _, _, rfl⟩
    · exact .refl _
    · exact .refl mmu
  | destroyContext ctx =>
    obtain ⟨r, hf⟩ := mmuDestroyContext_forgets h ctx
    exact hf.renewed
  | forkContext src grows handle =>
    obtain ⟨r, m, hr⟩ : ∃ r m, mmuForkContext mmu src grows handle = (r, m) := ⟨_, _, rfl⟩
    simp only [perform, hr]
    rcases mmuForkContext_cases h.allocator hr with ⟨_, rfl, _⟩ | ⟨_, _, _, _, _, rfl⟩ | ⟨_, _, _, _, _, rfl⟩
    · exact .refl _
    · exact .refl mmu
    · exact .refl mmu
  | allocateBlocks ctx n =>
    obtain ⟨r, m, hr⟩ : ∃ r m, mmuAllocateBlocks mmu ctx n = (r, m) := ⟨_, _, rfl⟩
    simp only [perform, hr]
    rcases mmuAllocateBlocks_cases h hr with
      ⟨_, _, rfl⟩ | ⟨_, _, _, _, _, _, _, _, _, _, rfl⟩ | ⟨_, _, _, _, _, _, _, _, _, hreg⟩
    · exact .refl _
    · exact .refl mmu
    · exact hreg.renewed
  | releaseLogicalBlock ctx lb =>
    obtain ⟨r, hf⟩ := mmuReleaseLogicalBlock_forgets h ctx lb
    exact hf.renewed
  | prepareBlockForWrite ctx lb =>
    obtain ⟨r, m, hr⟩ : ∃ r m, mmuPrepareBlockForWrite mmu ctx lb = (r, m) := ⟨_, _, rfl⟩
    simp only [perform, hr]
    exact prepare_renewed h hr
  | _ => exact absurd hcall id

/-- A map prepares its block and then moves blocks, of which none but the one it evicts leaves L1. -/
theorem map_moved (h : mmu.Settled) {r : Except MmuError MappedBlock}
    (hm : mmuMapLogicalBlock mmu ctx lb flags = (r, mmu')) :
    ∃ mid, Renewed mmu mid ∧ mid.zeroPage = mmu.zeroPage ∧
      Moved mid mmu' (fun q => mapEvicts mmu ctx lb flags = some q) := by
  cases hvalid : validateMapFlags flags with
  | false =>
    rw [mmuMapLogicalBlock_invalid (by simp [hvalid])] at hm
    obtain ⟨_, rfl⟩ := Prod.mk.inj hm
    exact ⟨mmu, .refl mmu, rfl, .of_same rfl⟩
  | true =>
    rcases mmuMapLogicalBlock_cases h hm with
      ⟨_, rfl⟩ | ⟨_, _, _, hprep⟩ | ⟨mid, c, lvid, hc, hlvid, hcase, hres⟩
    · exact ⟨mmu', .refl mmu', rfl, .of_same rfl⟩
    · exact ⟨mmu', prepare_renewed h hprep, (prepare_clean h hprep).setup.zeroPage, .of_same rfl⟩
    · have hmid : mid.Settled ∧ Renewed mmu mid ∧ mid.zeroPage = mmu.zeroPage ∧
          prepared mmu ctx lb flags = some mid := by
        unfold prepared
        rw [hvalid, if_neg (by simp)]
        rcases hcase with ⟨hread, rfl⟩ | ⟨hwrite, b, hprep⟩
        · rw [hread]
          exact ⟨h, .refl _, rfl, rfl⟩
        · rw [hwrite, if_pos rfl, hprep]
          have hclean := prepare_clean h hprep
          exact ⟨hclean.settled, prepare_renewed h hprep, hclean.setup.zeroPage, rfl⟩
      obtain ⟨hs, hrenewed, hzero, hprepared⟩ := hmid
      refine ⟨mid, hrenewed, hzero, ?_⟩
      by_cases hnamed : ∃ p, c.Names mid.l1Allocator lvid p
      · obtain ⟨p, hn⟩ := hnamed
        have hroute : routedBlock mid ctx lb = some p := (routedBlock_eq_some hs).mpr ⟨c, lvid, hc, hlvid, hn⟩
        have hevicts : mapEvicts mmu ctx lb flags = evictedFor mid p := by
          unfold mapEvicts
          rw [hprepared, Option.bind_some, hroute, Option.bind_some]
        rw [hevicts]
        exact mapResolved_moved hs hn hres
      · obtain ⟨e, herr⟩ := mapResolved_unnamed hs (not_exists.mp hnamed) lb flags
        rw [herr] at hres
        obtain ⟨_, rfl⟩ := Prod.mk.inj hres
        exact .of_same rfl

end Renewed

end DsfMmu
