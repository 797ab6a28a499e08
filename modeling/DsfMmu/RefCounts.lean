import DsfMmu.Invariants

namespace DsfMmu

open BlockManager Context

namespace Routing

variable {r r' : Routing} {m : Event} {p : Int}

theorem unallocated_zero {bm : BlockManager} (h : bm.Ok) : bm.refCounts.entry kUnallocatedBlock = 0 := by
  apply h.outside
  intro hv
  have h0 := hv.1
  exact absurd h0 (by decide)

theorem names_grown (c : Context) (ids : List Int) (p : Int) :
    (c.grown ids).pageTable.names p = c.pageTable.names p + ids.count p := by
  simp [grown, PageTable.names]

theorem names_remapped {c : Context} {lvid b : Int} (h : c.pageTable.get lvid = some b) (new p : Int) :
    (c.remapped lvid new).pageTable.names p + (if p = b then 1 else 0) =
      c.pageTable.names p + if p = new then 1 else 0 :=
  PageTable.names_set h new p

/-- References of a block come and go together with the entries of one context that name it. -/
def Balanced (bm bm' : BlockManager) (c c' : Context) (p : Int) : Prop :=
  bm'.refCounts.entry p - c'.pageTable.names p = bm.refCounts.entry p - c.pageTable.names p

section Balanced

variable {bm bm' : BlockManager} {c c' : Context} {lvid b : Int}

theorem Balanced.names {ctx : CtxHandle} (h : Balanced r.allocator bm' c c' p) (found : r.contexts.find? ctx = some c) :
    bm'.refCounts.entry p - (Routing.names ⟨bm', r.contexts.insert ctx c'⟩ p : Int) =
      r.allocator.refCounts.entry p - r.names p := by
  have hn := names_insert c' bm' r.allocator p found
  have hr : Routing.names ⟨r.allocator, r.contexts⟩ p = r.names p := rfl
  unfold Balanced at h
  omega

theorem allocated_balanced {ids : List Int} (taken : Taken bm ids bm') : Balanced bm bm' c (c.grown ids) p := by
  unfold Balanced
  rw [names_grown, taken.entry]
  split
  next hmem =>
    have hcount : ids.count p = 1 := List.count_eq_one_of_mem taken.nodup hmem
    have hzero := (taken.free p hmem).2
    omega
  next hmem =>
    have hcount : ids.count p = 0 := List.count_eq_zero_of_not_mem hmem
    omega

theorem released_balanced (ha : bm.Ok) (hn : c.Names bm lvid b) (hun : p ≠ kUnallocatedBlock) :
    Balanced bm (bm.release b).2 c (c.remapped lvid kUnallocatedBlock) p := by
  have hset := names_remapped hn.entry kUnallocatedBlock p
  have hlive := hn.live
  rw [if_neg hun] at hset
  unfold Balanced
  rw [ha.release_entry]
  by_cases hpb : p = b
  · rw [if_pos hpb] at hset
    rw [if_pos ⟨hpb, by rw [hpb]; exact hlive⟩]
    omega
  · rw [if_neg hpb] at hset
    rw [if_neg (fun hc => hpb hc.1)]
    omega

theorem remapped_balanced {new : Int} (hn : c.Names bm lvid b) (taken : Taken bm [new] bm') :
    Balanced bm (bm'.release b).2 c (c.remapped lvid new) p := by
  have hset := names_remapped hn.entry new p
  have hlive := hn.live
  have hzero := (taken.free new (List.mem_singleton_self new)).2
  have hne : b ≠ new := taken.ne_new hlive
  unfold Balanced
  rw [taken.ok.release_entry, taken.entry]
  simp only [List.mem_singleton]
  by_cases hpn : p = new
  · have hpb : p ≠ b := fun he => hne (he.symm.trans hpn)
    rw [if_pos hpn, if_neg hpb] at hset
    rw [if_pos hpn, if_neg (fun hc => hpb hc.1)]
    rw [hpn] at hset ⊢
    omega
  · rw [if_neg hpn] at hset ⊢
    by_cases hpb : p = b
    · rw [if_pos hpb] at hset
      rw [if_pos ⟨hpb, by rw [hpb]; exact hlive⟩]
      omega
    · rw [if_neg hpb] at hset
      rw [if_neg (fun hc => hpb hc.1)]
      omega

end Balanced

/-- No block has more references than entries that name it. -/
def Bounded (r : Routing) : Prop := ∀ p, r.allocator.refCounts.entry p ≤ r.names p

/-- Whatever a step does short of a leak, it adds no reference without adding an entry. -/
theorem Bounded.step (hok : r.Ok) (h : r.Bounded) (hs : r.Step m r') (hm : m ≠ .appendRefused) : r'.Bounded := by
  intro p
  have hp := h p
  have ha := hok.allocator
  by_cases hun : p = kUnallocatedBlock
  · rw [hun, unallocated_zero (hok.step hs).allocator]
    exact Int.natCast_nonneg _
  cases hs with
  | @created ctx c fresh empty =>
    have hn := names_insert_fresh (c := c) r.allocator r.allocator p fresh.2
    show r.allocator.refCounts.entry p ≤ _
    have hr : names ⟨r.allocator, r.contexts⟩ p = r.names p := rfl
    omega
  | @destroyed ctx c found =>
    have hn := names_erase (r.allocator.releaseAll (namedBlocks c.pageTable)) r.allocator p found
    have hr : names ⟨r.allocator, r.contexts⟩ p = r.names p := rfl
    show (r.allocator.releaseAll (namedBlocks c.pageTable)).refCounts.entry p ≤ _
    rw [ha.releaseAll_entry, namedBlocks_count _ hun]
    omega
  | @forked src ctx c found fresh =>
    have hn := names_insert_fresh (c := c) (r.allocator.retainAll (namedBlocks c.pageTable)) r.allocator p fresh.2
    have hr : names ⟨r.allocator, r.contexts⟩ p = r.names p := rfl
    show (r.allocator.retainAll (namedBlocks c.pageTable)).refCounts.entry p ≤ _
    rw [ha.retainAll_entry, namedBlocks_count _ hun]
    split <;> omega
  | leaked _ _ _ => exact absurd rfl hm
  | @allocated ctx c ids bm found taken =>
    have hbal := (allocated_balanced (p := p) taken).names found
    show bm.refCounts.entry p ≤ _
    omega
  | @exhausted ctx c ids bm found taken =>
    have hn := names_insert (c.grown ids) (bm.releaseAll ids) r.allocator p found
    have hr : names ⟨r.allocator, r.contexts⟩ p = r.names p := rfl
    rw [names_grown] at hn
    show (bm.releaseAll ids).refCounts.entry p ≤ _
    rw [taken.releaseAll_entry]
    omega
  | @released ctx c lvid b found names' =>
    have hbal := (released_balanced ha names' hun).names found
    show (r.allocator.release b).2.refCounts.entry p ≤ _
    omega
  | @remapped ctx c lvid b new bm found names' shared taken =>
    have hbal := (remapped_balanced (p := p) names' taken).names found
    show (bm.release b).2.refCounts.entry p ≤ _
    omega

theorem names_le (r : Routing) {ctx : CtxHandle} {c : Context} (hc : r.contexts.find? ctx = some c) (p : Int) :
    c.pageTable.names p ≤ r.names p :=
  KeyedMap.le_total (fun c : Context => c.pageTable.names p) hc

/-- Every entry that names a block holds one of its references. -/
def Covered (r : Routing) : Prop :=
  ∀ p, p ≠ kUnallocatedBlock → (r.names p : Int) ≤ r.allocator.refCounts.entry p

/-- A block without references is named nowhere. -/
theorem Covered.names_zero (h : r.Covered) (hun : p ≠ kUnallocatedBlock)
    (hz : r.allocator.refCounts.entry p = 0) : r.names p = 0 := by
  have := h p hun
  omega

/-- Only an allocation that runs dry part of the way adds entries without references. -/
theorem Covered.step (hok : r.Ok) (h : r.Covered) (hs : r.Step m r')
    (hm : ∀ n, m = .blocksExhausted n → n = 0) : r'.Covered := by
  intro p hun
  have hp := h p hun
  have ha := hok.allocator
  have hn0 := ha.nonneg p
  have hr : names ⟨r.allocator, r.contexts⟩ p = r.names p := rfl
  cases hs with
  | @created ctx c fresh empty =>
    have hn := names_insert_fresh (c := c) r.allocator r.allocator p fresh.2
    have hz : c.pageTable.names p = 0 := by
      rw [empty]
      rfl
    show _ ≤ r.allocator.refCounts.entry p
    omega
  | @destroyed ctx c found =>
    have hn := names_erase (r.allocator.releaseAll (namedBlocks c.pageTable)) r.allocator p found
    show _ ≤ (r.allocator.releaseAll (namedBlocks c.pageTable)).refCounts.entry p
    rw [ha.releaseAll_entry, namedBlocks_count _ hun]
    omega
  | @forked src ctx c found fresh =>
    have hle := names_le r found p
    have hn := names_insert_fresh (c := c) (r.allocator.retainAll (namedBlocks c.pageTable)) r.allocator p fresh.2
    show _ ≤ (r.allocator.retainAll (namedBlocks c.pageTable)).refCounts.entry p
    rw [ha.retainAll_entry, namedBlocks_count _ hun]
    split <;> omega
  | @leaked src c b found named live =>
    show (r.names p : Int) ≤ (r.allocator.retain b).2.refCounts.entry p
    rw [ha.retain_entry]
    split
    next hc =>
      rw [hc.1] at hp ⊢
      omega
    next => exact hp
  | @allocated ctx c ids bm found taken =>
    have hbal := (allocated_balanced (p := p) taken).names found
    show _ ≤ bm.refCounts.entry p
    omega
  | @exhausted ctx c ids bm found taken =>
    have hnil : ids = [] := List.eq_nil_of_length_eq_zero (hm _ rfl)
    have hn := names_insert (c.grown ids) (bm.releaseAll ids) r.allocator p found
    rw [names_grown, hnil, List.count_nil] at hn
    show _ ≤ (bm.releaseAll ids).refCounts.entry p
    rw [taken.releaseAll_entry, hnil]
    omega
  | @released ctx c lvid b found names' =>
    have hbal := (released_balanced ha names' hun).names found
    show _ ≤ (r.allocator.release b).2.refCounts.entry p
    omega
  | @remapped ctx c lvid b new bm found names' shared taken =>
    have hbal := (remapped_balanced (p := p) names' taken).names found
    show _ ≤ (bm.release b).2.refCounts.entry p
    omega

theorem find_insert {contexts : KeyedMap CtxHandle Context} {ctx ctx' : CtxHandle} {c c' : Context}
    {P : Context → Prop} (h : ∀ k a, contexts.find? k = some a → P a) (hc : P c)
    (hf : (contexts.insert ctx c).find? ctx' = some c') : P c' := by
  rw [KeyedMap.find?_insert] at hf
  split at hf
  next =>
    cases Option.some.inj hf
    exact hc
  next => exact h _ _ hf

theorem find_erase {contexts : KeyedMap CtxHandle Context} {ctx ctx' : CtxHandle} {c' : Context}
    {P : Context → Prop} (h : ∀ k a, contexts.find? k = some a → P a)
    (hf : (contexts.erase ctx).find? ctx' = some c') : P c' := by
  rw [KeyedMap.find?_erase] at hf
  split at hf
  next => cases hf
  next => exact h _ _ hf

/-- No context names a block twice. -/
def Once (r : Routing) : Prop :=
  ∀ ctx c, r.contexts.find? ctx = some c → ∀ p, p ≠ kUnallocatedBlock → c.pageTable.names p ≤ 1

theorem Once.step (hcov : r.Covered) (h : r.Once) (hs : r.Step m r')
    (hm : ∀ n, m ≠ .blocksExhausted n) : r'.Once := by
  intro k a hf p hun
  have hall : ∀ k a, r.contexts.find? k = some a → a.pageTable.names p ≤ 1 := fun k a hk => h k a hk p hun
  cases hs with
  | @created ctx c fresh empty =>
    refine find_insert (P := fun c : Context => c.pageTable.names p ≤ 1) hall ?_ hf
    rw [empty]
    exact Nat.zero_le _
  | destroyed found => exact find_erase (P := fun c : Context => c.pageTable.names p ≤ 1) hall hf
  | @forked src ctx c found fresh =>
    exact find_insert (P := fun c : Context => c.pageTable.names p ≤ 1) hall (hall _ _ found) hf
  | leaked _ _ _ => exact hall k a hf
  | exhausted _ _ => exact absurd rfl (hm _)
  | @allocated ctx c ids bm found taken =>
    refine find_insert (P := fun c : Context => c.pageTable.names p ≤ 1) hall ?_ hf
    have hone := hall _ _ found
    have hle := names_le r found p
    rw [names_grown]
    by_cases hmem : p ∈ ids
    · have hcount : ids.count p = 1 := List.count_eq_one_of_mem taken.nodup hmem
      have := hcov.names_zero hun (taken.free p hmem).2
      omega
    · have hcount : ids.count p = 0 := List.count_eq_zero_of_not_mem hmem
      omega
  | @released ctx c lvid b found names' =>
    refine find_insert (P := fun c : Context => c.pageTable.names p ≤ 1) hall ?_ hf
    have hone := hall _ _ found
    have hset := names_remapped names'.entry kUnallocatedBlock p
    rw [if_neg hun] at hset
    omega
  | @remapped ctx c lvid b new bm found names' shared taken =>
    refine find_insert (P := fun c : Context => c.pageTable.names p ≤ 1) hall ?_ hf
    have hone := hall _ _ found
    have hle := names_le r found p
    have hset := names_remapped names'.entry new p
    by_cases hpn : p = new
    · have hzero := (taken.free new (by simp)).2
      have hz : r.names p = 0 := hcov.names_zero hun (by rw [hpn]; exact hzero)
      rw [if_pos hpn] at hset
      omega
    · rw [if_neg hpn] at hset
      omega

/-- Every reference is an entry, and no context names a block twice. -/
structure Exact (r : Routing) : Prop where
  counts : ∀ p, p ≠ kUnallocatedBlock → r.allocator.refCounts.entry p = r.names p
  once : ∀ ctx c, r.contexts.find? ctx = some c → ∀ p, p ≠ kUnallocatedBlock → c.pageTable.names p ≤ 1

theorem Exact.covered (h : r.Exact) : r.Covered := fun p hun => le_of_eq (h.counts p hun).symm

theorem Exact.bounded (hok : r.Ok) (h : r.Exact) : r.Bounded := by
  intro p
  by_cases hun : p = kUnallocatedBlock
  · rw [hun, unallocated_zero hok.allocator]
    exact Int.natCast_nonneg _
  · exact le_of_eq (h.counts p hun)

theorem Exact.names_zero (h : r.Exact) (hun : p ≠ kUnallocatedBlock)
    (hz : r.allocator.refCounts.entry p = 0) : r.names p = 0 := h.covered.names_zero hun hz

/-- Counting stays exact when it errs on neither side. -/
theorem Exact.step (hok : r.Ok) (h : r.Exact) (hs : r.Step m r') (hm : ∀ n, m ≠ .blocksExhausted n)
    (hm' : m ≠ .appendRefused) : r'.Exact := by
  have hbounded := (h.bounded hok).step hok hs hm'
  have hcovered := h.covered.step hok hs (fun n hn => absurd hn (hm n))
  exact ⟨fun p hun => le_antisymm (hbounded p) (hcovered p hun), Once.step h.covered h.once hs hm⟩

/-- Every table is short enough for its length to fit an `int`. -/
def Short (r : Routing) : Prop :=
  ∀ ctx c, r.contexts.find? ctx = some c → c.pageTable.entries.length < 2 ^ 31

theorem Short.step (h : r.Short) (hs : r.Step m r') (hm : ∀ n, m ≠ .blocksExhausted n)
    (hgrown : ∀ n, m = .tableGrown n → n < 2 ^ 31) : r'.Short := by
  intro k a hf
  cases hs with
  | created fresh empty =>
    refine find_insert (P := fun c : Context => c.pageTable.entries.length < 2 ^ 31) h ?_ hf
    rw [empty]
    decide
  | destroyed found => exact find_erase (P := fun c : Context => c.pageTable.entries.length < 2 ^ 31) h hf
  | forked found fresh => exact find_insert (P := fun c : Context => c.pageTable.entries.length < 2 ^ 31) h (h _ _ found) hf
  | leaked found named live => exact h k a hf
  | allocated found taken =>
    refine find_insert (P := fun c : Context => c.pageTable.entries.length < 2 ^ 31) h ?_ hf
    have hlen := hgrown _ rfl
    rw [grown, List.length_append]
    exact hlen
  | exhausted found taken => exact absurd rfl (hm _)
  | released found names' =>
    refine find_insert (P := fun c : Context => c.pageTable.entries.length < 2 ^ 31) h ?_ hf
    rw [remapped, PageTable.set_length]
    exact h _ _ found
  | remapped found names' shared taken =>
    refine find_insert (P := fun c : Context => c.pageTable.entries.length < 2 ^ 31) h ?_ hf
    rw [remapped, PageTable.set_length]
    exact h _ _ found

/-- The blocks that live contexts name. -/
def named (r : Routing) : Finset Int :=
  r.contexts.keys.biUnion (fun k => (namedBlocks (r.contexts.value k).pageTable).toFinset)

theorem mem_named : p ∈ r.named ↔ p ≠ kUnallocatedBlock ∧ 0 < r.names p := by
  unfold named names
  rw [Finset.mem_biUnion, KeyedMap.total_pos_iff]
  constructor
  · intro hex
    obtain ⟨k, hk, hp⟩ := hex
    obtain ⟨hmem, hun⟩ := mem_namedBlocks.mp (List.mem_toFinset.mp hp)
    exact ⟨hun, k, hk, PageTable.names_pos.mpr hmem⟩
  · intro hboth
    obtain ⟨hun, k, hk, hpos⟩ := hboth
    exact ⟨k, hk, List.mem_toFinset.mpr (mem_namedBlocks.mpr ⟨PageTable.names_pos.mp hpos, hun⟩)⟩

end Routing

end DsfMmu
