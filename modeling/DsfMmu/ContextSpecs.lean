import DsfMmu.BlockCounts
import DsfMmu.Context

namespace DsfMmu

/-- What marks an entry without a block is no id of a block. -/
theorem BlockManager.Taken.ne_unallocated {bm bm' : BlockManager} {ids : List Int} {p : Int}
    (h : BlockManager.Taken bm ids bm') (hp : p ∈ ids) : p ≠ kUnallocatedBlock := by
  intro hun
  have hvalid := (h.free p hp).1.1
  rw [hun] at hvalid
  exact absurd hvalid (by decide)

namespace PageTable

variable {pt : PageTable} {l m b : Int}

theorem inBounds_lt (h : pt.inBounds l) : l.toNat < pt.entries.length := by
  have hle := staticCastInt_le pt.entries.length
  have h0 := h.1
  have h1 := h.2
  omega

theorem get_eq_some : pt.get l = some b ↔ pt.inBounds l ∧ pt.entries[l.toNat]? = some b := by
  unfold get
  split
  next h => simp [h]
  next h => simp [h]

theorem get_mem (h : pt.get l = some b) : b ∈ pt.entries :=
  List.mem_of_getElem? (get_eq_some.mp h).2

theorem set_entries (h : pt.inBounds l) (b : Int) : (pt.set l b).entries = pt.entries.set l.toNat b := by
  simp [set, h]

theorem set_length (pt : PageTable) (l b : Int) : (pt.set l b).entries.length = pt.entries.length := by
  unfold set
  split
  next => exact List.length_set
  next => rfl

theorem set_inBounds (pt : PageTable) (l b m : Int) : (pt.set l b).inBounds m ↔ pt.inBounds m := by
  simp [inBounds, set_length]

theorem get_set (h : pt.inBounds l) (b m : Int) :
    (pt.set l b).get m = if m = l then some b else pt.get m := by
  have hlt := inBounds_lt h
  have hl0 := h.1
  by_cases hm : pt.inBounds m
  · have hm0 := hm.1
    have hm' : (pt.set l b).inBounds m := (set_inBounds pt l b m).mpr hm
    rw [get, if_pos hm', set_entries h, List.getElem?_set]
    by_cases hml : m = l
    · subst m
      simp [hlt]
    · have hne : l.toNat ≠ m.toNat := by omega
      rw [if_neg hne, if_neg hml, get, if_pos hm]
  · have hml : m ≠ l := by
      intro heq
      subst heq
      exact hm h
    have hm' : ¬(pt.set l b).inBounds m := fun h' => hm ((set_inBounds pt l b m).mp h')
    rw [get, if_neg hm', if_neg hml, get, if_neg hm]

/-- Entries stay where they are when others are appended, as long as the positions fit an `int`. -/
theorem get_append {ids : List Int} (hlen : pt.entries.length + ids.length < 2 ^ 31) (h : pt.get l = some b) :
    PageTable.get ⟨pt.entries ++ ids⟩ l = some b := by
  obtain ⟨hin, hget⟩ := get_eq_some.mp h
  have hlt := (List.getElem?_eq_some_iff.mp hget).1
  have hsize : (pt.entries ++ ids).length = pt.entries.length + ids.length := List.length_append
  have hnonneg : 0 ≤ l := hin.1
  refine get_eq_some.mpr ⟨⟨hnonneg, ?_⟩, ?_⟩
  · show l < staticCastInt (pt.entries ++ ids).length
    rw [hsize, staticCastInt_of_lt hlen]
    omega
  · rw [List.getElem?_append_left hlt]
    exact hget

/-- How often the entries name a block. -/
def names (pt : PageTable) (p : Int) : Nat := pt.entries.count p

theorem names_pos : 0 < pt.names b ↔ b ∈ pt.entries := List.count_pos_iff

/-- One entry changes: its old block is named once less, its new one once more. -/
theorem names_set {old : Int} (h : pt.get l = some old) (new q : Int) :
    (pt.set l new).names q + (if q = old then 1 else 0) = pt.names q + if q = new then 1 else 0 := by
  obtain ⟨hb, hget⟩ := get_eq_some.mp h
  have hlt := inBounds_lt hb
  have hold : pt.entries[l.toNat] = old := (List.getElem?_eq_some_iff.mp hget).2
  have hpos : 0 < pt.names old := names_pos.mpr (get_mem h)
  unfold names at hpos ⊢
  rw [set_entries hb, List.count_set hlt, hold]
  by_cases h1 : q = old
  · subst q
    by_cases h2 : old = new
    · simp [← h2]
      omega
    · have h3 : (new == old) = false := by simpa using fun h' => h2 h'.symm
      simp only [h3, h2, BEq.rfl, if_true, if_false, Bool.false_eq_true]
      omega
  · have h4 : (old == q) = false := by simpa using fun h' => h1 h'.symm
    by_cases h2 : q = new
    · subst q
      simp [h1, h4]
    · have h3 : (new == q) = false := by simpa using fun h' => h2 h'.symm
      simp [h1, h2, h3, h4]

end PageTable

namespace Context

open BlockManager

variable {c : Context} {bm : BlockManager}

/-- A context whose table has grown by these entries. -/
def grown (c : Context) (ids : List Int) : Context :=
  { c with pageTable := ⟨c.pageTable.entries ++ ids⟩ }

/-- The same context with one entry overwritten. -/
def remapped (c : Context) (lvid b : Int) : Context :=
  { c with pageTable := c.pageTable.set lvid b }

/-- The loop takes blocks one by one; when it runs dry it gives them back but keeps the entries. -/
theorem allocateLoop_spec (n : Nat) {bm : BlockManager} (h : bm.Ok) (pt : PageTable) (acc : List Int) :
    ∃ ids bm', Taken bm ids bm' ∧
      ((ids.length = n ∧ allocateLoop n bm pt acc = (.ok (acc ++ ids), bm', ⟨pt.entries ++ ids⟩)) ∨
       (ids.length < n ∧ bm'.freeList = [] ∧ allocateLoop n bm pt acc =
          (.error .outOfMemory, bm'.releaseAll (acc ++ ids), ⟨pt.entries ++ ids⟩))) := by
  induction n generalizing bm pt acc with
  | zero =>
    refine ⟨[], bm, h.taken_nil, .inl ⟨rfl, ?_⟩⟩
    simp [allocateLoop]
  | succ n ih =>
    cases ha : bm.allocate with
    | none =>
      refine ⟨[], bm, h.taken_nil, .inr ⟨by simp, allocate_none.mp ha, ?_⟩⟩
      simp [allocateLoop, ha]
    | some taken =>
      obtain ⟨p, bm1⟩ := taken
      have h1 := h.allocate_some ha
      obtain ⟨ids, bm', h2, hcase⟩ := ih h1.ok (pt.append p) (acc ++ [p])
      refine ⟨p :: ids, bm', h1.trans h2, ?_⟩
      rcases hcase with ⟨hlen, hloop⟩ | ⟨hlen, hempty, hloop⟩
      · refine .inl ⟨by simp [hlen], ?_⟩
        simp only [allocateLoop, ha, hloop]
        simp [PageTable.append]
      · refine .inr ⟨by simpa using hlen, hempty, ?_⟩
        simp only [allocateLoop, ha, hloop]
        simp [PageTable.append]

theorem allocateBlocks_spec (h : bm.Ok) (c : Context) {n : Int} (hn : 0 ≤ n) :
    ∃ ids bm', Taken bm ids bm' ∧
      (((ids.length : Int) = n ∧ c.allocateBlocks bm n = (.ok ids, bm', c.grown ids)) ∨
       ((ids.length : Int) < n ∧ bm'.freeList = [] ∧
          c.allocateBlocks bm n = (.error .outOfMemory, bm'.releaseAll ids, c.grown ids))) := by
  obtain ⟨ids, bm', ht, hcase⟩ := allocateLoop_spec n.toNat h c.pageTable []
  refine ⟨ids, bm', ht, ?_⟩
  have hneg : ¬n < 0 := not_lt.mpr hn
  rcases hcase with ⟨hlen, hloop⟩ | ⟨hlen, hempty, hloop⟩
  · refine .inl ⟨by omega, ?_⟩
    simp [allocateBlocks, hneg, hloop, grown]
  · refine .inr ⟨by omega, hempty, ?_⟩
    simp [allocateBlocks, hneg, hloop, grown]

/-- An entry that names a referenced block. -/
structure Names (c : Context) (bm : BlockManager) (lvid b : Int) : Prop where
  entry : c.pageTable.get lvid = some b
  block : b ≠ kUnallocatedBlock
  live : 0 < bm.refCounts.entry b

theorem releaseLogicalBlock_cases (h : bm.Ok) (c : Context) (lvid : Int) :
    (∃ e, c.releaseLogicalBlock bm lvid = (.error e, bm, c) ∧ ∀ b, ¬c.Names bm lvid b) ∨
    ∃ b, c.Names bm lvid b ∧
      c.releaseLogicalBlock bm lvid = (.ok (), (bm.release b).2, c.remapped lvid kUnallocatedBlock) := by
  unfold releaseLogicalBlock
  cases hget : c.pageTable.get lvid with
  | none =>
    refine .inl ⟨_, rfl, ?_⟩
    intro b hb
    exact absurd (hget.symm.trans hb.entry) (by simp)
  | some b =>
    dsimp only
    split
    next hun =>
      refine .inl ⟨_, rfl, ?_⟩
      intro b' hb'
      have he : b = b' := Option.some.inj (hget.symm.trans hb'.entry)
      exact hb'.block (he ▸ hun)
    next hun =>
      by_cases hp : 0 < bm.refCounts.entry b
      · refine .inr ⟨b, ⟨hget, hun, hp⟩, ?_⟩
        rw [h.release_eq, if_pos hp]
        rfl
      · refine .inl ⟨.internal, by rw [h.release_eq, if_neg hp], ?_⟩
        intro b' hb'
        have he : b = b' := Option.some.inj (hget.symm.trans hb'.entry)
        exact hp (he ▸ hb'.live)

theorem prepareBlockForWrite_cases (h : bm.Ok) (c : Context) (lvid : Int) :
    (∃ e, c.prepareBlockForWrite bm lvid = (.error e, bm, c) ∧
      ∀ b, c.Names bm lvid b → 1 < bm.refCounts.entry b ∧ bm.freeList = []) ∨
    (∃ b, c.Names bm lvid b ∧ bm.refCounts.entry b = 1 ∧
      c.prepareBlockForWrite bm lvid = (.ok b, bm, c)) ∨
    ∃ b new bm1, c.Names bm lvid b ∧ 1 < bm.refCounts.entry b ∧ Taken bm [new] bm1 ∧
      c.prepareBlockForWrite bm lvid = (.ok new, (bm1.release b).2, c.remapped lvid new) := by
  unfold prepareBlockForWrite
  cases hget : c.pageTable.get lvid with
  | none =>
    refine .inl ⟨_, rfl, ?_⟩
    intro b hb
    exact absurd (hget.symm.trans hb.entry) (by simp)
  | some b =>
    have hsame : ∀ b', c.Names bm lvid b' → b' = b := by
      intro b' hb'
      exact Option.some.inj (hb'.entry.symm.trans hget)
    dsimp only
    split
    next hun =>
      refine .inl ⟨_, rfl, ?_⟩
      intro b' hb'
      exact absurd (hsame b' hb' ▸ hun) hb'.block
    next hun =>
      split
      next hle =>
        refine .inl ⟨_, rfl, ?_⟩
        intro b' hb'
        have := h.refCount_pos.mpr (hsame b' hb' ▸ hb'.live)
        omega
      next hpos =>
        have hp : 0 < bm.refCounts.entry b := h.refCount_pos.mp (by omega)
        have hcount : bm.refCount b = bm.refCounts.entry b := if_pos (h.valid_of_pos hp)
        rw [hcount]
        split
        next h1 => exact .inr (.inl ⟨b, ⟨hget, hun, hp⟩, h1, rfl⟩)
        next h1 =>
          cases ha : bm.allocate with
          | none =>
            refine .inl ⟨.outOfMemory, rfl, ?_⟩
            intro b' hb'
            rw [hsame b' hb']
            exact ⟨by omega, allocate_none.mp ha⟩
          | some taken =>
            obtain ⟨new, bm1⟩ := taken
            have ht := h.allocate_some ha
            have hb1 : 0 < bm1.refCounts.entry b := by
              rw [ht.entry, if_neg (ht.not_mem hp)]
              exact hp
            refine .inr (.inr ⟨b, new, bm1, ⟨hget, hun, hp⟩, by omega, ht, ?_⟩)
            simp [ht.ok.release_eq, hb1, remapped]

/-! Forking. -/

theorem namedBlocks_count (pt : PageTable) {p : Int} (hp : p ≠ kUnallocatedBlock) :
    (namedBlocks pt).count p = pt.names p := by
  unfold namedBlocks PageTable.names
  exact List.count_filter (by simpa using hp)

theorem mem_namedBlocks {pt : PageTable} {p : Int} :
    p ∈ namedBlocks pt ↔ p ∈ pt.entries ∧ p ≠ kUnallocatedBlock := by
  simp [namedBlocks]

theorem forkLoop_spec (grows : Nat → Bool) (rest : List Int) (bm : BlockManager) (child : PageTable) :
    ((∀ j < rest.length, grows (child.entries.length + j) = true) ∧
      forkLoop grows rest bm child =
        (true, bm.retainAll (rest.filter (· ≠ kUnallocatedBlock)), ⟨child.entries ++ rest⟩)) ∨
    ∃ i b, rest[i]? = some b ∧ grows (child.entries.length + i) = false ∧
      (∀ j < i, grows (child.entries.length + j) = true) ∧
      forkLoop grows rest bm child =
        (false,
          (if b ≠ kUnallocatedBlock then
            ((bm.retainAll ((rest.take i).filter (· ≠ kUnallocatedBlock))).retain b).2
          else bm.retainAll ((rest.take i).filter (· ≠ kUnallocatedBlock))),
          ⟨child.entries ++ rest.take i⟩) := by
  induction rest generalizing bm child with
  | nil => exact .inl ⟨by simp, by simp [forkLoop, BlockManager.retainAll]⟩
  | cons b rest ih =>
    have hstep : ∀ ids : List Int,
        (if b ≠ kUnallocatedBlock then (bm.retain b).2 else bm).retainAll ids =
          bm.retainAll ((if b ≠ kUnallocatedBlock then [b] else []) ++ ids) := by
      intro ids
      split <;> rfl
    have hfilter : ∀ ids : List Int, (b :: ids).filter (· ≠ kUnallocatedBlock) =
        (if b ≠ kUnallocatedBlock then [b] else []) ++ ids.filter (· ≠ kUnallocatedBlock) := by
      intro ids
      by_cases hb : b = kUnallocatedBlock <;> simp [hb]
    cases hg : grows child.entries.length with
    | false =>
      refine .inr ⟨0, b, rfl, hg, by simp, ?_⟩
      simp only [forkLoop, hg, Bool.false_eq_true, if_false, List.take_zero, List.filter_nil, List.append_nil]
      split <;> rfl
    | true =>
      have hlen : (child.append b).entries.length = child.entries.length + 1 := by simp [PageTable.append]
      rcases ih (if b ≠ kUnallocatedBlock then (bm.retain b).2 else bm) (child.append b) with
        ⟨hall, hloop⟩ | ⟨i, b', hb', hfail, hbefore, hloop⟩
      · refine .inl ⟨?_, ?_⟩
        · intro j hj
          cases j with
          | zero => exact hg
          | succ j =>
            have := hall j (by simpa using hj)
            rw [hlen] at this
            rw [show child.entries.length + (j + 1) = child.entries.length + 1 + j by omega]
            exact this
        · simp only [forkLoop, hg, if_true]
          rw [hloop, hstep, ← hfilter]
          simp [PageTable.append]
      · refine .inr ⟨i + 1, b', hb', ?_, ?_, ?_⟩
        · rw [hlen] at hfail
          rw [show child.entries.length + (i + 1) = child.entries.length + 1 + i by omega]
          exact hfail
        · intro j hj
          cases j with
          | zero => exact hg
          | succ j =>
            have := hbefore j (by omega)
            rw [hlen] at this
            rw [show child.entries.length + (j + 1) = child.entries.length + 1 + j by omega]
            exact this
        · simp only [forkLoop, hg, if_true]
          rw [hloop, hstep, ← hfilter]
          simp [PageTable.append]

/-- A fork that is refused room for an entry right after it retained the entry's block. -/
def ForkLeaks (c : Context) (bm : BlockManager) (grows : Nat → Bool) (b : Int) : Prop :=
  ∃ i, c.pageTable.entries[i]? = some b ∧ grows i = false ∧ (∀ j < i, grows j = true) ∧
    b ≠ kUnallocatedBlock ∧ 0 < bm.refCounts.entry b

/-- A fork leaks at the first refused append or not at all. -/
theorem ForkLeaks.first {grows : Nat → Bool} {b b' : Int} {i : Nat} (hl : c.ForkLeaks bm grows b')
    (hb : c.pageTable.entries[i]? = some b) (hfail : grows i = false) (hbefore : ∀ j < i, grows j = true) :
    b' = b := by
  obtain ⟨i', hb', hfail', hbefore', -, -⟩ := hl
  have heq : i' = i := by
    rcases Nat.lt_trichotomy i' i with hlt | heq | hgt
    · rw [hbefore i' hlt] at hfail'
      cases hfail'
    · exact heq
    · rw [hbefore' i hgt] at hfail
      cases hfail
  rw [heq] at hb'
  exact Option.some.inj (hb'.symm.trans hb)

/-- A fork copies the table, or changes nothing, or leaves one block with a reference too many. -/
theorem fork_cases (h : bm.Ok) (c : Context) (grows : Nat → Bool) :
    ((∀ b, ¬c.ForkLeaks bm grows b) ∧
      c.fork bm grows = (some c, bm.retainAll (namedBlocks c.pageTable))) ∨
    ((∀ b, ¬c.ForkLeaks bm grows b) ∧ c.fork bm grows = (none, bm)) ∨
    ∃ b, c.ForkLeaks bm grows b ∧ c.fork bm grows = (none, (bm.retain b).2) := by
  unfold fork
  rcases forkLoop_spec grows c.pageTable.entries bm .empty with
    ⟨hall, hloop⟩ | ⟨i, b, hb, hfail, hbefore, hloop⟩
  · refine .inl ⟨?_, ?_⟩
    · intro b hex
      obtain ⟨i, hi, hfail, -, -, -⟩ := hex
      have hlt := (List.getElem?_eq_some_iff.mp hi).1
      have := hall i hlt
      simp only [PageTable.empty, List.length_nil, Nat.zero_add] at this
      rw [this] at hfail
      cases hfail
    · rw [hloop]
      rfl
  · right
    simp only [PageTable.empty, List.length_nil, Nat.zero_add] at hfail hbefore
    rw [hloop]
    have hback := h.releaseAll_retainAll ((c.pageTable.entries.take i).filter (· ≠ kUnallocatedBlock))
    simp only [PageTable.empty, List.nil_append, releaseAllBlocks, namedBlocks]
    by_cases hun : b = kUnallocatedBlock
    · refine .inl ⟨?_, ?_⟩
      · intro b' hl
        have heq := hl.first hb hfail hbefore
        obtain ⟨_, _, _, _, hne, _⟩ := hl
        exact hne (heq.trans hun)
      · simp only [hun, ne_eq, not_true_eq_false, if_false]
        exact congrArg (Prod.mk none) hback
    · simp only [ne_eq, hun, not_false_eq_true, if_true]
      have hleft := h.releaseAll_retainAll_retain
        ((c.pageTable.entries.take i).filter (· ≠ kUnallocatedBlock)) b
      by_cases hp : 0 < bm.refCounts.entry b
      · exact .inr ⟨b, ⟨i, hb, hfail, hbefore, hun, hp⟩, congrArg (Prod.mk none) hleft⟩
      · refine .inl ⟨?_, ?_⟩
        · intro b' hl
          have heq := hl.first hb hfail hbefore
          obtain ⟨_, _, _, _, _, hpos⟩ := hl
          exact hp (heq ▸ hpos)
        · have hsame : (bm.retain b).2 = bm := by
            rw [h.retain_eq, if_neg hp]
          rw [hsame] at hleft
          exact congrArg (Prod.mk none) hleft

end Context

end DsfMmu
