import DsfMmu.BlockManager

namespace DsfMmu

namespace BlockManager

variable {bm : BlockManager} {p : Int}

theorem mem_countDown {n : Nat} {p : Int} : p ∈ countDown n ↔ 0 ≤ p ∧ p < n := by
  induction n with
  | zero =>
    simp only [countDown, List.not_mem_nil, false_iff]
    omega
  | succ n ih =>
    simp only [countDown, List.mem_cons, ih]
    omega

theorem nodup_countDown (n : Nat) : (countDown n).Nodup := by
  induction n with
  | zero => simp [countDown]
  | succ n ih =>
    refine List.nodup_cons.mpr ⟨?_, ih⟩
    rw [mem_countDown]
    omega

theorem length_countDown (n : Nat) : (countDown n).length = n := by
  induction n with
  | zero => rfl
  | succ n ih => rw [countDown, List.length_cons, ih]

/-- The loop ends with id 0, at the back of the list. -/
theorem getLast?_countDown (n : Nat) : (countDown (n + 1)).getLast? = some 0 := by
  induction n with
  | zero => rfl
  | succ n ih =>
    have hne : countDown (n + 1) ≠ [] := List.cons_ne_nil _ _
    rw [countDown, List.getLast?_cons, ih]
    rfl

theorem new_ok (n : Nat) : (new n).Ok := by
  have hzero : ∀ p, (new n).refCounts.entry p = 0 := fun _ => rfl
  have hfree : (new n).freeList = countDown (staticCastInt n).toNat := by simp only [new]
  have hnonneg : ∀ p, 0 ≤ (new n).refCounts.entry p := by
    intro p
    have := hzero p
    omega
  have hnodup : (new n).freeList.Nodup := by
    rw [hfree]
    exact nodup_countDown _
  refine ⟨hnodup, ?_, hnonneg, fun p _ => hzero p⟩
  intro p
  have hmem : p ∈ (new n).freeList ↔ 0 ≤ p ∧ p < ((staticCastInt n).toNat : Int) := by
    rw [hfree, mem_countDown]
  have hval : (new n).isValid p ↔ 0 ≤ p ∧ p < staticCastInt n := Iff.rfl
  rw [hmem, hval, hzero]
  omega

theorem Ok.valid_of_pos (h : bm.Ok) (hp : 0 < bm.refCounts.entry p) : bm.isValid p := by
  by_contra hv
  have := h.outside p hv
  omega

theorem Ok.refCount_pos (h : bm.Ok) : 0 < bm.refCount p ↔ 0 < bm.refCounts.entry p := by
  unfold refCount
  split
  next => rfl
  next hv =>
    have := h.outside p hv
    omega

/-- `release` as one formula: a positive count goes down, any other count stays. -/
theorem Ok.release_eq (h : bm.Ok) (p : Int) :
    bm.release p =
      if 0 < bm.refCounts.entry p then
        (true, ⟨bm.refCounts.set p (bm.refCounts.entry p - 1),
          if bm.refCounts.entry p = 1 then bm.freeList ++ [p] else bm.freeList⟩)
      else (false, bm) := by
  unfold release
  by_cases hp : 0 < bm.refCounts.entry p
  · have hv := h.valid_of_pos hp
    have h1 : bm.refCounts.entry p - 1 = 0 ↔ bm.refCounts.entry p = 1 := by omega
    simp only [hv, not_true_eq_false, if_false, not_le.mpr hp, hp, if_true, h1]
  · rw [if_neg hp]
    split
    next => rfl
    next => rw [if_pos (not_lt.mp hp)]

theorem Ok.retain_eq (h : bm.Ok) (p : Int) :
    bm.retain p =
      if 0 < bm.refCounts.entry p then
        (true, { bm with refCounts := bm.refCounts.set p (bm.refCounts.entry p + 1) })
      else (false, bm) := by
  unfold retain
  by_cases hp : 0 < bm.refCounts.entry p
  · have hv := h.valid_of_pos hp
    simp only [hv, not_true_eq_false, if_false, not_le.mpr hp, hp, if_true]
  · rw [if_neg hp]
    split
    next => rfl
    next => rw [if_pos (not_lt.mp hp)]

/-- Changing one count keeps the allocator sound when the free list follows. -/
theorem Ok.set {free : List Int} {n : Int} (h : bm.Ok) (hv : bm.isValid p) (hn : 0 ≤ n) (hd : free.Nodup)
    (hself : p ∈ free ↔ n = 0) (hother : ∀ q ≠ p, (q ∈ free ↔ q ∈ bm.freeList)) :
    (⟨bm.refCounts.set p n, free⟩ : BlockManager).Ok := by
  have hval : ∀ q, (⟨bm.refCounts.set p n, free⟩ : BlockManager).isValid q ↔ bm.isValid q := fun _ => Iff.rfl
  refine ⟨hd, ?_, ?_, ?_⟩
  · intro q
    rw [hval]
    show q ∈ free ↔ bm.isValid q ∧ (bm.refCounts.set p n).entry q = 0
    rw [IntTable.set_entry]
    by_cases hq : q = p
    · subst q
      simp [hself, hv]
    · rw [hother q hq, if_neg hq]
      exact h.free_iff q
  · intro q
    show 0 ≤ (bm.refCounts.set p n).entry q
    rw [IntTable.set_entry]
    split
    next => exact hn
    next => exact h.nonneg q
  · intro q hq
    have hne : q ≠ p := fun he => hq ((hval q).mpr (he ▸ hv))
    show (bm.refCounts.set p n).entry q = 0
    rw [IntTable.set_entry, if_neg hne]
    exact h.outside q (fun hv' => hq ((hval q).mpr hv'))

theorem Ok.release (h : bm.Ok) (p : Int) : (bm.release p).2.Ok := by
  rw [h.release_eq]
  split
  next hp =>
    have hv := h.valid_of_pos hp
    have hfree : p ∉ bm.freeList := by
      intro hm
      have := ((h.free_iff p).mp hm).2
      omega
    apply h.set hv (by omega)
    · split
      next => exact List.nodup_append.mpr ⟨h.nodup, by simp, by
          intro a ha b hb
          cases List.mem_singleton.mp hb
          intro heq
          subst heq
          exact hfree ha⟩
      next => exact h.nodup
    · split
      next h1 =>
        simp only [List.mem_append, List.mem_singleton, or_true, true_iff]
        omega
      next h1 =>
        simp only [hfree, false_iff]
        omega
    · intro q hq
      split
      next => simp [hq]
      next => rfl
  next => exact h

theorem Ok.retain (h : bm.Ok) (p : Int) : (bm.retain p).2.Ok := by
  rw [h.retain_eq]
  split
  next hp =>
    have hv := h.valid_of_pos hp
    apply h.set hv (by omega) h.nodup
    · constructor
      · intro hm
        have := ((h.free_iff p).mp hm).2
        omega
      · omega
    · exact fun _ _ => Iff.rfl
  next => exact h

theorem Ok.release_entry (h : bm.Ok) (p q : Int) :
    (bm.release p).2.refCounts.entry q =
      if q = p ∧ 0 < bm.refCounts.entry q then bm.refCounts.entry q - 1 else bm.refCounts.entry q := by
  rw [h.release_eq]
  by_cases hq : q = p
  · subst q
    by_cases hp : 0 < bm.refCounts.entry p <;> simp [hp]
  · by_cases hp : 0 < bm.refCounts.entry p <;> simp [hp, hq, IntTable.set_entry]

theorem Ok.retain_entry (h : bm.Ok) (p q : Int) :
    (bm.retain p).2.refCounts.entry q =
      if q = p ∧ 0 < bm.refCounts.entry q then bm.refCounts.entry q + 1 else bm.refCounts.entry q := by
  rw [h.retain_eq]
  by_cases hq : q = p
  · subst q
    by_cases hp : 0 < bm.refCounts.entry p <;> simp [hp]
  · by_cases hp : 0 < bm.refCounts.entry p <;> simp [hp, hq, IntTable.set_entry]

theorem release_size (bm : BlockManager) (p : Int) : (bm.release p).2.refCounts.size = bm.refCounts.size := by
  unfold BlockManager.release
  split
  next => rfl
  next => split <;> rfl

theorem retain_size (bm : BlockManager) (p : Int) : (bm.retain p).2.refCounts.size = bm.refCounts.size := by
  unfold BlockManager.retain
  split
  next => rfl
  next => split <;> rfl

/-! Releasing and retaining whole lists. -/

/-- Retaining a list of ids in order, results ignored. -/
def retainAll (bm : BlockManager) (ids : List Int) : BlockManager :=
  ids.foldl (fun bm id => (bm.retain id).2) bm

theorem Ok.releaseAll (h : bm.Ok) (ids : List Int) : (bm.releaseAll ids).Ok := by
  induction ids generalizing bm with
  | nil => exact h
  | cons id rest ih => exact ih (h.release id)

theorem Ok.retainAll (h : bm.Ok) (ids : List Int) : (bm.retainAll ids).Ok := by
  induction ids generalizing bm with
  | nil => exact h
  | cons id rest ih => exact ih (h.retain id)

theorem releaseAll_size (bm : BlockManager) (ids : List Int) :
    (bm.releaseAll ids).refCounts.size = bm.refCounts.size := by
  induction ids generalizing bm with
  | nil => rfl
  | cons id rest ih => exact (ih (bm.release id).2).trans (release_size bm id)

theorem retainAll_size (bm : BlockManager) (ids : List Int) :
    (bm.retainAll ids).refCounts.size = bm.refCounts.size := by
  induction ids generalizing bm with
  | nil => rfl
  | cons id rest ih => exact (ih (bm.retain id).2).trans (retain_size bm id)

/-- A count goes down once for each time its id is listed, and stops at zero. -/
theorem Ok.releaseAll_entry (h : bm.Ok) (ids : List Int) (q : Int) :
    (bm.releaseAll ids).refCounts.entry q = max 0 (bm.refCounts.entry q - ids.count q) := by
  induction ids generalizing bm with
  | nil =>
    have := h.nonneg q
    simp [BlockManager.releaseAll, this]
  | cons id rest ih =>
    have hstep := h.release_entry id q
    have hrest := ih (h.release id)
    have hn := h.nonneg q
    show ((bm.release id).2.releaseAll rest).refCounts.entry q = _
    rw [hrest, hstep, List.count_cons]
    by_cases hq : q = id
    · subst q
      simp only [true_and, BEq.rfl, if_true]
      split <;> omega
    · have hb : (id == q) = false := by simpa using fun he => hq he.symm
      simp only [hq, false_and, if_false, hb, Bool.false_eq_true]
      omega

theorem Ok.retainAll_entry (h : bm.Ok) (ids : List Int) (q : Int) :
    (bm.retainAll ids).refCounts.entry q =
      if 0 < bm.refCounts.entry q then bm.refCounts.entry q + ids.count q else bm.refCounts.entry q := by
  induction ids generalizing bm with
  | nil => simp [BlockManager.retainAll]
  | cons id rest ih =>
    have hstep := h.retain_entry id q
    have hrest := ih (h.retain id)
    show ((bm.retain id).2.retainAll rest).refCounts.entry q = _
    rw [hrest, hstep, List.count_cons]
    by_cases hq : q = id
    · subst q
      simp only [true_and, BEq.rfl, if_true]
      split_ifs <;> omega
    · have hb : (id == q) = false := by simpa using fun he => hq he.symm
      simp only [hq, false_and, if_false, hb, Bool.false_eq_true]
      split_ifs <;> omega

theorem retainAll_freeList (bm : BlockManager) (ids : List Int) : (bm.retainAll ids).freeList = bm.freeList := by
  induction ids generalizing bm with
  | nil => rfl
  | cons id rest ih =>
    have hstep : (bm.retain id).2.freeList = bm.freeList := by
      unfold BlockManager.retain
      split
      next => rfl
      next => split <;> rfl
    exact (ih (bm.retain id).2).trans hstep

/-- Releases that bring no count to zero leave the free list alone. -/
theorem Ok.releaseAll_freeList (h : bm.Ok) {ids : List Int}
    (hids : ∀ q ∈ ids, bm.refCounts.entry q = 0 ∨ (ids.count q : Int) < bm.refCounts.entry q) :
    (bm.releaseAll ids).freeList = bm.freeList := by
  induction ids generalizing bm with
  | nil => rfl
  | cons id rest ih =>
    have hid := hids id (by simp)
    rw [List.count_cons_self] at hid
    have hstep : (bm.release id).2.freeList = bm.freeList := by
      rw [h.release_eq]
      split
      next hp =>
        have : bm.refCounts.entry id ≠ 1 := by omega
        simp [this]
      next => rfl
    have hrest : ∀ q ∈ rest, (bm.release id).2.refCounts.entry q = 0 ∨
        (rest.count q : Int) < (bm.release id).2.refCounts.entry q := by
      intro q hq
      have := hids q (List.mem_cons_of_mem _ hq)
      rw [List.count_cons] at this
      rw [h.release_entry]
      by_cases he : q = id
      · subst q
        simp only [BEq.rfl, if_true] at this
        simp only [true_and]
        split <;> omega
      · have hb : (id == q) = false := by simpa using fun h' => he h'.symm
        simp only [hb, Bool.false_eq_true, if_false] at this
        simp only [he, false_and, if_false]
        omega
    exact (ih (h.release id) hrest).trans hstep

theorem ext_entries {a b : BlockManager} (hsize : a.refCounts.size = b.refCounts.size)
    (hentry : ∀ q, a.refCounts.entry q = b.refCounts.entry q) (hfree : a.freeList = b.freeList) : a = b := by
  obtain ⟨⟨sa, ea⟩, fa⟩ := a
  obtain ⟨⟨sb, eb⟩, fb⟩ := b
  cases hsize
  cases hfree
  have : ea = eb := funext hentry
  rw [this]

/-- Giving back what was just retained restores the allocator. -/
theorem Ok.releaseAll_retainAll (h : bm.Ok) (ids : List Int) : (bm.retainAll ids).releaseAll ids = bm := by
  have hr := h.retainAll ids
  refine ext_entries ?_ ?_ ?_
  · rw [releaseAll_size, retainAll_size]
  · intro q
    rw [hr.releaseAll_entry, h.retainAll_entry]
    have := h.nonneg q
    split <;> omega
  · rw [hr.releaseAll_freeList, retainAll_freeList]
    intro q _
    rw [h.retainAll_entry]
    have := h.nonneg q
    split <;> omega

/-- The same with one more block retained in between: that reference is left over. -/
theorem Ok.releaseAll_retainAll_retain (h : bm.Ok) (ids : List Int) (p : Int) :
    ((bm.retainAll ids).retain p).2.releaseAll ids = (bm.retain p).2 := by
  have hr := h.retainAll ids
  have hrr := hr.retain p
  have hfree : ∀ {a : BlockManager}, a.Ok → (a.retain p).2.freeList = a.freeList :=
    fun _ => retainAll_freeList _ [p]
  refine ext_entries ?_ ?_ ?_
  · rw [releaseAll_size, retain_size, retainAll_size, retain_size]
  · intro q
    rw [hrr.releaseAll_entry, hr.retain_entry, h.retainAll_entry, h.retain_entry]
    have := h.nonneg q
    split_ifs <;> omega
  · rw [hrr.releaseAll_freeList, hfree hr, retainAll_freeList, hfree h]
    intro q _
    rw [hr.retain_entry, h.retainAll_entry]
    have := h.nonneg q
    split_ifs <;> omega

/-! Taking blocks off the free list. -/

/-- `bm'` is `bm` after `ids` have been allocated. -/
structure Taken (bm : BlockManager) (ids : List Int) (bm' : BlockManager) : Prop where
  ok : bm'.Ok
  size : bm'.refCounts.size = bm.refCounts.size
  nodup : ids.Nodup
  free : ∀ p ∈ ids, bm.isValid p ∧ bm.refCounts.entry p = 0
  entry : ∀ q, bm'.refCounts.entry q = if q ∈ ids then 1 else bm.refCounts.entry q
  length : bm'.freeList.length + ids.length = bm.freeList.length

theorem Ok.taken_nil (h : bm.Ok) : Taken bm [] bm :=
  ⟨h, rfl, List.nodup_nil, by simp, by simp, rfl⟩

theorem Ok.allocate_some {bm' : BlockManager} (h : bm.Ok) (ha : bm.allocate = some (p, bm')) :
    Taken bm [p] bm' := by
  unfold allocate at ha
  split at ha
  next => simp at ha
  next last hlast =>
    obtain ⟨rfl, rfl⟩ := Prod.mk.inj (Option.some.inj ha)
    obtain ⟨init, hsplit⟩ := List.getLast?_eq_some_iff.mp hlast
    have hnodup := h.nodup
    rw [hsplit] at hnodup
    obtain ⟨hinit, -, hdisj⟩ := List.nodup_append.mp hnodup
    have hfree := (h.free_iff last).mp (List.mem_of_getLast? hlast)
    have hdrop : bm.freeList.dropLast = init := by rw [hsplit, List.dropLast_concat]
    have hnot : last ∉ init := fun hm => hdisj last hm last (by simp) rfl
    refine ⟨?_, rfl, by simp, ?_, ?_, ?_⟩
    · rw [hdrop]
      apply h.set hfree.1 (by omega) hinit
      · simp [hnot]
      · intro q hq
        simp [hsplit, hq]
    · intro q hq
      cases List.mem_singleton.mp hq
      exact hfree
    · intro q
      show (bm.refCounts.set last 1).entry q = _
      rw [IntTable.set_entry]
      simp
    · show bm.freeList.dropLast.length + 1 = bm.freeList.length
      rw [hdrop, hsplit]
      simp

theorem allocate_none : bm.allocate = none ↔ bm.freeList = [] := by
  unfold allocate
  cases hl : bm.freeList.getLast? with
  | none => simp [List.getLast?_eq_none_iff.mp hl]
  | some last =>
    have : bm.freeList ≠ [] := by
      intro he
      simp [he] at hl
    simp [this]

/-- A block asked for by its id is taken exactly when it is free. -/
theorem Ok.allocateSpecific_some (h : bm.Ok) (hp : p ∈ bm.freeList) :
    ∃ bm', bm.allocateSpecific p = (true, bm') ∧ Taken bm [p] bm' := by
  have hfree := (h.free_iff p).mp hp
  have hmem : ∀ q ≠ p, (q ∈ bm.freeList.erase p ↔ q ∈ bm.freeList) := fun q hq => List.mem_erase_of_ne hq
  have hself : p ∉ bm.freeList.erase p := h.nodup.not_mem_erase
  refine ⟨⟨bm.refCounts.set p 1, bm.freeList.erase p⟩, ?_, ?_⟩
  · unfold allocateSpecific
    rw [if_neg (not_not.mpr hfree.1), if_neg (not_not.mpr hp)]
  · refine ⟨?_, rfl, by simp, ?_, ?_, ?_⟩
    · exact h.set hfree.1 (by omega) (h.nodup.erase p) (by simp [hself]) hmem
    · intro q hq
      cases List.mem_singleton.mp hq
      exact hfree
    · intro q
      show (bm.refCounts.set p 1).entry q = _
      rw [IntTable.set_entry]
      simp
    · have hpos : 0 < bm.freeList.length := List.length_pos_of_mem hp
      show (bm.freeList.erase p).length + 1 = bm.freeList.length
      rw [List.length_erase_of_mem hp]
      omega

theorem allocateSpecific_none (hp : p ∉ bm.freeList) : bm.allocateSpecific p = (false, bm) := by
  unfold allocateSpecific
  by_cases hv : bm.isValid p
  · rw [if_neg (not_not.mpr hv), if_pos hp]
  · rw [if_pos hv]

theorem Taken.trans {a b c : BlockManager} {xs ys : List Int} (h : Taken a xs b) (h' : Taken b ys c) :
    Taken a (xs ++ ys) c := by
  have hdisj : ∀ p ∈ ys, p ∉ xs := by
    intro p hp hx
    have h0 := (h'.free p hp).2
    rw [h.entry, if_pos hx] at h0
    omega
  have hval : ∀ p, b.isValid p → a.isValid p := by
    intro p hv
    have : b.refCounts.InRange p := hv
    rw [IntTable.inRange_iff_mem, h.size, ← IntTable.inRange_iff_mem] at this
    exact this
  refine ⟨h'.ok, h'.size.trans h.size, ?_, ?_, ?_, ?_⟩
  · refine List.nodup_append.mpr ⟨h.nodup, h'.nodup, ?_⟩
    intro p hx _ hy heq
    subst heq
    exact hdisj p hy hx
  · intro p hp
    rcases List.mem_append.mp hp with hx | hy
    · exact h.free p hx
    · have hf := h'.free p hy
      rw [h.entry, if_neg (hdisj p hy)] at hf
      exact ⟨hval p hf.1, hf.2⟩
  · intro q
    rw [h'.entry, h.entry]
    by_cases hy : q ∈ ys
    · simp [hy]
    · by_cases hx : q ∈ xs <;> simp [hx, hy]
  · have h1 := h.length
    have h2 := h'.length
    rw [List.length_append]
    omega

/-- A block in use is none of those taken. -/
theorem Taken.not_mem {bm' : BlockManager} {ids : List Int} (h : Taken bm ids bm')
    (hp : 0 < bm.refCounts.entry p) : p ∉ ids := by
  intro hmem
  have hzero := (h.free p hmem).2
  omega

theorem Taken.ne_new {bm' : BlockManager} {new : Int} (h : Taken bm [new] bm')
    (hp : 0 < bm.refCounts.entry p) : p ≠ new := by
  intro heq
  exact h.not_mem hp (List.mem_singleton.mpr heq)

/-- A block taken and given back has no reference, as before. -/
theorem Taken.released_live {bm' : BlockManager} {new : Int} (h : Taken bm [new] bm') (q : Int) :
    0 < (bm'.release new).2.refCounts.entry q ↔ 0 < bm.refCounts.entry q := by
  have hzero := (h.free new (List.mem_singleton_self new)).2
  rw [h.ok.release_entry, h.entry]
  by_cases hq : q = new
  · subst hq
    simp [hzero]
  · rw [if_neg (fun hboth => hq hboth.1), if_neg (fun hmem => hq (List.mem_singleton.mp hmem))]

theorem Taken.supplied {bm' : BlockManager} {new : Int} (h : Taken bm [new] bm') : bm.freeList ≠ [] := by
  have hlen := h.length
  simp only [List.length_singleton] at hlen
  apply List.length_pos_iff.mp
  omega

/-- A loop that left no free block took every one there was. -/
theorem Taken.all {bm' : BlockManager} {ids : List Int} (h : Taken bm ids bm') (hempty : bm'.freeList = []) :
    ids.length = bm.freeList.length := by
  have hlen := h.length
  rw [hempty, List.length_nil] at hlen
  omega

/-- Giving back all that was just taken restores every count. -/
theorem Taken.releaseAll_entry {bm' : BlockManager} {ids : List Int} (h : Taken bm ids bm') (q : Int) :
    (bm'.releaseAll ids).refCounts.entry q = max 0 (bm.refCounts.entry q) := by
  rw [h.ok.releaseAll_entry, h.entry]
  by_cases hq : q ∈ ids
  · have hcount : ids.count q = 1 := List.count_eq_one_of_mem h.nodup hq
    have h0 := (h.free q hq).2
    rw [if_pos hq, hcount, h0]
    simp
  · rw [if_neg hq, List.count_eq_zero_of_not_mem hq]
    simp

end BlockManager

end DsfMmu
