import DsfMmu.Storage

namespace DsfMmu

/-- Bytes after a `memset`. -/
def fill (bytes : Bytes) (offset : Nat) (value : UInt8) (len : Nat) : Bytes :=
  (List.range len).foldl (fun bytes i => bytes.set (offset + i) value) bytes

theorem fill_succ (bytes : Bytes) (offset : Nat) (value : UInt8) (len : Nat) :
    fill bytes offset value (len + 1) = (fill bytes offset value len).set (offset + len) value := by
  unfold fill
  rw [List.range_succ, List.foldl_append]
  rfl

theorem fill_length (bytes : Bytes) (offset : Nat) (value : UInt8) (len : Nat) :
    (fill bytes offset value len).length = bytes.length := by
  induction len with
  | zero => rfl
  | succ len ih => rw [fill_succ, List.length_set, ih]

theorem fill_getElem? (bytes : Bytes) (offset : Nat) (value : UInt8) (len : Nat) {i : Nat} (hi : i < bytes.length) :
    (fill bytes offset value len)[i]? = if offset ≤ i ∧ i < offset + len then some value else bytes[i]? := by
  induction len with
  | zero =>
    rw [if_neg (by omega)]
    rfl
  | succ len ih =>
    rw [fill_succ, List.getElem?_set, fill_length]
    by_cases heq : offset + len = i
    · rw [if_pos heq, if_pos (heq ▸ hi), if_pos (by omega)]
    · rw [if_neg heq, ih]
      congr 1
      apply propext
      omega

/-- A KV cache: its shape in bytes and tokens, and the length of its prompt. -/
structure KvLayout where
  layers : Nat
  tokensPerBlock : Nat
  bytesPerToken : Nat
  prompt : Nat
  tokens_pos : 0 < tokensPerBlock
  bytes_pos : 0 < bytesPerToken

namespace KvLayout

variable (k : KvLayout) {n m j B ℓ ℓ' j' : Nat}

def blockSize : Nat := k.bytesPerToken * k.tokensPerBlock

/-- Blocks a layer needs for `n` tokens. -/
def blocks (n : Nat) : Nat := (n + k.tokensPerBlock - 1) / k.tokensPerBlock

/-- The logical block of the `j`-th block of layer `ℓ`: the prompt's blocks stand together, later ones in rows. -/
def index (ℓ j : Nat) : Nat :=
  if j < k.blocks k.prompt then ℓ * k.blocks k.prompt + j else k.layers * j + ℓ

/-- What is stored for token `τ`: the prompt's tokens first, then those decoded. -/
def tag (ℓ τ : Nat) : UInt8 :=
  if τ < k.prompt then .ofNat (37 * ℓ + 13 * τ) else .ofNat (17 * (τ - k.prompt) + 19 * ℓ)

/-- The last two of `B` blocks, if there are two. -/
def recent (B : Nat) : List Nat := (List.range B).drop (B - min 2 B)

/-- The token whose slice holds byte `i` of a layer's `j`-th block. -/
def tokenAt (j i : Nat) : Nat := j * k.tokensPerBlock + i / k.bytesPerToken

/-- The `j`-th block of layer `ℓ` once the layer has `n` tokens. -/
def page (n ℓ j : Nat) : Bytes :=
  (List.range k.blockSize).map fun i => if k.tokenAt j i < n then k.tag ℓ (k.tokenAt j i) else 0

def firstByte (n ℓ j : Nat) : UInt8 := if j * k.tokensPerBlock < n then k.tag ℓ (j * k.tokensPerBlock) else 0

/-- What an attention read over `B` blocks a layer adds up for one layer. -/
def layerSum (n B : Nat) (sum : UInt64) (ℓ : Nat) : UInt64 :=
  (recent B).foldl (fun sum j => sum + (k.firstByte n ℓ j).toUInt64) sum

def readSum (n B : Nat) : UInt64 := (List.range k.layers).foldl (k.layerSum n B) 0

theorem recent_lt (h : j ∈ recent B) : j < B := List.mem_range.mp (List.mem_of_mem_drop h)

theorem blocks_succ (n : Nat) : k.blocks (n + 1) = n / k.tokensPerBlock + 1 := by
  have hpos := k.tokens_pos
  unfold blocks
  rw [show n + 1 + k.tokensPerBlock - 1 = n + k.tokensPerBlock by omega, Nat.add_div_right n hpos]

theorem blocks_full (hfull : n % k.tokensPerBlock = 0) : k.blocks n = n / k.tokensPerBlock := by
  have hpos := k.tokens_pos
  obtain ⟨q, rfl⟩ := Nat.dvd_of_mod_eq_zero hfull
  unfold blocks
  rw [Nat.add_sub_assoc hpos, Nat.mul_add_div hpos, Nat.div_eq_of_lt (by omega), Nat.mul_div_cancel_left q hpos,
    Nat.add_zero]

theorem blocks_partial (hpart : n % k.tokensPerBlock ≠ 0) : k.blocks n = n / k.tokensPerBlock + 1 := by
  cases n with
  | zero => exact absurd (Nat.zero_mod _) hpart
  | succ n =>
    rw [blocks_succ, Nat.succ_div, if_neg, Nat.add_zero]
    exact fun hdvd => hpart (Nat.mod_eq_zero_of_dvd hdvd)

theorem blocks_mono (h : n ≤ m) : k.blocks n ≤ k.blocks m := by
  unfold blocks
  apply Nat.div_le_div_right
  omega

theorem blocks_pos (h : 0 < n) : 0 < k.blocks n := by
  cases n with
  | zero => omega
  | succ n =>
    rw [blocks_succ]
    exact Nat.succ_pos _

/-- The tokens of a layer's first `blocks n` blocks reach to the end of the last of `n` tokens. -/
theorem le_blocks_mul (n : Nat) : n ≤ k.blocks n * k.tokensPerBlock := by
  have hpos := k.tokens_pos
  cases n with
  | zero => exact Nat.zero_le _
  | succ n =>
    rw [blocks_succ, Nat.add_mul, Nat.one_mul]
    have := Nat.div_add_mod n k.tokensPerBlock
    have hlt := Nat.mod_lt n hpos
    rw [Nat.mul_comm] at this
    omega

theorem start_lt (h : j < k.blocks n) : j * k.tokensPerBlock < n := by
  cases n with
  | zero =>
    rw [k.blocks_full (Nat.zero_mod _), Nat.zero_div] at h
    omega
  | succ n =>
    rw [blocks_succ] at h
    have hle := Nat.mul_le_mul_right k.tokensPerBlock (Nat.le_of_lt_succ h)
    have hdiv := Nat.div_mul_le_self n k.tokensPerBlock
    omega

theorem lt_blocks_of_token {τ : Nat} (h : τ < n) : τ / k.tokensPerBlock < k.blocks n := by
  have hle := k.blocks_mono (Nat.succ_le_of_lt h)
  rw [Nat.succ_eq_add_one, blocks_succ] at hle
  omega

section Index

theorem index_prompt (h : j < k.blocks k.prompt) : k.index ℓ j = ℓ * k.blocks k.prompt + j := if_pos h

theorem index_row (h : k.blocks k.prompt ≤ j) : k.index ℓ j = k.layers * j + ℓ := if_neg (by omega)

/-- Rows of `width` never overlap. -/
theorem row_lt {width rows r c : Nat} (hr : r < rows) (hc : c < width) : r * width + c < rows * width := by
  have hle := Nat.mul_le_mul_right width (Nat.succ_le_of_lt hr)
  rw [Nat.succ_mul] at hle
  omega

theorem row_inj {width r c r' c' : Nat} (hc : c < width) (hc' : c' < width) (h : r * width + c = r' * width + c') :
    r = r' ∧ c = c' := by
  rcases Nat.lt_trichotomy r r' with hlt | rfl | hgt
  · have hrow := row_lt hlt hc
    omega
  · exact ⟨rfl, by omega⟩
  · have hrow := row_lt hgt hc'
    omega

theorem index_lt (hB : k.blocks k.prompt ≤ B) (hℓ : ℓ < k.layers) (hj : j < B) : k.index ℓ j < k.layers * B := by
  by_cases hp : j < k.blocks k.prompt
  · rw [k.index_prompt hp]
    exact (row_lt hℓ hp).trans_le (Nat.mul_le_mul_left _ hB)
  · rw [k.index_row (by omega), Nat.mul_comm k.layers j, Nat.mul_comm k.layers B]
    exact row_lt hj hℓ

theorem index_inj (hℓ : ℓ < k.layers) (hℓ' : ℓ' < k.layers) (h : k.index ℓ j = k.index ℓ' j') : ℓ = ℓ' ∧ j = j' := by
  by_cases hp : j < k.blocks k.prompt
  · by_cases hp' : j' < k.blocks k.prompt
    · rw [k.index_prompt hp, k.index_prompt hp'] at h
      exact row_inj hp hp' h
    · -- a block of the prompt stands before every row
      have hlt := row_lt hℓ hp
      have hle := Nat.mul_le_mul_left k.layers (Nat.le_of_not_lt hp')
      rw [k.index_prompt hp, k.index_row (Nat.le_of_not_lt hp')] at h
      omega
  · by_cases hp' : j' < k.blocks k.prompt
    · have hlt := row_lt hℓ' hp'
      have hle := Nat.mul_le_mul_left k.layers (Nat.le_of_not_lt hp)
      rw [k.index_prompt hp', k.index_row (Nat.le_of_not_lt hp)] at h
      omega
    · rw [k.index_row (Nat.le_of_not_lt hp), k.index_row (Nat.le_of_not_lt hp'), Nat.mul_comm, Nat.mul_comm k.layers j'] at h
      exact (row_inj hℓ hℓ' h).symm

end Index

section Page

theorem page_length (n ℓ j : Nat) : (k.page n ℓ j).length = k.blockSize := by
  unfold page
  rw [List.length_map, List.length_range]

theorem page_getElem? {i : Nat} (hi : i < k.blockSize) :
    (k.page n ℓ j)[i]? = some (if k.tokenAt j i < n then k.tag ℓ (k.tokenAt j i) else 0) := by
  unfold page
  rw [List.getElem?_map, List.getElem?_range hi]
  rfl

theorem page_head (n ℓ j : Nat) : (k.page n ℓ j).headD 0 = k.firstByte n ℓ j := by
  have hpos : 0 < k.blockSize := Nat.mul_pos k.bytes_pos k.tokens_pos
  have hfirst : k.tokenAt j 0 = j * k.tokensPerBlock := by
    unfold tokenAt
    rw [Nat.zero_div, Nat.add_zero]
  have hget : (k.page n ℓ j)[0]? = some (if k.tokenAt j 0 < n then k.tag ℓ (k.tokenAt j 0) else 0) := k.page_getElem? hpos
  rw [hfirst] at hget
  rw [List.headD_eq_head?_getD, List.head?_eq_getElem?, hget]
  rfl

theorem byte_lt {i : Nat} (hi : i < k.blockSize) : i / k.bytesPerToken < k.tokensPerBlock :=
  Nat.div_lt_of_lt_mul hi

/-- Every byte of a block belongs to one of its tokens. -/
theorem tokenAt_block {i : Nat} (hi : i < k.blockSize) : k.tokenAt j i / k.tokensPerBlock = j := by
  have hlt := k.byte_lt hi
  unfold tokenAt
  rw [Nat.mul_comm, Nat.mul_add_div k.tokens_pos, Nat.div_eq_of_lt hlt, Nat.add_zero]

/-- The bytes of a token are the slice `WriteTokenSlice` writes. -/
theorem tokenAt_eq {i : Nat} :
    k.tokenAt (n / k.tokensPerBlock) i = n ↔
      n % k.tokensPerBlock * k.bytesPerToken ≤ i ∧ i < n % k.tokensPerBlock * k.bytesPerToken + k.bytesPerToken := by
  have hdiv := Nat.div_add_mod n k.tokensPerBlock
  rw [Nat.mul_comm] at hdiv
  have hslice : i / k.bytesPerToken = n % k.tokensPerBlock ↔
      n % k.tokensPerBlock * k.bytesPerToken ≤ i ∧ i < n % k.tokensPerBlock * k.bytesPerToken + k.bytesPerToken := by
    rw [Nat.div_eq_iff k.bytes_pos]
    have hpos := k.bytes_pos
    omega
  rw [← hslice]
  unfold tokenAt
  omega

/-- Writing token `n` of a layer turns its page of `n` tokens into that of `n + 1`. -/
theorem fill_page (n ℓ : Nat) :
    fill (k.page n ℓ (n / k.tokensPerBlock)) (n % k.tokensPerBlock * k.bytesPerToken) (k.tag ℓ n) k.bytesPerToken =
      k.page (n + 1) ℓ (n / k.tokensPerBlock) := by
  apply List.ext_getElem?
  intro i
  by_cases hi : i < k.blockSize
  · rw [fill_getElem? _ _ _ _ (by rw [page_length]; exact hi), k.page_getElem? hi, k.page_getElem? hi]
    by_cases htoken : k.tokenAt (n / k.tokensPerBlock) i = n
    · rw [if_pos (k.tokenAt_eq.mp htoken), if_pos (by omega), htoken]
    · rw [if_neg (fun hslice => htoken (k.tokenAt_eq.mpr hslice))]
      congr 1
      by_cases hlt : k.tokenAt (n / k.tokensPerBlock) i < n
      · rw [if_pos hlt, if_pos (by omega)]
      · rw [if_neg hlt, if_neg (by omega)]
  · rw [List.getElem?_eq_none (by rw [fill_length, page_length]; omega),
      List.getElem?_eq_none (by rw [page_length]; omega)]

/-- A token that has been written shows its tag in its slice. -/
theorem page_token {τ i : Nat} (hτ : τ < n) (hi : i < k.bytesPerToken) :
    (k.page n ℓ (τ / k.tokensPerBlock))[τ % k.tokensPerBlock * k.bytesPerToken + i]? = some (k.tag ℓ τ) := by
  have hlt := Nat.mod_lt τ k.tokens_pos
  have hbyte : τ % k.tokensPerBlock * k.bytesPerToken + i < k.blockSize := by
    have hle := Nat.mul_le_mul_right k.bytesPerToken (Nat.succ_le_of_lt hlt)
    rw [Nat.succ_mul, Nat.mul_comm k.tokensPerBlock] at hle
    unfold blockSize
    omega
  have htoken : k.tokenAt (τ / k.tokensPerBlock) (τ % k.tokensPerBlock * k.bytesPerToken + i) = τ :=
    k.tokenAt_eq.mpr ⟨Nat.le_add_right _ _, Nat.add_lt_add_left hi _⟩
  rw [k.page_getElem? hbyte, htoken, if_pos hτ]

theorem page_other (hj : j ≠ n / k.tokensPerBlock) : k.page (n + 1) ℓ j = k.page n ℓ j := by
  unfold page
  apply List.map_congr_left
  intro i hi
  have hblock := k.tokenAt_block (j := j) (List.mem_range.mp hi)
  have hne : k.tokenAt j i ≠ n := by
    intro heq
    rw [heq] at hblock
    exact hj hblock.symm
  by_cases hlt : k.tokenAt j i < n
  · rw [if_pos hlt, if_pos (by omega)]
  · rw [if_neg hlt, if_neg (by omega)]

/-- A block past the last token is still as it was given out. -/
theorem page_blank (hj : n ≤ j * k.tokensPerBlock) : k.page n ℓ j = List.replicate k.blockSize 0 := by
  apply List.eq_replicate_iff.mpr
  refine ⟨k.page_length n ℓ j, ?_⟩
  intro byte hbyte
  obtain ⟨i, _, rfl⟩ := List.mem_map.mp hbyte
  have hle : n ≤ k.tokenAt j i := hj.trans (Nat.le_add_right _ _)
  rw [if_neg (by omega)]

end Page

end KvLayout

end DsfMmu
