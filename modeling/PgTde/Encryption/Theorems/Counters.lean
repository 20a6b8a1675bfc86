import PgTde.Encryption.Counters
import PgTde.Encryption.Theorems.Aes

open Cint Platform

section

variable {n : Nat}

theorem loopCounter_of_clear (h : n % 2 ^ 32 < 2 ^ 31) : loopCounter n = (n % 2 ^ 32 : Nat) := by
  simp only [loopCounter, int32, Int.bmod]
  split <;> omega

theorem loopCounter_of_set (h : 2 ^ 31 ≤ n % 2 ^ 32) : loopCounter n = (n % 2 ^ 32 : Nat) - 2 ^ 32 := by
  simp only [loopCounter, int32, Int.bmod]
  split <;> omega

-- The sign of `j` fills the upper half of the number that it is compared as.
theorem uint64_loopCounter_of_set (h : 2 ^ 31 ≤ n % 2 ^ 32) :
    uint64 (loopCounter n) = 2 ^ 64 - 2 ^ 32 + n % 2 ^ 32 := by
  rw [loopCounter_of_set h, uint64]
  omega

-- The numbers that are the same after the conversion to `int` and back.

theorem loopCounter_of_lt (h : n < 2 ^ 31) : loopCounter n = n := by
  rw [loopCounter_of_clear (by omega), Nat.mod_eq_of_lt (by omega)]

theorem loopCounter_of_ge (h : 2 ^ 64 - 2 ^ 31 ≤ n) (hn : n < 2 ^ 64) : loopCounter n = n - 2 ^ 64 := by
  rw [loopCounter_of_set (by omega)]
  omega

variable {b₁ b₂ : Nat} {P : Platform} {i : Nat}

theorem counts_loopCounter (hl : b₂ < 2 ^ 64) (h : b₂ < 2 ^ 31 ∨ 2 ^ 64 - 2 ^ 31 ≤ b₁) :
    Counts loopCounter b₁ b₂ := by
  obtain h | h := h
  · constructor
    case compared =>
      intro j _ hj
      rw [loopCounter_of_lt (by omega), uint64]
      omega
    case next =>
      intro j _ hj
      rw [loopCounter_of_lt (by omega), loopCounter_of_lt (by omega)]
      omega
  · constructor
    case compared =>
      intro j hj _
      rw [loopCounter_of_ge (by omega) (by omega), uint64]
      omega
    case next =>
      intro j hj _
      rw [loopCounter_of_ge (by omega) (by omega), loopCounter_of_ge (by omega) (by omega)]
      omega

theorem counterByte_eq_iff {j : Int} :
    P.counterByte j i = .ofNat n ↔ P.shr j (8 * i) % 256 = (n : Int) % 256 := by
  rw [counterByte, ←UInt8.toNat_inj, UInt8.toNat_ofNat', UInt8.toNat_ofNat']
  omega

-- The shifts by less than the width have the bits of the block number.
theorem shr_low (hi : i < 4) (hn : n < 2 ^ 64) (h : n < 2 ^ 31 ∨ 2 ^ 64 - 2 ^ 31 ≤ n) :
    P.shr (loopCounter n) (8 * i) % 256 = (n / 256 ^ i : Nat) % 256 := by
  have hs : 8 * i < 32 := by omega
  rw [Platform.shr, if_pos hs]
  obtain rfl | rfl | rfl | rfl : i = 0 ∨ i = 1 ∨ i = 2 ∨ i = 3 := by omega
  all_goals
    obtain h | h := h
    · rw [loopCounter_of_lt h]
      omega
    · rw [loopCounter_of_ge h hn]
      omega

-- A byte of the counter is right, if it is not one of a shift by the width or more that is not.
theorem counterBytes_iff (hn : n < 2 ^ 64) (h : n < 2 ^ 31 ∨ 2 ^ 64 - 2 ^ 31 ≤ n) :
    (∀ t : Fin 16, 8 ≤ t.val → P.counterByte (loopCounter n) (15 - t.val) = ctrBlock n t) ↔
    BlockRange.ShiftsSign P n := by
  constructor
  case mp =>
    intro hb i h₄ h₈
    have ht := hb ⟨15 - i, by omega⟩ (by simp only; omega)
    have hi : 15 - (15 - i) = i := by omega
    rw [ctrBlock, if_neg (by simp only; omega)] at ht
    simp only [hi] at ht
    rw [counterByte_eq_iff, Platform.shr, if_neg (by omega)] at ht
    exact ht
  case mpr =>
    intro hs t ht
    rw [ctrBlock, if_neg (by omega), counterByte_eq_iff]
    by_cases hi : 15 - t.val < 4
    case pos => exact shr_low hi hn h
    case neg =>
      rw [Platform.shr, if_neg (by omega)]
      exact hs _ (by omega) (by omega)

end

namespace BlockRange

variable {r : BlockRange} {P : Platform} {fuel : Nat} {j : Int} {data data' : Memory}

theorem aes128EncryptedZeroBlocks_eq (h : r.putCounters P = .ok data) (key : Block) :
    P.aes128EncryptedZeroBlocks key r.blockNumber₁ r.blockNumber₂ =
    .ok (P.aesRun2 key data (r.count * 16)) := by
  have hle := r.le
  have hlb := r.le_batch
  simp only [numAesBlocksInBatch] at hlb
  have hl : uint32 (uint64 (r.blockNumber₂ - r.blockNumber₁) * 16) = r.count * 16 := by
    rw [count, uint64_of_lt (by omega) (by omega), uint32_of_lt] <;> omega
  rw [putCounters, loopCounter] at h
  simp only [Platform.aes128EncryptedZeroBlocks, h, hl, Outcome.ok_bind, Outcome.pure_eq]

-- The loop ends with an overflow, or with an access outside of `data`.
theorem putCounters_ne_ok {b₁ b₂ : Nat} (h : 2 ^ 31 ≤ b₂) (h₀ : 0 ≤ j) (hj : j < 2 ^ 31) :
    P.putCounters b₁ b₂ fuel j data ≠ .ok data' := by
  induction fuel generalizing j data
  case zero         => simp [Platform.putCounters]
  case succ fuel ih =>
    have hu : uint64 j < b₂ := by
      rw [uint64]
      omega
    rw [Platform.putCounters, if_pos hu]
    intro he
    obtain ⟨d, -, he⟩ := Outcome.bind_eq_ok_iff.mp he
    by_cases hm : j = 2 ^ 31 - 1
    case pos => simp [hm] at he
    case neg =>
      simp only [hm, if_false] at he
      exact ih (by omega) (by omega) he

-- The loop does not start.
theorem putCounters_skip (h : r.blockNumber₂ ≤ uint64 (loopCounter r.blockNumber₁)) :
    r.putCounters P = .ok Memory.zero := by
  rw [putCounters, Platform.putCounters, if_neg (Nat.not_lt.mpr h)]

theorem loopValues_skip (h : r.blockNumber₂ ≤ uint64 (loopCounter r.blockNumber₁)) :
    r.loopValues (fuel + 1) (loopCounter r.blockNumber₁) = [] := by
  rw [loopValues, if_neg (Nat.not_lt.mpr h)]

theorem mem_loopValues {n : Nat} (hc : Counts loopCounter r.blockNumber₁ r.blockNumber₂)
    (hn : r.blockNumber₁ ≤ n) (hl : n ≤ r.blockNumber₂) (h : j ∈ r.loopValues fuel (loopCounter n)) :
    ∃ m, n ≤ m ∧ m < r.blockNumber₂ ∧ j = loopCounter m := by
  induction fuel generalizing n
  case zero         => cases h
  case succ fuel ih =>
    rw [loopValues, hc.compared n hn hl] at h
    split at h
    case isFalse    => cases h
    case isTrue hlt =>
      obtain hj | h := List.mem_cons.mp h
      · exact ⟨n, Nat.le_refl n, hlt, hj⟩
      · rw [←(hc.next n hn hlt).right] at h
        obtain ⟨m, hm, hr⟩ := ih (by omega) hlt h
        exact ⟨m, by omega, hr⟩

theorem countersOf_block {v : Nat → Int} {k : Nat} (hk : k < r.count) (t : Fin 16) :
    P.countersOf v r.blockNumber₁ r.blockNumber₂ (16 * k + t.val) =
    if t.val < 8 then 0 else P.counterByte (v (r.blockNumber₁ + k)) (15 - t.val) := by
  have ht := t.isLt
  have hd : (16 * k + t.val) / 16 = k := by omega
  have hm : (16 * k + t.val) % 16 = t.val := by omega
  rw [count] at hk
  rw [countersOf, hd, hm]
  by_cases h : t.val < 8
  case pos => rw [if_pos h, if_neg (by omega)]
  case neg => rw [if_neg h, if_pos (by omega)]

-- The loop goes through all of the blocks.
theorem putCounters_counts (hc : Counts loopCounter r.blockNumber₁ r.blockNumber₂) :
    r.putCounters P = .ok (P.countersOf loopCounter r.blockNumber₁ r.blockNumber₂) := by
  have hb := r.le_batch
  rw [putCounters, ←countersOf_self]
  exact putCounters_countersOf hc (Nat.le_refl _) hb r.le (by omega)

theorem index_lt {n i : Nat} (hc : Counts loopCounter r.blockNumber₁ r.blockNumber₂) (hn : r.blockNumber₁ ≤ n)
    (hl : n < r.blockNumber₂) (hi : i < 8) : r.index (loopCounter n) i < r.count * 16 := by
  have hb := r.le_batch
  simp only [numAesBlocksInBatch] at hb
  rw [index, hc.compared n hn (by omega), count, uint64_of_lt (by omega) (by omega)]
  omega

theorem feedsCounters_of_counts (h : r.blockNumber₂ < 2 ^ 31 ∨ 2 ^ 64 - 2 ^ 31 ≤ r.blockNumber₁) :
    r.FeedsCounters P ↔ ∀ n, r.blockNumber₁ ≤ n → n < r.blockNumber₂ → ShiftsSign P n := by
  have hl := r.lt
  have hc := counts_loopCounter hl h
  have hp : r.putCounters P = _ := putCounters_counts hc
  constructor
  case mp =>
    rintro ⟨data, hd, -, hb, -⟩ n h₁ h₂
    obtain rfl := Except.ok.inj (hp.symm.trans hd)
    refine (counterBytes_iff (by omega) (by omega)).mp fun t ht => ?_
    have hk : n - r.blockNumber₁ < r.count := Nat.sub_lt_sub_right h₁ h₂
    have ht' := hb _ hk t
    rw [countersOf_block hk, if_neg (by omega), Nat.add_sub_cancel' h₁] at ht'
    exact ht'
  case mpr =>
    intro hs
    refine ⟨_, hp, aes128EncryptedZeroBlocks_eq hp, ?_, ?_⟩
    · intro k hk t
      rw [countersOf_block hk]
      split
      case isTrue ht  => rw [ctrBlock, if_pos ht]
      case isFalse ht =>
        rw [count] at hk
        have hn := hs (r.blockNumber₁ + k) (by omega) (by omega)
        exact (counterBytes_iff (by omega) (by omega)).mpr hn t (by omega)
    · intro j hj i hi
      obtain ⟨n, hn, hlt, he⟩ := mem_loopValues hc (Nat.le_refl _) r.le hj
      rw [he]
      exact index_lt hc hn hlt hi

-- The byte that the blocks lack, if the loop does not start.
theorem ctrBlock_of_set {n : Nat} (h : 2 ^ 31 ≤ n % 2 ^ 32) : ctrBlock n 12 ≠ 0 := by
  rw [ctrBlock, if_neg (by decide), Ne, ←UInt8.toNat_inj, UInt8.toNat_ofNat']
  have hd : 256 ^ (15 - (12 : Fin 16).val) = 2 ^ 24 := by decide
  rw [hd]
  change _ ≠ 0
  omega

-- If the loop does not start, then the function is right for no blocks only.
theorem feedsCounters_of_skip (h : r.blockNumber₂ ≤ uint64 (loopCounter r.blockNumber₁))
    (hb : r.blockNumber₁ < r.blockNumber₂ → 2 ^ 31 ≤ r.blockNumber₁ % 2 ^ 32) :
    r.FeedsCounters P ↔ r.blockNumber₁ = r.blockNumber₂ := by
  have hle := r.le
  have hp : r.putCounters P = _ := putCounters_skip h
  constructor
  case mp =>
    rintro ⟨data, hd, -, hk, -⟩
    obtain rfl := Except.ok.inj (hp.symm.trans hd)
    by_contra hn
    have hlt : r.blockNumber₁ < r.blockNumber₂ := by omega
    exact ctrBlock_of_set (hb hlt) (hk 0 (Nat.sub_pos_of_lt hlt) 12).symm
  case mpr =>
    intro heq
    have hc : r.count = 0 := by rw [count, heq, Nat.sub_self]
    refine ⟨_, hp, aes128EncryptedZeroBlocks_eq hp, ?_, ?_⟩
    · intro k hk
      omega
    · rw [loopValues_skip h]
      intro j hj
      cases hj

-- A number is taken for a smaller one, from which the loop does not get to the last one.
theorem not_feedsCounters_of_clear (h : r.blockNumber₁ % 2 ^ 32 < 2 ^ 31) (h₂ : 2 ^ 31 ≤ r.blockNumber₂) :
    ¬r.FeedsCounters P := by
  rintro ⟨data, hd, -⟩
  rw [putCounters, loopCounter_of_clear h] at hd
  exact putCounters_ne_ok h₂ (Int.natCast_nonneg _) (by exact_mod_cast h) hd

-- `Aes128EncryptedZeroBlocks` feeds the counters of the block numbers to AES if they fit in an `int` and the
-- compiler shifts its sign in, and only then.
theorem feedsCounters_iff (r : BlockRange) (P : Platform) : r.FeedsCounters P ↔ r.FitsInt P := by
  have hle := r.le
  have hlt := r.lt
  have hlb := r.le_batch
  simp only [numAesBlocksInBatch] at hlb
  by_cases hs : 2 ^ 31 ≤ r.blockNumber₁ % 2 ^ 32
  case pos =>
    by_cases hc : 2 ^ 64 - 2 ^ 31 ≤ r.blockNumber₁ ∧ r.blockNumber₁ ≠ r.blockNumber₂
    case pos =>
      rw [feedsCounters_of_counts (.inr hc.left), FitsInt, if_neg hc.right, and_iff_right (.inr hc.left)]
    case neg =>
      rw [feedsCounters_of_skip (by rw [uint64_loopCounter_of_set hs]; omega) fun _ => hs, FitsInt]
      split
      case isTrue heq  => exact iff_of_true heq (.inr hs)
      case isFalse hne => exact iff_of_false hne fun h => by omega
  case neg =>
    by_cases h₂ : r.blockNumber₂ < 2 ^ 31
    case pos =>
      rw [feedsCounters_of_counts (.inl h₂), FitsInt]
      split
      case isTrue heq => exact iff_of_true (fun n h₁ h₂ => by omega) (.inl (by omega))
      case isFalse    => rw [and_iff_right (.inl h₂)]
    case neg =>
      refine iff_of_false (not_feedsCounters_of_clear (Nat.not_le.mp hs) (Nat.not_lt.mp h₂)) ?_
      rw [FitsInt]
      split
      case isTrue heq  => omega
      case isFalse hne =>
        rintro ⟨h, -⟩
        omega

theorem upperByte_of_lt {n i : Nat} (h : n < 2 ^ 31) (hi : 4 ≤ i) : n / 256 ^ i = 0 :=
  Nat.div_eq_of_lt <| calc
    n < 256 ^ 4 := by omega
    _ ≤ 256 ^ i := Nat.pow_le_pow_right (by decide) hi

theorem upperByte_of_ge {n i : Nat} (h : 2 ^ 64 - 2 ^ 31 ≤ n) (hn : n < 2 ^ 64) (h₄ : 4 ≤ i) (h₈ : i < 8) :
    n / 256 ^ i % 256 = 255 := by
  obtain rfl | rfl | rfl | rfl : i = 4 ∨ i = 5 ∨ i = 6 ∨ i = 7 := by omega
  all_goals omega

-- On x86, the bytes of the low half stand in the place of the sign, which is right for zero only.
theorem shiftsSign_x86_iff {n : Nat} {table : List (Nat × List UInt8)}
    (h : n < 2 ^ 31 ∨ 2 ^ 64 - 2 ^ 31 ≤ n) (hn : n + 1 < 2 ^ 64) :
    ShiftsSign (Platform.x86 table) n ↔ n = 0 := by
  constructor
  case mp =>
    intro hs
    have h₄ := hs 4 (by decide) (by decide)
    have h₅ := hs 5 (by decide) (by decide)
    have h₆ := hs 6 (by decide) (by decide)
    have h₇ := hs 7 (by decide) (by decide)
    simp only [Platform.x86, Nat.reduceMul, Nat.reduceMod] at h₄ h₅ h₆ h₇
    obtain h | h := h
    · rw [loopCounter_of_lt h, upperByte_of_lt h (by decide)] at h₄ h₅ h₆ h₇
      omega
    · have hl : n < 2 ^ 64 := by omega
      have hu {i} (hi : 4 ≤ i) (h₈ : i < 8) : ((n / 256 ^ i : Nat) : Int) % 256 = 255 := by
        exact_mod_cast upperByte_of_ge h hl hi h₈
      rw [loopCounter_of_ge h hl, hu (by decide) (by decide)] at h₄ h₅ h₆ h₇
      omega
  case mpr =>
    rintro rfl i h₄ h₈
    rw [loopCounter_of_lt (by decide)]
    simp [Platform.x86]

theorem fitsInt_x86_iff {table : List (Nat × List UInt8)} (h : r.blockNumber₁ ≠ r.blockNumber₂) :
    r.FitsInt (Platform.x86 table) ↔ r.blockNumber₁ = 0 ∧ r.blockNumber₂ = 1 := by
  have hle := r.le
  have hlt := r.lt
  rw [FitsInt, if_neg h]
  constructor
  case mp =>
    rintro ⟨hf, hs⟩
    have h₁ := (shiftsSign_x86_iff (by omega) (by omega)).mp (hs r.blockNumber₁ (Nat.le_refl _) (by omega))
    have h₂ := (shiftsSign_x86_iff (by omega) (by omega)).mp (hs (r.blockNumber₂ - 1) (by omega) (by omega))
    omega
  case mpr =>
    rintro ⟨h₁, h₂⟩
    refine ⟨.inl (by omega), fun n _ hn => ?_⟩
    exact (shiftsSign_x86_iff (by omega) (by omega)).mpr (by omega)

theorem one_le_batch : 2 ≤ 1 + numAesBlocksInBatch := by
  decide

theorem two_lt : 2 < 2 ^ 64 := by
  decide

-- The second block of a file.
def secondBlock : BlockRange where
  blockNumber₁ := 1
  blockNumber₂ := 2
  le           := Nat.le_succ 1
  le_batch     := one_le_batch
  lt           := two_lt

theorem not_feedsCounters_secondBlock : ¬secondBlock.FeedsCounters (Platform.x86 []) := by
  intro h
  have hs := (feedsCounters_of_counts (.inl (by decide))).mp h 1 (Nat.le_refl 1) (by decide)
  exact absurd ((shiftsSign_x86_iff (.inl (by decide)) (by decide)).mp hs) (by decide)

end BlockRange
