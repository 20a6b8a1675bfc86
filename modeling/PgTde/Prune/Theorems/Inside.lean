import PgTde.Prune.Theorems.Recryption

open Cint

namespace Recryption

variable {r : Recryption} {rs : List Recryption} {Q : Recryption → Prop}

-- What holds of all re-encryptions that are performed holds of all others, if it implies that they are
-- of defined behavior.
theorem forall_performed (hq : ∀ r, Q r → r.Fits) : (∀ r ∈ performed rs, Q r) ↔ ∀ r ∈ rs, Q r := by
  induction rs
  case nil          => rfl
  case cons r rs hi =>
    rw [performed]
    by_cases hr : r.Fits
    case pos => rw [if_pos hr, List.forall_mem_cons, List.forall_mem_cons, hi]
    case neg =>
      rw [if_neg hr, List.forall_mem_singleton, List.forall_mem_cons]
      exact ⟨fun h => absurd (hq r h) hr, And.left⟩

end Recryption

namespace TuplePage

variable {page : TuplePage} {lp lp' : ItemIdData} {m n : Move} {ms : List Move}

theorem storage_len {item : ItemIdCompactData} (h : item ∈ page.storage) :
    sizeofHeapTupleHeaderData ≤ item.len ∧ item.len ≤ item.alignedlen ∧ item.len ≤ blcksz := by
  have hle : item.alignedlen ≤ (page.storage.map (·.alignedlen)).sum :=
    List.le_sum_of_mem (List.mem_map_of_mem h)
  have hs := page.sum_le_special
  have hb := page.special_le
  obtain ⟨lp, i, hl, hst, rfl⟩ := Page.mem_storage.mp h
  have hh := page.header lp (List.mem_of_getElem? hl) hst
  have ha := le_maxalign lp.lpLen
  simp only [ItemIdCompactData.ofLp] at hle ⊢
  omega

theorem storage_length_le_max : page.storage.length ≤ maxHeapTuplesPerPage := by
  apply Page.storage_length_le_max
  case hh => exact fun _ hi => Nat.le_trans (storage_len hi).1 (storage_len hi).2.1
  case hs => exact Nat.le_trans page.total_le (Nat.sub_le_sub_right page.special_le _)

-- No two tuples start at the same offset.
theorem len_eq_of_off_eq (hl : lp ∈ page.linp) (hs : lp.hasStorage) (hl' : lp' ∈ page.linp)
    (hs' : lp'.hasStorage) (ho : lp.lpOff = lp'.lpOff) : lp.lpLen = lp'.lpLen := by
  by_contra hne
  have : Std.Symm fun lp₁ lp₂ : ItemIdData =>
      lp₁.hasStorage → lp₂.hasStorage → lp₁.extent.Disjoint lp₂.extent := ⟨fun _ _ h h₂ h₁ => (h h₁ h₂).symm⟩
  have hd := page.disjoint.forall hl hl' (fun he => hne (he ▸ rfl)) hs hs'
  have hh := page.header lp hl hs
  have hh' := page.header lp' hl' hs'
  simp only [sizeofHeapTupleHeaderData] at hh hh'
  simp only [Extent.Disjoint, ItemIdData.extent] at hd
  omega

-- The re-encryption of a tuple with the length of another one.
theorem inside_iff (hm : m.item ∈ page.storage) (hn : n.item ∈ page.storage) :
    (Recryption.Inside ⟨m.src, n.item.len⟩ page.toPage) ↔
    n.item.len ≤ m.item.len ∧ m.src + n.item.len ≤ blcksz := by
  obtain ⟨hn₁, -, hn₂⟩ := storage_len hn
  have hd : uint32 (n.item.len - sizeofHeapTupleHeaderData) = n.item.len - sizeofHeapTupleHeaderData := by
    simp only [blcksz] at hn₂
    rw [uint32_of_lt] <;> omega
  obtain ⟨lp, i, hl, hs, hi⟩ := Page.mem_storage.mp hm
  have ho : m.src = lp.lpOff := by rw [Move.src, hi]; rfl
  have hlen : m.item.len = lp.lpLen := by rw [hi]; rfl
  simp only [Recryption.Inside, Recryption.Fits, Recryption.start, Recryption.dataLen, hd]
  constructor
  case mp =>
    rintro ⟨hf, -, lp', hl', hs', ho', hle⟩
    have := len_eq_of_off_eq (List.mem_of_getElem? hl) hs hl' hs' (by omega)
    omega
  case mpr =>
    rintro ⟨hle, hb⟩
    exact ⟨by omega, by omega, lp, List.mem_of_getElem? hl, hs, ho.symm, by omega⟩

theorem forall_inside_iff (h : ∀ m ∈ ms, m.item ∈ page.storage) :
    (∀ r ∈ Move.recryptions ms, r.Inside page.toPage) ↔
    ms.IsChain (fun m n => n.item.len ≤ m.item.len) ∧ ∀ a ∈ Move.reach ms, a ≤ blcksz := by
  induction ms
  case nil          => simp [Move.recryptions, Move.reach]
  case cons m ms hi =>
    replace hi := hi fun n hn => h n (by simp [hn])
    have hm := h m (by simp)
    cases ms
    case nil       => simp [Move.recryptions, Move.reach, inside_iff hm hm]
    case cons n ms =>
      rw [Move.recryptions, Move.reach, List.forall_mem_cons, List.forall_mem_cons, List.isChain_cons_cons,
        inside_iff hm (h n (by simp)), hi, and_and_and_comm]

end TuplePage

-- A tuple of 32 bytes, 56 bytes below `pd_special`, and a longer tuple adjacent to it.
def growingPage : TuplePage where
  pdUpper         := 8064
  pdSpecial       := 8192
  pdHasFreeLines  := false
  linp            := [⟨8104, .normal, 32⟩, ⟨8064, .normal, 40⟩]
  mem a           := if a = 8104 + 22 ∨ a = 8064 + 22 then 24 else 0
  lower_le        := by decide
  upper_le        := by decide
  special_le      := emptySpecial_le
  special_aligned := emptySpecial_aligned
  lines           := by
    simp only [List.forall_mem_cons, List.not_mem_nil, false_imp_iff, implies_true, and_true]
    exact ⟨fun _ => by constructor <;> decide, fun _ => by constructor <;> decide⟩
  total_le        := by decide
  disjoint        := by decide
  header          := by decide
