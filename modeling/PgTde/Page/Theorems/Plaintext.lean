import PgTde.Encryption.Theorems.Tuple
import PgTde.Page.Heap
import PgTde.Page.Plaintext

namespace Page

variable {P : Platform} {bn : Nat} {key : Block} {page page' : Page} {lp : ItemIdData} {dst : Nat}
variable {f : Nat → UInt8}

theorem tHoff_eq_of_header {a b h : Nat} {mem mem' : Memory} (hh : sizeofHeapTupleHeaderData ≤ h)
    (he : mem'.read b h = mem.read a h) : tHoff mem' b = tHoff mem a := by
  simp only [sizeofHeapTupleHeaderData] at hh
  rw [tHoff, tHoff, Memory.read_eq_iff.mp he 22 (by omega)]

-- A tuple that is moved and masked stays the same iff the mask makes up for the difference of the
-- keystream between the two places, and leaves the header alone.
theorem sameTuple_iff (hh : sizeofHeapTupleHeaderData ≤ tHoff page.mem lp.lpOff)
    (hl : tHoff page.mem lp.lpOff ≤ lp.lpLen) (hs : lp.lpOff + lp.lpLen ≤ blcksz) (hd : dst ≤ blcksz)
    (hm : ∀ j < lp.lpLen, page'.mem (dst + j) = page.mem (lp.lpOff + j) ^^^ f j) :
    SameTuple P bn key page lp page' { lp with lpOff := dst } ↔
    ∀ j < lp.lpLen, f j = (P.keystream key).window (offsetInFile bn lp.lpOff) (offsetInFile bn dst)
      (tHoff page.mem lp.lpOff) (lp.lpLen - tHoff page.mem lp.lpOff) j := by
  generalize hho : tHoff page.mem lp.lpOff = h at hh hl
  have hf : page'.mem.read dst h = page.mem.read lp.lpOff h ↔ ∀ j < h, f j = 0 := by
    rw [Memory.read_eq_iff]
    refine forall₂_congr fun j hj => ?_
    rw [hm j (by omega), Keystream.mask_eq_self_iff]
  have hdata (h₀ : tHoff page'.mem dst = h) :
      (∃ data, P.pgTdeCryptTuple bn page.mem lp.lpOff lp.lpLen key = .ok data ∧
        P.pgTdeCryptTuple bn page'.mem dst lp.lpLen key = .ok data) ↔
      ∀ i < lp.lpLen - h, f (h + i) = P.keystream key (offsetInFile bn lp.lpOff + i) ^^^
        P.keystream key (offsetInFile bn dst + i) := by
    rw [Platform.pgTdeCryptTuple_eq (by omega) (by omega) (by omega),
      Platform.pgTdeCryptTuple_eq hd (by omega) (by omega), h₀, hho]
    simp only [Except.ok.injEq, exists_eq_left']
    rw [Keystream.xor_eq_xor_iff (by simp)]
    simp only [Memory.length_read, List.get_eq_getElem, Memory.getElem_read]
    refine forall₂_congr fun i hi => ?_
    rw [Nat.add_assoc dst, hm (h + i) (by omega), ←Nat.add_assoc, Keystream.mask_xor_eq_iff]
  constructor
  case mp =>
    intro hst
    have h₀ := tHoff_eq_of_header hh (hho ▸ hst.header)
    intro j hj
    by_cases hjh : j < h
    case pos => rw [Keystream.window_of_lt hjh, hf.mp (hho ▸ hst.header) j hjh]
    case neg =>
      obtain ⟨i, rfl⟩ : ∃ i, j = h + i := ⟨j - h, by omega⟩
      rw [Keystream.window_add (by omega), (hdata (h₀.trans hho)).mp hst.data i (by omega)]
  case mpr =>
    intro hw
    have hhd : page'.mem.read dst h = page.mem.read lp.lpOff h :=
      hf.mpr fun j hj => by rw [hw j (by omega), Keystream.window_of_lt hj]
    have h₀ := tHoff_eq_of_header hh hhd
    constructor
    case len    => rfl
    case flags  => rfl
    case header => rwa [hho]
    case data   =>
      refine (hdata (h₀.trans hho)).mpr fun i hi => ?_
      rw [hw (h + i) (by omega), Keystream.window_add hi]

end Page
