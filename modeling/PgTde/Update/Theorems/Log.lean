import PgTde.Page.Theorems.AddItem
import PgTde.Update.Log

section CommonPrefix

variable {as bs : List UInt8} {i : Nat}

theorem commonPrefix_le_left : commonPrefix as bs ≤ as.length := by
  fun_induction commonPrefix as bs
  case case1 hi => simpa using hi
  case case2    => simp
  case case3    => simp

theorem commonPrefix_le_right : commonPrefix as bs ≤ bs.length := by
  fun_induction commonPrefix as bs
  case case1 hi => simpa using hi
  case case2    => simp
  case case3    => simp

theorem getElem?_of_lt_commonPrefix (h : i < commonPrefix as bs) : as[i]? = bs[i]? := by
  fun_induction commonPrefix as bs generalizing i
  case case2 => simp at h
  case case3 => simp at h
  case case1 hi =>
    cases i
    case zero   => simp
    case succ i => simpa using hi (by omega)

end CommonPrefix

-- An update that puts the new tuple on the page of the old one.
structure TupleUpdate (P : Platform) (add : PageAddItem) where
  key       : Block
  bn        : Nat
  before    : Page
  page      : Page
  newtup    : List UInt8
  oldOff    : Nat
  oldLen    : Nat
  addable   : Platform.Addable before newtup
  put       : P.pgTdeRelationPutHeapTuple add key bn before newtup false = .ok page
  old_ge    : before.pdUpper ≤ oldOff
  old_le    : oldOff + oldLen ≤ blcksz
  oldHeader : sizeofHeapTupleHeaderData ≤ tHoff before.mem oldOff
  oldHoff   : tHoff before.mem oldOff ≤ oldLen

namespace TupleUpdate

variable {P : Platform} {add : PageAddItem} (u : TupleUpdate P add)

-- The data of the old tuple as it is on the page, and the one of the new tuple as it is in memory.
def oldp : List UInt8 :=
  u.before.mem.read (u.oldOff + tHoff u.before.mem u.oldOff) (u.oldLen - tHoff u.before.mem u.oldOff)

def newp : List UInt8 :=
  u.newtup.drop (itemHoff u.newtup)

-- The lengths of the common prefix and of the common suffix behind it, where they are worth it.
def prefixlen : Nat :=
  let n := commonPrefix u.newp u.oldp
  if ¬n < 3 then n else 0

def suffixlen : Nat :=
  let limit := min u.oldp.length u.newp.length - u.prefixlen
  let n := commonPrefix (u.newp.reverse.take limit) (u.oldp.reverse.take limit)
  if ¬n < 3 then n else 0

-- The position of the keystream that the data of the new tuple starts at.
def start : Nat :=
  offsetInFile u.bn u.page.pdUpper

variable {u}

theorem put_spec : Platform.Put P u.key u.bn u.before u.newtup u.page :=
  Platform.put_of_ok u.addable u.put

theorem prefixlen_le : u.prefixlen ≤ u.newp.length ∧ u.prefixlen ≤ u.oldp.length := by
  have h₁ := @commonPrefix_le_left u.newp u.oldp
  have h₂ := @commonPrefix_le_right u.newp u.oldp
  rw [prefixlen]
  split <;> omega

theorem suffixlen_le : u.prefixlen + u.suffixlen ≤ u.newp.length ∧
    u.prefixlen + u.suffixlen ≤ u.oldp.length := by
  have hp := u.prefixlen_le
  have hs : u.suffixlen ≤ min u.oldp.length u.newp.length - u.prefixlen := by
    rw [suffixlen]
    generalize min u.oldp.length u.newp.length - u.prefixlen = limit
    have h := @commonPrefix_le_left (u.newp.reverse.take limit) (u.oldp.reverse.take limit)
    simp only [List.length_take] at h
    split <;> omega
  omega

theorem prefix_eq {i : Nat} (h : i < u.prefixlen) : u.newp[i]? = u.oldp[i]? := by
  rw [prefixlen] at h
  split at h
  · exact getElem?_of_lt_commonPrefix h
  · simp at h

theorem suffix_eq {i : Nat} (h : i < u.suffixlen) :
    u.newp[u.newp.length - u.suffixlen + i]? = u.oldp[u.oldp.length - u.suffixlen + i]? := by
  have hle := u.suffixlen_le
  have hlt : u.suffixlen - 1 - i < u.suffixlen := by omega
  generalize hn : u.suffixlen = n at h hle hlt ⊢
  rw [suffixlen] at hn
  generalize min u.oldp.length u.newp.length - u.prefixlen = limit at hn
  have hc := @commonPrefix_le_left (u.newp.reverse.take limit) (u.oldp.reverse.take limit)
  simp only [List.length_take] at hc
  split at hn
  · subst hn
    have he := getElem?_of_lt_commonPrefix hlt
    rw [List.getElem?_take_of_lt (by omega), List.getElem?_take_of_lt (by omega),
      List.getElem?_reverse (by omega), List.getElem?_reverse (by omega)] at he
    convert he using 2 <;> omega
  · omega

theorem oldp_page : u.page.mem.read (u.oldOff + tHoff u.page.mem u.oldOff)
    (u.oldLen - tHoff u.page.mem u.oldOff) = u.oldp := by
  have hg := u.old_ge
  have hh : tHoff u.page.mem u.oldOff = tHoff u.before.mem u.oldOff := by
    rw [tHoff, tHoff, put_spec.above _ (by omega)]
  rw [hh, oldp]
  exact Memory.read_congr fun i _ => put_spec.above _ (by omega)

-- The bytes of the new tuple on the page, cut into the parts that they are rebuilt from.
def bitmap (u : TupleUpdate P add) : List UInt8 :=
  u.page.mem.read (u.page.pdUpper + sizeofHeapTupleHeader)
    (itemHoff u.newtup - sizeofHeapTupleHeader)

def middle (u : TupleUpdate P add) : List UInt8 :=
  u.page.mem.read (u.page.pdUpper + itemHoff u.newtup + u.prefixlen)
    (u.newtup.length - itemHoff u.newtup - u.prefixlen - u.suffixlen)

-- The header, the prefix and the suffix do not overlap.
theorem parts_le : sizeofHeapTupleHeader ≤ itemHoff u.newtup ∧
    itemHoff u.newtup + u.prefixlen + u.suffixlen ≤ u.newtup.length := by
  have hh := u.addable.header
  have hle := u.addable.hoff_le
  have hs := u.suffixlen_le.1
  simp only [newp, List.length_drop] at hs
  simp only [sizeofHeapTupleHeaderData, sizeofHeapTupleHeader] at hh ⊢
  omega

-- The new tuple on the page, up to the suffix.
theorem read_front : u.page.mem.read (u.page.pdUpper + sizeofHeapTupleHeader)
      (u.newtup.length - sizeofHeapTupleHeader - u.suffixlen) =
    u.bitmap ++ (u.page.mem.read (u.page.pdUpper + itemHoff u.newtup) u.prefixlen ++ u.middle) := by
  obtain ⟨hh, hle⟩ := u.parts_le
  have hl : u.newtup.length - sizeofHeapTupleHeader - u.suffixlen =
      (itemHoff u.newtup - sizeofHeapTupleHeader) +
        (u.prefixlen + (u.newtup.length - itemHoff u.newtup - u.prefixlen - u.suffixlen)) := by
    omega
  have hb : u.page.pdUpper + sizeofHeapTupleHeader + (itemHoff u.newtup - sizeofHeapTupleHeader) =
      u.page.pdUpper + itemHoff u.newtup := by
    omega
  rw [hl, Memory.read_add, Memory.read_add, hb]
  rfl

theorem log_eq : logPgTdeUpdate true u.page u.oldOff u.oldLen u.newtup =
    { prefixlen := u.prefixlen, suffixlen := u.suffixlen, hoff := itemHoff u.newtup,
      data := u.bitmap ++ u.middle } := by
  have hn : u.newtup.drop (itemHoff u.newtup) = u.newp := rfl
  have hp : (if ¬commonPrefix u.newp u.oldp < 3 then commonPrefix u.newp u.oldp else 0) =
      u.prefixlen := rfl
  have hd : (if u.prefixlen = 0 then
        u.page.mem.read (u.page.pdUpper + sizeofHeapTupleHeader)
          (u.newtup.length - sizeofHeapTupleHeader - u.suffixlen)
      else u.bitmap ++ u.middle) = u.bitmap ++ u.middle := by
    split
    case isFalse  => rfl
    case isTrue h =>
      rw [read_front, h, Memory.read_zero, List.nil_append]
  simp only [logPgTdeUpdate, oldp_page, hn, true_and, hp]
  exact congrArg (UpdateRecord.mk _ _ _) hd

theorem rebuild_eq : (logPgTdeUpdate true u.page u.oldOff u.oldLen u.newtup).rebuild u.before.mem
      u.oldOff u.oldLen =
    u.bitmap ++ (u.before.mem.read (u.oldOff + tHoff u.before.mem u.oldOff) u.prefixlen ++
      (u.middle ++ u.before.mem.read (u.oldOff + u.oldLen - u.suffixlen) u.suffixlen)) := by
  have hb : u.bitmap.length = itemHoff u.newtup - sizeofHeapTupleHeader := by simp [bitmap]
  have hp : (if u.prefixlen > 0 then
        u.bitmap ++ u.before.mem.read (u.oldOff + tHoff u.before.mem u.oldOff) u.prefixlen ++ u.middle
      else u.bitmap ++ u.middle) =
      u.bitmap ++ (u.before.mem.read (u.oldOff + tHoff u.before.mem u.oldOff) u.prefixlen ++
        u.middle) := by
    split
    · rw [List.append_assoc]
    · simp [show u.prefixlen = 0 by omega]
  simp only [log_eq, UpdateRecord.rebuild, List.take_left' hb, List.drop_left' hb, hp]
  split
  · simp only [List.append_assoc]
  · simp [show u.suffixlen = 0 by omega]

theorem page_eq : u.page.mem.read (u.page.pdUpper + sizeofHeapTupleHeader)
      (u.newtup.length - sizeofHeapTupleHeader) =
    u.bitmap ++ (u.page.mem.read (u.page.pdUpper + itemHoff u.newtup) u.prefixlen ++
      (u.middle ++
        u.page.mem.read (u.page.pdUpper + u.newtup.length - u.suffixlen) u.suffixlen)) := by
  obtain ⟨hh, hle⟩ := u.parts_le
  have hl : u.newtup.length - sizeofHeapTupleHeader =
      (u.newtup.length - sizeofHeapTupleHeader - u.suffixlen) + u.suffixlen := by
    omega
  have hs : u.page.pdUpper + sizeofHeapTupleHeader + (u.newtup.length - sizeofHeapTupleHeader - u.suffixlen) =
      u.page.pdUpper + u.newtup.length - u.suffixlen := by
    omega
  rw [hl, Memory.read_add, read_front, hs]
  simp only [List.append_assoc]

-- The data of the new tuple on the page is its data in memory, encrypted.
theorem page_data {i : Nat} (hi : i < u.newp.length) :
    u.page.mem (u.page.pdUpper + itemHoff u.newtup + i) =
    u.newp[i] ^^^ P.keystream u.key (u.start + i) := by
  have h := congrArg (·[i]?) (put_spec (u := u)).data
  simp only [newp, List.length_drop] at hi
  simp only [Memory.getElem?_read hi] at h
  rw [List.getElem?_eq_getElem (by simpa using hi), Keystream.getElem_xor, Option.some.injEq] at h
  exact h

theorem old_data {i : Nat} (hi : i < u.oldp.length) :
    u.before.mem (u.oldOff + tHoff u.before.mem u.oldOff + i) = u.oldp[i] := by
  simp [oldp]

-- A byte of the old tuple that is taken for a byte of the new one.
theorem reuse_iff {i j : Nat} (hi : i < u.newp.length) (hj : j < u.oldp.length)
    (h : u.newp[i]? = u.oldp[j]?) :
    u.before.mem (u.oldOff + tHoff u.before.mem u.oldOff + j) =
      u.page.mem (u.page.pdUpper + itemHoff u.newtup + i) ↔
    P.keystream u.key (u.start + i) = 0 := by
  rw [List.getElem?_eq_getElem hi, List.getElem?_eq_getElem hj, Option.some.injEq] at h
  rw [page_data hi, old_data hj, ←h, eq_comm, Keystream.mask_eq_self_iff]

theorem prefix_reuse_iff :
    u.before.mem.read (u.oldOff + tHoff u.before.mem u.oldOff) u.prefixlen =
      u.page.mem.read (u.page.pdUpper + itemHoff u.newtup) u.prefixlen ↔
    ∀ i < u.prefixlen, P.keystream u.key (u.start + i) = 0 := by
  have hs := u.suffixlen_le
  rw [Memory.read_eq_iff]
  exact forall₂_congr fun i hi => reuse_iff (by omega) (by omega) (prefix_eq hi)

theorem suffix_reuse_iff :
    u.before.mem.read (u.oldOff + u.oldLen - u.suffixlen) u.suffixlen =
      u.page.mem.read (u.page.pdUpper + u.newtup.length - u.suffixlen) u.suffixlen ↔
    ∀ i < u.suffixlen, P.keystream u.key (u.start + (u.newp.length - u.suffixlen + i)) = 0 := by
  have hs := u.suffixlen_le
  have hle := u.addable.hoff_le
  have ho := u.oldHoff
  have hn : u.newp.length = u.newtup.length - itemHoff u.newtup := by simp [newp]
  have hol : u.oldp.length = u.oldLen - tHoff u.before.mem u.oldOff := by simp [oldp]
  rw [Memory.read_eq_iff]
  refine forall₂_congr fun i hi => ?_
  rw [←reuse_iff (by omega) (by omega) (suffix_eq hi)]
  rw [show u.oldOff + u.oldLen - u.suffixlen + i =
      u.oldOff + tHoff u.before.mem u.oldOff + (u.oldp.length - u.suffixlen + i) by omega,
    show u.page.pdUpper + u.newtup.length - u.suffixlen + i =
      u.page.pdUpper + itemHoff u.newtup + (u.newp.length - u.suffixlen + i) by omega]

-- The rebuilt tuple is the one on the page iff the keystream does not change any of the bytes that are
-- taken from the old tuple.
theorem rebuild_eq_page_iff (u : TupleUpdate P add) :
    (logPgTdeUpdate true u.page u.oldOff u.oldLen u.newtup).rebuild u.before.mem u.oldOff u.oldLen =
      u.page.mem.read (u.page.pdUpper + sizeofHeapTupleHeader)
        (u.newtup.length - sizeofHeapTupleHeader) ↔
    ∀ i < u.newp.length, i < u.prefixlen ∨ u.newp.length - u.suffixlen ≤ i →
      P.keystream u.key (u.start + i) = 0 := by
  have hs := u.suffixlen_le
  rw [rebuild_eq, page_eq, List.append_cancel_left_eq]
  constructor
  case mp =>
    intro h i hi hps
    obtain ⟨hp, ht⟩ := List.append_inj h (by simp)
    cases hps
    case inl hip => exact prefix_reuse_iff.mp hp i hip
    case inr his =>
      have h := suffix_reuse_iff.mp (List.append_cancel_left ht)
      have h := h (i - (u.newp.length - u.suffixlen)) (by omega)
      rwa [show u.newp.length - u.suffixlen + (i - (u.newp.length - u.suffixlen)) = i by omega] at h
  case mpr =>
    intro h
    rw [prefix_reuse_iff.mpr fun i hi => h i (by omega) (.inl hi),
      suffix_reuse_iff.mpr fun i hi => h _ (by omega) (.inr (by omega))]

end TupleUpdate

-- AES-128 of the counter block 508 under the all-zero key.
def chanceMatchPlatform : Platform := .x86 [
  (508, [0x1B, 0x68, 0xAC, 0xA6, 0x13, 0xAA, 0x9E, 0xCB, 0x98, 0x84, 0x11, 0xC6, 0x57, 0xBD, 0xAD, 0x11])]

-- A page with a tuple whose data is eight zero bytes once encrypted.
def chanceMatchPage : Page where
  pdUpper        := 8160
  pdSpecial      := 8192
  pdHasFreeLines := false
  linp           := [⟨8160, .normal, 32⟩]
  mem a          := if a = 8160 + 22 then 24 else 0

-- It is updated to a tuple whose data is eight zero bytes in the clear.
def chanceMatchTuple : List UInt8 :=
  List.replicate 22 0 ++ [24, 0] ++ List.replicate 8 0

def chanceMatchUpdate : TupleUpdate chanceMatchPlatform .append where
  key       := fun _ => 0
  bn        := 0
  before    := chanceMatchPage
  page      := Platform.putPage chanceMatchPlatform .append (fun _ => 0) 0 chanceMatchPage
    chanceMatchTuple false
  newtup    := chanceMatchTuple
  oldOff    := 8160
  oldLen    := 32
  addable   := by constructor <;> decide
  put       := by
    rw [Platform.pgTdeRelationPutHeapTuple_eq (by constructor <;> decide)]
    rfl
  old_ge    := by decide
  old_le    := by decide
  oldHeader := by decide
  oldHoff   := by decide

-- All data bytes are taken from the old tuple, although they are encrypted differently in the new place.
theorem rebuild_not_eq_page_chanceMatch :
    (logPgTdeUpdate true chanceMatchUpdate.page chanceMatchUpdate.oldOff chanceMatchUpdate.oldLen
        chanceMatchUpdate.newtup).rebuild
      chanceMatchUpdate.before.mem chanceMatchUpdate.oldOff chanceMatchUpdate.oldLen ≠
    chanceMatchUpdate.page.mem.read (chanceMatchUpdate.page.pdUpper + sizeofHeapTupleHeader)
      (chanceMatchUpdate.newtup.length - sizeofHeapTupleHeader) := by
  intro h
  rw [TupleUpdate.rebuild_eq, TupleUpdate.page_eq, List.append_cancel_left_eq] at h
  have hp := TupleUpdate.prefix_reuse_iff.mp (List.append_inj h (by simp)).1 0 (by decide)
  revert hp
  decide
