import PgTde.Page.AddItem
import PgTde.Page.Theorems.AddItem

namespace Page

-- The line pointer may be used.
def isFree (p : Page) (off : Nat) : Bool :=
  match p.getItemId off with
  | some lp => ¬lp.isUsed ∧ ¬lp.hasStorage
  | none    => false

-- The offset number that an item is added under, and whether line pointers have to be moved for it.
def chooseOffset (p : Page) (offsetNumber : Nat) (flags : PaiFlags) : Option (Nat × Bool) :=
  if offsetNumber = invalidOffsetNumber then
    if p.pdHasFreeLines
    then some (p.linp.findIdx (fun lp => ¬lp.isUsed ∧ ¬lp.hasStorage) + 1, false)
    else some (p.linp.length + 1, false)
  else if offsetNumber > p.linp.length + 1 then
    none
  else if offsetNumber = p.linp.length + 1 then
    some (offsetNumber, false)
  else if flags.overwrite then
    if p.isFree offsetNumber then some (offsetNumber, false) else none
  else
    some (offsetNumber, true)

-- The page with the item stored. `grows` tells whether there is one more line pointer.
def storeItem (p : Page) (off : Nat) (grows : Bool) (item : List UInt8) : Page :=
  let upper := p.pdUpper - maxalign item.length
  let lp : ItemIdData := ⟨upper, .normal, item.length⟩
  { p with
    pdUpper := upper
    linp    := if grows then p.linp.insertIdx (off - 1) lp else p.linp.set (off - 1) lp
    mem     := p.mem.write upper item }

-- What PostgreSQL's `PageAddItemExtended` does on a page whose header is not corrupted.
def addItemExtended (p : Page) (offsetNumber : Nat) (flags : PaiFlags) (item : List UInt8) : Page × Nat :=
  match p.chooseOffset offsetNumber flags with
  | none                    => (p, invalidOffsetNumber)
  | some (off, needshuffle) =>
    let lower := p.pdLower + if off = p.linp.length + 1 ∨ needshuffle then sizeofItemIdData else 0
    if flags.isHeap ∧ off > maxHeapTuplesPerPage ∨ lower + maxalign item.length > p.pdUpper
    then (p, invalidOffsetNumber)
    else (p.storeItem off (off = p.linp.length + 1 ∨ needshuffle) item, off)

theorem getItemId_succ {p : Page} (i : Nat) : p.getItemId (i + 1) = p.linp[i]? :=
  rfl

-- The chosen offset number is the given one, or that of a line pointer that may be used. Line pointers are
-- only moved for a given offset number.
structure Chosen (p : Page) (offsetNumber : Nat) (flags : PaiFlags) (off : Nat) (needshuffle : Bool) :
    Prop where
  pos   : off ≠ invalidOffsetNumber
  le    : off ≤ p.linp.length + 1
  given : offsetNumber ≠ invalidOffsetNumber → off = offsetNumber
  moves : needshuffle → offsetNumber ≠ invalidOffsetNumber ∧ flags.overwrite = false
  place : needshuffle = false → ∀ lp, p.getItemId off = some lp → ¬lp.isUsed ∧ ¬lp.hasStorage

theorem getItemId_limit {p : Page} : p.getItemId (p.linp.length + 1) = none :=
  List.getElem?_eq_none (Nat.le_refl _)

theorem chosen {p : Page} {offsetNumber : Nat} {flags : PaiFlags} {off : Nat} {needshuffle : Bool}
    (h : p.chooseOffset offsetNumber flags = some (off, needshuffle)) :
    p.Chosen offsetNumber flags off needshuffle := by
  rw [chooseOffset] at h
  by_cases h₀ : offsetNumber = invalidOffsetNumber
  case pos =>
    rw [if_pos h₀] at h
    cases hf : p.pdHasFreeLines <;>
      simp only [hf, if_true, Bool.false_eq_true, if_false, Option.some.injEq, Prod.mk.injEq] at h <;>
      obtain ⟨rfl, rfl⟩ := h
    case false => exact ⟨Nat.succ_ne_zero _, Nat.le_refl _, absurd h₀, by simp, by simp [getItemId_limit]⟩
    case true  =>
      refine ⟨Nat.succ_ne_zero _, by simpa using List.findIdx_le_length, absurd h₀, by simp, fun _ lp hl => ?_⟩
      rw [getItemId_succ] at hl
      obtain ⟨hi, rfl⟩ := List.getElem?_eq_some_iff.mp hl
      simpa using @List.findIdx_getElem _ _ p.linp hi
  case neg =>
    rw [if_neg h₀] at h
    by_cases hgt : offsetNumber > p.linp.length + 1
    case pos => simp [hgt] at h
    case neg =>
      rw [if_neg hgt] at h
      by_cases he : offsetNumber = p.linp.length + 1
      case pos =>
        rw [if_pos he, Option.some.injEq, Prod.mk.injEq] at h
        obtain ⟨rfl, rfl⟩ := h
        exact ⟨h₀, Nat.not_lt.mp hgt, fun _ => rfl, by simp, by simp [he, getItemId_limit]⟩
      case neg =>
        rw [if_neg he] at h
        cases ho : flags.overwrite
        case false =>
          simp only [ho, Bool.false_eq_true, if_false, Option.some.injEq, Prod.mk.injEq] at h
          obtain ⟨rfl, rfl⟩ := h
          exact ⟨h₀, Nat.not_lt.mp hgt, fun _ => rfl, fun _ => ⟨h₀, ho⟩, by simp⟩
        case true =>
          by_cases hf : p.isFree offsetNumber
          case neg => simp [ho, hf] at h
          case pos =>
            simp only [ho, hf, if_true, Option.some.injEq, Prod.mk.injEq] at h
            obtain ⟨rfl, rfl⟩ := h
            refine ⟨h₀, Nat.not_lt.mp hgt, fun _ => rfl, by simp, fun _ lp hl => ?_⟩
            simpa [isFree, hl] using hf

-- The line pointers after `lp` has been put at `off`.
theorem getItemId_insert {p : Page} {off : Nat} {lp : ItemIdData} (h₁ : 1 ≤ off)
    (h₂ : off ≤ p.linp.length + 1) :
    getItemId { p with linp := p.linp.insertIdx (off - 1) lp } off = some lp ∧
    (∀ i < off, getItemId { p with linp := p.linp.insertIdx (off - 1) lp } i = p.getItemId i) ∧
    ∀ i ≥ off, getItemId { p with linp := p.linp.insertIdx (off - 1) lp } (i + 1) = p.getItemId i := by
  obtain ⟨n, rfl⟩ : ∃ n, off = n + 1 := ⟨off - 1, by omega⟩
  refine ⟨?_, fun i hi => ?_, fun i hi => ?_⟩
  · simp [getItemId_succ, List.getElem?_insertIdx_self, Nat.le_of_succ_le_succ h₂]
  · cases i
    case zero   => rfl
    case succ i => simp [getItemId_succ, List.getElem?_insertIdx_of_lt (show i < n by omega)]
  · obtain ⟨i, rfl⟩ : ∃ i', i = i' + 1 := ⟨i - 1, by omega⟩
    simp [getItemId_succ, List.getElem?_insertIdx_of_gt (show n < i + 1 by omega)]

theorem getItemId_set {p : Page} {off : Nat} {lp : ItemIdData} (h₁ : 1 ≤ off) (h₂ : off ≤ p.linp.length) :
    getItemId { p with linp := p.linp.set (off - 1) lp } off = some lp ∧
    ∀ i ≠ off, getItemId { p with linp := p.linp.set (off - 1) lp } i = p.getItemId i := by
  obtain ⟨n, rfl⟩ : ∃ n, off = n + 1 := ⟨off - 1, by omega⟩
  refine ⟨?_, fun i hi => ?_⟩
  · simp [getItemId_succ, List.getElem?_set_self (show n < p.linp.length by omega)]
  · cases i
    case zero   => rfl
    case succ i =>
      simp only [getItemId_succ, Nat.add_sub_cancel]
      exact List.getElem?_set_ne (by omega)

-- A call fails, or stores the item at the place that is chosen.
theorem addItemExtended_cases (p : Page) (offsetNumber : Nat) (flags : PaiFlags) (item : List UInt8) :
    p.addItemExtended offsetNumber flags item = (p, invalidOffsetNumber) ∨
    ∃ off needshuffle, p.Chosen offsetNumber flags off needshuffle ∧
      (flags.isHeap → off ≤ maxHeapTuplesPerPage) ∧
      p.pdLower + (if off = p.linp.length + 1 ∨ needshuffle then sizeofItemIdData else 0) +
        maxalign item.length ≤ p.pdUpper ∧
      p.addItemExtended offsetNumber flags item =
        (p.storeItem off (off = p.linp.length + 1 ∨ needshuffle) item, off) := by
  rw [addItemExtended]
  cases hc : p.chooseOffset offsetNumber flags
  case none        => exact .inl rfl
  case some choice =>
    obtain ⟨off, needshuffle⟩ := choice
    by_cases hs : flags.isHeap ∧ off > maxHeapTuplesPerPage ∨
        p.pdLower + (if off = p.linp.length + 1 ∨ needshuffle then sizeofItemIdData else 0) +
          maxalign item.length > p.pdUpper
    case pos => exact .inl (if_pos hs)
    case neg =>
      have hs' := not_or.mp hs
      exact .inr ⟨off, needshuffle, chosen hc, fun hh => Nat.not_lt.mp fun hl => hs'.1 ⟨hh, hl⟩,
        Nat.not_lt.mp hs'.2, if_neg hs⟩

theorem Chosen.added {p : Page} {offsetNumber off : Nat} {flags : PaiFlags} {needshuffle : Bool}
    {item : List UInt8} (h : p.Chosen offsetNumber flags off needshuffle)
    (hs : p.pdLower + (if off = p.linp.length + 1 ∨ needshuffle then sizeofItemIdData else 0) +
      maxalign item.length ≤ p.pdUpper) :
    p.Added item (p.storeItem off (off = p.linp.length + 1 ∨ needshuffle) item) off ∧
    (needshuffle = false → ∀ i ≠ off,
      (p.storeItem off (off = p.linp.length + 1 ∨ needshuffle) item).getItemId i = p.getItemId i) := by
  have hpos := Nat.pos_of_ne_zero h.pos
  have hframe (a) (ha : a < p.pdUpper - maxalign item.length ∨
      p.pdUpper - maxalign item.length + item.length ≤ a) :
      p.mem.write (p.pdUpper - maxalign item.length) item a = p.mem a :=
    ha.elim Memory.write_of_lt Memory.write_of_ge
  have hsp : maxalign item.length ≤ p.pdUpper := Nat.le_trans (Nat.le_add_left ..) hs
  by_cases hg : off = p.linp.length + 1 ∨ needshuffle
  case pos =>
    obtain ⟨hl, hlt, hge⟩ := @getItemId_insert p off
      ⟨p.pdUpper - maxalign item.length, .normal, item.length⟩ hpos h.le
    simp only [decide_eq_true hg, if_pos hg, storeItem, if_true] at hs ⊢
    constructor
    · refine ⟨hsp, rfl, ?_, rfl, hl, .inr ⟨hlt, hge⟩, Memory.read_write, hframe⟩
      have := h.le
      simp only [pdLower, sizeOfPageHeaderData, sizeofItemIdData] at hs ⊢
      rw [List.length_insertIdx, if_pos (by omega)]
      omega
    · intro hn i hi
      have he := hg.resolve_right (by simp [hn])
      by_cases hlt' : i < off
      case pos => exact hlt i hlt'
      case neg =>
        obtain ⟨j, rfl⟩ : ∃ j, i = j + 1 := ⟨i - 1, by omega⟩
        have hn : p.getItemId (j + 1) = none := List.getElem?_eq_none (by omega)
        obtain ⟨k, rfl⟩ : ∃ k, j = k + 1 := ⟨j - 1, by omega⟩
        have hk : p.getItemId (k + 1) = none := List.getElem?_eq_none (by omega)
        exact (hge (k + 1) (by omega)).trans (hk.trans hn.symm)
  case neg =>
    rw [not_or, Bool.not_eq_true] at hg
    have hle : off ≤ p.linp.length := by
      have := h.le
      omega
    obtain ⟨hl, hne⟩ := @getItemId_set p off
      ⟨p.pdUpper - maxalign item.length, .normal, item.length⟩ hpos hle
    simp only [hg, Bool.false_eq_true, or_self, decide_false, if_false, storeItem] at hs ⊢
    refine ⟨⟨hsp, rfl, ?_, rfl, hl, .inl ⟨fun lp hlp => (h.place hg.2 lp hlp).2, hne⟩,
      Memory.read_write, hframe⟩, fun _ => hne⟩
    simp only [pdLower, sizeOfPageHeaderData, sizeofItemIdData] at hs ⊢
    rw [List.length_set]
    omega

theorem chooseOffset_of_fits {p : Page} {off : Nat} {flags : PaiFlags} {item : List UInt8}
    (ho : flags.overwrite) (h : p.Fits item flags off) : p.chooseOffset off flags = some (off, false) := by
  rw [chooseOffset, if_neg h.pos, if_neg (Nat.not_lt.mpr h.le)]
  by_cases he : off = p.linp.length + 1
  case pos => rw [if_pos he]
  case neg =>
    obtain ⟨n, rfl⟩ : ∃ n, off = n + 1 := ⟨off - 1, by have := Nat.pos_of_ne_zero h.pos; omega⟩
    have hlt : n < p.linp.length := by
      have := h.le
      omega
    have hl : p.getItemId (n + 1) = some p.linp[n] := List.getElem?_eq_getElem hlt
    have hf : p.isFree (n + 1) := by
      simp only [isFree, hl, decide_eq_true_eq]
      exact h.free _ hl
    rw [if_neg he, if_pos ho, if_pos hf]

theorem addItemExtended_of_fits {p : Page} {off : Nat} {flags : PaiFlags} {item : List UInt8}
    (ho : flags.overwrite) (h : p.Fits item flags off) : (p.addItemExtended off flags item).2 = off := by
  simp only [addItemExtended, chooseOffset_of_fits ho h, Bool.false_eq_true, or_false]
  rw [if_neg]
  rintro (hc | hs)
  · exact Nat.not_lt.mpr (h.count hc.1) hc.2
  · exact Nat.not_lt.mpr h.space hs

end Page

def pageAddItemExtended : PageAddItemExtended where
  run offsetNumber flags p item := p.addItemExtended offsetNumber flags item
  failed     := by
    intro offsetNumber flags p item h
    obtain he | ⟨off, needshuffle, hc, -, -, he⟩ := p.addItemExtended_cases offsetNumber flags item
    · exact ⟨p.pdHasFreeLines, by rw [he]⟩
    · rw [he] at h
      exact absurd h hc.pos
  stored     := by
    intro offsetNumber flags p item h
    obtain he | ⟨off, needshuffle, hc, -, hs, he⟩ := p.addItemExtended_cases offsetNumber flags item
    · exact absurd (by rw [he]) h
    · rw [he]
      exact (hc.added hs).1
  given      := by
    intro offsetNumber flags p item h hn
    obtain he | ⟨off, needshuffle, hc, -, -, he⟩ := p.addItemExtended_cases offsetNumber flags item
    · exact absurd (by rw [he]) h
    · rw [he]
      exact hc.given hn
  inPlace    := by
    intro offsetNumber flags p item h hn
    obtain he | ⟨off, needshuffle, hc, hh, hs, he⟩ := p.addItemExtended_cases offsetNumber flags item
    · exact absurd (by rw [he]) h
    · have hm : needshuffle = false := by
        by_contra hm
        obtain ⟨h₁, h₂⟩ := hc.moves (by simpa using hm)
        exact hn.elim h₁ (by simp [h₂])
      rw [he]
      refine ⟨⟨hc.pos, hc.le, hc.place hm, hh, ?_⟩, (hc.added hs).2 hm⟩
      simpa [hm] using hs
  overwrites := by
    intro offsetNumber flags p item ho _ _ hf
    exact Page.addItemExtended_of_fits ho hf
