import PgTde.Insert.Logged
import PgTde.Page.Theorems.Intact
import PgTde.Page.Theorems.RoundTrip

namespace Page

variable {p q r : Page} {item : List UInt8} {off i d : Nat} {lp : ItemIdData}

-- The line pointer has not been changed since it was set, nor the bytes that it refers to.
structure Holds (p : Page) (m : Memory) (off : Nat) (lp : ItemIdData) : Prop where
  line    : p.getItemId off = some lp
  storage : lp.hasStorage
  upper   : p.pdUpper ≤ lp.lpOff
  bytes   : ∀ a ≥ lp.lpOff, p.mem a = m a

namespace Stored

theorem upper_eq (h : p.Stored item q off) : q.pdUpper + maxalign item.length = p.pdUpper := by
  have hu := h.upper
  have hs := h.space
  omega

theorem mem_above (h : p.Stored item q off) {a : Nat} (ha : p.pdUpper ≤ a) : q.mem a = p.mem a := by
  have hu := h.upper_eq
  have hm := le_maxalign item.length
  exact h.frame a (.inr (by omega))

theorem holds_new (h : p.Stored item q off) (hl : item ≠ []) :
    q.Holds q.mem off ⟨q.pdUpper, .normal, item.length⟩ where
  line    := h.line
  storage := by simpa [ItemIdData.hasStorage] using hl
  upper   := Nat.le_refl _
  bytes   := fun _ _ => rfl

theorem holds {m : Memory} (h : p.Stored item q off) (hh : p.Holds m i lp) : q.Holds m i lp where
  line    := by
    have hi : i ≠ off := by
      rintro rfl
      exact h.unused lp hh.line hh.storage
    exact (h.lines i hi).trans hh.line
  storage := hh.storage
  upper   := by
    have hu := h.upper_eq
    have hl := hh.upper
    omega
  bytes   := by
    intro a ha
    exact (h.mem_above (Nat.le_trans hh.upper ha)).trans (hh.bytes a ha)

theorem linp_append (h : p.Stored item q (p.linp.length + 1)) :
    q.linp = p.linp ++ [⟨q.pdUpper, .normal, item.length⟩] := by
  apply List.ext_getElem?
  intro n
  rw [←getItemId_succ]
  by_cases hn : n = p.linp.length
  case pos =>
    rw [hn, h.line, List.getElem?_append_right (Nat.le_refl _), Nat.sub_self]
    rfl
  case neg =>
    rw [h.lines (n + 1) (by omega), getItemId_succ]
    by_cases hl : n < p.linp.length
    case pos => rw [List.getElem?_append_left hl]
    case neg => rw [List.getElem?_eq_none (by omega), List.getElem?_eq_none (by simp; omega)]

-- What happens to the bytes of the new item afterwards does not concern anything else.
theorem rewritten {m : Memory} (h : p.Stored item q off)
    (hm : ∀ a, a < q.pdUpper ∨ q.pdUpper + item.length ≤ a → m a = q.mem a) :
    p.Stored (m.read q.pdUpper item.length) { q with mem := m } off where
  space   := by rw [Memory.length_read]; exact h.space
  upper   := by rw [Memory.length_read]; exact h.upper
  lower   := h.lower
  special := h.special
  unused  := h.unused
  line    := by rw [Memory.length_read]; exact h.line
  lines   := h.lines
  bytes   := by rw [Memory.length_read]
  frame   := by
    intro a ha
    rw [Memory.length_read] at ha
    exact (hm a ha).trans (h.frame a ha)

end Stored

-- Storing more items does not touch what is there.
theorem Holds.runs {α : Type} {R : Page → α → Page → Prop} {as : List α} {m : Memory}
    (hs : ∀ p a q, R p a q → ∃ item off, p.Stored item q off) (hr : Runs R p as q) (h : p.Holds m i lp) :
    q.Holds m i lp := by
  apply hr.invariant ?_ h
  intro p a q ha hp
  obtain ⟨item, off, hst⟩ := hs p a q ha
  exact hst.holds hp

-- A new line pointer is needed if all others are in use.
theorem Fits.offnum_eq {flags : PaiFlags} (h : p.Fits item flags off) (hp : ∀ lp ∈ p.linp, lp.hasStorage) :
    off = p.linp.length + 1 := by
  have hpos := h.pos
  have hle := h.le
  by_contra hn
  obtain ⟨n, rfl⟩ : ∃ n, off = n + 1 := ⟨off - 1, by simp only [invalidOffsetNumber] at hpos; omega⟩
  have hl : p.getItemId (n + 1) = some p.linp[n] := List.getElem?_eq_getElem (by omega)
  exact (h.free _ hl).2 (hp _ (List.getElem_mem _))

end Page

-- The same line pointer on a page where all items are higher up.
def ItemIdData.shift (d : Nat) (lp : ItemIdData) : ItemIdData :=
  { lp with lpOff := lp.lpOff + d }

namespace Page

variable {p p' q q' : Page} {item item' : List UInt8} {off d : Nat} {flags : PaiFlags}

-- A page looks like another one apart from its contents, with all items higher up.
structure Mirrors (d : Nat) (p q : Page) : Prop where
  upper   : q.pdUpper = p.pdUpper + d
  lines   : q.linp = p.linp.map (ItemIdData.shift d)
  le      : q.pdUpper ≤ q.pdSpecial
  special : q.pdSpecial ≤ blcksz

theorem Mirrors.refl (hu : p.pdUpper ≤ p.pdSpecial) (hs : p.pdSpecial ≤ blcksz) : p.Mirrors 0 p where
  upper   := rfl
  lines   := (List.map_id p.linp).symm
  le      := hu
  special := hs

theorem Mirrors.getItemId (h : p.Mirrors d q) (i : Nat) :
    q.getItemId i = (p.getItemId i).map (ItemIdData.shift d) := by
  simp only [Page.getItemId, h.lines, List.getElem?_map]
  split <;> rfl

-- What fits on the page fits on the other one.
theorem Mirrors.fits (h : p.Mirrors d q) (hl : item'.length = item.length) (hf : p.Fits item flags off) :
    q.Fits item' flags off where
  pos   := hf.pos
  le    := by rw [h.lines, List.length_map]; exact hf.le
  free  := by
    intro lp hlp
    rw [h.getItemId, Option.map_eq_some_iff] at hlp
    obtain ⟨lp, hlp, rfl⟩ := hlp
    exact hf.free lp hlp
  count := hf.count
  space := by
    have hs := hf.space
    have hu := h.upper
    simp only [pdLower, h.lines, List.length_map, hl] at hs ⊢
    omega

-- Adding an item under the same offset number to both of them.
theorem Stored.mirrors (hp : p.Stored item p' off) (hq : q.Stored item' q' off)
    (hu : q.pdUpper = p.pdUpper + d) (hl : item'.length = item.length)
    (hi : ∀ i ≠ off, q.getItemId i = (p.getItemId i).map (ItemIdData.shift d))
    (hle : q.pdUpper ≤ q.pdSpecial) (hs : q.pdSpecial ≤ blcksz) : p'.Mirrors d q' := by
  have hp' := hp.upper_eq
  have hq' := hq.upper_eq
  rw [hl] at hq'
  have hu' : q'.pdUpper = p'.pdUpper + d := by omega
  constructor
  case upper   => exact hu'
  case special => rw [hq.special]; exact hs
  case le      => rw [hq.special]; omega
  case lines   =>
    apply List.ext_getElem?
    intro n
    rw [List.getElem?_map, ←getItemId_succ, ←getItemId_succ]
    by_cases hn : n + 1 = off
    case pos => rw [hn, hp.line, hq.line, hl, hu']; rfl
    case neg => rw [hp.lines _ hn, hq.lines _ hn, hi _ hn]

theorem Mirrors.stored (h : p.Mirrors d q) (hl : item'.length = item.length) (hp : p.Stored item p' off)
    (hq : q.Stored item' q' off) : p'.Mirrors d q' :=
  hp.mirrors hq h.upper hl (fun i _ => h.getItemId i) h.le h.special

end Page
