import PgTde.Library.Extent
import PgTde.Page.Basic

namespace ItemIdData

-- The bytes that a line pointer with storage refers to.
def extent (lp : ItemIdData) : Extent where
  start := lp.lpOff
  len   := lp.lpLen

-- What a line pointer of a heap page with storage refers to: a tuple between `pd_upper` and `pd_special`
-- with a header of at least the fixed size.
structure Tuple (page : Page) (lp : ItemIdData) : Prop where
  normal   : lp.isNormal
  upper_le : page.pdUpper ≤ lp.lpOff
  le_special : lp.lpOff + lp.lpLen ≤ page.pdSpecial
  aligned  : maxalign lp.lpOff = lp.lpOff
  header   : sizeofHeapTupleHeaderData ≤ tHoff page.mem lp.lpOff
  hoff_le  : tHoff page.mem lp.lpOff ≤ lp.lpLen

end ItemIdData

-- A heap page that is not corrupted.
structure HeapPage extends Page where
  lower_le        : toPage.pdLower ≤ pdUpper
  upper_le        : pdUpper ≤ pdSpecial
  special_le      : pdSpecial ≤ blcksz
  special_aligned : maxalign pdSpecial = pdSpecial
  tuples          : ∀ lp ∈ linp, lp.hasStorage → lp.Tuple toPage
  disjoint        : linp.Pairwise fun lp₁ lp₂ =>
    lp₁.hasStorage → lp₂.hasStorage → lp₁.extent.Disjoint lp₂.extent

theorem HeapPage.ext {p q : HeapPage} (h : p.toPage = q.toPage) : p = q := by
  cases p
  cases q
  cases h
  rfl

-- The special space of a heap page is empty.
theorem emptySpecial_le : 8192 ≤ blcksz :=
  Nat.le_refl _

theorem emptySpecial_aligned : maxalign 8192 = 8192 :=
  rfl

theorem le_maxalign (n : Nat) : n ≤ maxalign n := by
  simp only [maxalign]
  omega

-- Aligned boundaries leave space for the padding behind a tuple.
theorem maxalign_le {a n b : Nat} (ha : maxalign a = a) (hb : maxalign b = b) (h : a + n ≤ b) :
    a + maxalign n ≤ b := by
  simp only [maxalign] at *
  omega
