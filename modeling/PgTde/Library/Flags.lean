import Mathlib.Algebra.Order.Ring.Int

-- What clearing and setting flags does to the flags of a mask.
namespace UInt16

variable {x c m h : UInt16}

theorem or_and_distrib_right : (x ||| c) &&& h = x &&& h ||| c &&& h := by
  apply UInt16.toBitVec_inj.mp
  exact BitVec.and_or_distrib_right

-- The other flags are cleared.
theorem keep_and (hm : m &&& h = h) : (x &&& m) &&& h = x &&& h := by
  rw [UInt16.and_assoc, hm]

-- Other flags are set.
theorem keep_or (hc : c &&& h = 0) : (x ||| c) &&& h = x &&& h := by
  rw [or_and_distrib_right, hc, UInt16.or_zero]

-- The flags are among those that are set.
theorem set_and (hm : m &&& h = h) : (x ||| m) &&& h = h := by
  rw [or_and_distrib_right, hm]
  nth_rewrite 2 [←@UInt16.neg_one_and h]
  rw [←or_and_distrib_right, UInt16.or_neg_one, UInt16.neg_one_and]

-- Flags within a mask are none of the flags that it does not have.
theorem and_eq_zero_of_subset (hc : c &&& ~~~m = 0) (hm : m &&& h = 0) : c &&& h = 0 := by
  have hcm : c &&& m = c := by
    have hx : c &&& (m ||| ~~~m) = c := by
      rw [UInt16.or_not_self, UInt16.and_neg_one]
    rw [UInt16.and_comm, or_and_distrib_right, UInt16.and_comm _ c, UInt16.and_comm _ c, hc, UInt16.or_zero] at hx
    exact hx
  rw [←hcm, UInt16.and_assoc, hm, UInt16.and_zero]

end UInt16
