import PgTde.Visibility.Theorems.NewXmax

variable {isUpdate : Bool} {mode : TupleLock} {xid : Nat} {tup' : List UInt8}

section Alone

-- The only transaction in t_xmax.
variable (h : XmaxIs (newLocker xid mode isUpdate) tup')

include h

theorem bits_alone {f : UInt16} (hf : heapXmaxBits &&& f = f) :
    tInfomask tup' &&& f = (if isUpdate then 0 else heapXmaxLockOnly ||| lockBits mode) &&& f := by
  rw [h.bits f hf, newLocker]

theorem has_alone {f : UInt16} (hf : heapXmaxBits &&& f = f) :
    heapTupleHas f tup' = decide ((if isUpdate then 0 else heapXmaxLockOnly ||| lockBits mode) &&& f ≠ 0) := by
  rw [heapTupleHas, bits_alone h hf]

theorem not_multi_alone : ¬heapTupleHas heapXmaxIsMulti tup' := by
  rw [has_alone h (by decide)]
  cases isUpdate <;> cases mode <;> decide

theorem lockedOnly_alone : heapXmaxIsLockedOnly tup' = !isUpdate := by
  rw [heapXmaxIsLockedOnly, has_alone h (by decide), bits_alone h (by decide)]
  cases isUpdate <;> cases mode <;> decide

theorem xmaxXids_alone {members : MultiXactMembers} : xmaxXids members tup' = [xid] := by
  rw [xmaxXids, if_neg (not_multi_alone h), h.xmax, newLocker]

theorem updateXid_alone {updater : Nat → Nat} :
    updateXid updater tup' = if isUpdate then some xid else none := by
  rw [updateXid, lockedOnly_alone h, if_neg (not_multi_alone h), h.xmax, newLocker]
  cases isUpdate <;> rfl

theorem wellLocked_alone {members : MultiXactMembers} : WellLocked members tup' where
  lock_only hm := absurd hm (not_multi_alone h)
  nonempty hm  := absurd hm (not_multi_alone h)
  unique hm    := absurd hm (not_multi_alone h)
  lock_bits _  := by
    refine oldStatus_ne_none fun hl => ?_
    rw [lockedOnly_alone h] at hl
    rw [bits_alone h (by decide)]
    cases isUpdate
    case true  => cases hl
    case false => cases mode <;> decide

-- There are no hints about the new xmax.
theorem no_hints_alone : heapTupleHas heapXmaxInvalid tup' = false ∧ heapTupleHas heapXmaxCommitted tup' = false ∧
    heapLockedUpgraded tup' = false := by
  rw [heapLockedUpgraded, has_alone h (by decide), has_alone h (by decide), has_alone h (by decide),
    has_alone h (by decide), has_alone h (by decide)]
  cases isUpdate <;> cases mode <;> decide

end Alone

section Joined

variable {members : MultiXactMembers} {multi : Nat}

-- A multixact is in t_xmax.
variable (h : XmaxIs (multiXmax members multi) tup')

include h

theorem bits_joined {f : UInt16} (hf : heapXmaxBits &&& f = f) :
    tInfomask tup' &&& f = (getMultiXactIdHintBits (members multi)).1 &&& f := by
  rw [h.bits f hf, multiXmax]

theorem multi_joined : heapTupleHas heapXmaxIsMulti tup' := by
  rw [heapTupleHas_eq_true, bits_joined h (by decide)]
  refine getMultiXactIdHintBits_cases _ (fun m => m &&& heapXmaxIsMulti ≠ 0) (fun _ mode => ?_) fun _ mode => ?_
  · cases mode <;> decide
  · cases mode <;> decide

theorem lockedOnly_joined :
    heapXmaxIsLockedOnly tup' ↔ ∀ m ∈ members multi, ¬m.status.isUpdate := by
  have hany : (∀ m ∈ members multi, ¬m.status.isUpdate) ↔
      ¬(members multi).any (·.status.isUpdate) := by simp
  rw [hany, heapXmaxIsLockedOnly, decide_eq_true_iff, heapTupleHas_eq_true, bits_joined h (by decide),
    bits_joined h (by decide)]
  refine getMultiXactIdHintBits_cases _ (fun m => (m &&& heapXmaxLockOnly ≠ 0 ∨
    m &&& (heapXmaxIsMulti ||| heapLockMask) = heapXmaxExclLock) ↔ _) (fun hu mode => ?_) fun hu mode => ?_
  · simp only [hu, not_true, iff_false]
    cases mode <;> decide
  · simp only [hu]
    cases mode <;> decide

theorem no_hints_joined : heapTupleHas heapXmaxInvalid tup' = false ∧ heapTupleHas heapXmaxCommitted tup' = false ∧
    heapLockedUpgraded tup' = false := by
  rw [heapLockedUpgraded, heapTupleHas, heapTupleHas, heapTupleHas, heapTupleHas, heapTupleHas,
    bits_joined h (by decide), bits_joined h (by decide), bits_joined h (by decide), bits_joined h (by decide),
    bits_joined h (by decide)]
  refine getMultiXactIdHintBits_cases _ (fun m => decide (m &&& heapXmaxInvalid ≠ 0) = false ∧
    decide (m &&& heapXmaxCommitted ≠ 0) = false ∧ decide (decide (m &&& heapXmaxIsMulti ≠ 0) = true ∧
      decide (m &&& heapXmaxLockOnly ≠ 0) = true ∧
      ¬decide (m &&& (heapXmaxExclLock ||| heapXmaxKeyshrLock) ≠ 0) = true) = false)
    (fun _ mode => ?_) fun _ mode => ?_
  · cases mode <;> decide
  · cases mode <;> decide

theorem xmaxXids_joined : xmaxXids members tup' = (members multi).map (·.xid) := by
  rw [xmaxXids, if_pos (multi_joined h), h.xmax, multiXmax]

end Joined
