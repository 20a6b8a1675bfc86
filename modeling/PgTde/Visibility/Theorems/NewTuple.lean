import PgTde.Visibility.Theorems.AddedXmax

section Fresh

-- A tuple that no transaction has locked, updated or deleted yet.
def freshXmax : NewXmax :=
  ⟨invalidTransactionId, heapXmaxInvalid, 0⟩

-- The flags of a header with new initial values.
structure FreshHeader (xid xmax : UInt32) (frozen : Bool) (new : NewXmax) (tup tup' : List UInt8) : Prop
    extends XmaxIs new tup' where
  length   : tup'.length = tup.length
  xmin     : heapTupleHeaderGetRawXmin tup' = xid.toNat
  hints    : ∀ f, heapXminFrozen &&& f = f → tInfomask tup' &&& f = if frozen then f else 0
  moved    : ¬heapTupleHas heapMoved tup'

variable {xid xmax cid : UInt32} {frozen : Bool} {new : NewXmax} {tup tup' ctid : List UInt8} {m₁ m₂ : UInt16}

theorem freshHeader_append (hl : 24 ≤ tup.length) (hx : new.xmax = xmax.toNat)
    (hb : ∀ f, heapXmaxBits &&& f = f → m₁ &&& f = new.infomask &&& f)
    (hh : ∀ f, heapXminFrozen &&& f = f → m₁ &&& f = if frozen then f else 0) (hm : m₁ &&& heapMoved = 0) :
    FreshHeader xid xmax frozen new tup
      (toLittleEndian 4 xid.toNat ++ toLittleEndian 4 xmax.toNat ++ toLittleEndian 4 cid.toNat ++
        (tup.take 18).drop 12 ++ toLittleEndian 2 m₂.toNat ++ toLittleEndian 2 m₁.toNat ++ tup.drop 22) := by
  have hc : ((tup.take 18).drop 12).length = 6 := by
    rw [List.length_drop, List.length_take]
    omega
  have hl₁ : (toLittleEndian 4 xid.toNat ++ toLittleEndian 4 xmax.toNat ++ toLittleEndian 4 cid.toNat ++
      (tup.take 18).drop 12).length = 18 := by
    simp only [List.length_append, length_toLittleEndian, hc]
  have hi := @tInfomask_append _ (tup.drop 22) m₁ m₂ hl₁
  constructor
  case length   =>
    simp only [List.length_append, length_toLittleEndian, hc, List.length_drop]
    omega
  case xmin     =>
    simp only [heapTupleHeaderGetRawXmin, List.append_assoc]
    exact unsignedAt_of_append (List.nil_append _).symm rfl xid.toNat_lt
  case hints    => rw [hi]; exact hh
  case moved    => rw [heapTupleHas_eq_true, hi, hm]; simp
  case toXmaxIs =>
    refine ⟨?_, by rw [hi]; exact hb⟩
    rw [hx]
    simp only [heapTupleHeaderGetRawXmax, List.append_assoc]
    exact unsignedAt_of_append rfl length_toLittleEndian xmax.toNat_lt

theorem freshHeader_inserted (hl : 24 ≤ tup.length) :
    FreshHeader xid 0 frozen freshXmax tup (pgTdePrepareInsert xid cid frozen tup) := by
  refine freshHeader_append hl rfl ?_ ?_ ?_
  case refine_1 =>
    intro f hf
    have hr := @UInt16.replace_and (tInfomask tup) f heapXmaxInvalid _ (UInt16.subset_disjoint hf
      (show ~~~heapXactMask &&& heapXmaxBits = 0 by decide))
    cases frozen
    case false => exact hr
    case true  => rw [if_pos rfl, UInt16.keep_or (UInt16.subset_disjoint hf (by decide)), hr]; rfl
  case refine_2 =>
    intro f hf
    have hr := @UInt16.replace_and (tInfomask tup) f heapXmaxInvalid _ (UInt16.subset_disjoint hf
      (show ~~~heapXactMask &&& heapXminFrozen = 0 by decide))
    rw [UInt16.subset_disjoint hf (show heapXmaxInvalid &&& heapXminFrozen = 0 by decide)] at hr
    cases frozen
    case false => exact hr
    case true  => rw [if_pos rfl, UInt16.or_and_distrib_right, hr, UInt16.zero_or, if_pos rfl, hf]
  case refine_3 =>
    have hr := @UInt16.replace_and (tInfomask tup) heapMoved heapXmaxInvalid (~~~heapXactMask) (by decide)
    cases frozen
    case false => exact hr.trans (by decide)
    case true  => rw [if_pos rfl, UInt16.keep_or (by decide), hr]; decide

theorem freshHeader_updated (hl : 24 ≤ tup.length) (hx : new.xmax = xmax.toNat)
    (hn : new.infomask &&& ~~~heapXmaxBits = 0) :
    FreshHeader xid xmax false new tup (prepareNewtup xid cid xmax new.infomask new.infomask2 tup) := by
  have hr {mask f : UInt16} (hf : mask &&& f = f) (hd : ~~~heapXactMask &&& mask = 0)
      (hu : heapUpdated &&& mask = 0) :
      (tInfomask tup &&& ~~~heapXactMask ||| (heapUpdated ||| new.infomask)) &&& f = new.infomask &&& f := by
    rw [UInt16.replace_and (UInt16.subset_disjoint hf hd), UInt16.or_and_distrib_right,
      UInt16.subset_disjoint hf hu, UInt16.zero_or]
  refine freshHeader_append hl hx ?_ ?_ ?_
  case refine_1 => exact fun f hf => hr hf (by decide) (by decide)
  case refine_2 =>
    intro f hf
    have hd := UInt16.subset_disjoint hf (show heapXmaxBits &&& heapXminFrozen = 0 by decide)
    rw [hr hf (by decide) (by decide), UInt16.and_eq_zero_of_subset hn hd, if_neg Bool.false_ne_true]
  case refine_3 =>
    rw [hr (show heapMoved &&& heapMoved = heapMoved by decide) (by decide) (by decide),
      UInt16.and_eq_zero_of_subset hn (by decide)]

-- There is no xmax: the lockers of the old version, if there have been any, are gone.
theorem newVersionXmax_cases (members : MultiXactMembers) (lockersGone : Bool) (tup : List UInt8)
    (P : NewXmax → Prop) (h₁ : P freshXmax)
    (h₂ : ¬heapTupleHas heapXmaxIsMulti tup → P (newLocker (heapTupleHeaderGetRawXmax tup) .keyShare false))
    (h₃ : heapTupleHas heapXmaxIsMulti tup → P (multiXmax members (heapTupleHeaderGetRawXmax tup))) :
    P (newVersionXmax members lockersGone tup) := by
  simp only [newVersionXmax]
  split
  case isTrue  => exact h₁
  case isFalse =>
    split
    case isTrue hm  => exact h₃ hm
    case isFalse hm => exact h₂ hm

end Fresh

namespace RowVersion

open XactStatus

variable {s : RowVersion} {xid xmax : UInt32} {frozen : Bool} {new : NewXmax}
variable {tup tup' : List UInt8}

-- The xmax of a tuple that has not been updated or deleted, with flags that are true.
structure FreshXmax (s : RowVersion) (tup : List UInt8) : Prop extends Replaceable s tup where
  invalid  : heapTupleHas heapXmaxInvalid tup → ∀ b context, ¬(s.view b context).xmaxRuns tup
  no_hints : heapTupleHas heapXmaxCommitted tup = false ∧ heapLockedUpgraded tup = false

theorem freshXmax_invalid (h : XmaxIs freshXmax tup) : FreshXmax s tup := by
  have hz : heapTupleHeaderGetRawXmax tup = invalidTransactionId := h.xmax
  have hm : ¬heapTupleHas heapXmaxIsMulti tup := by
    rw [heapTupleHas_eq_true, h.bits _ (by decide)]
    decide
  have hl : ¬heapXmaxIsLockedOnly tup := by
    rw [heapXmaxIsLockedOnly, decide_eq_true_iff, heapTupleHas_eq_true, h.bits _ (by decide), h.bits _ (by decide)]
    decide
  constructor
  case invalid       =>
    intro _ b context
    rw [xmaxRuns_single hm, hz]
    exact (s.view b context).invalid.left
  case no_hints      =>
    rw [heapLockedUpgraded, heapTupleHas, heapTupleHas, heapTupleHas, heapTupleHas, h.bits _ (by decide),
      h.bits _ (by decide), h.bits _ (by decide), h.bits _ (by decide)]
    decide
  case toReplaceable =>
    constructor
    case assigned =>
      rw [xmaxXids, if_neg hm, hz]
      intro u hu
      rw [List.mem_singleton.mp hu, s.invalid]
      decide
    case aborted  =>
      rw [updateXid, if_neg hl, if_neg hm, hz]
      intro u hu
      rw [←Option.some.inj hu]
      exact s.invalid
    case locked   =>
      exact ⟨fun h => absurd h hm, fun h => absurd h hm, fun h => absurd h hm, fun _ =>
        oldStatus_ne_none fun h => absurd h hl⟩

theorem freshXmax_locked {u : Nat} (h : XmaxIs (newLocker u .keyShare false) tup) (hu : s.phase u ≠ .unassigned) :
    FreshXmax s tup := by
  have hn := no_hints_alone h
  constructor
  case invalid       => rw [hn.left]; exact fun hf => absurd hf Bool.false_ne_true
  case no_hints      => exact hn.right
  case toReplaceable =>
    constructor
    case locked   => exact wellLocked_alone h
    case assigned =>
      rw [xmaxXids_alone h]
      intro v hv
      rwa [List.mem_singleton.mp hv]
    case aborted  =>
      rw [updateXid_alone h]
      exact fun v hv => absurd hv (Option.not_mem_none v)

-- The multixact in the xmax of the old version.
theorem freshXmax_multi (h : XmaxIs (multiXmax s.members (heapTupleHeaderGetRawXmax tup')) tup)
    (hm : heapTupleHas heapXmaxIsMulti tup') (hr : Replaceable s tup') : FreshXmax s tup := by
  have hn := no_hints_joined h
  have hx : heapTupleHeaderGetRawXmax tup = heapTupleHeaderGetRawXmax tup' := h.xmax
  have hmulti := multi_joined h
  have hl := lockedOnly_joined h
  have hu : updateXid s.updater tup = updateXid s.updater tup' := by
    have hl' : heapXmaxIsLockedOnly tup = heapXmaxIsLockedOnly tup' :=
      Bool.eq_iff_iff.mpr (hl.trans (hr.locked.lock_only hm).symm)
    rw [updateXid, updateXid, hl', if_pos hmulti, if_pos hm, hx]
  constructor
  case invalid       => rw [hn.left]; exact fun hf => absurd hf Bool.false_ne_true
  case no_hints      => exact hn.right
  case toReplaceable =>
    constructor
    case aborted  => rw [hu]; exact hr.aborted
    case assigned =>
      have ha := hr.assigned
      rw [xmaxXids, if_pos hm] at ha
      rwa [xmaxXids_joined h]
    case locked   =>
      constructor
      case lock_only => rw [hx]; exact fun _ => hl
      case nonempty  => rw [hx]; exact fun _ => hr.locked.nonempty hm
      case unique    => rw [hx]; exact fun _ => hr.locked.unique hm
      case lock_bits => exact fun hnm => absurd hmulti hnm

theorem newVersionXmax_infomask {members : MultiXactMembers} {lockersGone : Bool} :
    (newVersionXmax members lockersGone tup).infomask &&& ~~~heapXmaxBits = 0 := by
  have hl : (heapXmaxLockOnly ||| lockBits .keyShare) &&& ~~~heapXmaxBits = 0 := by decide
  refine newVersionXmax_cases members lockersGone tup (fun new => new.infomask &&& ~~~heapXmaxBits = 0)
    (by decide) (fun _ => hl) fun _ => ?_
  refine getMultiXactIdHintBits_cases _ (fun m => m &&& ~~~heapXmaxBits = 0) (fun _ mode => ?_) fun _ mode => ?_
  · cases mode <;> decide
  · cases mode <;> decide

-- The xmax of the new version of a tuple that may be replaced.
theorem freshXmax_newVersion {lockersGone : Bool} (hr : Replaceable s tup')
    (h : XmaxIs (newVersionXmax s.members lockersGone tup') tup) : FreshXmax s tup := by
  revert h
  refine newVersionXmax_cases s.members lockersGone tup' (fun new => XmaxIs new tup → FreshXmax s tup)
    freshXmax_invalid (fun hm h => freshXmax_locked h ?_) fun hm h => freshXmax_multi h hm hr
  have ha := hr.assigned
  rw [xmaxXids, if_neg hm] at ha
  exact ha _ (List.mem_singleton_self _)

theorem FreshHeader.invariant (hh : FreshHeader xid xmax frozen new tup' s.tup) (hl : 24 ≤ tup'.length)
    (hx : ∃ b, s.phase xid.toNat = .running b) (hf : FreshXmax s s.tup) (hu : s.updaters = [])
    (hlock : s.lockers = []) : s.Invariant := by
  obtain ⟨b₀, hrun⟩ := hx
  have hdel (b context) : ∀ fate ∈ (s.view b context).deletion s.tup, fate = .aborted := by
    intro fate hd
    rw [deletion, deletionFate] at hd
    obtain ⟨u, hup, rfl⟩ := Option.map_eq_some_iff.mp hd
    rw [view_fate, hf.aborted u hup, phaseFate]
  constructor
  case assigned_xmin    => rw [hh.xmin, hrun]; simp
  case assigned_xmax    => exact hf.assigned
  case locked           => exact hf.locked
  case assigned_lockers => rw [hlock]; exact List.forall_mem_nil _
  case lockers          => rw [hlock]; exact List.forall_mem_nil _
  case updaters         => rw [hu]; exact List.forall_mem_nil _
  case truthful         =>
    intro b context
    have hcommitted := hh.hints heapXminCommitted (by decide)
    have hinvalid := hh.hints heapXminInvalid (by decide)
    constructor
    case header        => rw [hh.length]; exact hl
    case not_moved     => exact hh.moved
    case own           => exact fun _ fate hd => .inr (hdel b context fate hd)
    case upgraded      => rw [hf.no_hints.right]; exact fun hf => absurd hf Bool.false_ne_true
    case xmaxCommitted => rw [hf.no_hints.left]; exact fun hf => absurd hf Bool.false_ne_true
    case xmaxInvalid   => exact fun hi => ⟨hf.invalid hi b context, hdel b context⟩
    case xminCommitted =>
      rw [heapTupleHeaderXminCommitted, heapTupleHas_eq_true, hcommitted]
      intro hc
      refine insertionFate_of_frozen ?_
      rw [heapTupleHeaderXminFrozen, decide_eq_true_iff, hh.hints heapXminFrozen (by decide)]
      cases frozen
      case false => exact absurd rfl hc
      case true  => rfl
    case xminInvalid   =>
      rw [heapTupleHeaderXminInvalid, decide_eq_true_iff, hh.hints heapXminFrozen (by decide)]
      cases frozen
      case false => exact fun hc => absurd hc (by decide)
      case true  => exact fun hc => absurd hc (by decide)

theorem Initial.invariant (h : Initial s) : s.Invariant := by
  have hu := h.updaters
  have hlock := h.lockers
  have ht := h.tuple
  generalize htup : s.tup = t at ht
  cases ht
  case inserted tup xid cid frozen hx hl =>
    have hh := @freshHeader_inserted xid cid frozen tup hl
    rw [←htup] at hh
    exact FreshHeader.invariant hh hl hx (freshXmax_invalid hh.toXmaxIs) hu hlock
  case updated old tup xid cid xmax lockersGone hx hl hr hxm =>
    have hh := @freshHeader_updated xid xmax cid _ tup hl hxm newVersionXmax_infomask
    rw [←htup] at hh
    exact FreshHeader.invariant hh hl hx (freshXmax_newVersion hr hh.toXmaxIs) hu hlock

end RowVersion
