import PgTde.Prune.Recryption
import PgTde.Prune.Theorems.Compactify
import PgTde.Prune.Theorems.Relocate

open Cint

namespace Platform

variable {P : Platform} {bn : Nat} {key : Block} {stack : Memory}

section

variable {s : Compaction} {items : List ItemIdCompactData}

theorem traceRecryptPending_result {buf : Memory} {len : Nat} :
    (P.traceRecryptPending bn key buf s len).result = P.recryptPending bn key buf s len := by
  rw [traceRecryptPending, recryptPending]
  split <;> rfl

theorem traceMoveTuples_result :
    (P.traceMoveTuples bn key items s).result = P.moveTuples bn key items s := by
  induction items generalizing s
  case nil                => rfl
  case cons item items hi =>
    simp only [traceMoveTuples, moveTuples, Traced.bind_result, traceRecryptPending_result, hi]

theorem traceMoveScratchTuples_result :
    (P.traceMoveScratchTuples bn key items s).result = P.moveScratchTuples bn key items s := by
  induction items generalizing s
  case nil                => rfl
  case cons item items hi =>
    simp only [traceMoveScratchTuples, moveScratchTuples, Traced.bind_result, traceRecryptPending_result, hi]

theorem traceFinishPage_result :
    (P.traceFinishPage bn key items s).result = P.finishPage bn key items s := by
  simp only [traceFinishPage, finishPage, Traced.bind_result, traceMoveTuples_result, traceRecryptPending_result]
  rfl

theorem traceFinishScratch_result :
    (P.traceFinishScratch bn key items s).result = P.finishScratch bn key items s := by
  simp only [traceFinishScratch, finishScratch, Traced.bind_result, traceMoveScratchTuples_result,
    traceRecryptPending_result]
  rfl

end

theorem traceCompactifyTuples_result {items : List ItemIdCompactData} {page : Page} {presorted : Bool} :
    (P.traceCompactifyTuples bn key stack items page presorted).result =
    P.pgtdeCompactifyTuples bn key stack items page presorted := by
  cases items
  case nil             => rfl
  case cons item items =>
    cases presorted
    case true =>
      simp only [traceCompactifyTuples, if_true, Traced.bind_result, traceFinishPage_result]
      rw [compactify_presorted]
      rfl
    case false =>
      by_cases h : (item :: items).length < page.getMaxOffsetNumber / 4
      case pos =>
        rw [compactify_few h]
        simp only [traceCompactifyTuples, if_pos h, Bool.false_eq_true, if_false, Traced.bind_result,
          traceFinishScratch_result]
        rfl
      case neg =>
        rw [compactify_many h]
        simp only [traceCompactifyTuples, if_neg h, Bool.false_eq_true, if_false, Traced.bind_result,
          traceFinishScratch_result]
        rfl

-- The re-encryptions are those of the function itself.
theorem traceRepairFragmentation_result {page : Page} :
    (P.traceRepairFragmentation bn key stack page).result = P.tdePageRepairFragmentation bn key stack page := by
  simp only [traceRepairFragmentation, tdePageRepairFragmentation]
  by_cases hc : page.pdLower < sizeOfPageHeaderData ∨ page.pdLower > page.pdUpper ∨
      page.pdUpper > page.pdSpecial ∨ page.pdSpecial > blcksz ∨ page.pdSpecial ≠ maxalign page.pdSpecial
  case pos => simp only [if_pos hc]; rfl
  case neg =>
    simp only [if_neg hc, Traced.bind_result, Traced.lift_result]
    cases LineScan.scanItems page 1 page.linp (.init page)
    case error => rfl
    case ok s  =>
      simp only [Outcome.ok_bind]
      by_cases h₀ : s.itemidbase.length = 0
      case pos => simp only [if_pos h₀]; rfl
      case neg =>
        by_cases ht : s.totallen > page.pdSpecial - page.pdLower
        case pos => simp only [if_neg h₀, if_pos ht]; rfl
        case neg => simp only [if_neg h₀, if_neg ht, Traced.bind_result, traceCompactifyTuples_result]; rfl

end Platform

namespace Recryption

variable {r : Recryption} {rs : List Recryption}

-- The re-encryptions up to the first one of undefined behavior.
def performed : List Recryption → List Recryption
  | []      => []
  | r :: rs => if r.Fits then r :: performed rs else [r]

-- The computation performs the re-encryptions `rs`, as far as its behavior is defined, and yields a result
-- with the property `R` then.
structure Performs {α : Type} (rs : List Recryption) (R : α → Prop) (x : Platform.Recrypting α) : Prop where
  trace     : x.trace = performed rs
  ok        : (∀ r ∈ rs, r.Fits) → ∃ a, x.result = .ok a ∧ R a
  undefined : ¬(∀ r ∈ rs, r.Fits) → x.result = .error .undefined

variable {α β : Type} {R : α → Prop} {S : β → Prop} {a : α} {x : Platform.Recrypting α}

theorem Performs.pure (h : R a) : Performs [] R (pure a) where
  trace       := rfl
  ok _        := ⟨a, rfl, h⟩
  undefined h := absurd (fun _ hr => by simp at hr) h

theorem Performs.perform {op : Outcome β} {f : β → Platform.Recrypting α} (hok : r.Fits → ∃ b, op = .ok b)
    (herr : ¬r.Fits → op = .error .undefined) (h : ∀ b, Performs rs R (f b)) :
    Performs (r :: rs) R (Traced.perform r op >>= f) := by
  by_cases hr : r.Fits
  case pos =>
    obtain ⟨b, rfl⟩ := hok hr
    rw [Traced.perform_ok_bind]
    constructor
    case trace     => rw [performed, if_pos hr, (h b).trace]
    case ok        => intro hf; exact (h b).ok fun r' hr' => hf r' (by simp [hr'])
    case undefined =>
      intro hf
      exact (h b).undefined fun hr' => hf (by simpa [hr] using hr')
  case neg =>
    rw [herr hr, Traced.perform_error_bind]
    constructor
    case trace     => rw [performed, if_neg hr]
    case ok        => intro hf; exact absurd (hf r (by simp)) hr
    case undefined => intro _; rfl

theorem Performs.mono {S : α → Prop} (h : Performs rs R x) (hs : ∀ a, R a → S a) : Performs rs S x where
  trace     := h.trace
  ok hf     := (h.ok hf).imp fun a ha => ⟨ha.1, hs a ha.2⟩
  undefined := h.undefined

theorem Performs.bind_pure {f : α → β} (h : Performs rs R x) (hf : ∀ a, R a → S (f a)) :
    Performs rs S (x >>= fun a => Pure.pure (f a)) := by
  by_cases hr : ∀ r ∈ rs, r.Fits
  case pos =>
    obtain ⟨a, ha, hR⟩ := h.ok hr
    rw [Traced.bind_of_ok ha]
    exact ⟨by simp [h.trace], fun _ => ⟨_, rfl, hf a hR⟩, fun hn => absurd hr hn⟩
  case neg =>
    have he := h.undefined hr
    rw [Traced.bind_of_error he]
    exact ⟨h.trace, fun ha => absurd ha hr, fun _ => rfl⟩

end Recryption

namespace Move

-- The re-encryption of each tuple that is moved uses the length of its successor, except for the last one.
def recryptions : List Move → List Recryption
  | []           => []
  | [m]          => [⟨m.src, m.item.len⟩]
  | m :: n :: ms => ⟨m.src, n.item.len⟩ :: recryptions (n :: ms)

end Move

namespace Compaction

-- The part of the loops' state that the control flow depends on, for the pending move `m`.
structure Awaits (m : Move) (s : Compaction) : Prop where
  upper     : s.upper = m.dst
  copyHead  : s.copyHead = m.src
  copyTail  : m.src < s.copyTail
  itemidptr : s.itemidptr = m.item

end Compaction

namespace Platform

variable {P : Platform} {bn : Nat} {key : Block} {stack mem : Memory} {m n : Move} {ms : List Move} {s : Compaction}

theorem recryptTuple_of_fits {r : Recryption} {upper : Nat} (hu : upper ≤ blcksz) (h : r.Fits) :
    ∃ mem', P.recryptTuple bn key mem r.readOffset upper r.len = .ok mem' := by
  have hb : r.readOffset + sizeofHeapTupleHeaderData + uint32 (r.len - sizeofHeapTupleHeaderData) ≤ blcksz := h
  simp only [recryptTuple, if_pos hb]
  exact ⟨_, reEncryptTupleData_eq (by omega) hu (by omega)⟩

theorem recryptTuple_of_not_fits {r : Recryption} {upper : Nat} (h : ¬r.Fits) :
    P.recryptTuple bn key mem r.readOffset upper r.len = .error .undefined := by
  have hb : ¬r.readOffset + sizeofHeapTupleHeaderData + uint32 (r.len - sizeofHeapTupleHeaderData) ≤ blcksz := h
  simp only [recryptTuple, if_neg hb]

-- What a loop leaves, where `m` is the pending move and `ms` are those that follow: the line pointers point to
-- the new places, and the free space ends at the last one of them.
structure Outlines (m : Move) (ms : List Move) (linp : List ItemIdData) (c : Compaction) : Prop where
  linp  : c.linp = Move.repoint ms linp
  upper : (m :: ms).getLast?.map (·.dst) = some c.upper

open Recryption Compaction

-- The pending tuple is re-encrypted, and whatever follows performs the other re-encryptions.
theorem performs_pending {α : Type} {rs : List Recryption} {R : α → Prop} {len : Nat}
    {f : Memory → Recrypting α} (i : s.Awaits m) (hm : m.dst ≤ blcksz) (hf : ∀ mem, Performs rs R (f mem)) :
    Performs (⟨m.src, len⟩ :: rs) R (P.traceRecryptPending bn key mem s len >>= f) := by
  rw [traceRecryptPending, i.copyHead, i.upper, if_pos i.copyTail]
  exact .perform (recryptTuple_of_fits hm) recryptTuple_of_not_fits hf

-- What the two loops have in common. In an iteration the tuple of the move `n` comes next.
structure Continues (m n : Move) (s t : Compaction) : Prop where
  upper    : t.upper = s.upper
  linp     : t.linp = s.linp
  copyTail : t.copyTail = n.src + n.item.alignedlen ∨
    t.copyTail = s.copyTail ∧ m.src = n.src + n.item.alignedlen

theorem Continues.awaits {t : Compaction} (h : Continues m n s t) (i : s.Awaits m)
    (hd : m.dst = n.dst + n.item.alignedlen) (hp : 0 < n.item.alignedlen) : (t.place n.item).Awaits n where
  upper     := by simp [Compaction.place, h.upper, i.upper, hd]
  copyHead  := rfl
  copyTail  := by
    have ht := i.copyTail
    have hc := h.copyTail
    simp only [Compaction.place]
    omega
  itemidptr := rfl

theorem Continues.outlines {t c : Compaction} (h : Continues m n s t) (i : s.Awaits m)
    (hd : m.dst = n.dst + n.item.alignedlen) (ho : Outlines n ms (t.place n.item).linp c) :
    Outlines m (n :: ms) s.linp c where
  linp  := by
    rw [ho.linp, Compaction.place, h.linp, h.upper, i.upper, hd, Nat.add_sub_cancel]
    rfl
  upper := by rw [List.getLast?_cons_cons, ho.upper]

-- The moves of a compaction, each one right below its predecessor.
structure Falling (ms : List Move) : Prop where
  dst_le : ∀ m ∈ ms, m.dst ≤ blcksz
  pos    : ∀ m ∈ ms, 0 < m.item.alignedlen
  chain  : ms.IsChain fun m n => m.dst = n.dst + n.item.alignedlen

theorem Falling.tail (h : Falling (m :: ms)) : Falling ms where
  dst_le n hn := h.dst_le n (by simp [hn])
  pos n hn    := h.pos n (by simp [hn])
  chain       := h.chain.of_cons

theorem traceFinishPage_performs (i : s.Awaits m) (hm : Falling (m :: ms)) :
    Performs (Move.recryptions (m :: ms)) (Outlines m ms s.linp)
      (P.traceFinishPage bn key (ms.map (·.item)) s) := by
  induction ms generalizing m s
  case nil =>
    simp only [List.map_nil, traceFinishPage, traceMoveTuples, pure_bind, i.itemidptr]
    exact performs_pending i (hm.dst_le m (by simp)) fun mem => .pure ⟨rfl, by simp [i.upper]⟩
  case cons n ms hi =>
    have hd : m.dst = n.dst + n.item.alignedlen := (List.isChain_cons_cons.mp hm.chain).1
    simp only [List.map_cons, traceFinishPage, traceMoveTuples, bind_assoc]
    refine performs_pending i (hm.dst_le m (by simp)) fun mem => ?_
    have hc : Continues m n s
        (if s.copyHead ≠ n.item.itemoff + n.item.alignedlen ∧ s.copyHead < s.copyTail then
          { s with
            mem      := mem.copy s.upper mem s.copyHead (s.copyTail - s.copyHead)
            copyTail := n.item.itemoff + n.item.alignedlen }
        else
          { s with mem }) := by
      have ht := i.copyTail
      rw [i.copyHead]
      split
      case isTrue    => exact ⟨rfl, rfl, .inl rfl⟩
      case isFalse h => exact ⟨rfl, rfl, .inr ⟨rfl, by_contra fun hn => h ⟨hn, ht⟩⟩⟩
    exact (hi (hc.awaits i hd (hm.pos n (by simp))) hm.tail).mono fun _ => hc.outlines i hd

theorem traceFinishScratch_performs (i : s.Awaits m) (hm : Falling (m :: ms)) :
    Performs (Move.recryptions (m :: ms)) (Outlines m ms s.linp)
      (P.traceFinishScratch bn key (ms.map (·.item)) s) := by
  induction ms generalizing m s
  case nil =>
    simp only [List.map_nil, traceFinishScratch, traceMoveScratchTuples, pure_bind, i.itemidptr]
    exact performs_pending i (hm.dst_le m (by simp)) fun mem => .pure ⟨rfl, by simp [i.upper]⟩
  case cons n ms hi =>
    have hd : m.dst = n.dst + n.item.alignedlen := (List.isChain_cons_cons.mp hm.chain).1
    simp only [List.map_cons, traceFinishScratch, traceMoveScratchTuples, bind_assoc]
    refine performs_pending i (hm.dst_le m (by simp)) fun scratch => ?_
    have hc : Continues m n s
        (if s.copyHead ≠ n.item.itemoff + n.item.alignedlen then
          { s with
            scratch
            mem      := s.mem.copy s.upper scratch s.copyHead (s.copyTail - s.copyHead)
            copyTail := n.item.itemoff + n.item.alignedlen }
        else
          { s with scratch }) := by
      rw [i.copyHead]
      split
      case isTrue    => exact ⟨rfl, rfl, .inl rfl⟩
      case isFalse h => exact ⟨rfl, rfl, .inr ⟨rfl, not_not.mp h⟩⟩
    exact (hi (hc.awaits i hd (hm.pos n (by simp))) hm.tail).mono fun _ => hc.outlines i hd

section

variable {p : Page} {upper : Nat} {item : ItemIdCompactData} {items : List ItemIdCompactData}

theorem start_awaits (hp : 0 < m.item.alignedlen) :
    ((Compaction.start p stack (m.dst + m.item.alignedlen) m.item).place m.item).Awaits m where
  upper     := by simp [Compaction.place, Compaction.start]
  copyHead  := rfl
  copyTail  := Nat.lt_add_of_pos_right hp
  itemidptr := rfl

theorem traceFinishPage_start :
    P.traceFinishPage bn key (item :: items) (.start p stack upper item) =
    P.traceFinishPage bn key items ((Compaction.start p stack upper item).place item) := by
  simp [traceFinishPage, traceMoveTuples, traceRecryptPending, Compaction.start]

theorem traceFinishScratch_start :
    P.traceFinishScratch bn key (item :: items) (.start p stack upper item) =
    P.traceFinishScratch bn key items ((Compaction.start p stack upper item).place item) := by
  simp [traceFinishScratch, traceMoveScratchTuples, traceRecryptPending, Compaction.start]

theorem traceFinishPage_start_nil :
    P.traceFinishPage bn key [] (.start p stack upper item) = pure (.start p stack upper item) := by
  simp [traceFinishPage, traceMoveTuples, traceRecryptPending, Compaction.start]

theorem traceFinishScratch_start_nil :
    P.traceFinishScratch bn key [] (.start p stack upper item) = pure (.start p stack upper item) := by
  simp [traceFinishScratch, traceMoveScratchTuples, traceRecryptPending, Compaction.start]

end

-- What a compaction leaves of the line pointers and of `pd_upper`.
structure Compacted (ms : List Move) (upper : Nat) (p r : Page) : Prop where
  linp    : r.linp = Move.repoint ms p.linp
  upper   : r.pdUpper = upper
  special : r.pdSpecial = p.pdSpecial

section

variable {p : Page} {upper : Nat}

-- No tuple is moved.
theorem finishPage_nil_performs {item : ItemIdCompactData} :
    Performs (Move.recryptions []) (Compacted [] upper p)
      (P.traceFinishPage bn key [] (.start p stack upper item) >>= fun s => pure (s.finish p)) := by
  rw [traceFinishPage_start_nil, pure_bind]
  exact .pure ⟨rfl, rfl, rfl⟩

theorem finishScratch_nil_performs {item : ItemIdCompactData} :
    Performs (Move.recryptions []) (Compacted [] upper p)
      (P.traceFinishScratch bn key [] (.start p stack upper item) >>= fun s => pure (s.finish p)) := by
  rw [traceFinishScratch_start_nil, pure_bind]
  exact .pure ⟨rfl, rfl, rfl⟩

theorem finishPage_performs (hm : Falling (m :: ms)) (hu : (m :: ms).getLast?.map (·.dst) = some upper) :
    Performs (Move.recryptions (m :: ms)) (Compacted (m :: ms) upper p)
      (P.traceFinishPage bn key ((m :: ms).map (·.item)) (.start p stack (m.dst + m.item.alignedlen) m.item) >>=
        fun s => pure (s.finish p)) := by
  rw [List.map_cons, traceFinishPage_start]
  refine (traceFinishPage_performs (start_awaits (hm.pos m (by simp))) hm).bind_pure fun c hc => ?_
  refine ⟨hc.linp.trans ?_, Option.some.inj (hc.upper.symm.trans hu), rfl⟩
  simp [Compaction.place, Compaction.start, Move.repoint]

theorem finishScratch_performs (hm : Falling (m :: ms)) (hu : (m :: ms).getLast?.map (·.dst) = some upper) :
    Performs (Move.recryptions (m :: ms)) (Compacted (m :: ms) upper p)
      (P.traceFinishScratch bn key ((m :: ms).map (·.item)) (.start p stack (m.dst + m.item.alignedlen) m.item) >>=
        fun s => pure (s.finish p)) := by
  rw [List.map_cons, traceFinishScratch_start]
  refine (traceFinishScratch_performs (start_awaits (hm.pos m (by simp))) hm).bind_pure fun c hc => ?_
  refine ⟨hc.linp.trans ?_, Option.some.inj (hc.upper.symm.trans hu), rfl⟩
  simp [Compaction.place, Compaction.start, Move.repoint]

end

end Platform

namespace AcceptedPage

variable {page : AcceptedPage} {P : Platform} {bn : Nat} {key : Block} {stack : Memory} {m : Move} {ms : List Move}
variable {p : Page}

theorem alignedlen_pos {item : ItemIdCompactData} (h : item ∈ page.storage) : 0 < item.alignedlen := by
  obtain ⟨lp, i, -, hs, rfl⟩ := Page.mem_storage.mp h
  have hm := le_maxalign lp.lpLen
  simp only [ItemIdData.hasStorage, decide_eq_true_eq] at hs
  simp only [ItemIdCompactData.ofLp]
  omega

theorem layout_falling : Platform.Falling page.layout.moved := by
  have hm {m : Move} (h : m ∈ page.layout.moved) : m ∈ Move.plan page.pdSpecial page.storage :=
    Page.layout_moves ▸ List.mem_append_right _ h
  have hc : (Move.plan page.pdSpecial page.storage).IsChain (Move.Precedes false) :=
    Move.plan_precedes page.sum_le_special nofun
  constructor
  case dst_le => exact fun m h => Nat.le_trans (Move.dst_le_of_mem_plan (hm h)) page.special_le
  case pos    => exact fun m h => alignedlen_pos (Move.item_mem_of_mem_plan (hm h))
  case chain  => exact (hc.suffix ⟨_, Page.layout_moves⟩).imp fun _ _ h => h.dst

theorem layout_getLast? (hm : page.layout.moved = m :: ms) :
    (m :: ms).getLast?.map (·.dst) = some (page.pdSpecial - (page.storage.map (·.alignedlen)).sum) := by
  have hl := @Page.layout_moves page.toPage
  cases hs : page.storage
  case nil             => simp [hs, hm, Move.plan] at hl
  case cons item items =>
    rw [hs] at hl
    rw [←Move.getLast?_plan, ←hl, hm, List.getLast?_append_of_ne_nil]
    simp

theorem skipInPlace_of_nil {item : ItemIdCompactData} (hp : p.pdSpecial = page.pdSpecial)
    (h : page.layout.moved = [])
    (hm : page.layout.moved = (Move.plan page.pdSpecial page.storage).dropWhile (·.inPlace)) :
    ∃ it, Compaction.skipInPlace p.pdSpecial item page.storage =
      (page.pdSpecial - (page.storage.map (·.alignedlen)).sum, it, []) := by
  rw [hp, Move.skipInPlace_eq page.sum_le_special, ←hm, h]
  exact ⟨_, rfl⟩

theorem skipInPlace_of_cons {item : ItemIdCompactData} (hp : p.pdSpecial = page.pdSpecial)
    (h : page.layout.moved = m :: ms)
    (hm : page.layout.moved = (Move.plan page.pdSpecial page.storage).dropWhile (·.inPlace)) :
    Compaction.skipInPlace p.pdSpecial item page.storage =
    (m.dst + m.item.alignedlen, m.item, (m :: ms).map (·.item)) := by
  rw [hp, Move.skipInPlace_eq page.sum_le_special, ←hm, h]

open Recryption Platform

theorem compactify_performs (hs : page.storage ≠ []) (hp : p.pdSpecial = page.pdSpecial)
    (hl : p.linp.length = page.linp.length) :
    Performs (Move.recryptions page.layout.moved)
      (Compacted page.layout.moved (page.pdSpecial - (page.storage.map (·.alignedlen)).sum) p)
      (P.traceCompactifyTuples bn key stack page.storage p page.presorted) := by
  obtain ⟨item, items, hi⟩ := List.exists_cons_of_ne_nil hs
  have hf := page.layout_falling
  rw [hi, traceCompactifyTuples, ←hi, Page.getMaxOffsetNumber, hl]
  by_cases hpre : page.presorted
  case pos =>
    have hm := Page.layout_of_some (.inl hpre)
    rw [if_pos hpre]
    cases hmv : page.layout.moved
    case nil =>
      obtain ⟨it, hk⟩ := @skipInPlace_of_nil _ _ item hp hmv hm
      simp only [hk]
      exact finishPage_nil_performs
    case cons m ms =>
      simp only [@skipInPlace_of_cons _ _ _ _ item hp hmv hm]
      exact finishPage_performs (hmv ▸ hf) (layout_getLast? hmv)
  case neg =>
    rw [if_neg hpre]
    by_cases hn : page.storage.length < page.linp.length / 4
    case neg =>
      have hm := Page.layout_of_some (.inr (Nat.not_lt.mp hn))
      simp only [if_neg hn]
      cases hmv : page.layout.moved
      case nil =>
        obtain ⟨it, hk⟩ := @skipInPlace_of_nil _ _ item hp hmv hm
        simp only [hk]
        exact finishScratch_nil_performs
      case cons m ms =>
        simp only [@skipInPlace_of_cons _ _ _ _ item hp hmv hm]
        exact finishScratch_performs (hmv ▸ hf) (layout_getLast? hmv)
    case pos =>
      have hm := Page.layout_of_few (not_or.mpr ⟨hpre, Nat.not_le.mpr hn⟩)
      have hsum := page.sum_le_special
      rw [hi, Move.plan] at hm
      rw [hi, List.map_cons, List.sum_cons] at hsum
      have hu : page.pdSpecial - item.alignedlen + item.alignedlen = p.pdSpecial := by omega
      have h := @finishScratch_performs P bn key
        (page.storage.foldl (fun m i => m.copy i.itemoff p.mem i.itemoff i.alignedlen) stack) _ _ p _
        (hm ▸ hf) (layout_getLast? hm)
      simp only [List.map_cons, Move.map_item_plan, hu] at h
      simp only [if_pos hn]
      rw [hm]
      rw [hi] at h ⊢
      exact h

-- What `TdePageRepairFragmentation` leaves of the page's header and line pointers, after the scan `s`.
structure Repaired (page : AcceptedPage) (s : LineScan) (r : Page) : Prop where
  linp    : r.linp = (Move.repoint page.layout.moved (page.linp.map LineScan.cleared)).take s.finalusedlp
  upper   : r.pdUpper = page.pdSpecial - (page.storage.map (·.alignedlen)).sum
  special : r.pdSpecial = page.pdSpecial
  hint    : r.pdHasFreeLines = decide (s.nunused - (page.linp.length - s.finalusedlp) > 0)

theorem repair_performs (P : Platform) (bn : Nat) (key : Block) (stack : Memory)
    (hl : page.storage.length ≤ maxHeapTuplesPerPage) :
    ∃ s, page.Collected s ∧
      Performs (Move.recryptions page.layout.moved) (page.Repaired s)
        (P.traceRepairFragmentation bn key stack page.toPage) := by
  obtain ⟨s, he, hs⟩ := page.scanItems_eq hl
  have ht : ¬s.totallen > page.pdSpecial - page.pdLower := Nat.not_lt.mpr (hs.totallen ▸ page.total_le)
  refine ⟨s, hs, ?_⟩
  simp only [traceRepairFragmentation, if_neg page.checks_pass, he, Traced.lift_ok, pure_bind, hs.itemidbase,
    if_neg ht, hs.presorted, List.length_eq_zero_iff]
  by_cases h₀ : page.storage = []
  case pos =>
    have hm : page.layout.skipped ++ page.layout.moved = [] := by rw [Page.layout_moves, h₀, Move.plan]
    rw [(List.append_eq_nil_iff.mp hm).2]
    simp only [if_pos h₀]
    exact .pure ⟨by simp [hs.linp, (List.append_eq_nil_iff.mp hm).2, Move.repoint], by simp [h₀], rfl, rfl⟩
  case neg =>
    have h := @compactify_performs page P bn key stack { page.toPage with linp := s.linp } h₀ rfl
      (by simp [hs.linp])
    rw [if_neg h₀]
    refine Performs.bind_pure h fun r hr => ?_
    exact ⟨by rw [hr.linp, hs.linp], hr.upper, hr.special, rfl⟩

theorem repair_undefined (P : Platform) (bn : Nat) (key : Block) (stack : Memory)
    (hl : maxHeapTuplesPerPage < page.storage.length) :
    P.tdePageRepairFragmentation bn key stack page.toPage = .error .undefined := by
  simp only [tdePageRepairFragmentation, if_neg page.checks_pass, page.scanItems_undefined hl, Outcome.error_bind]

end AcceptedPage
