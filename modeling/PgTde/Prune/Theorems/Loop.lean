import PgTde.Prune.Layout

open Cint

variable {P : Platform} {bn : Nat} {key : Block} {mem mem₀ scratch : Memory}

namespace Move

-- The line pointers after the moves.
def repoint (ms : List Move) (linp : List ItemIdData) : List ItemIdData :=
  ms.foldl (fun linp m => linp.modify m.item.offsetindex ({ · with lpOff := m.dst })) linp

variable {upper : Nat} {item next : ItemIdCompactData} {items : List ItemIdCompactData} {m n : Move}
variable {ms : List Move}

theorem map_item_plan : (plan upper items).map (·.item) = items := by
  induction items generalizing upper
  case nil     => rfl
  case cons hi => simp [plan, hi]

end Move

namespace Platform

variable {copyHead upper len : Nat}

theorem recryptTuple_eq (hl : 24 ≤ len) (hh : copyHead ≤ blcksz) (hu : upper ≤ blcksz)
    (h : copyHead + len ≤ blcksz) :
    P.recryptTuple bn key mem copyHead upper len =
    .ok (mem.mask ((P.keystream key).window (offsetInFile bn copyHead) (offsetInFile bn upper)
      (copyHead + 24) (len - 24))) := by
  simp only [blcksz] at hh hu h
  have hd : uint32 (len - sizeofHeapTupleHeaderData) = len - 24 := by
    simp only [sizeofHeapTupleHeaderData]
    rw [uint32_of_lt] <;> omega
  have hb : copyHead + sizeofHeapTupleHeaderData + (len - 24) ≤ blcksz := by
    simp only [sizeofHeapTupleHeaderData, blcksz]
    omega
  rw [recryptTuple]
  simp only [hd, hb, if_true]
  apply reEncryptTupleData_eq <;> simp only [blcksz] <;> omega

theorem recryptTuple_out_of_bounds (hl : 24 ≤ len) (hm : len ≤ blcksz) (h : blcksz < copyHead + len) :
    P.recryptTuple bn key mem copyHead upper len = .error .undefined := by
  simp only [blcksz] at hm h
  have hd : uint32 (len - sizeofHeapTupleHeaderData) = len - 24 := by
    simp only [sizeofHeapTupleHeaderData]
    rw [uint32_of_lt] <;> omega
  have hb : ¬copyHead + sizeofHeapTupleHeaderData + (len - 24) ≤ blcksz := by
    simp only [sizeofHeapTupleHeaderData, blcksz]
    omega
  rw [recryptTuple]
  simp only [hd, hb, if_false]

end Platform

-- What holds of the items that the compaction of a well-formed page deals with.
structure ItemIdCompactData.Valid (item : ItemIdCompactData) : Prop where
  header  : sizeofHeapTupleHeaderData ≤ item.len
  aligned : item.len ≤ item.alignedlen
  fits    : item.itemoff + item.alignedlen ≤ blcksz

namespace Move

-- What holds of the moves of a compaction. In the presorted case tuples only move up.
structure Valid (presorted : Bool) (m : Move) : Prop extends m.item.Valid where
  dst_le : m.dst ≤ blcksz
  up     : presorted → m.src ≤ m.dst

-- What holds of successive moves.
structure Precedes (presorted : Bool) (m n : Move) : Prop where
  dst    : m.dst = n.dst + n.item.alignedlen
  sorted : presorted → n.src + n.item.alignedlen ≤ m.src

end Move

namespace Compaction

variable {k : Keystream} {presorted : Bool} {before : List (Nat → UInt8)} {m n : Move}
variable {ms : List Move} {s s' r : Compaction}

-- The loops' state between two iterations: the tuple of the move `m` is the one seen last. It waits to
-- be re-encrypted and copied, together with the tuples above it, up to `copy_tail`.
structure Pending (m : Move) (s : Compaction) : Prop where
  upper     : s.upper = m.dst
  copyHead  : s.copyHead = m.src
  copyTail  : m.src + m.item.alignedlen ≤ s.copyTail
  itemidptr : s.itemidptr = m.item

theorem Pending.place (i : s.Pending m) (hd : m.dst = n.dst + n.item.alignedlen)
    (ht : n.src + n.item.alignedlen ≤ s.copyTail) : (s.place n.item).Pending n where
  upper     := by simp [Compaction.place, i.upper, hd]
  copyHead  := rfl
  copyTail  := ht
  itemidptr := rfl

-- The effect of a loop and of the statements behind it, where `m` is the pending move and `ms` are
-- those that follow. The re-encryptions `before` have been executed already on the tuples, which are
-- those of `mem₀` otherwise.
structure Moved (k : Keystream) (bn : Nat) (presorted : Bool) (before : List (Nat → UInt8))
    (m : Move) (ms : List Move) (mem₀ : Memory) (s r : Compaction) : Prop where
  block  : ∀ j < s.copyTail - m.src, r.mem (m.dst + j) = mem₀ (m.src + j) ^^^
    (Keystream.total (before ++ (Move.windows k bn (m :: ms)).take (Move.blockLength (m :: ms)))
      (m.src + j) ^^^
    if presorted then
      Keystream.total ((Move.windows k bn (m :: ms)).drop (Move.blockLength (m :: ms))) (m.dst + j)
    else 0)
  tuples : ∀ p ∈ Move.masks k bn presorted before (m :: ms), ∀ j < p.1.item.alignedlen,
    r.mem (p.1.dst + j) = mem₀ (p.1.src + j) ^^^ p.2 j
  above  : ∀ a ≥ m.dst + (s.copyTail - m.src), r.mem a =
    s.mem a ^^^ if presorted then Keystream.total (Move.windows k bn (m :: ms)) a else 0
  linp   : r.linp = Move.repoint ms s.linp
  upper  : (m :: ms).getLast?.map (·.dst) = some r.upper

-- The tuple of the pending move is the lowest one of its block.
theorem Moved.mk_of_block (i : s.Pending m)
    (hb : ∀ j < s.copyTail - m.src, r.mem (m.dst + j) = mem₀ (m.src + j) ^^^
      (Keystream.total (before ++ (Move.windows k bn (m :: ms)).take (Move.blockLength (m :: ms)))
        (m.src + j) ^^^
      if presorted then
        Keystream.total ((Move.windows k bn (m :: ms)).drop (Move.blockLength (m :: ms))) (m.dst + j)
      else 0))
    (ht : ∀ p ∈ Move.masks k bn presorted (before ++ (Move.windows k bn (m :: ms)).take 1) ms,
      ∀ j < p.1.item.alignedlen, r.mem (p.1.dst + j) = mem₀ (p.1.src + j) ^^^ p.2 j)
    (ha : ∀ a ≥ m.dst + (s.copyTail - m.src), r.mem a =
      s.mem a ^^^ if presorted then Keystream.total (Move.windows k bn (m :: ms)) a else 0)
    (hl : r.linp = Move.repoint ms s.linp) (hu : (m :: ms).getLast?.map (·.dst) = some r.upper) :
    Moved k bn presorted before m ms mem₀ s r where
  block  := hb
  above  := ha
  linp   := hl
  upper  := hu
  tuples := by
    intro p hp j hj
    rw [Move.masks, List.mem_cons] at hp
    cases hp
    case inr hp => exact ht p hp j hj
    case inl hp =>
      subst hp
      have hc := i.copyTail
      exact hb j (by simp only at hj; omega)

-- The tuples of the two moves are adjacent and stay in one block.
theorem Moved.adjacent
    (hr : Moved k bn presorted (before ++ [m.window k bn n]) n ms mem₀ s' r) (i : s.Pending m)
    (h : m.src = n.src + n.item.alignedlen)
    (hd : m.dst = n.dst + n.item.alignedlen) (ht : s'.copyTail = s.copyTail)
    (hl : s'.linp = s.linp.modify n.item.offsetindex ({ · with lpOff := n.dst }))
    (hm : ∀ a ≥ m.dst + (s.copyTail - m.src), s'.mem a =
      s.mem a ^^^ if presorted then m.window k bn n a else 0) :
    Moved k bn presorted before m (n :: ms) mem₀ s r := by
  have hc := i.copyTail
  apply Moved.mk_of_block i
  case hb =>
    intro j hj
    have hb := hr.block (n.item.alignedlen + j) (by omega)
    rw [←Nat.add_assoc, ←Nat.add_assoc, ←hd, ←h] at hb
    simp only [Move.windows, Move.blockLength, h, if_true, List.take_succ_cons, List.drop_succ_cons]
    rw [←h, hb, List.append_assoc, List.singleton_append]
  case ht => exact hr.tuples
  case ha =>
    intro a ha
    rw [hr.above a (by omega), hm a ha]
    cases presorted <;> simp [Move.windows, UInt8.xor_assoc]
  case hl => rw [hr.linp, hl]; rfl
  case hu => rw [←hr.upper]; simp

-- There is a gap below the tuple of the first move, so that its block is moved.
theorem Moved.gap
    (hr : Moved k bn presorted (before ++ [m.window k bn n]) n ms mem₀ s' r) (i : s.Pending m)
    (h : m.src ≠ n.src + n.item.alignedlen)
    (hd : m.dst = n.dst + n.item.alignedlen) (ht : s'.copyTail = n.src + n.item.alignedlen)
    (hl : s'.linp = s.linp.modify n.item.offsetindex ({ · with lpOff := n.dst }))
    (hb : ∀ j < s.copyTail - m.src, s'.mem (m.dst + j) =
      mem₀ (m.src + j) ^^^ Keystream.total (before ++ [m.window k bn n]) (m.src + j))
    (hm : ∀ a ≥ m.dst + (s.copyTail - m.src), s'.mem a =
      s.mem a ^^^ if presorted then m.window k bn n a else 0) :
    Moved k bn presorted before m (n :: ms) mem₀ s r := by
  have hu : ∀ a ≥ m.dst, r.mem a =
      s'.mem a ^^^ if presorted then Keystream.total (Move.windows k bn (n :: ms)) a else 0 :=
    fun a ha => hr.above a (by omega)
  apply Moved.mk_of_block i
  case hb =>
    intro j hj
    rw [hu _ (by omega), hb j hj]
    simp [Move.windows, Move.blockLength, h, UInt8.xor_assoc]
  case ht => exact hr.tuples
  case ha =>
    intro a ha
    rw [hu a (by omega), hm a ha]
    cases presorted <;> simp [Move.windows, UInt8.xor_assoc]
  case hl => rw [hr.linp, hl]; rfl
  case hu => rw [←hr.upper]; simp

-- The tuple of the last move is moved together with its block.
theorem Moved.last (i : s.Pending m)
    (hb : ∀ j < s.copyTail - m.src, r.mem (m.dst + j) =
      mem₀ (m.src + j) ^^^ Keystream.total (before ++ [m.window k bn m]) (m.src + j))
    (hm : ∀ a ≥ m.dst + (s.copyTail - m.src), r.mem a =
      s.mem a ^^^ if presorted then m.window k bn m a else 0)
    (hl : r.linp = s.linp) (hu : r.upper = m.dst) :
    Moved k bn presorted before m [] mem₀ s r := by
  apply Moved.mk_of_block i
  case hb => intro j hj; simp [hb j hj, Move.windows, Move.blockLength]
  case ht => simp [Move.masks]
  case ha => intro a ha; simp [hm a ha, Move.windows]
  case hl => exact hl
  case hu => simp [hu]

end Compaction

namespace Platform

variable (P bn key)

-- The loop over the copies in `scratch`, with the statements that follow it.
def finishScratch (items : List ItemIdCompactData) (s : Compaction) : Outcome Compaction :=
  P.moveScratchTuples bn key items s >>= fun s =>
  P.recryptPending bn key s.scratch s s.itemidptr.len >>= fun scratch =>
  .ok { s with scratch, mem := s.mem.copy s.upper scratch s.copyHead (s.copyTail - s.copyHead) }

-- The loop over the tuples on the page, with the statements that follow it.
def finishPage (items : List ItemIdCompactData) (s : Compaction) : Outcome Compaction :=
  P.moveTuples bn key items s >>= fun s =>
  P.recryptPending bn key s.mem s s.itemidptr.len >>= fun mem =>
  .ok { s with mem := mem.copy s.upper mem s.copyHead (s.copyTail - s.copyHead) }

variable {P bn key} {presorted : Bool} {before : List (Nat → UInt8)} {m n : Move} {ms : List Move}
variable {s : Compaction}

theorem recryptPending_eq (i : s.Pending m) (hm : m.Valid presorted) (hn : n.item.Valid)
    (hb : m.src + n.item.len ≤ blcksz) :
    P.recryptPending bn key mem s n.item.len = .ok (mem.mask (m.window (P.keystream key) bn n)) := by
  have hh := hm.header
  have ha := hm.aligned
  have hf := hm.fits
  have hc := i.copyTail
  simp only [sizeofHeapTupleHeaderData] at hh
  rw [recryptPending, i.copyHead, i.upper, if_pos (by omega),
    recryptTuple_eq hn.header (by omega) hm.dst_le hb]
  rfl

theorem recryptPending_out_of_bounds (i : s.Pending m) (hm : m.item.Valid) (hn : n.item.Valid)
    (hb : blcksz < m.src + n.item.len) :
    P.recryptPending bn key mem s n.item.len = .error .undefined := by
  have hh := hm.header
  have ha := hm.aligned
  have hc := i.copyTail
  have ha' := hn.aligned
  have hf' := hn.fits
  simp only [sizeofHeapTupleHeaderData] at hh
  rw [recryptPending, i.copyHead, i.upper, if_pos (by omega),
    recryptTuple_out_of_bounds hn.header (by omega) hb]

theorem finishScratch_cons {scratch' : Memory} (i : s.Pending m)
    (h : P.recryptPending bn key s.scratch s n.item.len = .ok scratch')
    (items : List ItemIdCompactData) :
    P.finishScratch bn key (n.item :: items) s = P.finishScratch bn key items (Compaction.place
      (if m.src ≠ n.src + n.item.alignedlen then
        { s with
          scratch  := scratch'
          mem      := s.mem.copy m.dst scratch' m.src (s.copyTail - m.src)
          copyTail := n.src + n.item.alignedlen }
      else { s with scratch := scratch' }) n.item) := by
  simp only [finishScratch, moveScratchTuples, h, Outcome.ok_bind, i.copyHead, i.upper]

theorem finishScratch_ok (i : s.Pending m) (hv : ∀ n ∈ m :: ms, n.Valid false)
    (hc : (m :: ms).IsChain (Move.Precedes false)) (hb : ∀ a ∈ Move.reach (m :: ms), a ≤ blcksz)
    (hs : ∀ a, s.scratch a = mem₀ a ^^^ Keystream.total before a) :
    ∃ r, P.finishScratch bn key (ms.map (·.item)) s = .ok r ∧
      Compaction.Moved (P.keystream key) bn false before m ms mem₀ s r := by
  induction ms generalizing m s before
  case nil =>
    have hm := hv m (by simp)
    have he : P.recryptPending bn key s.scratch s m.item.len =
        .ok (s.scratch.mask (m.window (P.keystream key) bn m)) :=
      recryptPending_eq i hm hm.toValid (hb _ (by simp [Move.reach]))
    simp only [finishScratch, moveScratchTuples, List.map_nil, Outcome.ok_bind, i.itemidptr, he]
    refine ⟨_, rfl, ?_⟩
    apply Compaction.Moved.last i
    case hb =>
      intro j hj
      simp only [i.upper, i.copyHead]
      rw [Memory.copy_add hj, Memory.mask_apply, hs, Keystream.total_append]
      simp [UInt8.xor_assoc]
    case hm =>
      intro a ha
      simp only [i.upper, i.copyHead]
      rw [Memory.copy_of_ge (by omega)]
      simp
    case hl => rfl
    case hu => exact i.upper
  case cons n ms hi =>
    have hm := hv m (by simp)
    have hn := hv n (by simp)
    have hp := (List.isChain_cons_cons.mp hc).1
    have he : P.recryptPending bn key s.scratch s n.item.len =
        .ok (s.scratch.mask (m.window (P.keystream key) bn n)) :=
      recryptPending_eq i hm hn.toValid (hb _ (by simp [Move.reach]))
    let s₁ := { s with scratch := s.scratch.mask (m.window (P.keystream key) bn n) }
    have hs₁ : ∀ a, s₁.scratch a =
        mem₀ a ^^^ Keystream.total (before ++ [m.window (P.keystream key) bn n]) a := by
      intro a
      simp [s₁, hs, Keystream.total_append, UInt8.xor_assoc]
    have hi {t : Compaction} (j : t.Pending n) (ht : t.scratch = s₁.scratch) :=
      hi j (fun p hp => hv p (by simp [hp])) (List.isChain_cons_cons.mp hc).2
        (fun a ha => hb a (by simp [Move.reach, ha])) (fun a => ht ▸ hs₁ a)
    have hf := finishScratch_cons i he (ms.map (·.item))
    by_cases h : m.src = n.src + n.item.alignedlen
    case pos =>
      simp only [ne_eq, h, not_true_eq_false, if_false] at hf
      have j : (s₁.place n.item).Pending n :=
        Compaction.Pending.place ⟨i.upper, i.copyHead, i.copyTail, i.itemidptr⟩ hp.dst
          (by have := i.copyTail; simp only [s₁]; omega)
      obtain ⟨r, hr, hr'⟩ := hi j rfl
      refine ⟨r, hf ▸ hr, hr'.adjacent i h hp.dst rfl ?hl ?hm⟩
      case hl => simp [Compaction.place, s₁, i.upper, hp.dst]
      case hm => intro a _; simp [Compaction.place, s₁]
    case neg =>
      simp only [ne_eq, h, not_false_eq_true, if_true] at hf
      let s₂ : Compaction :=
        { s₁ with
          mem      := s.mem.copy m.dst s₁.scratch m.src (s.copyTail - m.src)
          copyTail := n.src + n.item.alignedlen }
      have j : (s₂.place n.item).Pending n :=
        ⟨by simp [Compaction.place, s₂, s₁, i.upper, hp.dst], rfl, Nat.le_refl _, rfl⟩
      obtain ⟨r, hr, hr'⟩ := hi j rfl
      refine ⟨r, hf ▸ hr, hr'.gap i h hp.dst rfl ?hl ?hb ?hm⟩
      case hl => simp [Compaction.place, s₂, s₁, i.upper, hp.dst]
      case hb => intro j hj; simp only [Compaction.place, s₂]; rw [Memory.copy_add hj, hs₁]
      case hm => intro a ha; simp only [Compaction.place, s₂]; rw [Memory.copy_of_ge ha]; simp

theorem finishPage_cons {mem' : Memory} (i : s.Pending m)
    (h : P.recryptPending bn key s.mem s n.item.len = .ok mem') (items : List ItemIdCompactData) :
    P.finishPage bn key (n.item :: items) s = P.finishPage bn key items (Compaction.place
      (if m.src ≠ n.src + n.item.alignedlen ∧ m.src < s.copyTail then
        { s with
          mem      := mem'.copy m.dst mem' m.src (s.copyTail - m.src)
          copyTail := n.src + n.item.alignedlen }
      else { s with mem := mem' }) n.item) := by
  simp only [finishPage, moveTuples, h, Outcome.ok_bind, i.copyHead, i.upper]

theorem finishPage_ok (i : s.Pending m) (hv : ∀ n ∈ m :: ms, n.Valid true)
    (hc : (m :: ms).IsChain (Move.Precedes true)) (hb : ∀ a ∈ Move.reach (m :: ms), a ≤ blcksz)
    (hs : ∀ a < s.copyTail, s.mem a = mem₀ a ^^^ Keystream.total before a) :
    ∃ r, P.finishPage bn key (ms.map (·.item)) s = .ok r ∧
      Compaction.Moved (P.keystream key) bn true before m ms mem₀ s r := by
  induction ms generalizing m s before
  case nil =>
    have hm := hv m (by simp)
    have he : P.recryptPending bn key s.mem s m.item.len =
        .ok (s.mem.mask (m.window (P.keystream key) bn m)) :=
      recryptPending_eq i hm hm.toValid (hb _ (by simp [Move.reach]))
    simp only [finishPage, moveTuples, List.map_nil, Outcome.ok_bind, i.itemidptr, he]
    refine ⟨_, rfl, ?_⟩
    apply Compaction.Moved.last i
    case hb =>
      intro j hj
      simp only [i.upper, i.copyHead]
      rw [Memory.copy_add hj, Memory.mask_apply, hs _ (by omega), Keystream.total_append]
      simp [UInt8.xor_assoc]
    case hm =>
      intro a ha
      simp only [i.upper, i.copyHead]
      rw [Memory.copy_of_ge (by omega)]
      simp
    case hl => rfl
    case hu => exact i.upper
  case cons n ms hi =>
    have hm := hv m (by simp)
    have hn := hv n (by simp)
    have hp := (List.isChain_cons_cons.mp hc).1
    have hso := hp.sorted rfl
    have hct := i.copyTail
    have he : P.recryptPending bn key s.mem s n.item.len =
        .ok (s.mem.mask (m.window (P.keystream key) bn n)) :=
      recryptPending_eq i hm hn.toValid (hb _ (by simp [Move.reach]))
    let s₁ := { s with mem := s.mem.mask (m.window (P.keystream key) bn n) }
    have hs₁ : ∀ a < s.copyTail, s₁.mem a =
        mem₀ a ^^^ Keystream.total (before ++ [m.window (P.keystream key) bn n]) a := by
      intro a ha
      simp [s₁, hs a ha, Keystream.total_append, UInt8.xor_assoc]
    have hi {t : Compaction} (j : t.Pending n) (ht : ∀ a < t.copyTail, t.mem a = s₁.mem a)
        (htc : t.copyTail ≤ s.copyTail) :=
      hi j (fun p hp => hv p (by simp [hp])) (List.isChain_cons_cons.mp hc).2
        (fun a ha => hb a (by simp [Move.reach, ha])) (fun a ha => ht a ha ▸ hs₁ a (by omega))
    have hf := finishPage_cons i he (ms.map (·.item))
    by_cases h : m.src = n.src + n.item.alignedlen
    case pos =>
      simp only [ne_eq, h, not_true_eq_false, false_and, if_false] at hf
      have j : (s₁.place n.item).Pending n :=
        Compaction.Pending.place ⟨i.upper, i.copyHead, i.copyTail, i.itemidptr⟩ hp.dst
          (by simp only [s₁]; omega)
      obtain ⟨r, hr, hr'⟩ := hi j (fun _ _ => rfl) (Nat.le_refl _)
      refine ⟨r, hf ▸ hr, hr'.adjacent i h hp.dst rfl ?hl ?hm⟩
      case hl => simp [Compaction.place, s₁, i.upper, hp.dst]
      case hm => intro a _; simp [Compaction.place, s₁]
    case neg =>
      have hh := hm.header
      have ha := hm.aligned
      simp only [sizeofHeapTupleHeaderData] at hh
      rw [if_pos ⟨h, by omega⟩] at hf
      let s₂ : Compaction :=
        { s₁ with
          mem      := s₁.mem.copy m.dst s₁.mem m.src (s.copyTail - m.src)
          copyTail := n.src + n.item.alignedlen }
      have j : (s₂.place n.item).Pending n :=
        ⟨by simp [Compaction.place, s₂, s₁, i.upper, hp.dst], rfl, Nat.le_refl _, rfl⟩
      -- The block is moved up, hence to addresses that only hold tuples moved already.
      have hup := hm.up rfl
      have hlow : ∀ a < n.src + n.item.alignedlen, (s₂.place n.item).mem a = s₁.mem a :=
        fun a ha => Memory.copy_of_lt (by omega)
      obtain ⟨r, hr, hr'⟩ := hi j hlow (by simp only [Compaction.place, s₂]; omega)
      refine ⟨r, hf ▸ hr, hr'.gap i h hp.dst rfl ?hl ?hb ?hm⟩
      case hl => simp [Compaction.place, s₂, s₁, i.upper, hp.dst]
      case hb =>
        intro j hj
        simp only [Compaction.place, s₂]
        rw [Memory.copy_add hj, hs₁ _ (by omega)]
      case hm =>
        intro a ha
        simp only [Compaction.place, s₂]
        rw [Memory.copy_of_ge ha]
        simp [s₁]

theorem finishScratch_undefined (i : s.Pending m) (hv : ∀ n ∈ m :: ms, n.Valid false)
    (hc : (m :: ms).IsChain (Move.Precedes false)) (hb : ∃ a ∈ Move.reach (m :: ms), blcksz < a) :
    P.finishScratch bn key (ms.map (·.item)) s = .error .undefined := by
  induction ms generalizing m s
  case nil =>
    have hm := hv m (by simp)
    have ha := hm.aligned
    have hf := hm.fits
    simp only [Move.reach, List.mem_singleton, exists_eq_left, Move.src] at hb
    omega
  case cons n ms hi =>
    have hm := hv m (by simp)
    have hn := hv n (by simp)
    have hp := (List.isChain_cons_cons.mp hc).1
    by_cases h : m.src + n.item.len ≤ blcksz
    case neg =>
      have he : P.recryptPending bn key s.scratch s n.item.len = .error .undefined :=
        recryptPending_out_of_bounds i hm.toValid hn.toValid (by omega)
      simp [finishScratch, moveScratchTuples, he]
    case pos =>
      simp only [Move.reach, List.mem_cons, exists_eq_or_imp, Nat.not_lt.mpr h, false_or] at hb
      rw [List.map_cons, finishScratch_cons i (recryptPending_eq i hm hn.toValid h)]
      apply hi _ (fun p hp => hv p (by simp [hp])) (List.isChain_cons_cons.mp hc).2 hb
      have hct := i.copyTail
      split
      case isTrue  => exact ⟨by simp [Compaction.place, i.upper, hp.dst], rfl, Nat.le_refl _, rfl⟩
      case isFalse h =>
        exact Compaction.Pending.place (s := { s with scratch := _ })
          ⟨i.upper, i.copyHead, i.copyTail, i.itemidptr⟩ hp.dst (by simp only; omega)

theorem finishPage_undefined (i : s.Pending m) (hv : ∀ n ∈ m :: ms, n.Valid true)
    (hc : (m :: ms).IsChain (Move.Precedes true)) (hb : ∃ a ∈ Move.reach (m :: ms), blcksz < a) :
    P.finishPage bn key (ms.map (·.item)) s = .error .undefined := by
  induction ms generalizing m s
  case nil =>
    have hm := hv m (by simp)
    have ha := hm.aligned
    have hf := hm.fits
    simp only [Move.reach, List.mem_singleton, exists_eq_left, Move.src] at hb
    omega
  case cons n ms hi =>
    have hm := hv m (by simp)
    have hn := hv n (by simp)
    have hp := (List.isChain_cons_cons.mp hc).1
    by_cases h : m.src + n.item.len ≤ blcksz
    case neg =>
      have he : P.recryptPending bn key s.mem s n.item.len = .error .undefined :=
        recryptPending_out_of_bounds i hm.toValid hn.toValid (by omega)
      simp [finishPage, moveTuples, he]
    case pos =>
      simp only [Move.reach, List.mem_cons, exists_eq_or_imp, Nat.not_lt.mpr h, false_or] at hb
      rw [List.map_cons, finishPage_cons i (recryptPending_eq i hm hn.toValid h)]
      apply hi _ (fun p hp => hv p (by simp [hp])) (List.isChain_cons_cons.mp hc).2 hb
      have hct := i.copyTail
      split
      case isTrue  => exact ⟨by simp [Compaction.place, i.upper, hp.dst], rfl, Nat.le_refl _, rfl⟩
      case isFalse h =>
        have hh := hm.header
        have ha := hm.aligned
        simp only [sizeofHeapTupleHeaderData] at hh
        exact Compaction.Pending.place (s := { s with mem := _ })
          ⟨i.upper, i.copyHead, i.copyTail, i.itemidptr⟩ hp.dst (by simp only; omega)

end Platform
