import PgTde.Encryption.Theorems.Tuple
import PgTde.Page.AddItem
import PgTde.Page.Heap

open Cint

section

variable {k : Keystream} {bn a : Nat} {item : List UInt8}

-- The bytes of a tuple that the encrypting wrapper has stored.
def encryptedItem (k : Keystream) (bn a : Nat) (item : List UInt8) : List UInt8 :=
  item.take (itemHoff item) ++ k.xor (offsetInFile bn a) (item.drop (itemHoff item))

theorem length_encryptedItem : (encryptedItem k bn a item).length = item.length := by
  rw [encryptedItem, List.length_append, Keystream.length_xor, ←List.length_append, List.take_append_drop]

theorem itemHoff_encryptedItem (hf : sizeofHeapTupleHeader ≤ itemHoff item)
    (hh : itemHoff item ≤ item.length) : itemHoff (encryptedItem k bn a item) = itemHoff item := by
  simp only [sizeofHeapTupleHeader] at hf
  have hl : 22 < (item.take (itemHoff item)).length := by
    rw [List.length_take]
    omega
  rw [itemHoff, encryptedItem, List.getElem?_append_left hl, List.getElem?_take_of_lt (by omega)]
  rfl

theorem drop_encryptedItem (hh : itemHoff item ≤ item.length) :
    (encryptedItem k bn a item).drop (itemHoff item) = k.xor (offsetInFile bn a) (item.drop (itemHoff item)) :=
  List.drop_left' (List.length_take_of_le hh)

end

namespace Platform

variable {P : Platform} {add : PageAddItem} {key : Block} {bn : Nat} {page : Page}
variable {item : List UInt8} {token : Bool} {r : Page}

-- A tuple that is about to be added to a page.
structure Addable (page : Page) (item : List UInt8) : Prop where
  upper_le : page.pdUpper ≤ blcksz
  size_le  : item.length ≤ blcksz
  header   : sizeofHeapTupleHeaderData ≤ itemHoff item
  hoff_le  : itemHoff item ≤ item.length

theorem Addable.size_le' (ha : Addable page item) : item.length ≤ 2 ^ 30 :=
  Nat.le_trans ha.size_le (by decide)

-- The page with the tuple's data encrypted in its place. `PageAddItemExtended` may have failed.
def encrypted (k : Keystream) (bn : Nat) (item : List UInt8) (p : Page) : Page :=
  { p with
    mem := p.mem.write (p.pdUpper + itemHoff item)
      (k.xor (offsetInFile bn p.pdUpper) (item.drop (itemHoff item))) }

theorem pgTdePageAddItemExtended_eq {run : Page → List UInt8 → Page × Nat} (hs : item.length ≤ 2 ^ 30)
    (hh : itemHoff item ≤ item.length) (hu : (run page item).1.pdUpper ≤ blcksz) :
    P.pgTdePageAddItemExtended run key bn page item =
    .ok (encrypted (P.keystream key) bn item (run page item).1, (run page item).2) := by
  have hl : uint32 ((item.length : Int) - itemHoff item) = item.length - itemHoff item := by
    rw [uint32_of_lt] <;> omega
  have ht : (item.drop (itemHoff item)).take (item.length - itemHoff item) =
      item.drop (itemHoff item) := by
    rw [List.take_of_length_le]
    simp
  have hn : ¬item.length < itemHoff item + (item.length - itemHoff item) := by omega
  simp only [pgTdePageAddItemExtended, hl, if_neg hn, ht]
  rw [encryptPageItem_eq hu (by simp; omega), Outcome.ok_bind]
  rfl

-- The bytes of a tuple on a page, once it has been put there.
structure Put (P : Platform) (key : Block) (bn : Nat) (page : Page) (item : List UInt8) (r : Page) :
    Prop where
  upper  : r.pdUpper = page.pdUpper - maxalign item.length
  space  : maxalign item.length ≤ page.pdUpper
  header : ∀ i, sizeofHeapTupleHeader ≤ i → i < itemHoff item →
    r.mem (r.pdUpper + i) = item[i]?.getD 0
  data   : r.mem.read (r.pdUpper + itemHoff item) (item.length - itemHoff item) =
    (P.keystream key).xor (offsetInFile bn r.pdUpper) (item.drop (itemHoff item))
  above  : ∀ a ≥ page.pdUpper, r.mem a = page.mem a

theorem put_encrypted {p : Page} {off : Nat} (ha : Addable page item) (hs : page.Stored item p off) :
    Put P key bn page item (encrypted (P.keystream key) bn item p) where
  upper  := hs.upper
  space  := hs.space
  header := by
    intro i hi hh
    have hl := ha.hoff_le
    have hb := congrArg (·[i]?) hs.bytes
    simp only [Memory.getElem?_read (show i < item.length by omega)] at hb
    simp only [encrypted]
    rw [Memory.write_of_lt (by omega), ←hb]
    rfl
  data   := by
    have h := @Memory.read_write p.mem (p.pdUpper + itemHoff item)
      ((P.keystream key).xor (offsetInFile bn p.pdUpper) (item.drop (itemHoff item)))
    rwa [Keystream.length_xor, List.length_drop] at h
  above  := by
    intro a hge
    have hl := ha.hoff_le
    have hu := hs.upper
    have hsp := hs.space
    have hm := le_maxalign item.length
    simp only [encrypted]
    rw [Memory.write_of_ge (by simp; omega), hs.frame a (.inr (by omega))]

theorem Put.ctid {ctid : List UInt8} (h : Put P key bn page item r) (ha : Addable page item)
    (hl : ctid.length = 6) :
    Put P key bn page item { r with mem := r.mem.write (r.pdUpper + 12) ctid } where
  upper  := h.upper
  space  := h.space
  header := by
    intro i hi hh
    simp only [sizeofHeapTupleHeader] at hi
    rw [←h.header i hi hh]
    exact Memory.write_of_ge (by simp only; omega)
  data   := by
    have hh := ha.header
    simp only [sizeofHeapTupleHeaderData] at hh
    rw [←h.data]
    exact Memory.read_write_disjoint (.inr (by simp only; omega))
  above  := by
    intro a hge
    have hh := ha.header
    have hle := ha.hoff_le
    have hm := le_maxalign item.length
    have hu := h.upper
    have hsp := h.space
    simp only [sizeofHeapTupleHeaderData] at hh
    rw [←h.above a hge]
    exact Memory.write_of_ge (by omega)

-- The page after the tuple has been put there.
def putPage (P : Platform) (add : PageAddItem) (key : Block) (bn : Nat) (page : Page)
    (item : List UInt8) (token : Bool) : Page :=
  let r := encrypted (P.keystream key) bn item (add.run page item).1
  if token then r
  else { r with mem := r.mem.write (r.pdUpper + 12) (itemPointer bn (add.run page item).2) }

theorem pgTdeRelationPutHeapTuple_eq (ha : Addable page item) :
    P.pgTdeRelationPutHeapTuple add key bn page item token =
    if (add.run page item).2 = invalidOffsetNumber then
      .error <| .panic "failed to add tuple to page"
    else
      .ok (putPage P add key bn page item token) := by
  by_cases hoff : (add.run page item).2 = invalidOffsetNumber
  case pos =>
    have hp : (add.run page item).1.pdUpper ≤ blcksz := by
      obtain ⟨b, hr⟩ := add.failed page item hoff
      rw [hr]
      exact ha.upper_le
    rw [pgTdeRelationPutHeapTuple, pgTdePageAddItemExtended_eq ha.size_le' ha.hoff_le hp]
    simp [hoff]
  case neg =>
    have hs := add.stored page item hoff
    have hu : (add.run page item).1.pdUpper ≤ blcksz := by
      have := ha.upper_le
      have := hs.upper
      omega
    have hi : (encrypted (P.keystream key) bn item (add.run page item).1).getItemId
        (add.run page item).2 = some ⟨(add.run page item).1.pdUpper, .normal, item.length⟩ := hs.line
    rw [pgTdeRelationPutHeapTuple, pgTdePageAddItemExtended_eq ha.size_le' ha.hoff_le hu]
    cases token
    case true  => simp [hoff, putPage]
    case false =>
      simp only [Outcome.ok_bind, hoff, Bool.false_eq_true, if_false, hi]
      rfl

theorem put_of_ok (ha : Addable page item)
    (h : P.pgTdeRelationPutHeapTuple add key bn page item token = .ok r) :
    Put P key bn page item r := by
  rw [pgTdeRelationPutHeapTuple_eq ha] at h
  split at h
  case isTrue       => cases h
  case isFalse hoff =>
    have hs := add.stored page item hoff
    cases token
    case true  => exact Except.ok.inj h ▸ put_encrypted ha hs
    case false => exact Except.ok.inj h ▸ (put_encrypted ha hs).ctid ha rfl

end Platform

-- An instance of `PageAddItemExtended`: what it does on a page without free line pointers.
def Page.append (p : Page) (item : List UInt8) : Page × Nat :=
  let upper := p.pdUpper - maxalign item.length
  if p.pdLower + sizeofItemIdData + maxalign item.length ≤ p.pdUpper ∧
      p.linp.length < maxHeapTuplesPerPage then
    ({ p with
        pdUpper := upper
        linp    := p.linp ++ [⟨upper, .normal, item.length⟩]
        mem     := p.mem.write upper item },
      p.linp.length + 1)
  else
    (p, invalidOffsetNumber)

def PageAddItem.append : PageAddItem where
  run    := Page.append
  failed := by
    intro p item h
    rw [Page.append] at h ⊢
    split at h
    case isTrue     => simp [invalidOffsetNumber] at h
    case isFalse hs => exact ⟨p.pdHasFreeLines, by rw [if_neg hs]⟩
  stored := by
    intro p item h
    rw [Page.append] at h ⊢
    split at h
    case isFalse   => exact absurd rfl h
    case isTrue hs =>
      rw [if_pos hs]
      simp only [Page.pdLower, sizeofItemIdData] at hs
      constructor
      case space   => omega
      case upper   => rfl
      case lower   => simp [Page.pdLower, sizeofItemIdData]; omega
      case special => rfl
      case unused  => simp [Page.getItemId]
      case line    => simp [Page.getItemId]
      case lines   =>
        intro i hi
        by_cases h₀ : i = 0
        case pos => simp [Page.getItemId, h₀]
        case neg =>
          simp only [Page.getItemId, h₀, if_false, List.getElem?_append]
          split
          · rfl
          · rw [List.getElem?_eq_none (by simp; omega), List.getElem?_eq_none (by omega)]
      case bytes   => exact Memory.read_write
      case frame   =>
        intro a ha
        cases ha
        case inl ha => exact Memory.write_of_lt ha
        case inr ha => exact Memory.write_of_ge ha
