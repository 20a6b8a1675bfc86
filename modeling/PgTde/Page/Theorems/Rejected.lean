import PgTde.Keys.Theorems.Decode
import PgTde.Page.Rejected
import PgTde.Page.Theorems.RoundTrip

namespace AddItemCall

variable {c : AddItemCall} {key : Block} {e : Fault} {p : Page}

-- The space that an item takes is not free any more.
theorem not_same_added (h : c.added.2 ≠ invalidOffsetNumber) : ¬c.added.1.Same c.page := by
  intro hs
  have hu := (c.add.stored _ _ _ _ h).upper_eq
  have hm := le_maxalign c.item.bytes.length
  have hf := c.item.fixed
  have hl := c.item.hoff_le
  have he : c.added.1.pdUpper = c.page.pdUpper := hs.upper
  simp only [sizeofHeapTupleHeader] at hf
  rw [added] at he
  omega

theorem same_added_iff : c.added.1.Same c.page ↔ c.Rejected where
  mpr h := by rw [h]; exact ⟨rfl, rfl, rfl, rfl, fun _ _ => rfl⟩
  mp h  := by
    by_cases ho : c.added.2 = invalidOffsetNumber
    case neg => exact absurd h (not_same_added ho)
    case pos =>
      obtain ⟨b, hb⟩ := c.add.failed _ _ _ _ ho
      have hb : c.added.1 = { c.page with pdHasFreeLines := b } := hb
      have hh := h.hint
      rw [hb] at hh
      subst hh
      exact Prod.ext hb ho

theorem leaves_iff_of_error (hk : c.key = .error e) (he : e ≠ .undefined) : c.Leaves p ↔ c.added.1 = p := by
  rw [Leaves, run, hk]
  simp [he]

theorem leaves_of_undefined (hk : c.key = .error .undefined) : c.Leaves p := by
  rw [Leaves, run, hk]
  exact .inr rfl

-- The item is encrypted whether it has been added or not.
theorem leaves_iff_of_ok (hk : c.key = .ok key) :
    c.Leaves p ↔ Platform.encrypted (c.platform.keystream key) c.bn c.item.bytes c.added.1 = p := by
  have hu : (c.add.run c.offsetNumber c.flags c.page c.item.bytes).1.pdUpper ≤ blcksz := by
    have hp := Nat.le_trans c.upper_le c.special_le
    by_cases ho : c.added.2 = invalidOffsetNumber
    case pos =>
      obtain ⟨b, hb⟩ := c.add.failed _ _ _ _ ho
      rw [hb]
      exact hp
    case neg =>
      have := (c.add.stored _ _ _ _ ho).upper_eq
      omega
  rw [Leaves, run, hk]
  simp only [Platform.pgTdePageAddItemExtended_eq c.size_le c.item.hoff_le hu]
  simp [added]

theorem leavesPage_of_error (hk : c.key = .error e) (he : e ≠ .undefined) :
    c.LeavesPage ↔ c.Rejected := by
  have hf : c.KeyFails := ⟨e, he, hk⟩
  rw [LeavesPage, ←same_added_iff]
  constructor
  case mp  => intro h; exact h (.inr hf) _ ((leaves_iff_of_error hk he).mpr rfl)
  case mpr => intro h _ p hp; exact (leaves_iff_of_error hk he).mp hp ▸ h

theorem leavesPage_of_undefined (hk : c.key = .error .undefined) : c.LeavesPage ↔ ¬c.Rejected := by
  constructor
  case mp =>
    intro h hr
    have hs := h (.inl hr) { c.page with pdUpper := c.page.pdUpper + 1 } (leaves_of_undefined hk)
    exact Nat.succ_ne_self _ hs.upper
  case mpr =>
    rintro h (hr | ⟨e, he, hf⟩)
    · exact absurd hr h
    · exact absurd (Except.error.inj (hf.symm.trans hk)) he

theorem leavesPage_of_ok (hk : c.key = .ok key) : c.LeavesPage ↔ (c.Rejected → c.HoldsData key) := by
  have hn : ¬c.KeyFails := by
    rintro ⟨e, -, he⟩
    simp [hk] at he
  rw [LeavesPage, or_iff_left hn]
  refine forall_congr' fun hr => ?_
  constructor
  case mp  =>
    intro h
    have hs := h _ ((leaves_iff_of_ok hk).mpr rfl)
    rw [hr] at hs
    exact hs.bytes
  case mpr =>
    intro h p hp
    rw [leaves_iff_of_ok hk, hr] at hp
    exact hp ▸ ⟨rfl, rfl, rfl, rfl, h⟩

-- The exact condition under which a call that does not succeed leaves the page as it was.
theorem leavesPage_iff (c : AddItemCall) : c.LeavesPage ↔ c.Guarded := by
  rw [Guarded]
  cases hk : c.key
  case ok    => exact leavesPage_of_ok hk
  case error e =>
    by_cases he : e = .undefined
    case pos => subst he; exact leavesPage_of_undefined hk
    case neg =>
      rw [leavesPage_of_error hk he]
      cases e
      case undefined => exact absurd rfl he
      case error     => rfl
      case fatal     => rfl
      case panic     => rfl

end AddItemCall

-- A page that a single tuple fills.
def filledPage : Page where
  pdUpper        := 32
  pdSpecial      := blcksz
  pdHasFreeLines := false
  linp           := [⟨32, .normal, 8160⟩]
  mem            := fun a => if a = 54 then 24 else 0

-- A backend whose keys cache holds a key of the relation 16384.
def cachedKeySession : KeySession where
  keyring       := ⟨fun _ => ⟨.ofStr [], ⟨fun _ => 0, 0⟩⟩, 0⟩
  files         := fun _ => none
  wal           := []
  deletes       := ⟨[], []⟩
  tdeRelKeysMap := [⟨16384, .ofStr [], 1, [⟨fun _ => 0, 0, 0, 0⟩]⟩]

-- There is no room for the tuple.
def filledPageCall : AddItemCall where
  platform     := .x86 []
  add          := pageAddItemExtended
  server       := fileServer
  vault        := fileReplies.vault
  session      := cachedKeySession
  rel          := ⟨1663, 5, 16384⟩
  bn           := 0
  page         := filledPage
  item         := shortTuple
  offsetNumber := invalidOffsetNumber
  flags        := ⟨false, true⟩
  lower_le     := by decide
  upper_le     := by decide
  special_le   := by decide
  size_le      := by decide

-- There is room for the tuple, but no key.
def keylessCall : AddItemCall where
  __         := filledPageCall
  rel        := ⟨1663, 5, 16385⟩
  page       := Page.init
  lower_le   := by decide
  upper_le   := by decide
  special_le := by decide

theorem not_leavesPage_filledPageCall : ¬filledPageCall.LeavesPage ∧ ¬keylessCall.LeavesPage := by
  constructor
  case left =>
    rw [@AddItemCall.leavesPage_of_ok _ (fun _ => 0) rfl]
    intro h
    have hb := h rfl 56 (by decide)
    revert hb
    decide
  case right =>
    have hk : keylessCall.key = .error (.fatal "could not open tde key file \"base/5/16385.tde\"") := rfl
    rw [AddItemCall.leavesPage_of_error hk (by simp)]
    intro h
    have ho : keylessCall.added.2 = 0 := congrArg Prod.snd h
    revert ho
    decide
