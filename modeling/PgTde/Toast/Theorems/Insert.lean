import PgTde.Encryption.Theorems.Tuple
import PgTde.Toast.Theorems.Release
import PgTde.Toast.Theorems.Varlena

open Outcome

-- An attribute after its value was pushed out of line.
def ToastAttr.externalized (routines : ToastRoutines) (i : Nat) (attr : ToastAttr) (value : Memory) : ToastAttr :=
  let pointer := routines.pointer i (value.read 0 (Varlena.varhdrsz value))
  { attr with value := some (.copy pointer), ignore := true }

theorem ToastAttr.externalized_congr {routines : ToastRoutines} {i : Nat} {attr : ToastAttr}
    {value value' : Memory} (h : ∀ j < Varlena.varhdrsz value, value' j = value j) :
    attr.externalized routines i value' = attr.externalized routines i value := by
  have hh := Varlena.varhdrsz_congr <| h 0 Varlena.varhdrsz_pos
  have hr : value'.read 0 (Varlena.varhdrsz value) = value.read 0 (Varlena.varhdrsz value) := by
    apply Memory.read_congr
    intro j hj
    rw [Nat.zero_add]
    exact h j hj
  simp only [externalized, hh, hr]

namespace ToastState

variable {P : Platform} {key : Block} {routines : ToastRoutines} {state : ToastState} {i : Nat} {attr : ToastAttr}
variable {datum : ToastDatum}

theorem attr_eq (ha : state.attrs[i]? = some attr) (hd : attr.value = some datum) :
    state.attr i = .ok (attr, datum) := by
  simp [ToastState.attr, ha, hd]

theorem toastTupleExternalize_eq (ha : state.attrs[i]? = some attr) (hd : attr.value = some datum) :
    state.toastTupleExternalize routines i = .ok { state with
      attrs := state.attrs.set i <| attr.externalized routines i (datum.memory state.newtup)
      saved := state.saved ++ [(datum, datum.bytes state.newtup)] } := by
  rw [toastTupleExternalize, attr_eq ha hd]
  rfl

-- Only the header of the value matters for the attribute.
theorem toastTupleExternalize_of_header {value : Memory} (ha : state.attrs[i]? = some attr)
    (hd : attr.value = some datum)
    (hh : ∀ j < Varlena.varhdrsz value, datum.memory state.newtup j = value j) :
    ∃ saved, state.toastTupleExternalize routines i = .ok { state with
      attrs := state.attrs.set i <| attr.externalized routines i value
      saved := saved } :=
  ⟨_, by rw [toastTupleExternalize_eq ha hd, ToastAttr.externalized_congr hh]⟩

-- The data is encrypted where it is, and then the value is pushed out of line.
theorem pgTdeToastTupleExternalize_eq (ha : state.attrs[i]? = some attr) (hd : attr.value = some datum)
    (hw : datum.WellFormed state.newtup) (he : Varlena.isExternal (datum.memory state.newtup) = false) :
    ∃ saved, state.pgTdeToastTupleExternalize P key routines i = .ok { state with
      attrs  := state.attrs.set i <| attr.externalized routines i (datum.memory state.newtup)
      newtup := state.newtup.mask (datum.encryption (P.keystream key) state.newtup)
      saved  := saved } := by
  generalize hv : datum.memory state.newtup = value at *
  have hs : Varlena.varsizeAny value < 2 ^ 30 := Varlena.varsizeAny_lt
  have hc : P.pgTdeCrypt 0
      (value.read (Varlena.varhdrsz value) (Varlena.varsizeAny value - Varlena.varhdrsz value)) key =
      .ok ((P.keystream key).xor 0
        (value.read (Varlena.varhdrsz value) (Varlena.varsizeAny value - Varlena.varhdrsz value))) := by
    apply P.pgTdeCrypt_eq
    · rw [Memory.length_read]; omega
    · rw [Memory.length_read]; omega
  have hwf : Varlena.WellFormed value := hv ▸ hw.left
  simp only [pgTdeToastTupleExternalize, Platform.pgTdeToastTupleExternalize, attr_eq ha hd, ok_bind, hv,
    Varlena.dataSize_eq hwf he, Int.not_ofNat_neg, if_false, Int.toNat_natCast, hc]
  cases datum
  case inTuple off =>
    simp only [writeValue, attr_eq ha hd, ok_bind, pure_eq, ToastDatum.write_encryption hwf hv]
    refine toastTupleExternalize_of_header ?ha hd ?hh
    case ha => exact ha
    case hh =>
      intro j hj
      have hz : (ToastDatum.inTuple off).encryption (P.keystream key) state.newtup (off + j) = 0 := by
        simp only [ToastDatum.encryption, hv]
        exact if_neg (by omega)
      simp only [ToastDatum.memory, Memory.mask_apply, hz, UInt8.xor_zero]
      exact congrFun hv j
  case copy bytes =>
    have hl : Varlena.varsizeAny value = bytes.length := hv ▸ hw.right
    have hn : state.newtup.mask ((ToastDatum.copy bytes).encryption (P.keystream key) state.newtup) =
        state.newtup := by
      funext x
      exact UInt8.xor_zero
    simp only [writeValue, attr_eq ha hd, ok_bind, pure_eq, hn]
    generalize hw' : Memory.write _ _ _ = written
    have hi := List.getElem?_eq_some_iff.mp ha |>.fst
    have hs := @toastTupleExternalize_of_header routines
      (state.setAttr i { attr with value := some (.copy (written.read 0 bytes.length)) }) i
      { attr with value := some (.copy (written.read 0 bytes.length)) } _ value
      (List.getElem?_set_self hi) rfl
    simp only [setAttr, List.set_set] at hs
    apply hs
    intro j hj
    have hj' : j < bytes.length := by
      rw [Varlena.WellFormed, hl] at hwf
      omega
    have hm : Memory.zero.write 0 (written.read 0 bytes.length) j = written j := by
      have ha := @Memory.write_add Memory.zero 0 (written.read 0 bytes.length) j (by simpa using hj')
      rwa [Memory.getElem_read, Nat.zero_add] at ha
    rw [ToastDatum.memory, hm, ←hw', Memory.write_of_lt hj]
    exact congrFun hv j

end ToastState

theorem SameValues.memory_eq {attrs : List ToastAttr} {newtup newtup' : Memory} {attr : ToastAttr}
    {datum : ToastDatum} (h : SameValues attrs newtup newtup') (ha : attr ∈ attrs)
    (hd : attr.value = some datum) :
    ∀ x < (datum.bytes newtup).length, datum.memory newtup' x = datum.memory newtup x := by
  intro x hx
  cases datum
  case inTuple off => exact h.bytes attr ha off hd x hx
  case copy bytes  => rfl

namespace ToastCall

variable {P : Platform} {key : Block} {routines : ToastRoutines} {call : ToastCall routines} {s t : ToastState}
variable {i : Nat} {attr attr' : ToastAttr} {datum : ToastDatum} {k : Keystream}
variable {forCompression forCompression' : Bool}

theorem copy_wellFormed {bytes : List UInt8} (ha : attr ∈ call.attrs) (hd : attr.value = some (.copy bytes)) :
    (ToastDatum.copy bytes).WellFormed call.newtup := by
  obtain ⟨values, old, hp⟩ : ∃ values old, routines.init call.newtup values old = (call.attrs, call.hasNulls) := by
    obtain ⟨values, -, hp⟩ := bind_eq_ok_iff.mp call.prepared
    cases ho : call.oldtup
    case none =>
      rw [ho] at hp
      exact ⟨values, _, Except.ok.inj hp⟩
    case some =>
      rw [ho] at hp
      obtain ⟨_, -, hp⟩ := bind_eq_ok_iff.mp hp
      exact ⟨values, _, Except.ok.inj hp⟩
  have hi := routines.init_copy call.newtup values old
  rw [hp] at hi
  exact hi attr ha bytes hd

-- The state of PostgreSQL's own toaster, next to that of the one that encrypts: values that were saved out of
-- the tuple are encrypted there.
structure Encrypted (call : ToastCall routines) (k : Keystream) (s t : ToastState) : Prop where
  length     : s.attrs.length = call.attrs.length
  attrs      : t.attrs = s.attrs
  plain      : s.newtup = call.newtup
  oldtup     : t.oldtup = call.oldtup
  newtup     : t.newtup = call.newtup.mask (Keystream.total <| s.saved.map (·.1.encryption k call.newtup))
  wellFormed : ∀ attr ∈ s.attrs, ∀ datum, attr.value = some datum → datum.WellFormed call.newtup
  apart      : ∀ i j : Nat, i ≠ j → ∀ attr attr' : ToastAttr, s.attrs[i]? = some attr → s.attrs[j]? = some attr' →
    ∀ datum datum', attr.value = some datum → attr'.value = some datum' → datum.Apart call.newtup datum'
  unsaved    : ∀ attr ∈ s.attrs, ∀ datum, attr.value = some datum → ∀ e ∈ s.saved, datum.Apart call.newtup e.1
  savedApart : s.saved.Pairwise fun e e' => e.1.Apart call.newtup e'.1
  savedBytes : ∀ e ∈ s.saved, e.2 = e.1.bytes call.newtup

-- The two states after a loop's body, which leaves one attribute aside for the rest of the loop.
structure Next (call : ToastCall routines) (k : Keystream) (forCompression : Bool) (i : Nat) (s s' t' : ToastState) :
    Prop where
  encrypted : call.Encrypted k s' t'
  setAside  : ∃ attr, s'.attrs = s.attrs.set i attr ∧ ¬attr.Candidate call.newtup forCompression

-- The attribute may still be pushed out of line.
structure Compressed (call : ToastCall routines) (k : Keystream) (i : Nat) (s s' t' : ToastState) : Prop extends
    call.Next k true i s s' t' where
  candidate : ∃ attr, s'.attrs[i]? = some attr ∧ attr.Candidate call.newtup false

namespace Encrypted

theorem init : call.Encrypted k
    { attrs := call.attrs, newtup := call.newtup, oldtup := call.oldtup, saved := [] }
    { attrs := call.attrs, newtup := call.newtup, oldtup := call.oldtup, saved := [] } where
  length                    := rfl
  attrs                     := rfl
  plain                     := rfl
  oldtup                    := rfl
  newtup                    := by funext x; exact UInt8.xor_zero.symm
  wellFormed attr ha d hd   := by
    cases d
    case inTuple off => exact call.inTuple attr ha off hd
    case copy bytes  => exact call.copy_wellFormed ha hd
  apart                     := call.apart
  unsaved _ _ _ _ _ he      := absurd he List.not_mem_nil
  savedApart                := .nil
  savedBytes _ he           := absurd he List.not_mem_nil

-- The values that are left are the same to both of them.
theorem unchanged (h : call.Encrypted k s t) (ha : attr ∈ s.attrs) {off x : Nat}
    (hv : attr.value = some (.inTuple off)) (hx : x < ((ToastDatum.inTuple off).bytes call.newtup).length) :
    t.newtup (off + x) = call.newtup (off + x) := by
  rw [h.newtup, Memory.mask_apply, Keystream.total_eq_zero, UInt8.xor_zero]
  intro f hf
  obtain ⟨e, he, rfl⟩ := List.mem_map.mp hf
  exact ToastDatum.encryption_of_apart (h.unsaved attr ha _ hv e he) (by omega) (by omega)

theorem sameValues (h : call.Encrypted k s t) : SameValues s.attrs call.newtup t.newtup where
  wellFormed            := h.wellFormed
  bytes _ ha _ hv _ hx  := h.unchanged ha hv hx

theorem memory_eq (h : call.Encrypted k s t) (ha : attr ∈ s.attrs) (hd : attr.value = some datum) :
    ∀ x < (datum.bytes call.newtup).length, datum.memory t.newtup x = datum.memory call.newtup x :=
  h.sameValues.memory_eq ha hd

-- Where the value of an attribute comes from, once one attribute was changed.
theorem value_of_set {attrs : List ToastAttr} {j : Nat} {attr₁ : ToastAttr} (ha : attrs[i]? = some attr)
    (hv : attr'.value = attr.value ∨ ∃ bytes, attr'.value = some (.copy bytes))
    (hj : (attrs.set i attr')[j]? = some attr₁) (hd : attr₁.value = some datum) :
    (∃ bytes, datum = .copy bytes) ∨ ∃ attr₀, attrs[j]? = some attr₀ ∧ attr₀.value = some datum := by
  by_cases hij : i = j
  case pos =>
    subst hij
    rw [List.getElem?_set_self (List.getElem?_eq_some_iff.mp ha).fst, Option.some.injEq] at hj
    subst hj
    cases hv
    case inl hv => exact .inr ⟨attr, ha, hv ▸ hd⟩
    case inr hv =>
      obtain ⟨bytes, hv⟩ := hv
      exact .inl ⟨bytes, Option.some.inj (hd.symm.trans hv)⟩
  case neg =>
    rw [List.getElem?_set_ne hij] at hj
    exact .inr ⟨attr₁, hj, hd⟩

-- An attribute keeps its value, or gets one that is not in the tuple.
theorem setAttr (h : call.Encrypted k s t) (ha : s.attrs[i]? = some attr)
    (hv : attr'.value = attr.value ∨ ∃ bytes, attr'.value = some (.copy bytes))
    (hw : ∀ datum, attr'.value = some datum → datum.WellFormed call.newtup) :
    call.Encrypted k (s.setAttr i attr') (t.setAttr i attr') where
  length     := by simpa [ToastState.setAttr] using h.length
  attrs      := by simp only [ToastState.setAttr, h.attrs]
  plain      := h.plain
  oldtup     := h.oldtup
  newtup     := h.newtup
  wellFormed := by
    intro attr₁ ha₁ d hd
    cases List.mem_or_eq_of_mem_set ha₁
    case inl ha₁ => exact h.wellFormed attr₁ ha₁ d hd
    case inr ha₁ =>
      subst ha₁
      exact hw d hd
  apart      := by
    intro i₁ j₁ hij attr₁ attr₂ ha₁ ha₂ d₁ d₂ hd₁ hd₂
    obtain ⟨bytes, rfl⟩ | ⟨attr₁, ha₁, hd₁⟩ := value_of_set ha hv ha₁ hd₁
    · exact ToastDatum.copy_apart
    obtain ⟨bytes, rfl⟩ | ⟨attr₂, ha₂, hd₂⟩ := value_of_set ha hv ha₂ hd₂
    · exact ToastDatum.apart_copy
    exact h.apart i₁ j₁ hij attr₁ attr₂ ha₁ ha₂ d₁ d₂ hd₁ hd₂
  unsaved    := by
    intro attr₁ ha₁ d hd e he
    obtain ⟨j, hj⟩ := List.mem_iff_getElem?.mp ha₁
    obtain ⟨bytes, rfl⟩ | ⟨attr₁, hj, hd⟩ := value_of_set ha hv hj hd
    · exact ToastDatum.copy_apart
    exact h.unsaved attr₁ (List.mem_of_getElem? hj) d hd e he
  savedApart := h.savedApart
  savedBytes := h.savedBytes

-- No attribute refers to a value any more that was replaced by one outside of the tuple.
theorem apart_of_set {bytes : List UInt8} (h : call.Encrypted k s t) (ha : s.attrs[i]? = some attr)
    (hd : attr.value = some datum) (hv : attr'.value = some (.copy bytes)) :
    ∀ attr₁ ∈ (s.setAttr i attr').attrs, ∀ datum', attr₁.value = some datum' →
      datum'.Apart call.newtup datum := by
  intro attr₁ ha₁ datum' hd₁
  obtain ⟨j, hj⟩ := List.mem_iff_getElem?.mp ha₁
  by_cases hij : i = j
  case pos =>
    subst hij
    rw [ToastState.setAttr, List.getElem?_set_self (List.getElem?_eq_some_iff.mp ha).fst] at hj
    rw [←Option.some.inj hj, hv] at hd₁
    rw [←Option.some.inj hd₁]
    exact ToastDatum.copy_apart
  case neg =>
    rw [ToastState.setAttr, List.getElem?_set_ne hij] at hj
    exact h.apart j i (Ne.symm hij) attr₁ attr hj ha datum' datum hd₁ hd

-- A value that no attribute refers to any more is saved.
theorem save (h : call.Encrypted k s t) {saved : List (ToastDatum × List UInt8)}
    (hu : ∀ attr ∈ s.attrs, ∀ datum', attr.value = some datum' → datum'.Apart call.newtup datum)
    (hs : ∀ e ∈ s.saved, datum.Apart call.newtup e.1) :
    call.Encrypted k { s with saved := s.saved ++ [(datum, datum.bytes call.newtup)] }
      { t with newtup := t.newtup.mask (datum.encryption k call.newtup), saved := saved } where
  length     := h.length
  attrs      := h.attrs
  plain      := h.plain
  oldtup     := h.oldtup
  newtup     := by
    funext x
    simp [h.newtup, Keystream.total_append, UInt8.xor_assoc]
  wellFormed := h.wellFormed
  apart      := h.apart
  unsaved    := by
    intro attr ha datum' hd e he
    cases List.mem_append.mp he
    case inl he => exact h.unsaved attr ha datum' hd e he
    case inr he =>
      rw [List.mem_singleton.mp he]
      exact hu attr ha datum' hd
  savedApart := by
    rw [List.pairwise_append]
    refine ⟨h.savedApart, List.pairwise_singleton _ _, ?_⟩
    intro e he e' he'
    rw [List.mem_singleton.mp he']
    exact (hs e he).symm
  savedBytes := by
    intro e he
    cases List.mem_append.mp he
    case inl he => exact h.savedBytes e he
    case inr he => rw [List.mem_singleton.mp he]

-- An attribute that the loops choose has a value, at the same place for both of them.
theorem attr_eq (h : call.Encrypted k s t) (ha : s.attrs[i]? = some attr) (hd : attr.value = some datum) :
    s.attr i = .ok (attr, datum) ∧ t.attr i = .ok (attr, datum) :=
  ⟨ToastState.attr_eq ha hd, ToastState.attr_eq (h.attrs ▸ ha) hd⟩

theorem bytes_eq (h : call.Encrypted k s t) (ha : s.attrs[i]? = some attr) (hd : attr.value = some datum) :
    datum.bytes s.newtup = datum.bytes call.newtup ∧ datum.bytes t.newtup = datum.bytes call.newtup := by
  have hm := List.mem_of_getElem? ha
  exact ⟨by rw [h.plain], ToastDatum.bytes_congr (h.wellFormed attr hm datum hd) (h.memory_eq hm hd)⟩

-- An attribute that was marked as incompressible.
theorem compressed_incompressible (h : call.Encrypted k s t) (ha : s.attrs[i]? = some attr)
    (hc : attr.Candidate call.newtup true) :
    call.Compressed k i s (s.setAttr i { attr with incompressible := true })
      (t.setAttr i { attr with incompressible := true }) where
  encrypted := by
    apply h.setAttr ha
    case hv => exact .inl rfl
    case hw => exact h.wellFormed attr (List.mem_of_getElem? ha)
  setAside  := ⟨_, rfl, fun hn => Bool.noConfusion <| hn.compressible rfl⟩
  candidate := by
    refine ⟨_, List.getElem?_set_self (List.getElem?_eq_some_iff.mp ha).fst, ?_⟩
    constructor
    case notIgnored    => exact hc.notIgnored
    case hasValue      => exact hc.hasValue
    case notExternal   => exact hc.notExternal
    case compressible  => exact (Bool.noConfusion ·)
    case notCompressed => exact (Bool.noConfusion ·)

-- An attribute that got a compressed value.
theorem compressed_copy {bytes : List UInt8} {size : Nat} (h : call.Encrypted k s t)
    (ha : s.attrs[i]? = some attr) (hc : attr.Candidate call.newtup true)
    (hw : (ToastDatum.copy bytes).WellFormed call.newtup)
    (hb : Varlena.isCompressed ((ToastDatum.copy bytes).memory call.newtup) = true) :
    call.Compressed k i s (s.setAttr i { attr with value := some (.copy bytes), taiSize := size })
      (t.setAttr i { attr with value := some (.copy bytes), taiSize := size }) where
  encrypted := by
    apply h.setAttr ha
    case hv => exact .inr ⟨bytes, rfl⟩
    case hw =>
      intro d hd
      rwa [←Option.some.inj hd]
  setAside  := ⟨_, rfl, fun hn => Bool.noConfusion <| hb.symm.trans <| hn.notCompressed rfl _ rfl⟩
  candidate := by
    refine ⟨_, List.getElem?_set_self (List.getElem?_eq_some_iff.mp ha).fst, ?_⟩
    constructor
    case notIgnored    => exact hc.notIgnored
    case hasValue      => exact ⟨_, rfl⟩
    case notExternal   =>
      intro d hd
      rw [←Option.some.inj hd]
      exact Varlena.isExternal_of_isCompressed hb
    case compressible  => exact (Bool.noConfusion ·)
    case notCompressed => exact (Bool.noConfusion ·)

theorem tryCompression_agree (h : call.Encrypted k s t) (ha : s.attrs[i]? = some attr)
    (hc : attr.Candidate call.newtup true) :
    Agree (call.Compressed k i s) (s.toastTupleTryCompression routines i)
      (t.toastTupleTryCompression routines i) := by
  obtain ⟨datum, hd⟩ := hc.hasValue
  obtain ⟨hs, ht⟩ := h.attr_eq ha hd
  obtain ⟨hbs, hbt⟩ := h.bytes_eq ha hd
  simp only [ToastState.toastTupleTryCompression, hs, ht, hbs, hbt, ok_bind, pure_eq]
  cases hb : routines.compress i (datum.bytes call.newtup)
  case none       => exact agree_ok.mpr <| h.compressed_incompressible ha hc
  case some bytes =>
    obtain ⟨hw, hb⟩ := routines.compressed call.newtup i _ _ hb
    exact agree_ok.mpr <| h.compressed_copy ha hc hw hb

theorem compressOrSkip_agree (h : call.Encrypted k s t) (ha : s.attrs[i]? = some attr)
    (hc : attr.Candidate call.newtup true) :
    Agree (call.Compressed k i s) (compressOrSkip routines s i) (compressOrSkip routines t i) := by
  obtain ⟨datum, hd⟩ := hc.hasValue
  obtain ⟨hs, ht⟩ := h.attr_eq ha hd
  simp only [compressOrSkip, hs, ht, ok_bind, pure_eq]
  split
  case isTrue  => exact h.tryCompression_agree ha hc
  case isFalse => exact agree_ok.mpr <| h.compressed_incompressible ha hc

-- The encryption of a value is the same wherever it is the same.
theorem encryption_eq (h : call.Encrypted k s t) (ha : s.attrs[i]? = some attr) (hd : attr.value = some datum) :
    datum.encryption k t.newtup = datum.encryption k call.newtup := by
  have hm := List.mem_of_getElem? ha
  exact ToastDatum.encryption_congr (h.wellFormed attr hm datum hd) (h.memory_eq hm hd)

theorem externalize_agree (h : call.Encrypted (P.keystream key) s t) (ha : s.attrs[i]? = some attr)
    (hc : attr.Candidate call.newtup forCompression) :
    Agree (call.Next (P.keystream key) forCompression' i s) (s.toastTupleExternalize routines i)
      (t.pgTdeToastTupleExternalize P key routines i) := by
  obtain ⟨datum, hd⟩ := hc.hasValue
  have hm := List.mem_of_getElem? ha
  have hw := h.wellFormed attr hm datum hd
  have hv := h.memory_eq hm hd
  obtain ⟨saved, ht⟩ := ToastState.pgTdeToastTupleExternalize_eq (h.attrs ▸ ha) hd
    (ToastDatum.wellFormed_congr hw hv) (ToastDatum.isExternal_congr hw hv ▸ hc.notExternal datum hd)
  have he : attr.externalized routines i (datum.memory t.newtup) =
      attr.externalized routines i (datum.memory s.newtup) := by
    rw [h.plain]
    apply ToastAttr.externalized_congr
    intro j hj
    exact hv j (by rw [ToastDatum.length_bytes]; exact Nat.lt_of_lt_of_le hj hw.left)
  rw [ht, ToastState.toastTupleExternalize_eq ha hd, agree_ok, he, h.encryption_eq ha hd]
  generalize ha' : attr.externalized routines i (datum.memory s.newtup) = attr'
  have hi : attr'.ignore = true := by rw [←ha']; rfl
  constructor
  case encrypted =>
    have hs : call.Encrypted (P.keystream key) (s.setAttr i attr') (t.setAttr i attr') := by
      apply h.setAttr ha
      case hv => exact .inr ⟨_, by rw [←ha']; rfl⟩
      case hw =>
        intro d hd
        rw [←ha'] at hd
        rw [←Option.some.inj hd]
        exact routines.pointer_wf _ _ _
    have hb : datum.bytes s.newtup = datum.bytes call.newtup := by rw [h.plain]
    rw [hb]
    refine hs.save ?hu ?hs
    case hs => exact h.unsaved attr hm datum hd
    case hu => exact h.apart_of_set ha hd (by rw [←ha']; rfl)
  case setAside  =>
    refine ⟨attr', rfl, ?_⟩
    intro hn
    exact Bool.noConfusion (hi.symm.trans hn.notIgnored)

-- The body of the first loop.
theorem compressOrExternalize_agree {maxDataLen : Nat} (h : call.Encrypted (P.keystream key) s t)
    (ha : s.attrs[i]? = some attr) (hc : attr.Candidate call.newtup true) :
    Agree (call.Next (P.keystream key) true i s)
      (compressOrExternalize (fun state i => state.toastTupleExternalize routines i) routines call.table
        maxDataLen s i)
      (compressOrExternalize (fun state i => state.pgTdeToastTupleExternalize P key routines i) routines
        call.table maxDataLen t i) := by
  apply (h.compressOrSkip_agree ha hc).bind
  intro s' t' hn
  obtain ⟨attr', ha', hc'⟩ := hn.candidate
  obtain ⟨datum, hd⟩ := hc'.hasValue
  obtain ⟨hs, ht⟩ := hn.encrypted.attr_eq ha' hd
  simp only [hs, ht, ok_bind, pure_eq]
  split
  case isFalse => exact agree_ok.mpr hn.toNext
  case isTrue  =>
    obtain ⟨s'', t'', hs, ht, hn'⟩ :=
      @externalize_agree P key routines call s' t' i attr' false true hn.encrypted ha' hc'
    refine ⟨s'', t'', hs, ht, ⟨hn'.encrypted, ?_⟩⟩
    obtain ⟨attr₁, ha₁, -⟩ := hn.setAside
    obtain ⟨attr₂, ha₂, hc₂⟩ := hn'.setAside
    exact ⟨attr₂, by rw [ha₂, ha₁, List.set_set], hc₂⟩

open scoped Classical in
-- The attributes that a loop may still choose.
noncomputable def remaining (newtup : Memory) (forCompression : Bool) (attrs : List ToastAttr) : Nat :=
  attrs.countP fun attr => attr.Candidate newtup forCompression

theorem remaining_le {newtup : Memory} {attrs : List ToastAttr} :
    remaining newtup forCompression attrs ≤ attrs.length :=
  List.countP_le_length

theorem remaining_set_lt {newtup : Memory} {attrs : List ToastAttr} (ha : attrs[i]? = some attr)
    (hc : attr.Candidate newtup forCompression) (hn : ¬attr'.Candidate newtup forCompression) :
    remaining newtup forCompression (attrs.set i attr') < remaining newtup forCompression attrs := by
  obtain ⟨hi, hg⟩ := List.getElem?_eq_some_iff.mp ha
  have hp : 0 < remaining newtup forCompression attrs := by
    rw [remaining, List.countP_pos_iff]
    exact ⟨attr, List.mem_of_getElem? ha, by simpa using hc⟩
  rw [remaining, List.countP_set hi, hg, if_pos (by simpa using hc), if_neg (by simpa using hn)]
  exact Nat.sub_lt hp Nat.one_pos

-- A loop, where the fuel is more than the attributes that it may choose.
theorem round_agree {maxDataLen fuel : Nat} {checkMain : Bool}
    {body body' : ToastState → Nat → Outcome ToastState}
    (hb : ∀ s t i attr, call.Encrypted k s t → s.attrs[i]? = some attr →
      attr.Candidate call.newtup forCompression →
      Agree (call.Next k forCompression i s) (body s i) (body' t i))
    (hf : remaining call.newtup forCompression s.attrs < fuel) (h : call.Encrypted k s t) :
    Agree (call.Encrypted k) (toastRound routines maxDataLen forCompression checkMain body fuel s)
      (toastRound routines maxDataLen forCompression checkMain body' fuel t) := by
  induction fuel generalizing s t
  case zero => exact absurd hf (Nat.not_lt_zero _)
  case succ fuel hi =>
    have hv := h.sameValues
    rw [toastRound, toastRound, h.attrs, h.plain, routines.size_congr _ _ _ hv, routines.find_congr _ _ _ _ _ hv]
    split
    case isFalse => exact agree_ok.mpr h
    case isTrue  =>
      cases hi' : routines.find s.attrs call.newtup forCompression checkMain
      case none   => exact agree_ok.mpr h
      case some i =>
        obtain ⟨attr, ha, hc⟩ := routines.find_candidate _ _ _ _ _ hi'
        apply (hb s t i attr h ha hc).bind
        intro s' t' hn
        obtain ⟨attr', ha', hc'⟩ := hn.setAside
        apply hi _ hn.encrypted
        rw [ha']
        exact Nat.lt_of_lt_of_le (remaining_set_lt ha hc hc') (Nat.le_of_lt_succ hf)

theorem remaining_lt (h : call.Encrypted k s t) :
    remaining call.newtup forCompression s.attrs < call.attrs.length + 1 :=
  Nat.lt_succ_of_le <| h.length ▸ remaining_le

theorem externalRound_agree {maxDataLen : Nat} {checkMain : Bool} (h : call.Encrypted (P.keystream key) s t) :
    Agree (call.Encrypted (P.keystream key))
      (externalRound (fun state i => state.toastTupleExternalize routines i) routines call.table maxDataLen
        checkMain (call.attrs.length + 1) s)
      (externalRound (fun state i => state.pgTdeToastTupleExternalize P key routines i) routines call.table
        maxDataLen checkMain (call.attrs.length + 1) t) := by
  rw [externalRound, externalRound]
  split
  case isTrue  => exact round_agree (fun _ _ _ _ h ha hc => h.externalize_agree ha hc) h.remaining_lt h
  case isFalse => exact agree_ok.mpr h

theorem rounds_agree {hoff : Nat} (h : call.Encrypted (P.keystream key) s t) :
    Agree (call.Encrypted (P.keystream key))
      (toastRounds (fun state i => state.toastTupleExternalize routines i) routines call.table hoff s)
      (toastRounds (fun state i => state.pgTdeToastTupleExternalize P key routines i) routines call.table hoff t) := by
  rw [toastRounds, toastRounds, h.attrs, h.length]
  apply (round_agree (fun _ _ _ _ h ha hc => h.compressOrExternalize_agree ha hc) h.remaining_lt h).bind
  intro s t h
  apply h.externalRound_agree.bind
  intro s t h
  have hc : ∀ s t i attr, call.Encrypted (P.keystream key) s t → s.attrs[i]? = some attr →
      attr.Candidate call.newtup true →
      Agree (call.Next (P.keystream key) true i s) (s.toastTupleTryCompression routines i)
        (t.toastTupleTryCompression routines i) := by
    intro s t i attr h ha hc
    obtain ⟨s', t', hs, ht, hn⟩ := @tryCompression_agree routines call s t i attr _ h ha hc
    exact ⟨s', t', hs, ht, hn.toNext⟩
  apply (round_agree hc h.remaining_lt h).bind
  intro s t h
  exact h.externalRound_agree

end Encrypted

-- The toaster that encrypts goes through the same steps as PostgreSQL's own one.
theorem toastInsertOrUpdate_agree :
    Agree (call.Encrypted (P.keystream key))
      (heapToastInsertOrUpdate routines call.table call.newtup call.newLen call.oldtup)
      (P.pgTdeToastInsertOrUpdate key routines call.table call.newtup call.newLen call.oldtup) := by
  simp only [heapToastInsertOrUpdate, Platform.pgTdeToastInsertOrUpdate, toastInsertOrUpdate, call.prepared,
    ok_bind]
  exact Encrypted.init.rounds_agree

namespace Encrypted

-- The tuple is as it was if no byte of a value in it was changed.
theorem newtup_eq_iff (h : call.Encrypted k s t) :
    t.newtup = call.newtup ↔ ∀ e ∈ s.saved, ∀ x, e.1.encryption k call.newtup x = 0 := by
  have hz := @Keystream.total_eq_zero_iff (s.saved.map (·.1.encryption k call.newtup))
    (List.pairwise_map.mpr <| h.savedApart.imp fun ha => ToastDatum.encryption_apart ha)
  rw [List.forall_mem_map] at hz
  rw [h.newtup, ←hz]
  constructor
  case mp  => intro hm x; exact Keystream.mask_eq_self_iff.mp <| congrFun hm x
  case mpr => intro hm; funext x; exact Keystream.mask_eq_self_iff.mpr <| hm x

end Encrypted

theorem unmodified_iff_newtup {s t : ToastState} (h : call.Encrypted (P.keystream key) s t)
    (ht : P.pgTdeToastInsertOrUpdate key routines call.table call.newtup call.newLen call.oldtup = .ok t) :
    call.Unmodified P key ↔ t.newtup = call.newtup where
  mp  := by
    rintro ⟨final, hf, hn, -⟩
    rwa [Except.ok.inj (hf.symm.trans ht)] at hn
  mpr := by
    intro hn
    exact ⟨t, ht, hn, h.oldtup, t, by rw [hn, h.oldtup, ht], rfl⟩

theorem keystream_of_unmodified {off x : Nat} {bytes : List UInt8} (hu : call.Unmodified P key)
    (hs : call.SavedInPlace off bytes)
    (hx : x + Varlena.varhdrsz ((ToastDatum.inTuple off).memory call.newtup) < bytes.length) :
    P.keystream key x = 0 := by
  obtain ⟨s, t, hp, ht, h⟩ : Agree (call.Encrypted (P.keystream key)) _ _ := call.toastInsertOrUpdate_agree
  obtain ⟨final, hf, he⟩ := hs
  rw [Except.ok.inj (hf.symm.trans hp)] at he
  rw [call.unmodified_iff_newtup h ht, h.newtup_eq_iff] at hu
  have hb : bytes = (ToastDatum.inTuple off).bytes call.newtup := h.savedBytes _ he
  rw [hb, ToastDatum.length_bytes] at hx
  have hz := hu _ he (off + Varlena.varhdrsz ((ToastDatum.inTuple off).memory call.newtup) + x)
  rwa [ToastDatum.encryption_data hx] at hz

-- The tuples are left alone if and only if no value is pushed out of line while it is in the new one, except
-- where the keystream happens to be zero.
theorem unmodified_iff :
    call.Unmodified P key ↔
    ∀ off bytes, call.SavedInPlace off bytes →
      ∀ x, x + Varlena.varhdrsz ((ToastDatum.inTuple off).memory call.newtup) < bytes.length →
        P.keystream key x = 0 where
  mp hu _ _ hs _ hx := call.keystream_of_unmodified hu hs hx
  mpr               := by
    intro hz
    obtain ⟨s, t, hs, ht, h⟩ : Agree (call.Encrypted (P.keystream key)) _ _ := call.toastInsertOrUpdate_agree
    rw [call.unmodified_iff_newtup h ht, h.newtup_eq_iff]
    rintro ⟨datum, bytes⟩ he x
    cases datum
    case copy        => rfl
    case inTuple off =>
      have hb : bytes = (ToastDatum.inTuple off).bytes call.newtup := h.savedBytes _ he
      have hz := hz off bytes ⟨s, hs, he⟩
      rw [hb, ToastDatum.length_bytes] at hz
      exact ToastDatum.encryption_eq_zero hz x

end ToastCall

-- PostgreSQL's functions for a table with one column, of type `text` and with storage EXTERNAL.
def externalColumnAttr (newtup : Memory) (value : Option Nat) : ToastAttr where
  attstorage     := .external
  isnull         := value.isNone
  value          := value.map .inTuple
  taiSize        := (value.map fun off => Varlena.varsizeAny ((ToastDatum.inTuple off).memory newtup)).getD 0
  ignore         := value.isNone
  incompressible := false

def externalColumnSize (newtup : Memory) (attr : ToastAttr) : Nat :=
  (attr.value.map fun datum => Varlena.varsizeAny (datum.memory newtup)).getD 0

def externalColumnFound (newtup : Memory) (forCompression checkMain : Bool) (attr : ToastAttr) : Bool :=
  !attr.ignore && !(forCompression && attr.incompressible) && !checkMain && decide (24 < attr.taiSize) &&
  attr.value.any fun datum => !Varlena.isExternal (datum.memory newtup) &&
    !(forCompression && Varlena.isCompressed (datum.memory newtup))

def savedPointer : List UInt8 :=
  [1, 18] ++ List.replicate 16 0

theorem savedPointer_size : Varlena.varsizeAny (Memory.zero.write 0 savedPointer) = 18 := by
  decide

theorem savedPointer_wellFormed {newtup : Memory} : (ToastDatum.copy savedPointer).WellFormed newtup where
  right := savedPointer_size
  left  := by
    rw [Varlena.WellFormed, ToastDatum.memory, savedPointer_size]
    decide

section

variable {attrs : List ToastAttr} {newtup newtup' : Memory} {forCompression checkMain : Bool} {i : Nat}

theorem externalColumnSize_congr (h : SameValues attrs newtup newtup') :
    (attrs.map (externalColumnSize newtup')).sum = (attrs.map (externalColumnSize newtup)).sum := by
  congr 1
  apply List.map_congr_left
  intro attr ha
  cases hd : attr.value
  case none       => simp only [externalColumnSize, hd, Option.map_none]
  case some datum =>
    have hs := ToastDatum.varsizeAny_congr (h.wellFormed attr ha datum hd) (h.memory_eq ha hd)
    simp only [externalColumnSize, hd, Option.map_some, hs]

theorem externalColumnFound_congr {attr : ToastAttr} (h : SameValues attrs newtup newtup') (ha : attr ∈ attrs) :
    externalColumnFound newtup' forCompression checkMain attr =
    externalColumnFound newtup forCompression checkMain attr := by
  cases hd : attr.value
  case none       => simp only [externalColumnFound, hd, Option.any_none]
  case some datum =>
    have h₀ := ToastDatum.first_congr (h.wellFormed attr ha datum hd) (h.memory_eq ha hd)
    simp only [externalColumnFound, hd, Option.any_some, Varlena.isExternal_congr h₀,
      Varlena.isCompressed_congr h₀]

theorem externalColumnFound_candidate
    (h : attrs.findIdx? (externalColumnFound newtup forCompression checkMain) = some i) :
    ∃ attr, attrs[i]? = some attr ∧ attr.Candidate newtup forCompression := by
  obtain ⟨hi, hf, -⟩ := List.findIdx?_eq_some_iff_getElem.mp h
  refine ⟨attrs[i], List.getElem?_eq_getElem hi, ?_⟩
  generalize attrs[i] = attr at hf
  simp only [externalColumnFound, Bool.and_eq_true, Bool.not_eq_true', Bool.and_eq_false_imp,
    Option.any_eq_true] at hf
  obtain ⟨⟨⟨⟨hi, hc⟩, -⟩, -⟩, datum, hd, he, hn⟩ := hf
  constructor
  case notIgnored    => exact hi
  case hasValue      => exact ⟨datum, hd⟩
  case notExternal   =>
    intro datum' hd'
    rwa [←Option.some.inj (hd.symm.trans hd')]
  case compressible  => exact hc
  case notCompressed =>
    intro hf datum' hd'
    rw [←Option.some.inj (hd.symm.trans hd')]
    exact hn hf

theorem List.findIdx?_congr {α : Type} {p q : α → Bool} {as : List α} (h : ∀ a ∈ as, p a = q a) :
    as.findIdx? p = as.findIdx? q := by
  induction as
  case nil          => rfl
  case cons a as hi =>
    rw [List.findIdx?_cons, List.findIdx?_cons, h a List.mem_cons_self,
      hi fun b hb => h b (List.mem_cons_of_mem _ hb)]

end

theorem externalColumn_no_copy {newtup : Memory} {values : List (Option Nat)} {attr : ToastAttr}
    {bytes : List UInt8} (ha : attr ∈ values.map (externalColumnAttr newtup)) : attr.value ≠ some (.copy bytes) := by
  obtain ⟨value, -, rfl⟩ := List.mem_map.mp ha
  cases value <;> simp [externalColumnAttr]

def externalColumnRoutines : ToastRoutines where
  deform                              := deformOnlyColumn
  init newtup values _                := (values.map (externalColumnAttr newtup), values.any (·.isNone))
  computeDataSize attrs newtup        := (attrs.map (externalColumnSize newtup)).sum
  find attrs newtup forCompression checkMain :=
    attrs.findIdx? (externalColumnFound newtup forCompression checkMain)
  compress _ _                        := none
  pointer _ _                         := savedPointer
  init_copy _ _ _ _ ha _ hd           := absurd hd <| externalColumn_no_copy ha
  pointer_wf _ _ _                    := savedPointer_wellFormed
  size_congr _ _ _ h                  := externalColumnSize_congr h
  find_congr _ _ _ _ _ h              := List.findIdx?_congr fun _ ha => externalColumnFound_congr h ha
  find_candidate _ _ _ _ _ h          := externalColumnFound_candidate h
  compressed _ _ _ _ h                := nomatch h

-- A tuple with a value of 200 bytes.
def inlineTuple : Memory :=
  Memory.zero.write 18 [1, 0, 2, 0, 24, 0, 0x30, 3, 0, 0]

def inlineAttr : ToastAttr :=
  externalColumnAttr inlineTuple (some 24)

theorem inlineTuple_prepared :
    toastPrepare externalColumnRoutines inlineTuple 228 none = .ok ([inlineAttr], false) := by
  have hd : onlyColumn (inlineTuple.read 0 228) = some 24 := by decide
  simp only [toastPrepare, externalColumnRoutines, deformOnlyColumn, hd, Outcome.ok_bind]
  rfl

theorem inlineAttr_wellFormed : (ToastDatum.inTuple 24).WellFormed inlineTuple := by
  refine ⟨?_, trivial⟩
  rw [Varlena.WellFormed]
  decide

def inlineCall : ToastCall externalColumnRoutines where
  table                     := { natts := 1, toastTarget := 128, hasToastTable := true }
  newtup                    := inlineTuple
  newLen                    := 228
  oldtup                    := none
  attrs                     := [inlineAttr]
  hasNulls                  := false
  prepared                  := inlineTuple_prepared
  inTuple                   := by
    intro attr ha off hv
    rw [List.mem_singleton.mp ha] at hv
    cases hv
    exact inlineAttr_wellFormed
  apart                     := by
    intro i j hij attr attr' ha ha'
    obtain ⟨hi, -⟩ := List.getElem?_eq_some_iff.mp ha
    obtain ⟨hj, -⟩ := List.getElem?_eq_some_iff.mp ha'
    simp only [List.length_singleton] at hi hj
    omega

-- AES-128 of the counter block 0 under the all-zero key.
def inlinePlatform : Platform := .x86 [
  (0, [0x66, 0xE9, 0x4B, 0xD4, 0xEF, 0x8A, 0x2C, 0x3B, 0x88, 0x4C, 0xFA, 0x59, 0xCA, 0x34, 0x2B, 0x2E])]

theorem inlineCall_savedInPlace : inlineCall.SavedInPlace 24 ((ToastDatum.inTuple 24).bytes inlineTuple) := by
  refine ⟨_, rfl, ?_⟩
  exact List.mem_singleton.mpr rfl

-- The value is encrypted where it is in the tuple.
theorem not_unmodified_inlineCall : ¬inlineCall.Unmodified inlinePlatform fun _ => 0 := by
  intro hu
  have hk : inlinePlatform.keystream (fun _ => 0) 0 = 0 := by
    apply inlineCall.keystream_of_unmodified hu inlineCall_savedInPlace
    rw [ToastDatum.length_bytes]
    decide
  exact absurd hk (by decide)
