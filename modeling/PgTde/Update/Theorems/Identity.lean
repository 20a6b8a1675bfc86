import PgTde.Toast.Theorems.Release
import PgTde.Update.Identity
import PgTde.Update.Theorems.Hot

open Cint

-- A traversal that succeeds has done so at each element.
theorem Outcome.mapM_eq_ok_iff {α β : Type} {f : α → Outcome β} {xs : List α} {ys : List β} :
    xs.mapM f = .ok ys ↔ List.Forall₂ (fun x y => f x = .ok y) xs ys := by
  induction xs generalizing ys
  case nil          => simp [eq_comm]
  case cons x xs hi =>
    rw [List.mapM_cons, bind_eq_ok_iff, List.forall₂_cons_left_iff]
    constructor
    case mp  =>
      rintro ⟨y, hy, h⟩
      obtain ⟨zs, hz, he⟩ := bind_eq_ok_iff.mp h
      exact ⟨y, zs, hy, hi.mp hz, (Except.ok.inj he).symm⟩
    case mpr =>
      rintro ⟨y, zs, hy, hz, rfl⟩
      exact ⟨y, hy, bind_eq_ok_iff.mpr ⟨zs, hi.mpr hz, rfl⟩⟩

namespace RowType

variable {rows : RowType} {tup tup' newTuple : List UInt8} {values : List (Option (Datum rows.Value))}
variable {cols : List (Option rows.Value)}

-- Values that fit the columns.
structure Valid (rows : RowType) (values : List (Option (Datum rows.Value))) : Prop where
  length : values.length = rows.natts
  fits   : ∀ i datum, values[i]? = some (some datum) → rows.Fits i datum

theorem deform_valid (h : rows.deform tup = .ok values) : rows.Valid values :=
  ⟨rows.deform_length _ _ h, rows.deform_fits _ _ h⟩

theorem Valid.deform_form (h : rows.Valid values) : rows.deform (rows.form values) = .ok values :=
  rows.deform_form _ h.length h.fits

theorem Valid.columns_form (h : rows.Valid values) :
    rows.columns (rows.form values) = values.mapM rows.column := by
  rw [columns, h.deform_form, Outcome.ok_bind]

theorem Valid.keyValues (h : rows.Valid values) (relation : IdentityRelation) :
    rows.Valid (relation.keyValues values) where
  length         := by rw [IdentityRelation.keyValues, List.length_mapIdx, h.length]
  fits i datum hd := by
    rw [IdentityRelation.keyValues, List.getElem?_mapIdx, Option.map_eq_some_iff] at hd
    obtain ⟨value, hv, hd⟩ := hd
    split at hd
    · exact h.fits i datum (hd ▸ hv)
    · cases hd

theorem deform_of_keeps (h : KeepsAttributes tup tup') : rows.deform tup' = rows.deform tup :=
  rows.deform_same _ _ h.nulls h.natts h.data

theorem columns_of_keeps (h : KeepsAttributes tup tup') : rows.columns tup' = rows.columns tup := by
  rw [columns, columns, deform_of_keeps h]

theorem copyVisibility_keeps (ht : 18 ≤ tup.length) :
    KeepsAttributes newTuple (copyVisibility tup newTuple) := by
  have hx (x : UInt16) {m h : UInt16} (hm : m &&& h = 0) : x &&& m &&& h = 0 := by
    rw [UInt16.and_assoc, hm, UInt16.and_zero]
  apply keepsAttributes_append
  case hl => rw [List.length_take]; omega
  case h₁ =>
    rintro h (rfl | rfl)
    · rw [UInt16.keep_or (hx _ (by decide)), UInt16.keep_and (by decide)]
    · rw [UInt16.keep_or (hx _ (by decide)), UInt16.keep_and (by decide)]
  case h₂ => rw [UInt16.keep_or (hx _ (by decide)), UInt16.keep_and (by decide)]

-- Flattening keeps the values of the columns, and makes them inline.
theorem mapM_flattenAttribute : values.mapM rows.flattenAttribute = do
    return (← values.mapM rows.column).map (Option.map Datum.inline) := by
  induction values
  case nil                => rfl
  case cons value values hi =>
    rw [List.mapM_cons, List.mapM_cons, hi]
    obtain _ | _ | pointer := value
    · cases values.mapM rows.column <;> rfl
    · cases values.mapM rows.column <;> rfl
    · rw [flattenAttribute, column]
      cases rows.detoast pointer
      · rfl
      · cases values.mapM rows.column <;> rfl

theorem mapM_column_inline : (cols.map (Option.map Datum.inline)).mapM rows.column = .ok cols := by
  induction cols
  case nil                => rfl
  case cons value cols hi =>
    rw [List.map_cons, List.mapM_cons, hi]
    cases value <;> rfl

theorem Valid.inlined (h : rows.Valid values) (hc : values.mapM rows.column = .ok cols) :
    rows.Valid (cols.map (Option.map Datum.inline)) := by
  obtain ⟨hl, hg⟩ := List.forall₂_iff_get.mp (Outcome.mapM_eq_ok_iff.mp hc)
  constructor
  case length => rw [List.length_map, ←hl, h.length]
  case fits   =>
    intro i datum hd
    rw [List.getElem?_map, Option.map_eq_some_iff] at hd
    obtain ⟨col, hcol, hd⟩ := hd
    obtain ⟨value, rfl, rfl⟩ := Option.map_eq_some_iff.mp hd
    obtain ⟨hi, hcol⟩ := List.getElem?_eq_some_iff.mp hcol
    have hv := List.getElem?_eq_getElem (l := values) (i := i) (by omega)
    have he := hg i (by omega) hi
    simp only [List.get_eq_getElem, hcol] at he
    generalize values[i] = old at hv he
    obtain _ | _ | pointer := old
    · cases he
    · cases he
      exact h.fits i _ hv
    · obtain ⟨v, hp, he⟩ := Outcome.bind_eq_ok_iff.mp he
      cases he
      exact rows.detoast_fits i pointer _ (h.fits i _ hv) hp

-- What becomes of the values of a tuple that is flattened.
theorem toastFlattenTuple_eq : rows.toastFlattenTuple tup = do
    return copyVisibility tup (rows.form ((← rows.columns tup).map (Option.map Datum.inline))) := by
  rw [toastFlattenTuple, columns]
  cases rows.deform tup
  case error     => rfl
  case ok values =>
    simp only [Outcome.ok_bind, mapM_flattenAttribute]
    cases values.mapM rows.column <;> rfl

-- Whether a tuple is flattened or not, its columns have the same values.
theorem flattened_columns_iff {flatten : Bool} (ht : 18 ≤ tup.length) :
    (∃ r, (if flatten then rows.toastFlattenTuple tup else .ok tup) = .ok r ∧ rows.columns r = .ok cols) ↔
    rows.columns tup = .ok cols := by
  cases flatten
  case false => simp
  case true  =>
    rw [if_pos rfl, toastFlattenTuple_eq]
    cases hc : rows.columns tup
    case error  => simp
    case ok vs  =>
      obtain ⟨values, hv, hm⟩ := Outcome.bind_eq_ok_iff.mp hc
      have hr : rows.columns (copyVisibility tup (rows.form (vs.map (Option.map Datum.inline)))) = .ok vs := by
        rw [columns_of_keeps (copyVisibility_keeps ht), columns, ((deform_valid hv).inlined hm).deform_form]
        exact mapM_column_inline
      simp only [Outcome.ok_bind, Outcome.pure_eq, Except.ok.injEq, exists_eq_left', hr]

end RowType

namespace IdentityRelation

variable {relation : IdentityRelation} {rows : RowType} {tp : List UInt8} {keyRequired : Bool}

theorem extract_of_not_logs (h : ¬relation.Logs keyRequired) :
    relation.extractReplicaIdentity rows tp keyRequired = .ok (none, false) := by
  rw [extractReplicaIdentity]
  by_cases hl : relation.isLogicallyLogged
  case neg => rw [if_pos hl]
  case pos =>
    by_cases hn : relation.relreplident = .nothing
    case pos => rw [if_neg (not_not.mpr hl), if_pos hn]
    case neg =>
      rw [Logs, not_and, not_and, Classical.not_imp] at h
      obtain ⟨hf, h⟩ := h hl hn
      rw [if_neg (not_not.mpr hl), if_neg hn, if_neg hf]
      cases keyRequired
      case false => rfl
      case true  => simpa using fun he => absurd ⟨rfl, he⟩ h

theorem extract_of_full (h : relation.Logs keyRequired) (hf : relation.relreplident = .full) :
    relation.extractReplicaIdentity rows tp keyRequired =
      if heapTupleHasExternal tp then do return (some (← rows.toastFlattenTuple tp), true)
      else .ok (some tp, false) := by
  rw [extractReplicaIdentity, if_neg (not_not.mpr h.left), if_neg h.right.left, if_pos hf]

theorem extract_of_key (h : relation.Logs keyRequired) (hf : relation.relreplident ≠ .full) :
    relation.extractReplicaIdentity rows tp keyRequired = do
      let values ← rows.deform tp
      let keyTuple := rows.form (relation.keyValues values)
      if heapTupleHasExternal keyTuple
      then return (some (← rows.toastFlattenTuple keyTuple), true)
      else return (some keyTuple, true) := by
  obtain ⟨hk, he⟩ := h.right.right hf
  rw [extractReplicaIdentity, if_neg (not_not.mpr h.left), if_neg h.right.left, if_neg hf,
    if_neg (not_not.mpr hk), if_neg he]

-- A tuple that is returned has been flattened if it has external values.
theorem logged_iff {flatten copied : Bool} {x : Outcome (List UInt8)} {tup : List UInt8}
    {Q : List UInt8 → Prop} :
    (∃ r c, (if flatten then do return (some (← x), true) else .ok (some tup, copied)) =
      Except.ok (r, c) ∧ ∀ tuple, r = some tuple → Q tuple) ↔
    ∃ r, (if flatten then x else .ok tup) = .ok r ∧ Q r := by
  cases flatten
  case false => simp
  case true  => cases x <;> simp

theorem keyValues_columns {values : List (Option (Datum rows.Value))} {cols : List (Option rows.Value)}
    (h : values.mapM rows.column = .ok cols) :
    (relation.keyValues values).mapM rows.column = .ok (relation.keyValues cols) := by
  obtain ⟨hl, hg⟩ := List.forall₂_iff_get.mp (Outcome.mapM_eq_ok_iff.mp h)
  have hlen : (relation.keyValues values).length = (relation.keyValues cols).length := by simp [keyValues, hl]
  refine Outcome.mapM_eq_ok_iff.mpr <| List.forall₂_iff_get.mpr ⟨hlen, fun i hi hi' => ?_⟩
  simp only [keyValues, List.length_mapIdx] at hi hi'
  simp only [keyValues, List.get_eq_getElem, List.getElem_mapIdx]
  split
  · exact hg i hi hi'
  · rfl

end IdentityRelation

namespace IdentityCall

variable {P : Platform} {rows : RowType} {call : IdentityCall P rows} {keyRequired : Bool}

-- The plaintext with the keystream on its data.
def masked (call : IdentityCall P rows) : List UInt8 :=
  encryptedItem (P.keystream call.old.key) call.old.bn call.old.lp.lpOff call.old.plain

-- The keystream does not affect the values of the identity's columns.
def Unaffected (call : IdentityCall P rows) : Prop :=
  ∃ values, rows.deform call.masked = .ok values ∧
    (call.relation.identityValues values).mapM rows.column = .ok (call.relation.identityValues call.columns)

-- The caller lets a replica identity be logged.
def Logs (call : IdentityCall P rows) : Prop :=
  ∃ keyRequired, call.caller.keyRequired = .ok keyRequired ∧ call.relation.Logs keyRequired

theorem itemHoff_plain (t : EncryptedTuple P) : itemHoff t.plain = t.hoff := by
  have hh : 24 ≤ t.hoff := t.header
  have hr : (t.page.mem.read t.lp.lpOff t.hoff).length = t.hoff := Memory.length_read
  rw [itemHoff, EncryptedTuple.plain, List.getElem?_append_left (by omega), Memory.getElem?_read (by omega)]
  rfl

theorem getItem_eq (t : EncryptedTuple P) :
    t.page.getItem t.lp = encryptedItem (P.keystream t.key) t.bn t.lp.lpOff t.plain := by
  have hl : t.hoff ≤ t.lp.lpLen := t.hoff_le
  have hr : (t.page.mem.read t.lp.lpOff t.hoff).length = t.hoff := Memory.length_read
  have hs : (P.keystream t.key).xor (offsetInFile t.bn t.lp.lpOff) t.data =
      t.page.mem.read (t.lp.lpOff + t.hoff) (t.lp.lpLen - t.hoff) := t.stored.symm
  rw [encryptedItem, itemHoff_plain, EncryptedTuple.plain, List.take_left' hr, List.drop_left' hr, hs,
    ←Memory.read_add, Nat.add_sub_cancel' hl, Page.getItem]

theorem deform_tp : rows.deform call.tp = rows.deform call.masked := by
  rw [RowType.deform_of_keeps call.kept, getItem_eq, masked]

theorem length_tp : 18 ≤ call.tp.length := by
  have hh := call.old.header
  have hl := call.old.hoff_le
  have hd := congrArg List.length call.kept.data
  simp only [sizeofHeapTupleHeaderData, List.length_drop, Page.getItem, Memory.length_read] at *
  omega

theorem exists_keyRequired (caller : IdentityCaller call.relation call.old) :
    ∃ keyRequired, caller.keyRequired = .ok keyRequired := by
  cases caller
  case delete       => exact ⟨true, rfl⟩
  case update u _ _ => exact ⟨_, by rw [IdentityCaller.keyRequired, u.determineColumns_eq]; rfl⟩

-- What is returned has the values of the identity's columns iff the encrypted tuple does.
theorem extractReplicaIdentity_iff :
    (∃ r copied, call.relation.extractReplicaIdentity rows call.tp keyRequired = .ok (r, copied) ∧
      ∀ tuple, r = some tuple → rows.columns tuple = .ok (call.relation.identityValues call.columns)) ↔
    (call.relation.Logs keyRequired → call.Unaffected) := by
  by_cases h : call.relation.Logs keyRequired
  case neg => simp [IdentityRelation.extract_of_not_logs h, h]
  case pos =>
    rw [imp_iff_right h, Unaffected]
    by_cases hf : call.relation.relreplident = .full
    case pos =>
      rw [IdentityRelation.extract_of_full h hf, IdentityRelation.logged_iff,
        RowType.flattened_columns_iff length_tp, RowType.columns, deform_tp, Outcome.bind_eq_ok_iff]
      simp only [IdentityRelation.identityValues, hf, if_true]
    case neg =>
      simp only [IdentityRelation.extract_of_key h hf, deform_tp, IdentityRelation.identityValues, hf, if_false]
      cases hd : rows.deform call.masked
      case error     => simp
      case ok values =>
        have hv := (RowType.deform_valid hd).keyValues call.relation
        have hlen : 23 ≤ (rows.form (call.relation.keyValues values)).length := rows.form_length _
        simp only [Outcome.ok_bind, Outcome.pure_eq, Except.ok.injEq, exists_eq_left']
        rw [←hv.columns_form, ←RowType.flattened_columns_iff (by omega)]
        exact IdentityRelation.logged_iff

theorem logsPlaintext_iff_of_keyRequired (hk : call.caller.keyRequired = .ok keyRequired) :
    call.LogsPlaintext ↔ (call.relation.Logs keyRequired → call.Unaffected) := by
  rw [LogsPlaintext, oldKeyTuple, hk]
  exact extractReplicaIdentity_iff

-- The replica identity is that of the plaintext iff the keystream does not affect it, unless there is none.
theorem logsPlaintext_iff (call : IdentityCall P rows) :
    call.LogsPlaintext ↔ (call.Logs → call.Unaffected) := by
  obtain ⟨keyRequired, hk⟩ := exists_keyRequired call.caller
  have hlogs : call.Logs ↔ call.relation.Logs keyRequired := by simp [Logs, hk]
  rw [hlogs]
  exact logsPlaintext_iff_of_keyRequired hk

-- In particular if the keystream does not change the data at all.
theorem unaffected_of_idle (h : ∀ i < call.old.data.length,
    P.keystream call.old.key (offsetInFile call.old.bn call.old.lp.lpOff + i) = 0) : call.Unaffected := by
  have hm : call.masked = call.old.plain := by
    have hr : (call.old.page.mem.read call.old.lp.lpOff call.old.hoff).length = call.old.hoff :=
      Memory.length_read
    rw [masked, encryptedItem, itemHoff_plain, EncryptedTuple.plain, List.take_left' hr, List.drop_left' hr,
      Keystream.xor_of_zero h]
  obtain ⟨values, hd, hc⟩ := Outcome.bind_eq_ok_iff.mp call.plain
  refine ⟨values, hm ▸ hd, ?_⟩
  rw [IdentityRelation.identityValues, IdentityRelation.identityValues]
  split
  · exact hc
  · exact IdentityRelation.keyValues_columns hc

end IdentityCall

-- A table with one column of eight bytes.
def deformEightBytes (tup : List UInt8) : Outcome (List (Option (Datum (List UInt8)))) :=
  match onlyColumn tup with
  | none     => .ok [none]
  | some off =>
    if off < sizeofHeapTupleHeader ∨ (tup.drop off).length < 8
    then .error .undefined
    else .ok [some (.inline ((tup.drop off).take 8))]

def formEightBytes (values : List (Option (Datum (List UInt8)))) : List UInt8 :=
  match values with
  | [some (.inline value)] => List.replicate 18 0 ++ [1, 0, 0, 8, 24, 0] ++ value
  | _                      => List.replicate 18 0 ++ [1, 0, 1, 8, 24, 0]

def FitsEightBytes (i : Nat) (datum : Datum (List UInt8)) : Prop :=
  i = 0 ∧ ∃ value, datum = .inline value ∧ value.length = 8

theorem not_fitsEightBytes_external {i : Nat} {pointer : List UInt8} :
    ¬FitsEightBytes i (.external pointer) := by
  rintro ⟨-, _, he, -⟩
  cases he

theorem deformEightBytes_cases {tup : List UInt8} {values : List (Option (Datum (List UInt8)))}
    (h : deformEightBytes tup = .ok values) :
    values = [none] ∨ ∃ value, values = [some (.inline value)] ∧ value.length = 8 := by
  rw [deformEightBytes] at h
  split at h
  · cases h
    exact .inl rfl
  · split at h
    · cases h
    · cases h
      refine .inr ⟨_, rfl, ?_⟩
      rw [List.length_take]
      omega

theorem deformEightBytes_length {tup : List UInt8} {values : List (Option (Datum (List UInt8)))}
    (h : deformEightBytes tup = .ok values) : values.length = 1 := by
  obtain rfl | ⟨value, rfl, -⟩ := deformEightBytes_cases h
  · rfl
  · rfl

theorem deformEightBytes_fits {tup : List UInt8} {values : List (Option (Datum (List UInt8)))}
    (h : deformEightBytes tup = .ok values) (i : Nat) (datum : Datum (List UInt8))
    (hd : values[i]? = some (some datum)) : FitsEightBytes i datum := by
  obtain ⟨hi, -⟩ := List.getElem?_eq_some_iff.mp hd
  obtain rfl : i = 0 := by
    rw [deformEightBytes_length h] at hi
    omega
  obtain rfl | ⟨value, rfl, hl⟩ := deformEightBytes_cases h
  · cases hd
  · cases hd
    exact ⟨rfl, value, rfl, hl⟩

theorem deformEightBytes_same {tup tup' : List UInt8} (h : SameAttributes tup tup') :
    deformEightBytes tup' = deformEightBytes tup := by
  rw [deformEightBytes, deformEightBytes, onlyColumn_same h]
  cases ho : onlyColumn tup
  case none     => rfl
  case some off =>
    simp only
    by_cases hlt : off < sizeofHeapTupleHeader
    case pos => rw [if_pos (.inl hlt), if_pos (.inl hlt)]
    case neg =>
      simp only [sizeofHeapTupleHeader] at hlt
      obtain ⟨n, rfl⟩ : ∃ n, off = 22 + n := ⟨off - 22, by omega⟩
      rw [←List.drop_drop, ←List.drop_drop, h.data]

theorem formEightBytes_length (values : List (Option (Datum (List UInt8)))) :
    23 ≤ (formEightBytes values).length := by
  unfold formEightBytes
  split
  · simp
  · simp

theorem deformEightBytes_form {values : List (Option (Datum (List UInt8)))} (hl : values.length = 1)
    (hf : ∀ i datum, values[i]? = some (some datum) → FitsEightBytes i datum) :
    deformEightBytes (formEightBytes values) = .ok values := by
  obtain ⟨value, rfl⟩ := List.length_eq_one_iff.mp hl
  cases value
  case none       => rfl
  case some datum =>
    obtain ⟨-, value, rfl, hv⟩ := hf 0 datum rfl
    have hc : onlyColumn (formEightBytes [some (.inline value)]) = some 24 := by
      simp [onlyColumn, formEightBytes, tInfomask2, tInfomask, unsignedAt, ofLittleEndian, itemHoff,
        heapNattsMask, heapHasnull]
      decide
    have hd : (formEightBytes [some (.inline value)]).drop 24 = value := rfl
    simp only [deformEightBytes, hc, hd, hv]
    rw [if_neg (by simp [sizeofHeapTupleHeader]), List.take_of_length_le (by omega)]

def eightBytes : RowType where
  Value                           := List UInt8
  natts                           := 1
  Fits                            := FitsEightBytes
  deform                          := deformEightBytes
  form                            := formEightBytes
  detoast _                       := .error .undefined
  deform_length _ _ h             := deformEightBytes_length h
  deform_fits _ _ h               := deformEightBytes_fits h
  deform_same _ _ hn ha hd        := deformEightBytes_same ⟨hn, ha, hd⟩
  detoast_fits _ _ _ hf           := absurd hf not_fitsEightBytes_external
  form_length                     := formEightBytes_length
  deform_form _                   := deformEightBytes_form

-- AES-128 of the counter block 510 under the all-zero key.
def identityPlatform : Platform := .x86 [
  (510, [0x7C, 0x20, 0x5B, 0x0B, 0x0D, 0xB2, 0xC4, 0x14, 0x39, 0x46, 0xE4, 0x09, 0x29, 0x74, 0xF2, 0xE5])]

-- A page with a tuple that has one attribute of eight bytes.
def identityPage : Page where
  pdUpper        := 8160
  pdSpecial      := 8192
  pdHasFreeLines := false
  linp           := [⟨8160, .normal, 32⟩]
  mem            := Memory.zero.write 8160 (List.replicate 18 0 ++ [1, 0, 0, 8, 24, 0] ++
    (identityPlatform.keystream fun _ => 0).xor 8160 [42, 0, 0, 0, 0, 0, 0, 0])

theorem identityPage_stored : identityPage.mem.read (8160 + tHoff identityPage.mem 8160)
    (32 - tHoff identityPage.mem 8160) =
    (identityPlatform.keystream fun _ => 0).xor (offsetInFile 0 8160) [42, 0, 0, 0, 0, 0, 0, 0] := by
  decide

theorem identityPage_header : sizeofHeapTupleHeaderData ≤ tHoff identityPage.mem 8160 := by
  decide

theorem identityPage_hoff_le : tHoff identityPage.mem 8160 ≤ 32 := by
  decide

def identityTuple : EncryptedTuple identityPlatform where
  relkind  := .relation
  ordinary := Relkind.noConfusion
  key      := fun _ => 0
  bn       := 0
  page     := identityPage
  offnum   := 1
  lp       := ⟨8160, .normal, 32⟩
  item     := rfl
  normal   := rfl
  upper_le := le_rfl
  fits     := le_rfl
  header   := identityPage_header
  hoff_le  := identityPage_hoff_le
  data     := [42, 0, 0, 0, 0, 0, 0, 0]
  stored   := identityPage_stored

-- The tuple is deleted, with REPLICA IDENTITY FULL.
def fullIdentityDelete : IdentityCall identityPlatform eightBytes where
  relation := { isLogicallyLogged := true, relreplident := .full, idattrs := ∅ }
  old      := identityTuple
  columns  := [some ([42, 0, 0, 0, 0, 0, 0, 0] : List UInt8)]
  plain    := by rfl
  tp       := identityPage.getItem ⟨8160, .normal, 32⟩
  kept     := ⟨rfl, rfl, rfl, rfl⟩
  caller   := .delete

-- The encrypted value is logged.
theorem not_logsPlaintext_fullIdentityDelete : ¬fullIdentityDelete.LogsPlaintext := by
  have hm : eightBytes.deform fullIdentityDelete.masked =
      .ok [some (.inline ([0x56, 0x20, 0x5B, 0x0B, 0x0D, 0xB2, 0xC4, 0x14] : List UInt8))] := by rfl
  rw [@IdentityCall.logsPlaintext_iff_of_keyRequired _ _ fullIdentityDelete true rfl]
  intro h
  obtain ⟨values, hd, hc⟩ := h ⟨rfl, by decide, fun hf => absurd rfl hf⟩
  cases hd.symm.trans hm
  have hc : (.ok [some [0x56, 0x20, 0x5B, 0x0B, 0x0D, 0xB2, 0xC4, 0x14]] :
      Outcome (List (Option (List UInt8)))) = .ok [some [42, 0, 0, 0, 0, 0, 0, 0]] := hc
  simp at hc
