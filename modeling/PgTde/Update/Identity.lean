import PgTde.Update.Hot
import PgTde.Page.Theorems.Header

-- The settings of `relreplident`.
inductive ReplicaIdentity
  | default
  | nothing
  | full
  | index
  deriving DecidableEq, Repr

-- What the logging of old keys depends on, of a relation.
structure IdentityRelation where
  isLogicallyLogged : Bool
  relreplident      : ReplicaIdentity
  -- RelationGetIndexAttrBitmap(relation, INDEX_ATTR_BITMAP_IDENTITY_KEY)
  idattrs           : Bitmapset

-- An attribute in a tuple that is not null: a value, no matter how long the header is that it has as a datum,
-- or the pointer to an external one, which only attributes of variable length can be.
inductive Datum (Value : Type)
  | inline (value : Value)
  | external (pointer : List UInt8)

-- The row type of a relation, with PostgreSQL's `heap_deform_tuple` and `heap_form_tuple` for it, and with
-- `detoast_external_attr`.
structure RowType where
  Value         : Type
  natts         : Nat
  -- Of the values, those that an attribute can have.
  Fits          : Nat → Datum Value → Prop
  deform        : List UInt8 → Outcome (List (Option (Datum Value)))
  form          : List (Option (Datum Value)) → List UInt8
  detoast       : List UInt8 → Outcome Value
  deform_length : ∀ tup values, deform tup = .ok values → values.length = natts
  deform_fits   : ∀ tup values, deform tup = .ok values →
    ∀ i datum, values[i]? = some (some datum) → Fits i datum
  deform_same   : ∀ tup tup', tInfomask tup' &&& heapHasnull = tInfomask tup &&& heapHasnull →
    tInfomask2 tup' &&& heapNattsMask = tInfomask2 tup &&& heapNattsMask → tup'.drop 22 = tup.drop 22 →
    deform tup' = deform tup
  detoast_fits  : ∀ i pointer value, Fits i (.external pointer) → detoast pointer = .ok value →
    Fits i (.inline value)
  form_length   : ∀ values, sizeofHeapTupleHeader ≤ (form values).length
  deform_form   : ∀ values, values.length = natts →
    (∀ i datum, values[i]? = some (some datum) → Fits i datum) →
    deform (form values) = .ok values

namespace RowType

variable (rows : RowType)

-- The body of the loop of `toast_flatten_tuple`.
def flattenAttribute : Option (Datum rows.Value) → Outcome (Option (Datum rows.Value))
  | some (.external pointer) => do return some (.inline (← rows.detoast pointer))
  | value                    => .ok value

-- The fields of a tuple's header that identify it, and its visibility info.
def copyVisibility (tup newTuple : List UInt8) : List UInt8 :=
  let infomask := tInfomask newTuple &&& ~~~heapXactMask ||| tInfomask tup &&& heapXactMask
  let infomask2 := tInfomask2 newTuple &&& ~~~heap2XactMask ||| tInfomask2 tup &&& heap2XactMask
  tup.take 18 ++ toLittleEndian 2 infomask2.toNat ++ toLittleEndian 2 infomask.toNat ++ newTuple.drop 22

def toastFlattenTuple (tup : List UInt8) : Outcome (List UInt8) := do
  let values ← rows.deform tup
  let values ← values.mapM rows.flattenAttribute
  return copyVisibility tup (rows.form values)

-- The value that a column has, wherever it is.
def column : Option (Datum rows.Value) → Outcome (Option rows.Value)
  | none                     => .ok none
  | some (.inline value)     => .ok (some value)
  | some (.external pointer) => do return some (← rows.detoast pointer)

-- The values of a tuple's columns.
def columns (tup : List UInt8) : Outcome (List (Option rows.Value)) := do
  (← rows.deform tup).mapM rows.column

end RowType

namespace IdentityRelation

variable (relation : IdentityRelation)

-- The values of the key's columns, with nulls elsewhere.
def keyValues {α : Type} (values : List (Option α)) : List (Option α) :=
  values.mapIdx fun i value =>
    if ((i : Int) + 1 - firstLowInvalidHeapAttributeNumber).toNat ∈ relation.idattrs then value else none

-- The values of the identity's columns.
def identityValues {α : Type} (values : List (Option α)) : List (Option α) :=
  if relation.relreplident = .full then values else relation.keyValues values

-- A replica identity is logged.
def Logs (keyRequired : Bool) : Prop :=
  relation.isLogicallyLogged ∧ relation.relreplident ≠ .nothing ∧
  (relation.relreplident ≠ .full → keyRequired ∧ relation.idattrs ≠ ∅)

variable (rows : RowType)

-- The tuple that is returned, and `copy`.
def extractReplicaIdentity (tp : List UInt8) (keyRequired : Bool) : Outcome (Option (List UInt8) × Bool) :=
  if ¬relation.isLogicallyLogged then
    .ok (none, false)
  else if relation.relreplident = .nothing then
    .ok (none, false)
  else if relation.relreplident = .full then
    if heapTupleHasExternal tp
    then do return (some (← rows.toastFlattenTuple tp), true)
    else .ok (some tp, false)
  else if ¬keyRequired then
    .ok (none, false)
  else if relation.idattrs = ∅ then
    .ok (none, false)
  else do
    let values ← rows.deform tp
    let keyTuple := rows.form (relation.keyValues values)
    if heapTupleHasExternal keyTuple
    then return (some (← rows.toastFlattenTuple keyTuple), true)
    else return (some keyTuple, true)

end IdentityRelation

-- The callers of `ExtractReplicaIdentity`, for an old tuple.
inductive IdentityCaller {P : Platform} (relation : IdentityRelation) (old : EncryptedTuple P)
  | delete
  | update (u : UpdateCall P) (old_eq : u.old = old) (idAttrs_eq : u.idAttrs = relation.idattrs)

-- The argument `key_required`.
def IdentityCaller.keyRequired {P : Platform} {relation : IdentityRelation} {old : EncryptedTuple P} :
    IdentityCaller relation old → Outcome Bool
  | .delete       => .ok true
  | .update u _ _ => do
    let info ← u.determineColumns
    return ¬Disjoint info.modified u.idAttrs ∨ info.hasExternal

-- A call of `ExtractReplicaIdentity` with an old tuple, the plaintext of which has certain values. Until the
-- call, the tuple stays in its place, where its header may change.
structure IdentityCall (P : Platform) (rows : RowType) where
  relation : IdentityRelation
  old      : EncryptedTuple P
  columns  : List (Option rows.Value)
  plain    : rows.columns old.plain = .ok columns
  tp       : List UInt8
  kept     : KeepsAttributes (old.page.getItem old.lp) tp
  caller   : IdentityCaller relation old

namespace IdentityCall

variable {P : Platform} {rows : RowType} (call : IdentityCall P rows)

def oldKeyTuple : Outcome (Option (List UInt8) × Bool) := do
  let keyRequired ← call.caller.keyRequired
  call.relation.extractReplicaIdentity rows call.tp keyRequired

-- If there is an old tuple or an old key tuple to be logged, then it has the values of the plaintext in the
-- identity's columns.
def LogsPlaintext : Prop :=
  ∃ oldKeyTuple copied, call.oldKeyTuple = .ok (oldKeyTuple, copied) ∧ ∀ tuple, oldKeyTuple = some tuple →
    rows.columns tuple = .ok (call.relation.identityValues call.columns)

end IdentityCall
