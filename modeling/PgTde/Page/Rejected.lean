import PgTde.Encryption.Theorems.Aes
import PgTde.Keys.Fork
import PgTde.Page.RoundTrip

-- A call of `PGTdePageAddItemExtended`, on a page whose header is not corrupted.
structure AddItemCall where
  platform     : Platform
  add          : PageAddItemExtended
  server       : KeyServer
  vault        : KeyName → Except String KeyData
  session      : KeySession
  rel          : RelFileLocator
  bn           : Nat
  page         : Page
  item         : TupleImage
  offsetNumber : Nat
  flags        : PaiFlags
  lower_le     : page.pdLower ≤ page.pdUpper
  upper_le     : page.pdUpper ≤ page.pdSpecial
  special_le   : page.pdSpecial ≤ blcksz
  -- MaxAllocSize
  size_le      : item.bytes.length ≤ 2 ^ 30

-- All bytes of the one page are those of the other.
structure Page.Same (p q : Page) : Prop where
  upper   : p.pdUpper = q.pdUpper
  special : p.pdSpecial = q.pdSpecial
  hint    : p.pdHasFreeLines = q.pdHasFreeLines
  linp    : p.linp = q.linp
  bytes   : ∀ a < blcksz, p.mem a = q.mem a

namespace AddItemCall

variable (c : AddItemCall)

-- The call of `PageAddItemExtended`.
def added : Page × Nat :=
  c.add.run c.offsetNumber c.flags c.page c.item.bytes

-- The key that is used for encryption, out of those that `GetRelationKeys` returns.
def key : Outcome Block := do
  let keys ← (c.server.getRelationKeys c.vault c.rel c.session).1
  match keys.internalKey[0]? with
  | some internalKey => return internalKey.key
  | none             => .error .undefined

-- The result of the call, and the page as the call leaves it.
def run : Outcome Nat × Page :=
  match c.key with
  | .error e => (.error e, c.added.1)
  | .ok key  =>
    match c.platform.pgTdePageAddItemExtended (c.add.run c.offsetNumber c.flags) key c.bn c.page c.item.bytes with
    | .error e        => (.error e, c.added.1)
    | .ok (page, off) => (.ok off, page)

-- The page may be left as `p`. Undefined behavior may leave it in any state.
def Leaves (p : Page) : Prop :=
  c.run.2 = p ∨ c.run.1 = .error .undefined

def Rejected : Prop :=
  c.added = (c.page, invalidOffsetNumber)

def KeyFails : Prop :=
  ∃ e ≠ .undefined, c.key = .error e

-- The page is intact after a call that does not succeed.
def LeavesPage : Prop :=
  c.Rejected ∨ c.KeyFails → ∀ p, c.Leaves p → p.Same c.page

-- At the place where the data of the item would be encrypted to, the page holds the result of that already.
def HoldsData (key : Block) : Prop :=
  let toAddr := c.page.pdUpper + itemHoff c.item.bytes
  let data := (c.platform.keystream key).xor (offsetInFile c.bn c.page.pdUpper) c.item.userData
  ∀ a < blcksz, c.page.mem.write toAddr data a = c.page.mem a

-- Nothing is added to the page unless there is a key, and nothing is encrypted to it unless something is
-- added to it, or the result is already there.
def Guarded : Prop :=
  match c.key with
  | .error .undefined => ¬c.Rejected
  | .error _          => c.Rejected
  | .ok key           => c.Rejected → c.HoldsData key

end AddItemCall
