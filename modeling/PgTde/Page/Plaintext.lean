import PgTde.Page.Basic

namespace Page

variable (P : Platform) (bn : Nat) (key : Block)

-- A line pointer of one page and a line pointer of another one denote the same tuple, that is, the same
-- header and the same data once decrypted.
structure SameTuple (page : Page) (lp : ItemIdData) (page' : Page) (lp' : ItemIdData) : Prop where
  len    : lp'.lpLen = lp.lpLen
  flags  : lp'.lpFlags = lp.lpFlags
  header : page'.mem.read lp'.lpOff (tHoff page.mem lp.lpOff) =
    page.mem.read lp.lpOff (tHoff page.mem lp.lpOff)
  data   : ∃ data, P.pgTdeCryptTuple bn page.mem lp.lpOff lp.lpLen key = .ok data ∧
    P.pgTdeCryptTuple bn page'.mem lp'.lpOff lp'.lpLen key = .ok data

-- All line pointers with storage still denote the same tuples.
def SameTuples (page page' : Page) : Prop :=
  ∀ (i : Nat) (lp : ItemIdData), page.linp[i]? = some lp → lp.hasStorage →
    ∃ lp', page'.linp[i]? = some lp' ∧ SameTuple P bn key page lp page' lp'

end Page
