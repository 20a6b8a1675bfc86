import PgTde.Visibility.RowVersion

-- A snapshot that a backend keeps while other backends go on.

namespace RowVersion

variable (s : RowVersion)

-- The transactions that a snapshot counts as running, besides those of the own backend. The ones that have not been
-- started yet are among them.
def unfinished (xid : Nat) : Bool :=
  s.phase xid ≠ .committed ∧ s.phase xid ≠ .aborted

-- The backend `b` has taken the snapshot in the state `s`.
def TakenAt (b : Nat) {x : XactStatus} (snapshot : MvccSnapshot x) : Prop :=
  ∀ xid, s.phase xid ≠ .running b → snapshot.contains xid = s.unfinished xid

-- GetSnapshotData
def takeSnapshot (b : Nat) (context : TestContext) (curcid : Nat) : MvccSnapshot (s.view b context) where
  contains        := s.unfinished
  curcid          := curcid
  running xid h _ := by
    have hp : (s.phase xid).inProgress := h
    rw [unfinished, decide_eq_true_iff]
    constructor <;> intro he <;> rw [he] at hp <;> cases hp

end RowVersion

-- The backend `b` itself only looks at the version, or locks it.
def RowAction.Foreign (b : Nat) : RowAction → Prop
  | .start b' _ | .commit b' | .abort b' _ | .update b' _ => b' ≠ b
  | .finish _ | .test _ | .lock _ _                       => True
