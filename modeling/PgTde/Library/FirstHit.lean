import Mathlib.Logic.Relation

open Relation

-- A walk from one member of a chain to the next, up to the first one that hits.
inductive FirstHit {α : Type _} (next : α → α → Prop) (hit : α → Prop) : α → Option α → Prop
  | here {a : α} : hit a → FirstHit next hit a (some a)
  | last {a : α} : ¬hit a → (∀ b, ¬next a b) → FirstHit next hit a none
  | step {a b : α} {r : Option α} : ¬hit a → next a b → FirstHit next hit b r → FirstHit next hit a r

namespace FirstHit

variable {α : Type _} {next next' : α → α → Prop} {hit hit' : α → Prop} {a b : α} {r r' : Option α}

theorem unique (hn : ∀ a b c, next a b → next a c → b = c) (h : FirstHit next hit a r)
    (h' : FirstHit next hit a r') : r = r' := by
  induction h
  case here ha =>
    cases h'
    case here          => rfl
    case last hna _    => exact absurd ha hna
    case step hna _ _  => exact absurd ha hna
  case last hna hb =>
    cases h'
    case here ha       => exact absurd ha hna
    case last          => rfl
    case step b _ hs _ => exact absurd hs (hb b)
  case step hna hs _ ih =>
    cases h'
    case here ha         => exact absurd ha hna
    case last hb         => exact absurd hs (hb _)
    case step b' _ hs' h => exact ih (hn _ _ _ hs hs' ▸ h)

-- What is found is a member of the chain that hits.
theorem hits (h : FirstHit next hit a (some b)) : hit b ∧ ReflTransGen next a b := by
  generalize hr : some b = r at h
  induction h
  case here ha          => cases hr; exact ⟨ha, .refl⟩
  case last             => cases hr
  case step hna hs _ ih => exact ⟨(ih hr).left, .head hs (ih hr).right⟩

-- Nothing is found if no member hits.
theorem misses (h : FirstHit next hit a r) (hm : ∀ b, ReflTransGen next a b → ¬hit b) : r = none := by
  cases r
  case none   => rfl
  case some b => exact absurd h.hits.left (hm b h.hits.right)

-- The walk passes the members that do not hit.
theorem pass (hn : ∀ a b c, next a b → next a c → b = c)
    (hp : ReflTransGen (fun a b => next a b ∧ ¬hit a) a b) (h : FirstHit next hit a r) : FirstHit next hit b r := by
  induction hp using ReflTransGen.head_induction_on
  case refl             => exact h
  case head a c hs _ ih =>
    refine ih ?_
    cases h
    case here ha        => exact absurd ha hs.right
    case last hb        => exact absurd hs.left (hb c)
    case step b' _ hb h => exact hn _ _ _ hb hs.left ▸ h

-- A chain that is cut off in front of a member that does not hit, and that is the last one, loses nothing.
structure Cuts (next next' : α → α → Prop) (hit hit' : α → Prop) (kept : α → Prop) : Prop where
  hits  : ∀ a, kept a → (hit' a ↔ hit a)
  keeps : ∀ a b, kept a → kept b → next a b → next' a b
  only  : ∀ a b, kept a → next' a b → next a b ∧ kept b
  last  : ∀ a b, kept a → ¬kept b → next a b → ¬hit b ∧ ∀ c, ¬next b c

theorem cut {kept : α → Prop} (hc : Cuts next next' hit hit' kept) (hn : ∀ a b c, next a b → next a c → b = c)
    (hk : kept a) (h : FirstHit next hit a r) : FirstHit next' hit' a r := by
  induction h
  case here a ha          => exact .here ((hc.hits a hk).mpr ha)
  case last a hna hb      => exact .last (mt (hc.hits a hk).mp hna) fun b hs => hb b (hc.only a b hk hs).left
  case step a b r hna hs h ih =>
    have hna' := mt (hc.hits a hk).mp hna
    by_cases hkb : kept b
    case pos => exact .step hna' (hc.keeps a b hk hkb hs) (ih hkb)
    case neg =>
      obtain ⟨hnb, hl⟩ := hc.last a b hk hkb hs
      obtain rfl := unique hn h (.last hnb hl)
      exact .last hna' fun c hs' => hkb (hn _ _ _ hs (hc.only a c hk hs').left ▸ (hc.only a c hk hs').right)

end FirstHit
