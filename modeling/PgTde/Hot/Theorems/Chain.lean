import Mathlib.Data.List.Chain
import PgTde.Hot.Theorems.Step

open Relation

-- A walk along the chain stays within the scanned items, or it gets to a marked item.
theorem Scanned.reaches {next : Nat → Nat → Prop} {passable marked : Nat → Prop} {n m : Nat} {ms : List Nat}
    (hu : ∀ a b c, next a b → next a c → b = c) (h : Scanned next passable marked n ms)
    (hp : ReflTransGen (fun a b => next a b ∧ (a ∈ n :: ms → passable a)) n m) :
    m ∈ n :: ms ∨ ∃ x, marked x ∧ TransGen next n x ∧ ReflTransGen next x m := by
  induction h
  all_goals obtain rfl | ⟨b, hb, hp⟩ := ReflTransGen.cases_head hp
  all_goals try exact .inl List.mem_cons_self
  case stops.inr hn _       => exact absurd (hb.right List.mem_cons_self) hn
  case ends.inr he _        =>
    exact .inr ⟨b, he b hb.left, .single hb.left, ReflTransGen.mono (fun _ _ h => h.left) _ _ hp⟩
  case goes.inr hn _ _ ih _ =>
    obtain rfl := hu _ _ _ hn hb.left
    obtain hm | ⟨x, hx, ht, hr⟩ := ih <| ReflTransGen.mono
      (fun a _ h => ⟨h.left, fun ha => h.right (List.mem_cons_of_mem _ ha)⟩) _ _ hp
    · exact .inl (List.mem_cons_of_mem _ hm)
    · exact .inr ⟨x, hx, .head hn ht, hr⟩

theorem Scanned.unmarked {next : Nat → Nat → Prop} {passable marked : Nat → Prop} {n : Nat} {ms : List Nat}
    (h : Scanned next passable marked n ms) : ∀ m ∈ ms, ¬marked m := by
  induction h
  case stops            => exact List.forall_mem_nil _
  case ends             => exact List.forall_mem_nil _
  case goes _ hm _ ih   => exact List.forall_mem_cons.mpr ⟨hm, ih⟩

namespace TestedPage

variable {page : TestedPage} {env : PruneEnv} {s s' : PruneState} {n m d : Nat} {ms before behind : List Nat}

theorem not_dead_of_isRedirect (h : page.IsRedirect n) : ¬page.Dead n := by
  intro hd
  obtain ⟨lp, hl, hf⟩ := h
  have ht := page.tested n lp hl
  rw [hd, ItemIdData.isNormal, hf] at ht
  cases ht

-- All items up to a dead one can be removed, as far as they are tuples.
theorem doomed_before (hc : (before ++ [d]).IsChain fun n m => page.Linked page.updater n m ∧ page.Passable n)
    (hd : page.IsRedirect d ∨ page.Dead d) : ∀ m ∈ before ++ [d], page.IsRedirect m ∨ page.Doomed m := by
  have hd' : page.IsRedirect d ∨ page.Doomed d := hd.imp_right .dead
  intro m hm
  obtain hm | hm := List.mem_append.mp hm
  · refine List.IsChain.backwards_concat_induction (fun m => page.IsRedirect m ∨ page.Doomed m) before hc ?_ hd' m hm
    rintro a b ⟨hl, hr | hdead | hrec⟩ hb
    · exact .inl hr
    · exact .inr (.dead hdead)
    · exact .inr (.recentlyDead hrec hl (hb.resolve_left (not_isRedirect_behind (.single hl))))
  · rwa [List.mem_singleton.mp hm]

theorem passable_of_doomed (h : page.IsRedirect n ∨ page.Doomed n) : page.Passable n := by
  obtain h | h := h
  · exact .inl h
  · cases h
    case dead h             => exact .inr (.inl h)
    case recentlyDead _ h _ => exact .inr (.inr h)

-- A search that starts from `n` gets to the item behind the latest dead one.
theorem leadsTo_behind {t : Nat} (hc : (n :: ms ++ t :: behind).IsChain fun n m =>
      page.Linked page.updater n m ∧ page.Passable n) (he : n :: ms = before ++ [d]) (hd : page.Dead d) :
    page.LeadsTo n t := by
  obtain ⟨hc, -, hb⟩ := List.isChain_append.mp hc
  have hq := doomed_before (he ▸ hc) (.inr hd)
  have hlast : (n :: ms).getLast (List.cons_ne_nil _ _) = d := by simp [he]
  have hnd : page.LeadsTo n d := by
    refine List.relationReflTransGen_of_exists_isChain_cons ms (hc.imp_of_mem_imp fun a b ha _ h => ?_) hlast
    exact ⟨h.left, hq a (he ▸ ha)⟩
  have hdt := hb d (by rw [he, List.getLast?_concat]; rfl) t rfl
  exact hnd.tail ⟨hdt.left, .inr (.dead hd)⟩

end TestedPage
