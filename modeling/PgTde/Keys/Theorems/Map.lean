import PgTde.Keys.Map

namespace RelKeysMap

variable {m : RelKeysMap} {relId : UInt32} {keys : RelKeysData} {rel : RelFileLocator}
variable {fork : Outcome RelKeysData} {p : Nat} {entry : RelKeysEntry} {e : Fault}

-- The list consists of the entry that has been added last.
structure Newest (m : RelKeysMap) : Prop where
  head : m.tdeRelKeysMap = if m.allocated.length = 0 then none else some (m.allocated.length - 1)
  next : ∀ entry ∈ m.allocated, entry.next = none

theorem Newest.empty : Newest { allocated := [], tdeRelKeysMap := none } where
  head     := rfl
  next _ h := by cases h

@[simp]
theorem allocated_putKeysIntoMap :
    (m.putKeysIntoMap relId keys).allocated = m.allocated ++ [{ relId, keys, next := none }] :=
  rfl

theorem Newest.putKeysIntoMap (h : m.Newest) : (m.putKeysIntoMap relId keys).Newest where
  head           := by simp [RelKeysMap.putKeysIntoMap]
  next entry he := by
    rw [allocated_putKeysIntoMap, List.mem_append, List.mem_singleton] at he
    cases he
    case inl he => exact h.next entry he
    case inr he => rw [he]

-- All other entries are lost.
theorem Newest.reaches_iff (h : m.Newest) : m.Reaches p ↔ p + 1 = m.allocated.length := by
  constructor
  case mp =>
    intro hr
    cases hr
    case head hp =>
      rw [h.head] at hp
      split at hp
      · cases hp
      · cases hp
        omega
    case next entry _ he hn => cases (h.next _ (List.mem_of_getElem? he)).symm.trans hn
  case mpr =>
    intro hp
    refine .head ?_
    rw [h.head, ←hp]
    rfl

theorem Newest.find_nil (h : m.Newest) (ha : m.allocated = []) :
    m.find relId m.allocated.length m.tdeRelKeysMap = .ok none := by
  rw [h.head, ha, List.length_nil, if_pos rfl, find]

-- The search ends behind the only entry of the list.
theorem Newest.find_append {before : List RelKeysEntry} (h : m.Newest) (ha : m.allocated = before ++ [entry]) :
    m.find relId m.allocated.length m.tdeRelKeysMap =
    .ok (if entry.relId = relId then some entry.keys else none) := by
  have hl : m.allocated.length = before.length + 1 := by rw [ha, List.length_append, List.length_singleton]
  have hp : m.allocated[before.length]? = some entry := by simp [ha]
  have hn : entry.next = none := h.next entry (by simp [ha])
  rw [h.head, hl, if_neg (Nat.succ_ne_zero _), Nat.add_sub_cancel, find, hp]
  simp only [hn]
  split
  case isTrue  => rfl
  case isFalse => rw [find]

-- A lookup is answered from the list if its last entry is for the relation number.
theorem Newest.getRelationKeys_hit {before : List RelKeysEntry} (h : m.Newest)
    (ha : m.allocated = before ++ [entry]) (he : entry.relId = rel.relNumber) :
    m.getRelationKeys rel fork = { keys := .ok entry.keys, effects := [], map := m } := by
  simp only [getRelationKeys, h.find_append ha, if_pos he]

theorem Newest.find_eq_none (h : m.Newest)
    (ha : ∀ before entry, m.allocated = before ++ [entry] → entry.relId ≠ relId) :
    m.find relId m.allocated.length m.tdeRelKeysMap = .ok none := by
  obtain hn | ⟨before, entry, hl⟩ := List.eq_nil_or_concat m.allocated
  · exact h.find_nil hn
  · rw [List.concat_eq_append] at hl
    rw [h.find_append hl, if_neg (ha before entry hl)]

theorem getRelationKeys_error (h : m.find rel.relNumber m.allocated.length m.tdeRelKeysMap = .ok none) :
    m.getRelationKeys rel (.error e) =
    { keys := .error e, effects := [.readKeyFile, .allocate], map := m } := by
  simp only [getRelationKeys, h]

theorem getRelationKeys_ok (h : m.find rel.relNumber m.allocated.length m.tdeRelKeysMap = .ok none) :
    m.getRelationKeys rel (.ok keys) =
    { keys := .ok keys, effects := [.readKeyFile, .allocate, .allocate],
      map := m.putKeysIntoMap rel.relNumber keys } := by
  simp only [getRelationKeys, h]

theorem Newest.entries_nil (h : m.Newest) (ha : m.allocated = []) : m.entries = [] := by
  rw [entries, h.head, ha, List.length_nil, if_pos rfl, chain]

theorem Newest.entries_append {before : List RelKeysEntry} (h : m.Newest)
    (ha : m.allocated = before ++ [entry]) : m.entries = [entry.toRelKeys] := by
  have hl : m.allocated.length = before.length + 1 := by rw [ha, List.length_append, List.length_singleton]
  have hp : m.allocated[before.length]? = some entry := by simp [ha]
  have hn : entry.next = none := h.next entry (by simp [ha])
  rw [entries, h.head, hl, if_neg (Nat.succ_ne_zero _), Nat.add_sub_cancel, chain, hp]
  simp only [hn]
  rw [chain]

theorem Newest.entries_putKeysIntoMap (h : m.Newest) :
    (m.putKeysIntoMap relId keys).entries = [{ relId, keys }] :=
  h.putKeysIntoMap.entries_append allocated_putKeysIntoMap

theorem Newest.find_eq (h : m.Newest) : m.find relId m.allocated.length m.tdeRelKeysMap =
    .ok ((m.entries.find? (·.relId = relId)).map (·.keys)) := by
  obtain hn | ⟨before, entry, hl⟩ := List.eq_nil_or_concat m.allocated
  · rw [h.find_nil hn, h.entries_nil hn]
    rfl
  · rw [List.concat_eq_append] at hl
    rw [h.find_append hl, h.entries_append hl, List.find?_singleton]
    by_cases he : entry.relId = relId
    case pos => simp [he]
    case neg => simp [he]

theorem tdeRelKeysMap_fork {server : KeyServer} {vault : KeyName → Except String KeyData} {s : KeySession} :
    (server.pgTdeGetKeysFromFork vault rel s).2.tdeRelKeysMap = s.tdeRelKeysMap := by
  simp only [KeyServer.pgTdeGetKeysFromFork]
  split
  case h_1 => rfl
  case h_2 =>
    split
    case isTrue  => rfl
    case isFalse =>
      split
      case h_1 => rfl
      case h_2 => rfl
      case h_3 => split <;> rfl

-- `GetRelationKeys` on the list of a session.
theorem Newest.getRelationKeys_session {server : KeyServer} {vault : KeyName → Except String KeyData}
    {s : KeySession} (h : m.Newest) (hs : s.tdeRelKeysMap = m.entries) :
    let answer := m.getRelationKeys rel (server.pgTdeGetKeysFromFork vault rel s).1
    (server.getRelationKeys vault rel s).1 = answer.keys ∧
      (server.getRelationKeys vault rel s).2.tdeRelKeysMap = answer.map.entries := by
  have hf := @tdeRelKeysMap_fork rel server vault s
  simp only [KeyServer.getRelationKeys, hs]
  have hfind := @Newest.find_eq m rel.relNumber h
  cases hc : m.entries.find? (·.relId = rel.relNumber)
  case some curr =>
    rw [hc] at hfind
    simp only [getRelationKeys, hfind, Option.map_some]
    exact ⟨trivial, hs⟩
  case none =>
    rw [hc] at hfind
    generalize server.pgTdeGetKeysFromFork vault rel s = call at hf
    obtain ⟨fork, s'⟩ := call
    cases fork
    case error e =>
      rw [getRelationKeys_error hfind]
      exact ⟨rfl, hf.trans hs⟩
    case ok keys =>
      rw [getRelationKeys_ok hfind]
      exact ⟨rfl, h.entries_putKeysIntoMap.symm⟩

end RelKeysMap

namespace KeysProcess

variable {s : KeysProcess} {op : MapOp} {ops : List MapOp} {entry : RelKeysEntry}

-- What a step does: it leaves the map as it is, or adds an entry.
inductive Stepped (s : KeysProcess) (op : MapOp) : Prop
  | keeps (map : (s.step op).map = s.map) (none : s.map.allocated = [] → op.adds = none)
    (spares : ∀ before entry, s.map.allocated = before ++ [entry] → op.Spares entry.relId)
    (returned : ∀ relId ∈ (s.step op).returned, relId ∈ s.returned ∨
      ∃ before entry, s.map.allocated = before ++ [entry] ∧ entry.relId = relId)
  | adds (relId : UInt32) (keys : RelKeysData) (map : (s.step op).map = s.map.putKeysIntoMap relId keys)
    (some : op.adds = some relId)
    (spares : ∀ before entry, s.map.allocated = before ++ [entry] → ¬op.Spares entry.relId)
    (returned : ∀ r ∈ (s.step op).returned, r = relId ∨ r ∈ s.returned)

theorem stepped (h : s.map.Newest) : s.Stepped op := by
  cases op
  case putKeysIntoMap relId keys => exact .adds relId keys rfl rfl (fun _ _ _ => id) fun _ => .inr
  case getRelationKeys rel fork =>
    by_cases hit : ∃ before entry, s.map.allocated = before ++ [entry] ∧ entry.relId = rel.relNumber
    case pos =>
      obtain ⟨before, entry, ha, he⟩ := hit
      have hs : s.step (.getRelationKeys rel fork) = { s with returned := rel.relNumber :: s.returned } := by
        rw [step, h.getRelationKeys_hit ha he]
      refine .keeps (by rw [hs]) (fun hn => ?_) (fun _ _ ha' => ?_) fun relId hr => ?_
      · simp [hn] at ha
      · cases (List.append_inj' (ha.symm.trans ha') rfl).right
        cases fork
        case error => trivial
        case ok    => exact he.symm
      · rw [hs, List.mem_cons] at hr
        exact hr.elim (fun hr => .inr ⟨before, entry, ha, he.trans hr.symm⟩) .inl
    case neg =>
      have hne : ∀ before entry, s.map.allocated = before ++ [entry] → entry.relId ≠ rel.relNumber :=
        fun before entry ha he => hit ⟨before, entry, ha, he⟩
      have hf := h.find_eq_none hne
      cases fork
      case error e =>
        have hs : s.step (.getRelationKeys rel (.error e)) = s := by
          rw [step, RelKeysMap.getRelationKeys_error hf]
        exact .keeps (by rw [hs]) (fun _ => rfl) (fun _ _ _ => trivial) fun _ hr => .inl (hs ▸ hr)
      case ok keys =>
        have hs : s.step (.getRelationKeys rel (.ok keys)) =
            { map := s.map.putKeysIntoMap rel.relNumber keys, returned := rel.relNumber :: s.returned } := by
          rw [step, RelKeysMap.getRelationKeys_ok hf]
        refine .adds rel.relNumber keys (by rw [hs]) rfl (fun before entry ha hp => ?_) fun r hr => ?_
        · exact hne before entry ha hp.symm
        · rwa [hs, List.mem_cons] at hr

-- The invariant.
structure Sound (s : KeysProcess) : Prop where
  newest   : s.map.Newest
  returned : s.map.allocated.length ≤ 1 → ∀ relId ∈ s.returned, ∃ entry,
    s.map.allocated = [entry] ∧ entry.relId = relId

theorem sound_start : start.Sound where
  newest         := .empty
  returned _ _ h := by cases h

theorem Sound.step (h : s.Sound) : (s.step op).Sound := by
  cases @stepped s op h.newest
  case keeps map none spares returned =>
    refine ⟨map ▸ h.newest, fun hl relId hr => ?_⟩
    rw [map] at hl ⊢
    obtain hr | ⟨before, entry, ha, he⟩ := returned relId hr
    · exact h.returned hl relId hr
    · have hb : before = [] := by
        rw [ha, List.length_append, List.length_singleton] at hl
        exact List.eq_nil_of_length_eq_zero (by omega)
      exact ⟨entry, by rw [ha, hb, List.nil_append], he⟩
  case adds relId keys map some spares returned =>
    refine ⟨map ▸ h.newest.putKeysIntoMap, fun hl r hr => ?_⟩
    rw [map, RelKeysMap.allocated_putKeysIntoMap] at hl ⊢
    have hn : s.map.allocated = [] := by
      rw [List.length_append, List.length_singleton] at hl
      exact List.eq_nil_of_length_eq_zero (by omega)
    obtain rfl | hr := returned r hr
    · exact ⟨_, by rw [hn, List.nil_append], rfl⟩
    · obtain ⟨entry, ha, -⟩ := h.returned (by rw [hn]; exact Nat.zero_le 1) r hr
      simp [hn] at ha

theorem Sound.foldl (h : s.Sound) : (ops.foldl KeysProcess.step s).Sound := by
  induction ops generalizing s
  case nil            => exact h
  case cons op ops hi => exact hi h.step

-- No entry is lost iff there is at most one.
theorem Sound.kept_iff (h : s.Sound) : s.Kept ↔ s.map.allocated.length ≤ 1 := by
  constructor
  case mp =>
    intro hk
    by_contra hl
    have hr := h.newest.reaches_iff.mp (hk.entries 0 (by omega))
    omega
  case mpr =>
    intro hl
    constructor
    case entries => exact fun p hp => h.newest.reaches_iff.mpr (by omega)
    case answers =>
      intro rel fork hr
      obtain ⟨entry, ha, he⟩ := h.returned hl _ hr
      have hg := @RelKeysMap.Newest.getRelationKeys_hit _ rel fork entry [] h.newest ha he
      exact ⟨by rw [hg], entry.keys, by rw [hg]⟩

theorem Sound.length_le_step (h : s.Sound) :
    s.map.allocated.length ≤ (s.step op).map.allocated.length := by
  cases @stepped s op h.newest
  case keeps map _ _ _      => rw [map]
  case adds _ keys map _ _ _ => rw [map, RelKeysMap.allocated_putKeysIntoMap, List.length_append]; omega

theorem Sound.length_le_foldl (h : s.Sound) :
    s.map.allocated.length ≤ (ops.foldl KeysProcess.step s).map.allocated.length := by
  induction ops generalizing s
  case nil            => exact Nat.le_refl _
  case cons op ops hi => exact h.length_le_step.trans (hi h.step)

-- A map with one entry keeps it iff the operations spare it.
theorem Sound.foldl_one_iff (h : s.Sound) (ha : s.map.allocated = [entry]) :
    (ops.foldl KeysProcess.step s).map.allocated.length ≤ 1 ↔ ∀ op ∈ ops, op.Spares entry.relId := by
  induction ops generalizing s
  case nil            => simp [ha]
  case cons op ops hi =>
    rw [List.foldl_cons, List.forall_mem_cons]
    cases @stepped s op h.newest
    case keeps map _ spares _ =>
      rw [hi h.step (map ▸ ha)]
      exact (and_iff_right (spares [] entry ha)).symm
    case adds relId keys map _ spares _ =>
      have hl := @Sound.length_le_foldl (s.step op) ops h.step
      rw [map, RelKeysMap.allocated_putKeysIntoMap, ha] at hl
      have hs := spares [] entry ha
      simp only [hs, false_and, iff_false]
      exact Nat.not_le.mpr hl

theorem Sound.foldl_empty_iff (h : s.Sound) (ha : s.map.allocated = []) :
    (ops.foldl KeysProcess.step s).map.allocated.length ≤ 1 ↔ AddsOnce ops := by
  induction ops generalizing s
  case nil            => simp [ha, AddsOnce]
  case cons op ops hi =>
    rw [List.foldl_cons, AddsOnce]
    cases @stepped s op h.newest
    case keeps map none _ _ =>
      rw [hi h.step (map ▸ ha), none ha]
    case adds relId keys map some _ _ =>
      rw [some]
      have ha' : (s.step op).map.allocated = [{ relId, keys, next := none }] := by
        rw [map, RelKeysMap.allocated_putKeysIntoMap, ha, List.nil_append]
      exact h.step.foldl_one_iff ha'

end KeysProcess

open KeysProcess

-- The cache only grows in a run iff no operation adds an entry behind the first one that does.
theorem onlyGrows_iff (ops : List MapOp) : OnlyGrows ops ↔ AddsOnce ops := by
  have hs {before} : (run before).Sound := sound_start.foldl
  have hl : (run ops).map.allocated.length ≤ 1 ↔ AddsOnce ops := sound_start.foldl_empty_iff rfl
  rw [←hl]
  constructor
  case mp  => exact fun h => hs.kept_iff.mp (h ops (List.prefix_refl ops))
  case mpr =>
    rintro h before ⟨after, rfl⟩
    refine hs.kept_iff.mpr (le_trans ?_ h)
    rw [run, run, List.foldl_append]
    exact hs.length_le_foldl

-- Two relations, the keys of which are looked up in turn.
def twoRelations : List MapOp :=
  let key : InternalKey := { key := fun _ => 0, startLoc := 0, endLoc := 0, ctx := 0 }
  let keys : RelKeysData := { masterKeyName := ⟨fun _ => 0⟩, internalKeysLen := 1, internalKey := [key] }
  [.getRelationKeys ⟨1663, 5, 16384⟩ (.ok keys), .getRelationKeys ⟨1663, 5, 16390⟩ (.ok keys)]

-- The entry of the first one is lost.
theorem not_onlyGrows_twoRelations : ¬OnlyGrows twoRelations := by
  intro h
  have hk := (sound_start.foldl).kept_iff.mp (h twoRelations (List.prefix_refl _))
  exact absurd hk (by decide)
