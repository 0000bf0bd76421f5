import ClassAudit.Runner.Cache
import Mathlib.Data.Finset.Card

/-!
# Caches and recency

A cache holds what was used last. Along any row of uses its entries are the first of the
uses in order of recency, each key at its latest use, so that a key is found exactly when
fewer different keys than the capacity were used since.
-/

set_option autoImplicit false

namespace ClassAudit

variable {α : Type}

/-! ## Single operations -/

namespace Cache

theorem mem_of_get? {cache : Cache α} {key : Bytes} {value : α}
    (found : cache.get? key = some value) : (key, value) ∈ cache.entries := by
  obtain ⟨before, after, shape, -⟩ := List.lookup_eq_some_iff.mp found
  rw [shape]
  exact List.mem_append_right before List.mem_cons_self

theorem entries_refresh {cache : Cache α} {key : Bytes} {value : α}
    (found : cache.get? key = some value) :
    (cache.refresh key).entries = (key, value) :: cache.without key := by
  rw [Cache.refresh, found]

theorem capacity_refresh (cache : Cache α) (key : Bytes) :
    (cache.refresh key).capacity = cache.capacity := by
  unfold Cache.refresh
  split <;> rfl

theorem mem_without {cache : Cache α} {key : Bytes} {entry : Bytes × α}
    (member : entry ∈ cache.without key) : entry ∈ cache.entries :=
  (List.mem_filter.mp member).1

/-- A refreshed cache holds nothing new. -/
theorem mem_refresh {cache : Cache α} {key : Bytes} {entry : Bytes × α}
    (member : entry ∈ (cache.refresh key).entries) : entry ∈ cache.entries := by
  cases found : cache.get? key with
  | none =>
      rw [Cache.refresh, found] at member
      exact member
  | some value =>
      rw [Cache.entries_refresh found] at member
      rcases List.mem_cons.mp member with rfl | member
      · exact Cache.mem_of_get? found
      · exact Cache.mem_without member

/-- An insertion adds nothing but its own entry. -/
theorem mem_insert {cache : Cache α} {key : Bytes} {value : α} {entry : Bytes × α}
    (member : entry ∈ (cache.insert key value).entries) :
    entry = (key, value) ∨ entry ∈ cache.entries := by
  rcases List.mem_cons.mp (List.mem_of_mem_take member) with rfl | member
  · exact .inl rfl
  · exact .inr (Cache.mem_without member)

end Cache

/-! ## Uses in order of recency -/

/-- The latest use of each key, the most recent first, from uses of which the most recent
stands first. -/
def latestUses : List (Bytes × α) → List (Bytes × α)
  | [] => []
  | use :: earlier => use :: (latestUses earlier).filter fun entry => entry.1 != use.1

/-- A key was used with a value, and the keys used since are fewer than the capacity. The most
recent use stands first. -/
def UsedWithin (capacity : Nat) (key : Bytes) (value : α) (uses : List (Bytes × α)) : Prop :=
  ∃ since earlier, uses = since ++ (key, value) :: earlier ∧ key ∉ since.map Prod.fst ∧
    (since.map Prod.fst).toFinset.card < capacity

theorem nodup_latestUses (uses : List (Bytes × α)) :
    ((latestUses uses).map Prod.fst).Nodup := by
  induction uses with
  | nil => exact .nil
  | cons use earlier ih =>
      rw [latestUses, List.map_cons, List.nodup_cons]
      constructor
      · intro member
        obtain ⟨entry, kept, same⟩ := List.mem_map.mp member
        have apart := (List.mem_filter.mp kept).2
        simp [same] at apart
      · exact ((List.filter_sublist).map Prod.fst).nodup ih

theorem exists_latest_cons_iff {key : Bytes} {value : α} {use : Bytes × α}
    {uses : List (Bytes × α)} {fits : List (Bytes × α) → Prop} :
    (∃ since earlier, use :: uses = since ++ (key, value) :: earlier ∧
        key ∉ since.map Prod.fst ∧ fits since) ↔
      use = (key, value) ∧ fits [] ∨ use.1 ≠ key ∧
        ∃ since earlier, uses = since ++ (key, value) :: earlier ∧
          key ∉ since.map Prod.fst ∧ fits (use :: since) := by
  constructor
  · rintro ⟨since, earlier, shape, unused, fitting⟩
    cases since with
    | nil =>
        obtain ⟨rfl, -⟩ := List.cons.inj shape
        exact .inl ⟨rfl, fitting⟩
    | cons first since =>
        obtain ⟨rfl, rest⟩ := List.cons.inj shape
        rw [List.map_cons, List.mem_cons, not_or] at unused
        exact .inr ⟨Ne.symm unused.1, since, earlier, rest, unused.2, fitting⟩
  · rintro (⟨rfl, fitting⟩ | ⟨apart, since, earlier, rfl, unused, fitting⟩)
    · exact ⟨[], uses, rfl, List.not_mem_nil, fitting⟩
    · refine ⟨use :: since, earlier, rfl, ?_, fitting⟩
      rw [List.map_cons, List.mem_cons, not_or]
      exact ⟨Ne.symm apart, unused⟩

/-! The keys in `apart` are left out of the uses, and do not count as used in between. -/

theorem filter_latestUses_of_mem {use : Bytes × α} {earlier : List (Bytes × α)}
    {apart : Finset Bytes} (out : use.1 ∈ apart) :
    (latestUses (use :: earlier)).filter (fun entry => entry.1 ∉ apart) =
      (latestUses earlier).filter fun entry => entry.1 ∉ apart := by
  rw [latestUses, List.filter_cons_of_neg (by simpa using out), List.filter_filter]
  refine List.filter_congr ?_
  intro entry _
  by_cases same : entry.1 = use.1
  · simp [same, out]
  · simp [same]

theorem filter_latestUses_of_notMem {use : Bytes × α} {earlier : List (Bytes × α)}
    {apart : Finset Bytes} (kept : use.1 ∉ apart) :
    (latestUses (use :: earlier)).filter (fun entry => entry.1 ∉ apart) =
      use :: (latestUses earlier).filter fun entry => entry.1 ∉ insert use.1 apart := by
  rw [latestUses, List.filter_cons_of_pos (by simpa using kept), List.filter_filter]
  congr 1
  refine List.filter_congr ?_
  intro entry _
  by_cases same : entry.1 = use.1
  · simp [same]
  · simp [same]

theorem card_insert_sdiff {name : Bytes} {apart : Finset Bytes} (out : name ∉ apart)
    (names : Finset Bytes) :
    (insert name names \ apart).card = (names \ insert name apart).card + 1 := by
  rw [Finset.insert_sdiff_of_notMem _ out, Finset.sdiff_insert, ← Finset.erase_insert_eq_erase,
    Finset.card_erase_add_one (Finset.mem_insert_self _ _)]

theorem lookup_latestUses_apart {key : Bytes} {value : α} {uses : List (Bytes × α)}
    {apart : Finset Bytes} {count : Nat} (kept : key ∉ apart) :
    (((latestUses uses).filter fun entry => entry.1 ∉ apart).take count).lookup key = some value ↔
      ∃ since earlier, uses = since ++ (key, value) :: earlier ∧ key ∉ since.map Prod.fst ∧
        ((since.map Prod.fst).toFinset \ apart).card < count := by
  induction uses generalizing apart count with
  | nil => simp [latestUses]
  | cons use earlier ih =>
      obtain ⟨name, stored⟩ := use
      rw [exists_latest_cons_iff]
      simp only [List.map_cons, List.toFinset_cons]
      by_cases out : name ∈ apart
      · have different : name ≠ key := by
          rintro rfl
          exact kept out
        rw [filter_latestUses_of_mem out, ih kept]
        simp only [Finset.insert_sdiff_of_mem _ out]
        constructor
        · intro found
          exact .inr ⟨different, found⟩
        · rintro (⟨first, -⟩ | ⟨-, found⟩)
          · exact absurd (congrArg Prod.fst first) different
          · exact found
      · rw [filter_latestUses_of_notMem out]
        cases count with
        | zero => simp
        | succ count =>
            rw [List.take_succ_cons]
            by_cases same : name = key
            · subst same
              simp
            · have keptInner : key ∉ insert name apart := by
                rw [Finset.mem_insert, not_or]
                exact ⟨Ne.symm same, kept⟩
              have passed : (key == name) = false := by simpa using Ne.symm same
              simp only [List.lookup_cons, passed, ih keptInner, card_insert_sdiff out,
                Nat.add_lt_add_iff_right]
              constructor
              · intro found
                exact .inr ⟨same, found⟩
              · rintro (⟨first, -⟩ | ⟨-, found⟩)
                · exact absurd (congrArg Prod.fst first) same
                · exact found

theorem lookup_latestUses {key : Bytes} {value : α} {uses : List (Bytes × α)} {capacity : Nat} :
    ((latestUses uses).take capacity).lookup key = some value ↔
      UsedWithin capacity key value uses := by
  have nothing := @lookup_latestUses_apart α key value uses ∅ capacity (Finset.notMem_empty key)
  simpa [UsedWithin] using nothing

/-! ## A cache along its uses -/

theorem take_filter_of_all {test : Bytes × α → Bool} {entries : List (Bytes × α)} {count : Nat}
    (passes : ∀ entry ∈ entries.take count, test entry = true) :
    (entries.filter test).take count = entries.take count := by
  induction entries generalizing count with
  | nil => rfl
  | cons entry entries ih =>
      cases count with
      | zero => rfl
      | succ count =>
          rw [List.take_succ_cons] at passes ⊢
          rw [List.filter_cons_of_pos (passes entry List.mem_cons_self), List.take_succ_cons,
            ih fun other member => passes other (List.mem_cons_of_mem entry member)]

/-- Taking a key out of the first entries makes room for one more entry. -/
theorem filter_take_of_lookup {key : Bytes} {value : α} {entries : List (Bytes × α)} {count : Nat}
    (unique : (entries.map Prod.fst).Nodup)
    (found : (entries.take (count + 1)).lookup key = some value) :
    (entries.take (count + 1)).filter (fun entry => entry.1 != key) =
      (entries.filter fun entry => entry.1 != key).take count := by
  induction entries generalizing count with
  | nil => simp at found
  | cons entry entries ih =>
      rw [List.map_cons, List.nodup_cons] at unique
      by_cases same : entry.1 = key
      · have others : ∀ other ∈ entries, (other.1 != key) = true := by
          intro other member
          rw [bne_iff_ne, ← same]
          intro equal
          exact unique.1 (List.mem_map.mpr ⟨other, member, equal⟩)
        rw [List.take_succ_cons, List.filter_cons_of_neg (by simp [same]),
          List.filter_cons_of_neg (by simp [same]), List.filter_eq_self.mpr others]
        exact List.filter_eq_self.mpr fun other member => others other (List.mem_of_mem_take member)
      · have passed : (key == entry.1) = false := by simpa using Ne.symm same
        rw [List.take_succ_cons, List.lookup_cons, passed] at found
        cases count with
        | zero => simp at found
        | succ count =>
            rw [List.take_succ_cons, List.filter_cons_of_pos (by simp [same]),
              List.filter_cons_of_pos (by simp [same]), List.take_succ_cons, ih unique.2 found]

/-- The entries of a cache are its latest uses, as far as they fit. -/
def Cache.Remembers (cache : Cache α) (uses : List (Bytes × α)) : Prop :=
  cache.entries = (latestUses uses).take cache.capacity

namespace Cache.Remembers

variable {cache : Cache α} {uses : List (Bytes × α)} {key : Bytes} {value : α}

theorem get?_eq_some_iff (remembers : cache.Remembers uses) :
    cache.get? key = some value ↔ UsedWithin cache.capacity key value uses := by
  rw [Cache.get?, remembers, lookup_latestUses]

theorem get?_eq_none_iff (remembers : cache.Remembers uses) :
    cache.get? key = none ↔ ∀ value, ¬ UsedWithin cache.capacity key value uses := by
  rw [Option.eq_none_iff_forall_ne_some]
  exact forall_congr' fun value => not_congr remembers.get?_eq_some_iff

theorem length_le (remembers : cache.Remembers uses) :
    cache.entries.length ≤ cache.capacity := by
  rw [remembers]
  exact List.length_take_le _ _

/-- A hit makes its key the most recent one. -/
theorem refresh (remembers : cache.Remembers uses) (found : cache.get? key = some value) :
    (cache.refresh key).Remembers ((key, value) :: uses) := by
  rw [Cache.Remembers, Cache.entries_refresh found, Cache.capacity_refresh, Cache.without,
    remembers, latestUses]
  rw [Cache.get?, remembers] at found
  cases full : cache.capacity with
  | zero =>
      rw [full] at found
      cases found
  | succ count =>
      rw [full] at found
      rw [List.take_succ_cons, filter_take_of_lookup (nodup_latestUses uses) found]

/-- A miss that is filled becomes the most recent use. -/
theorem insert (remembers : cache.Remembers uses) (missed : cache.get? key = none) (value : α) :
    (cache.insert key value).Remembers ((key, value) :: uses) := by
  have absent : ∀ entry ∈ cache.entries, (entry.1 != key) = true := by
    intro entry member
    have apart := List.lookup_eq_none_iff.mp missed entry member
    rw [bne_iff_ne] at apart ⊢
    exact Ne.symm apart
  have kept : cache.without key = cache.entries := List.filter_eq_self.mpr absent
  change ((key, value) :: cache.without key).take cache.capacity =
    ((key, value) :: (latestUses uses).filter _).take cache.capacity
  rw [kept]
  cases full : cache.capacity with
  | zero => rfl
  | succ count =>
      have entries : cache.entries = (latestUses uses).take (count + 1) := by
        rw [remembers, full]
      have passes : ∀ entry ∈ (latestUses uses).take count, (entry.1 != key) = true := by
        intro entry member
        refine absent entry ?_
        rw [entries]
        exact (List.take_prefix_take_left (Nat.le_succ count)).subset member
      rw [List.take_succ_cons, List.take_succ_cons, take_filter_of_all passes, entries,
        List.take_take, Nat.min_eq_left (Nat.le_succ count)]

end Cache.Remembers

end ClassAudit
