import ClassAudit.Proofs.DecodeProperties
import Mathlib.Data.List.Chain

/-!
# Addressable constants

The slots of a decoded pool that hold nothing are those right behind a `long` or `double`.
Lookups by index, the listing of all constants and the declared count agree on this.
-/

set_option autoImplicit false

namespace ClassAudit

/-! ## Slots behind wide constants -/

/-- A slot with a constant that takes the next slot as well. -/
def PoolSlot.IsWide (slot : PoolSlot) : Prop :=
  ∃ constant, slot = .entry constant ∧ (constant.tag = .long ∨ constant.tag = .double)

/-- Whether the slot before a position holds a wide constant. -/
def Pool.FollowsWide (pool : Pool) (position : Nat) : Prop :=
  ∃ before slot, position = before + 1 ∧ pool.slots[before]? = some slot ∧ slot.IsWide

theorem Constant.tag_interpreted (constant : Constant) :
    constant.interpreted.tag = constant.tag := by
  cases constant <;> rfl

theorem Tag.wide_iff (tag : Tag) : tag.wide = true ↔ tag = .long ∨ tag = .double := by
  cases tag <;> decide

theorem PoolSlot.isWide_entry_iff (constant : Constant) :
    (PoolSlot.entry constant.interpreted).IsWide ↔ constant.tag.wide = true := by
  rw [Tag.wide_iff, ← constant.tag_interpreted]
  constructor
  · intro isWide
    obtain ⟨same, found, wide⟩ := isWide
    cases found
    exact wide
  · intro wide
    exact ⟨constant.interpreted, rfl, wide⟩

theorem PoolSlot.not_isWide_upperHalf : ¬ PoolSlot.upperHalf.IsWide := by
  intro isWide
  obtain ⟨constant, found, -⟩ := isWide
  cases found

/-- Two slots in a row: the second holds nothing exactly when the first is wide. -/
def PoolSlot.Neighbours (slot next : PoolSlot) : Prop := next = .upperHalf ↔ slot.IsWide

theorem head?_flatMap_poolSlots (constants : List Constant) :
    (constants.flatMap Constant.poolSlots).head? =
      constants.head?.map fun constant => .entry constant.interpreted := by
  cases constants with
  | nil => rfl
  | cons constant constants =>
      rw [List.flatMap_cons, Constant.poolSlots]
      split <;> rfl

theorem Constant.poolSlots_neighbours (constant : Constant) :
    constant.poolSlots.IsChain PoolSlot.Neighbours ∧
      ∀ last ∈ constant.poolSlots.getLast?, ¬ last.IsWide := by
  have isWide := PoolSlot.isWide_entry_iff constant
  unfold Constant.poolSlots
  split
  · next wide =>
      refine ⟨.cons_cons ⟨fun _ => isWide.mpr wide, fun _ => rfl⟩ (.singleton _), ?_⟩
      intro last member
      cases member
      exact PoolSlot.not_isWide_upperHalf
  · next narrow =>
      refine ⟨.singleton _, ?_⟩
      intro last member
      cases member
      exact fun wide => narrow (isWide.mp wide)

theorem flatMap_poolSlots_neighbours (constants : List Constant) :
    (constants.flatMap Constant.poolSlots).IsChain PoolSlot.Neighbours := by
  induction constants with
  | nil => exact .nil
  | cons constant constants ih =>
      obtain ⟨inside, ends⟩ := constant.poolSlots_neighbours
      rw [List.flatMap_cons, List.isChain_append]
      refine ⟨inside, ih, ?_⟩
      intro last isLast next isNext
      rw [head?_flatMap_poolSlots] at isNext
      obtain ⟨following, -, rfl⟩ := Option.map_eq_some_iff.mp isNext
      exact ⟨nofun, fun wide => absurd wide (ends last isLast)⟩

theorem Pool.exists_first_entry {count : UInt16} {constants : List Constant} {slot : PoolSlot}
    (found : (Pool.ofConstants count constants).slots[0]? = some slot) :
    ∃ constant, slot = .entry constant := by
  rw [Pool.ofConstants, List.getElem?_take] at found
  split at found
  · rw [← List.head?_eq_getElem?, head?_flatMap_poolSlots] at found
    obtain ⟨constant, -, rfl⟩ := Option.map_eq_some_iff.mp found
    exact ⟨_, rfl⟩
  · cases found

theorem Pool.upperHalf_iff_followsWide {count : UInt16} {constants : List Constant}
    {position : Nat} {slot : PoolSlot}
    (found : (Pool.ofConstants count constants).slots[position]? = some slot) :
    slot = .upperHalf ↔ (Pool.ofConstants count constants).FollowsWide position := by
  have chain : (Pool.ofConstants count constants).slots.IsChain PoolSlot.Neighbours :=
    (flatMap_poolSlots_neighbours constants).take (count.toNat - 1)
  obtain ⟨below, here⟩ := List.getElem?_eq_some_iff.mp found
  cases position with
  | zero =>
      obtain ⟨constant, rfl⟩ := Pool.exists_first_entry found
      constructor
      · nofun
      · intro follows
        obtain ⟨before, previous, impossible, -⟩ := follows
        cases impossible
  | succ before =>
      have neighbours := chain.getElem before below
      rw [here] at neighbours
      have previous := List.getElem?_eq_getElem (Nat.lt_of_succ_lt below)
      constructor
      · intro empty
        exact ⟨before, _, rfl, previous, neighbours.mp empty⟩
      · intro follows
        obtain ⟨earlier, wide, same, held, isWide⟩ := follows
        cases same
        rw [previous] at held
        cases held
        exact neighbours.mpr isWide

/-! ## Single lookups -/

theorem Pool.entry_eq_ok_iff {pool : Pool} {index : PoolIndex} {constant : Constant} :
    pool.entry index = .ok constant ↔
      index ≠ 0 ∧ pool.slots[index.toNat - 1]? = some (.entry constant) := by
  unfold Pool.entry
  by_cases zero : index = 0
  · simp [zero]
  · rw [if_neg zero]
    cases slot : pool.slots[index.toNat - 1]? with
    | none => simp
    | some found =>
        cases found with
        | upperHalf => simp
        | entry constant => simp [zero]

theorem Pool.entry_of_upperHalf {pool : Pool} {index : PoolIndex} (nonzero : index ≠ 0)
    (empty : pool.slots[index.toNat - 1]? = some .upperHalf) :
    pool.entry index =
      .error (.upperHalf index (pool.slots[index.toNat - 2]?.bind PoolSlot.tag?)) := by
  rw [Pool.entry, if_neg nonzero, empty]

theorem LookupError.classified (error : LookupError) :
    error.toFault.causes = [.indexNotFound] ∧ error.toFault.kind = .notFound ∨
      error.toFault.causes = [.wrongConstant] ∧ error.toFault.kind = .invalidFormat := by
  cases error with
  | outOfRange index count => exact .inl ⟨rfl, rfl⟩
  | upperHalf index owner => exact .inl ⟨rfl, rfl⟩
  | wrongKind index found wanted => exact .inr ⟨rfl, rfl⟩

theorem Pool.entry_error_notFound {pool : Pool} {index : PoolIndex} {error : LookupError}
    (failed : pool.entry index = .error error) :
    error.toFault.causes = [.indexNotFound] ∧ error.toFault.kind = .notFound := by
  unfold Pool.entry at failed
  split at failed
  · cases failed
    exact ⟨rfl, rfl⟩
  · split at failed
    · cases failed
      exact ⟨rfl, rfl⟩
    · cases failed
      exact ⟨rfl, rfl⟩
    · cases failed

/-! ## All constants -/

theorem toNat_toUInt16_of_lt {number : Nat} (small : number < 65536) :
    number.toUInt16.toNat = number :=
  UInt16.toNat_ofNat_of_lt small

theorem slotEntry_eq_some_iff {slot : PoolSlot} {position : Nat} {index : PoolIndex}
    {constant : Constant} :
    slotEntry? (slot, position) = some (index, constant) ↔
      slot = .entry constant ∧ index = (position + 1).toUInt16 := by
  unfold slotEntry?
  cases slot with
  | entry held => simp [eq_comm, and_comm]
  | upperHalf => simp

theorem mem_zipIdx_slots {pool : Pool} {slot : PoolSlot} {position : Nat}
    (member : (slot, position) ∈ pool.slots.zipIdx) :
    pool.slots[position]? = some slot ∧ position + 1 < pool.count := by
  have held := List.mem_zipIdx_iff_getElem?.mp member
  obtain ⟨below, -⟩ := List.getElem?_eq_some_iff.mp held
  exact ⟨held, Nat.succ_lt_succ below⟩

theorem Pool.mem_entries_iff {pool : Pool} (small : pool.count < 65536) {index : PoolIndex}
    {constant : Constant} :
    (index, constant) ∈ pool.entries ↔ pool.entry index = .ok constant := by
  rw [Pool.entries_eq_filterMap, List.mem_filterMap, Pool.entry_eq_ok_iff]
  constructor
  · intro listed
    obtain ⟨⟨slot, position⟩, member, shown⟩ := listed
    obtain ⟨rfl, rfl⟩ := slotEntry_eq_some_iff.mp shown
    obtain ⟨held, below⟩ := mem_zipIdx_slots member
    have faithful := toNat_toUInt16_of_lt (Nat.lt_trans below small)
    constructor
    · intro zero
      rw [zero] at faithful
      cases faithful
    · rw [faithful, Nat.add_sub_cancel]
      exact held
  · intro found
    obtain ⟨nonzero, held⟩ := found
    have positive : 0 < index.toNat := by
      apply Nat.pos_of_ne_zero
      intro zero
      exact nonzero (UInt16.toNat_inj.mp zero)
    refine ⟨(.entry constant, index.toNat - 1), List.mem_zipIdx_iff_getElem?.mpr held, ?_⟩
    rw [slotEntry_eq_some_iff, Nat.sub_add_cancel positive]
    exact ⟨rfl, UInt16.ofNat_toNat.symm⟩

theorem Pool.entries_increasing {pool : Pool} (small : pool.count < 65536) :
    pool.entries.Pairwise fun earlier later => earlier.1 < later.1 := by
  have ordered : pool.slots.zipIdx.Pairwise fun earlier later => earlier.2 < later.2 := by
    rw [← List.pairwise_map (f := Prod.snd), List.zipIdx_map_snd]
    exact List.pairwise_lt_range'
  rw [Pool.entries_eq_filterMap, List.pairwise_filterMap]
  apply ordered.imp_of_mem
  intro earlier later _ present before first shown second shownLater
  obtain ⟨-, index⟩ := slotEntry_eq_some_iff.mp shown
  obtain ⟨-, indexLater⟩ := slotEntry_eq_some_iff.mp shownLater
  obtain ⟨-, below⟩ := mem_zipIdx_slots present
  rw [index, indexLater, UInt16.lt_iff_toNat_lt, toNat_toUInt16_of_lt (by omega),
    toNat_toUInt16_of_lt (by omega)]
  omega

/-! ## Decoded pools -/

/-- What can be looked up in a pool of a declared count. The slots without a constant are those
behind a `long` or `double`, lookups find every other slot below the count, and the listing
holds what lookups find, by rising index. Every failed lookup has one of two causes. -/
structure Pool.Addresses (pool : Pool) (count : Nat) : Prop where
  counted : pool.count = count
  halves : ∀ position slot, pool.slots[position]? = some slot →
    (slot = .upperHalf ↔ pool.FollowsWide position)
  finds : ∀ index, (∃ constant, pool.entry index = .ok constant) ↔
    1 ≤ index.toNat ∧ index.toNat < count ∧ ¬ pool.FollowsWide (index.toNat - 1)
  misses : ∀ index error, pool.entry index = .error error →
    error.toFault.causes = [.indexNotFound] ∧ error.toFault.kind = .notFound
  names : ∀ index, 1 ≤ index.toNat → index.toNat < count →
    pool.FollowsWide (index.toNat - 1) →
    2 ≤ index.toNat ∧ ∃ error, pool.entry index = .error error ∧
      (error.toFault.summary =
          "index " ++ decimal index.toNat ++ " is the second slot of a Long constant" ∨
        error.toFault.summary =
          "index " ++ decimal index.toNat ++ " is the second slot of a Double constant")
  lists : ∀ index constant, (index, constant) ∈ pool.entries ↔ pool.entry index = .ok constant
  rising : pool.entries.Pairwise fun earlier later => earlier.1 < later.1
  resolves : ∀ index error,
    pool.utf8 index = .error error ∨ pool.className index = .error error ∨
      pool.nameAndType index = .error error ∨ pool.member index = .error error →
    error.toFault.causes = [.indexNotFound] ∧ error.toFault.kind = .notFound ∨
      error.toFault.causes = [.wrongConstant] ∧ error.toFault.kind = .invalidFormat

theorem LookupError.upperHalf_summary (index : PoolIndex) (owner : Tag) :
    (LookupError.upperHalf index (some owner)).toFault.summary =
      "index " ++ decimal index.toNat ++ " is the second slot of a " ++ owner.name ++
        " constant" := by
  refine Fault.summary_classifiedBy ?_
  simp only [List.append_assoc]
  exact List.append_ne_nil_of_left_ne_nil (by decide) _

theorem Pool.getElem?_of_lt_count {pool : Pool} {index : Nat} (positive : 1 ≤ index)
    (below : index < pool.count) : ∃ slot, pool.slots[index - 1]? = some slot := by
  have inside : index - 1 < pool.slots.length := by
    rw [Pool.count] at below
    omega
  exact ⟨_, List.getElem?_eq_getElem inside⟩

/-- A slot behind a wide constant is reported with the kind of that constant. -/
theorem Pool.entry_of_followsWide {pool : Pool} {index : PoolIndex}
    (empty : pool.slots[index.toNat - 1]? = some .upperHalf)
    (follows : pool.FollowsWide (index.toNat - 1)) :
    2 ≤ index.toNat ∧ ∃ owner, (owner = .long ∨ owner = .double) ∧
      pool.entry index = .error (.upperHalf index (some owner)) := by
  obtain ⟨before, slot, behind, held, constant, rfl, wide⟩ := follows
  have second : 2 ≤ index.toNat := by omega
  have nonzero : index ≠ 0 := by
    intro zero
    rw [zero] at second
    cases second
  have previous : index.toNat - 2 = before := by omega
  refine ⟨second, constant.tag, wide, ?_⟩
  rw [Pool.entry_of_upperHalf nonzero empty, previous, held]
  rfl

theorem Pool.ofConstants_addresses {count : UInt16} {constants : List Constant}
    (declared : 1 ≤ count.toNat) (fills : FillsSlots count.toNat 1 constants) :
    (Pool.ofConstants count constants).Addresses count.toNat := by
  have counted := Pool.count_ofConstants declared fills
  have small : (Pool.ofConstants count constants).count < 65536 := counted ▸ count.toNat_lt
  refine ⟨counted, fun _ _ found => Pool.upperHalf_iff_followsWide found, ?_,
    fun _ _ failed => Pool.entry_error_notFound failed, ?_,
    fun _ _ => Pool.mem_entries_iff small, Pool.entries_increasing small,
    fun _ error _ => error.classified⟩
  · intro index
    constructor
    · intro addressed
      obtain ⟨constant, found⟩ := addressed
      obtain ⟨nonzero, held⟩ := Pool.entry_eq_ok_iff.mp found
      obtain ⟨inside, -⟩ := List.getElem?_eq_some_iff.mp held
      have positive : index.toNat ≠ 0 := fun zero => nonzero (UInt16.toNat_inj.mp zero)
      rw [Pool.count] at counted
      refine ⟨by omega, by omega, ?_⟩
      intro follows
      cases (Pool.upperHalf_iff_followsWide held).mpr follows
    · intro addressable
      obtain ⟨positive, below, apart⟩ := addressable
      rw [← counted] at below
      obtain ⟨slot, held⟩ := Pool.getElem?_of_lt_count positive below
      cases slot with
      | upperHalf => exact absurd ((Pool.upperHalf_iff_followsWide held).mp rfl) apart
      | entry constant =>
          refine ⟨constant, Pool.entry_eq_ok_iff.mpr ⟨?_, held⟩⟩
          intro zero
          rw [zero] at positive
          cases positive
  · intro index positive below follows
    rw [← counted] at below
    obtain ⟨slot, held⟩ := Pool.getElem?_of_lt_count positive below
    rw [(Pool.upperHalf_iff_followsWide held).mpr follows] at held
    obtain ⟨second, owner, wide, failed⟩ := Pool.entry_of_followsWide held follows
    refine ⟨second, _, failed, ?_⟩
    rw [LookupError.upperHalf_summary]
    rcases wide with rfl | rfl
    · exact .inl (by simp only [List.append_assoc]; rfl)
    · exact .inr (by simp only [List.append_assoc]; rfl)

theorem poolCount_of_encode (raw : RawClass) (rest : Bytes) :
    bigEndian (((raw.encode ++ rest).drop 8).take 2) = raw.poolCount.toNat := by
  rw [RawClass.encode_eq_header_append, encodeHeader]
  exact bigEndian_bytesOfU2 raw.poolCount

/-- Whatever a decode accepts, in either mode, its pool holds as many slots as the word at offset
8 declares, and the lookups find exactly the addressable ones. -/
theorem decoded_pool_addresses_constants {mode : DecodeMode} {data : Bytes} {file : ClassFile}
    (decoded : decode mode data = .ok file) :
    file.pool.Addresses (bigEndian ((data.drop 8).take 2)) := by
  obtain ⟨raw, after, read, rfl⟩ := read_of_decode decoded
  obtain ⟨fits, rfl, -⟩ := readClass_eq_ok read
  rw [poolCount_of_encode]
  exact Pool.ofConstants_addresses fits.poolDeclared fits.fillsSlots

/-- A class with a `long` before a text, and a `double` in the last slot. -/
def wideConstantsClass : RawClass :=
  { minor := 0, major := 52, poolCount := 5, constants := [.long 7, .utf8 "A", .double 0],
    access := 0x0021, thisClass := 0, superClass := 0, interfaces := [], fields := [],
    methods := [], attributes := [] }

theorem decoded_pool_addresses_constants_wide :
    ∃ file, decode .bestEffort (wideConstantsClass.encode ++ [0]) = .ok file ∧
      file.pool.Addresses 5 ∧
      file.pool.entry 2 = .error (.upperHalf 2 (some .long)) ∧
      file.pool.entries = [(1, .long 7), (3, .utf8 "A"), (4, .double 0)] := by
  have decoded := decode_encode (by decide : wideConstantsClass.Fits) [0]
  refine ⟨_, decoded, ?_, by decide, by decide⟩
  exact decoded_pool_addresses_constants decoded

end ClassAudit
