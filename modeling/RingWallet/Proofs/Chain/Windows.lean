import Mathlib.Algebra.Group.Nat.Defs
import Mathlib.Data.List.Basic
import Mathlib.Logic.ExistsUnique
import RingWallet.Chain.Params

/-!
# Windows of heights

Windows cut the heights into runs of equal length, so the window of a height is told by the quotient
of the height by that length: a height is in the window of another exactly if they have the same
quotient (`ChainParams.mem_groupHeights_iff`). Hence two windows are the same or have no height in
common, and in each of them one height is the end of a window, the last (`windows_tile_chain`).

First heights and ends are words and are computed as words. Below `2 ^ 63`, where the heights of
blocks lie, no window reaches behind the last word (`ChainParams.map_toNat_groupHeights`).
-/

set_option autoImplicit false

namespace RingWallet

namespace ChainParams

/-! ## Ends -/

/-- The last height of the window that holds a height. -/
def windowEnd (params : ChainParams) (height : Nat) : Nat :=
  height / params.groupSize * params.groupSize + (params.groupSize - 1)

theorem groupSize_le (params : ChainParams) : params.groupSize ≤ 255 := by
  have hbyte := params.blocksPerGroup.toNat_lt
  unfold groupSize
  omega

/-- A window's end is its first height and all but one of its blocks. -/
theorem windowEnd_eq (params : ChainParams) (height : Nat) :
    params.windowEnd height = height - height % params.groupSize + (params.groupSize - 1) := by
  unfold windowEnd
  rw [Nat.div_mul_self_eq_mod_sub_self]

theorem le_windowEnd (params : ChainParams) (height : Nat) : height ≤ params.windowEnd height := by
  have hmod := Nat.mod_lt height params.groupSize_pos
  rw [windowEnd_eq]
  omega

@[simp] theorem windowEnd_div (params : ChainParams) (height : Nat) :
    params.windowEnd height / params.groupSize = height / params.groupSize := by
  have hpos := params.groupSize_pos
  unfold windowEnd
  rw [Nat.add_comm, Nat.add_mul_div_right _ _ hpos, Nat.div_eq_of_lt (by omega), Nat.zero_add]

/-- Heights have one window's end exactly if they are in one window. -/
theorem windowEnd_eq_iff (params : ChainParams) (height other : Nat) :
    params.windowEnd height = params.windowEnd other ↔
      height / params.groupSize = other / params.groupSize := by
  refine ⟨fun h => ?_, fun h => ?_⟩
  · rw [← windowEnd_div, h, windowEnd_div]
  · unfold windowEnd
    rw [h]

/-- A window's end is the end of its own window. -/
@[simp] theorem windowEnd_windowEnd (params : ChainParams) (height : Nat) :
    params.windowEnd (params.windowEnd height) = params.windowEnd height :=
  (params.windowEnd_eq_iff _ _).mpr (params.windowEnd_div height)

variable {place : Nat}

/-- A height up to a window's end is in the window exactly if the window starts before it. -/
theorem windowEnd_eq_of_le (params : ChainParams) {height : Nat} (hle : height ≤ place)
    (hend : params.windowEnd place = place) :
    params.windowEnd height = place ↔ place - place % params.groupSize ≤ height := by
  have hbelow : height / params.groupSize ≤ place / params.groupSize := Nat.div_le_div_right hle
  rw [← hend, params.windowEnd_eq_iff, hend, ← Nat.div_mul_self_eq_mod_sub_self,
    ← Nat.le_div_iff_mul_le params.groupSize_pos]
  omega

theorem isGroupEnd_iff (params : ChainParams) (hplace : place < UInt64.size) :
    params.isGroupEnd (UInt64.ofNat place) = true ↔ params.windowEnd place = place := by
  have hmod := Nat.mod_lt place params.groupSize_pos
  have hle := Nat.mod_le place params.groupSize
  unfold isGroupEnd
  rw [UInt64.toNat_ofNat_of_lt' hplace, beq_iff_eq, windowEnd_eq]
  omega

/-! ## First heights and heights in order -/

theorem toNat_groupStart (params : ChainParams) (hplace : place < UInt64.size) :
    (params.groupStart (UInt64.ofNat place)).toNat = place - place % params.groupSize := by
  unfold groupStart
  rw [UInt64.toNat_ofNat_of_lt' hplace, UInt64.toNat_ofNat_of_lt' (by omega)]

/-- The heights of the window that holds a place, counted from its first. -/
theorem groupHeights_eq (params : ChainParams) (hplace : place < UInt64.size) :
    params.groupHeights (UInt64.ofNat place) =
      (List.range' (place - place % params.groupSize) params.groupSize).map UInt64.ofNat := by
  unfold groupHeights
  rw [toNat_groupStart params hplace, List.range'_eq_map_range, List.map_map]
  rfl

variable (params : ChainParams)

section

variable (height : UInt64)

/-- A window ends at a height if the heights up to there make whole windows. -/
theorem isGroupEnd_iff_dvd :
    params.isGroupEnd height = true ↔ params.groupSize ∣ height.toNat + 1 := by
  have hpos := params.groupSize_pos
  have hmod := Nat.mod_lt height.toNat hpos
  have hdiv := Nat.div_add_mod height.toNat params.groupSize
  unfold isGroupEnd
  rw [beq_iff_eq, ← hdiv, Nat.add_assoc, Nat.dvd_add_right (Nat.dvd_mul_right _ _), hdiv]
  constructor
  · intro hlast
    exact ⟨1, by omega⟩
  · intro hdvd
    have hle := Nat.le_of_dvd (Nat.succ_pos _) hdvd
    omega

/-- A window ends at a height exactly if the height is the end of its own window. -/
theorem isGroupEnd_iff_windowEnd_eq :
    params.isGroupEnd height = true ↔ params.windowEnd height.toNat = height.toNat := by
  have hend := params.isGroupEnd_iff height.toNat_lt
  rwa [UInt64.ofNat_toNat] at hend

/-- The first height of a window is a multiple of the size. -/
theorem toNat_groupStart_eq_mul :
    (params.groupStart height).toNat = height.toNat / params.groupSize * params.groupSize := by
  have hstart := params.toNat_groupStart height.toNat_lt
  rwa [UInt64.ofNat_toNat, ← Nat.div_mul_self_eq_mod_sub_self] at hstart

/-- The first height of a window, computed in words: the remainder is never above the height. -/
theorem groupStart_eq_sub_mod :
    params.groupStart height = height - height % UInt64.ofNat params.groupSize := by
  have hsize : (UInt64.ofNat params.groupSize).toNat = params.groupSize := by
    have hle := params.groupSize_le
    have hword : UInt64.size = 2 ^ 64 := rfl
    exact UInt64.toNat_ofNat_of_lt' (by omega)
  have hmod : height % UInt64.ofNat params.groupSize ≤ height := by
    rw [UInt64.le_iff_toNat_le, UInt64.toNat_mod]
    exact Nat.mod_le _ _
  apply UInt64.toNat.inj
  rw [toNat_groupStart_eq_mul, UInt64.toNat_sub_of_le _ _ hmod, UInt64.toNat_mod, hsize,
    Nat.div_mul_self_eq_mod_sub_self]

/-- The heights of a window, as long as they fit. -/
theorem map_toNat_groupHeights (hheight : height.toNat < 2 ^ 63) :
    (params.groupHeights height).map UInt64.toNat =
      List.range' (height.toNat / params.groupSize * params.groupSize) params.groupSize := by
  have hbelow := Nat.div_mul_le_self height.toNat params.groupSize
  have hsize := params.groupSize_le
  have heights := params.groupHeights_eq height.toNat_lt
  rw [UInt64.ofNat_toNat, ← Nat.div_mul_self_eq_mod_sub_self] at heights
  rw [heights, List.map_map]
  refine (List.map_congr_left fun place hplace => ?_).trans (List.map_id _)
  have hbound := List.mem_range'_1.mp hplace
  have hword : UInt64.size = 2 ^ 64 := rfl
  exact UInt64.toNat_ofNat_of_lt' (by omega)

end

/-! ## Windows as a partition -/

section

variable {height other : UInt64} (hheight : height.toNat < 2 ^ 63)

include hheight

/-- A height is in the window of another exactly if both have the same quotient by the size. -/
theorem mem_groupHeights_iff :
    other ∈ params.groupHeights height ↔
      other.toNat / params.groupSize = height.toNat / params.groupSize := by
  have hpos := params.groupSize_pos
  have hinjective : Function.Injective UInt64.toNat := fun _ _ => UInt64.toNat.inj
  rw [← List.mem_map_of_injective hinjective, params.map_toNat_groupHeights height hheight,
    List.mem_range'_1, Nat.div_eq_iff hpos]
  omega

theorem groupHeights_eq_iff (hother : other.toNat < 2 ^ 63) :
    params.groupHeights height = params.groupHeights other ↔
      height.toNat / params.groupSize = other.toNat / params.groupSize := by
  constructor
  · intro hsame
    have hself : height ∈ params.groupHeights height :=
      (params.mem_groupHeights_iff hheight).mpr rfl
    rw [hsame] at hself
    exact (params.mem_groupHeights_iff hother).mp hself
  · intro hsame
    -- Both windows are the same run of numbers, and words with the same number are the same.
    apply List.map_injective_iff.mpr fun _ _ => UInt64.toNat.inj
    rw [params.map_toNat_groupHeights height hheight, params.map_toNat_groupHeights other hother,
      hsame]

/-- Different windows have no height in common: it would have the quotient of both. -/
theorem disjoint_groupHeights (hother : other.toNat < 2 ^ 63)
    (hne : params.groupHeights height ≠ params.groupHeights other) :
    (params.groupHeights height).Disjoint (params.groupHeights other) := by
  intro shared hin hinOther
  rw [params.mem_groupHeights_iff hheight] at hin
  rw [params.mem_groupHeights_iff hother] at hinOther
  exact hne ((params.groupHeights_eq_iff hheight hother).mpr (hin.symm.trans hinOther))

/-- The last height of a window is its end. -/
theorem getLast?_groupHeights :
    (params.groupHeights height).getLast?.map UInt64.toNat =
      some (params.windowEnd height.toNat) := by
  have hpos := params.groupSize_pos
  rw [← List.getLast?_map, params.map_toNat_groupHeights height hheight, List.getLast?_range',
    if_neg (Nat.ne_of_gt hpos), Nat.add_sub_assoc hpos]
  rfl

/-- The height of a window at which a window ends is the end of this window. -/
theorem isGroupEnd_of_mem_iff (last : UInt64) :
    last ∈ params.groupHeights height ∧ params.isGroupEnd last = true ↔
      last.toNat = params.windowEnd height.toNat := by
  rw [params.mem_groupHeights_iff hheight, params.isGroupEnd_iff_windowEnd_eq,
    ← params.windowEnd_eq_iff]
  constructor
  · rintro ⟨hwindow, hend⟩
    rw [← hend, hwindow]
  · intro hlast
    rw [hlast, params.windowEnd_windowEnd]
    exact ⟨rfl, rfl⟩

end

/-- The windows tile the heights below `2 ^ 63`, whatever the number of blocks in a window; zero
counts as one. The window of a height starts at a multiple of that number, and neither its first
height nor the height behind its last overflows. From there it has that number of heights in order,
and the height is one of them. Two windows are the same exactly if each of the two heights is in the
other's, and otherwise they have no height in common. A height is found to end a window exactly if
it is the last of its own, and one height of every window is. -/
theorem windows_tile_chain {height : UInt64} (hheight : height.toNat < 2 ^ 63) :
    let size := max params.blocksPerGroup.toNat 1
    let start := params.groupStart height
    let window := params.groupHeights height
    (size ∣ start.toNat ∧ start = height - height % UInt64.ofNat size ∧
      start.toNat + size < UInt64.size) ∧
    (window.map UInt64.toNat = List.range' start.toNat size ∧ height ∈ window) ∧
    (∀ other : UInt64, other.toNat < 2 ^ 63 →
      (window = params.groupHeights other ↔
        height ∈ params.groupHeights other ∧ other ∈ window) ∧
      (window ≠ params.groupHeights other → window.Disjoint (params.groupHeights other))) ∧
    (params.isGroupEnd height = true ↔ window.getLast? = some height) ∧
    ∃! last, last ∈ window ∧ params.isGroupEnd last = true := by
  intro size start window
  have hstart : start.toNat = height.toNat / size * size := params.toNat_groupStart_eq_mul height
  have hself : height ∈ window := (params.mem_groupHeights_iff hheight).mpr rfl
  -- The last height of the window is the word for its end.
  obtain ⟨last, hlast, hend⟩ := Option.map_eq_some_iff.mp (params.getLast?_groupHeights hheight)
  refine ⟨⟨?multiple, params.groupStart_eq_sub_mod height, ?fits⟩, ⟨?run, hself⟩, ?apart, ?ends,
    last, (params.isGroupEnd_of_mem_iff hheight last).mpr hend, ?unique⟩
  case multiple =>
    rw [hstart]
    exact Nat.dvd_mul_left _ _
  case fits =>
    have hle : size ≤ 255 := params.groupSize_le
    have hbelow := Nat.div_mul_le_self height.toNat size
    have hword : UInt64.size = 2 ^ 64 := rfl
    omega
  case run =>
    rw [hstart]
    exact params.map_toNat_groupHeights height hheight
  case apart =>
    intro other hother
    refine ⟨?_, params.disjoint_groupHeights hheight hother⟩
    rw [params.groupHeights_eq_iff hheight hother, params.mem_groupHeights_iff hother,
      params.mem_groupHeights_iff hheight]
    constructor
    · intro hsame
      exact ⟨hsame, hsame.symm⟩
    · rintro ⟨hsame, -⟩
      exact hsame
  case ends =>
    rw [params.isGroupEnd_iff_windowEnd_eq, hlast, Option.some_inj, ← hend]
    constructor
    · exact fun hsame => UInt64.toNat.inj hsame
    · exact fun hsame => congrArg UInt64.toNat hsame
  case unique =>
    intro other hother
    apply UInt64.toNat.inj
    rw [hend]
    exact (params.isGroupEnd_of_mem_iff hheight other).mp hother

/-- The last window of three blocks that starts below `2 ^ 63` reaches behind it. It still has one
end, and the window in front of it is another. -/
theorem last_window_tiles :
    let height : UInt64 := 9223372036854775807
    let before : UInt64 := 9223372036854775805
    let window := standard.groupHeights height
    height.toNat < 2 ^ 63 ∧ before.toNat < 2 ^ 63 ∧
    window.map UInt64.toNat = [9223372036854775806, 9223372036854775807, 9223372036854775808] ∧
    window.Disjoint (standard.groupHeights before) ∧
    standard.isGroupEnd height = false ∧
    ∃! last, last ∈ window ∧ standard.isGroupEnd last = true := by
  intro height before window
  have hheight : height.toNat < 2 ^ 63 := by decide
  have hbefore : before.toNat < 2 ^ 63 := by decide
  obtain ⟨-, -, happart, -, hunique⟩ := windows_tile_chain standard hheight
  have hne : window ≠ standard.groupHeights before := by decide +kernel
  exact ⟨hheight, hbefore, by decide +kernel, (happart before hbefore).2 hne, by decide +kernel,
    hunique⟩

end ChainParams

end RingWallet
