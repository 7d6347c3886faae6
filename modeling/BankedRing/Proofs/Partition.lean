import BankedRing.Partition
import BankedRing.Proofs.Outcome
import BankedRing.Proofs.Slices

/-! Staging and scattering are inverse. Staging gives each unit the row that `row` names;
scattering puts rows of that form back into the towers that they were cut from. -/
namespace BankedRing.Partition
variable {partition : Partition}

theorem new_eq_ok_iff {towers towerLength split : Nat} {partition : Partition} :
    new towers towerLength split = .ok partition ↔
      ¬ (towers = 0 ∨ towerLength = 0 ∨ split = 0) ∧ towerLength % split = 0 ∧
        partition.towers = towers ∧ partition.towerLength = towerLength ∧
        partition.split = split := by
  unfold new
  split
  · simp_all
  · rename_i nonempty
    split
    · rename_i even
      obtain ⟨t, l, s, _, _⟩ := partition
      simp [nonempty, even, eq_comm]
    · rename_i uneven
      simp [uneven]

theorem towers_pos (partition : Partition) : 0 < partition.towers := by
  have := partition.nonempty
  omega

theorem split_pos (partition : Partition) : 0 < partition.split := by
  have := partition.nonempty
  omega

theorem unit_lt (partition : Partition) {tower part : Nat} (ht : tower < partition.towers)
    (hp : part < partition.split) : tower * partition.split + part < partition.unitsRequired := by
  calc tower * partition.split + part < (tower + 1) * partition.split := by
        rw [Nat.succ_mul]
        omega
    _ ≤ partition.unitsRequired := Nat.mul_le_mul_right _ ht

/-- The share of a unit: a part of the tower that it carries, zeros on an idle unit. -/
def row (partition : Partition) (towers : List (List Word)) (unit : Nat) : List Word :=
  match partition.unitTower? unit with
  | some tower =>
    slice (unit % partition.split * partition.share) partition.share (towers.getD tower [])
  | none => List.replicate partition.share 0

/-- The modulus of a unit. -/
def unitModulus (partition : Partition) (moduli : List Word) (unit : Nat) : Word :=
  moduli.getD ((partition.unitTower? unit).getD 0) 0

/-- Towers of the partition's shape. -/
def Shaped (partition : Partition) (towers : List (List Word)) : Prop :=
  towers.length = partition.towers ∧ ∀ tower ∈ towers, tower.length = partition.towerLength

theorem unitTower?_busy {tower part : Nat} (ht : tower < partition.towers)
    (hp : part < partition.split) :
    partition.unitTower? (tower * partition.split + part) = some tower := by
  rw [unitTower?, if_pos (partition.unit_lt ht hp), Nat.mul_comm,
    Nat.mul_add_div partition.split_pos,
    Nat.div_eq_of_lt hp, Nat.add_zero]

theorem row_busy (towers : List (List Word)) {tower part : Nat} (ht : tower < partition.towers)
    (hp : part < partition.split) :
    partition.row towers (tower * partition.split + part) =
      slice (part * partition.share) partition.share (towers.getD tower []) := by
  have remainder : (tower * partition.split + part) % partition.split = part := by
    rw [Nat.mul_comm, Nat.mul_add_mod, Nat.mod_eq_of_lt hp]
  rw [row, unitTower?_busy ht hp, remainder]

theorem unitTower?_lt {unit tower : Nat} (h : partition.unitTower? unit = some tower) :
    tower < partition.towers := by
  unfold unitTower? at h
  split at h
  · rename_i busy
    cases h
    exact Nat.div_lt_of_lt_mul (by rw [Nat.mul_comm]; exact busy)
  · cases h

theorem length_row {towers : List (List Word)} (shaped : partition.Shaped towers) (unit : Nat) :
    (partition.row towers unit).length = partition.share := by
  unfold row
  split
  · rename_i tower carried
    have inside : tower < towers.length := by
      rw [shaped.1]
      exact unitTower?_lt carried
    have length : (towers.getD tower []).length = partition.share * partition.split := by
      rw [List.getD_eq_getElem?_getD, List.getElem?_eq_getElem inside, Option.getD_some,
        shaped.2 _ (List.getElem_mem inside), partition.share_mul_split]
    exact length_slice_even length (Nat.mod_lt _ partition.split_pos)
  · rw [List.length_replicate]

theorem wide (partition : Partition) {row : List Word} (length : row.length = partition.share) :
    8 * row.length = partition.operandBytes := by
  rw [length, operandBytes, Nat.mul_comm]

theorem mem_row {towers : List (List Word)} {unit : Nat} {x : Word}
    (h : x ∈ partition.row towers unit) :
    x = 0 ∨ ∃ tower, partition.unitTower? unit = some tower ∧ x ∈ towers.getD tower [] := by
  unfold row at h
  split at h
  · rename_i tower carried
    exact .inr ⟨tower, carried, List.mem_of_mem_drop (List.mem_of_mem_take h)⟩
  · exact .inl (List.eq_of_mem_replicate h)

section Staging

theorem checkTowers_eq_ok_iff {towers : List (List Word)} :
    partition.checkTowers towers = .ok () ↔ partition.Shaped towers := by
  unfold checkTowers Shaped
  split
  · rename_i different
    simp [different]
  · rename_i same
    rw [Decidable.not_not] at same
    split
    · rename_i bad found
      have witness := List.find?_some found
      have member := List.mem_of_find?_eq_some found
      simp only [reduceCtorEq, false_iff, not_and]
      exact fun _ all => by simp [all bad member] at witness
    · rename_i none
      simp only [same, true_and, true_iff]
      intro tower member
      simpa using List.find?_eq_none.mp none tower member

theorem checkUnits_eq_ok_iff {units : Nat} :
    partition.checkUnits units = .ok () ↔ partition.unitsRequired ≤ units := by
  unfold checkUnits
  split
  · rename_i few
    simp [few]
  · rename_i enough
    simp [Nat.le_of_not_lt enough]

theorem chunks_tower {tower : List Word} (h : tower.length = partition.towerLength) :
    chunks partition.share tower =
      (List.range partition.split).map fun k => slice (k * partition.share) partition.share tower :=
  chunks_eq_map partition.share_pos (by rw [h, partition.share_mul_split])

theorem length_chunks {towers : List (List Word)} (shaped : partition.Shaped towers) :
    ∀ tower ∈ towers, (chunks partition.share tower).length = partition.split := by
  intro tower member
  rw [chunks_tower (shaped.2 tower member), List.length_map, List.length_range]

theorem getElem?_staged {towers : List (List Word)} (shaped : partition.Shaped towers) {unit : Nat}
    (busy : unit < partition.unitsRequired) :
    (towers.flatMap (chunks partition.share))[unit]? = some (partition.row towers unit) := by
  have inside : unit / partition.split < towers.length := by
    rw [shaped.1]
    exact Nat.div_lt_of_lt_mul (by rw [Nat.mul_comm]; exact busy)
  rw [getElem?_flatMap partition.split_pos (length_chunks shaped), List.getElem?_eq_getElem inside,
    Option.bind_some, chunks_tower (shaped.2 _ (List.getElem_mem inside)),
    getElem?_map_range (Nat.mod_lt _ partition.split_pos), row, unitTower?, if_pos busy]
  simp [inside]

/-- The rows of the busy units, with zeros behind them for the idle ones. -/
theorem rows_append_idle {towers front : List (List Word)} {units : Nat}
    (enough : partition.unitsRequired ≤ units) (length : front.length = partition.unitsRequired)
    (busy : ∀ unit, unit < partition.unitsRequired →
      front[unit]? = some (partition.row towers unit)) :
    front ++ List.replicate (units - partition.unitsRequired) (List.replicate partition.share 0) =
      (List.range units).map (partition.row towers) := by
  apply List.ext_getElem?
  intro unit
  rcases Nat.lt_or_ge unit partition.unitsRequired with works | idle
  · rw [List.getElem?_append_left (by omega), busy unit works, getElem?_map_range (by omega)]
  · rw [List.getElem?_append_right (by omega), List.getElem?_replicate]
    by_cases inside : unit < units
    · rw [if_pos (by omega), getElem?_map_range inside, row, unitTower?, if_neg (by omega)]
    · rw [if_neg (by omega), List.getElem?_eq_none (by simpa using inside)]

theorem stage_eq_ok {towers : List (List Word)} {units : Nat} (shaped : partition.Shaped towers)
    (enough : partition.unitsRequired ≤ units) (host : rowFootprint * units < 9223372036854775808) :
    partition.stage towers units = .ok ((List.range units).map (partition.row towers)) := by
  rw [stage, checkUnits_eq_ok_iff.mpr enough, ok_bind, checkTowers_eq_ok_iff.mpr shaped, ok_bind,
    Checked.buffer_eq_ok host, lift_checked_ok, ok_bind]
  have pieces : (towers.flatMap (chunks partition.share)).length = partition.unitsRequired := by
    rw [length_flatMap (length_chunks shaped), shaped.1]
    rfl
  exact congrArg Except.ok (rows_append_idle enough pieces fun unit => getElem?_staged shaped)

theorem unitModuli_eq_ok {moduli : List Word} {units : Nat}
    (length : moduli.length = partition.towers) (enough : partition.unitsRequired ≤ units)
    (host : 8 * units < 9223372036854775808) :
    partition.unitModuli moduli units =
      .ok ((List.range units).map (partition.unitModulus moduli)) := by
  have counted : ¬ moduli.length ≠ partition.towers := fun different => different length
  rw [unitModuli, checkUnits_eq_ok_iff.mpr enough, ok_bind, if_neg counted,
    Checked.buffer_eq_ok host,
    lift_checked_ok, ok_bind]
  apply mapM_eq_ok
  intro unit _
  have carried : (partition.unitTower? unit).getD 0 < moduli.length := by
    rw [length]
    cases tower : partition.unitTower? unit with
    | none => exact partition.towers_pos
    | some t => exact unitTower?_lt tower
  rw [Checked.element, List.getElem?_eq_getElem carried, unitModulus, List.getD_eq_getElem?_getD,
    List.getElem?_eq_getElem carried]
  rfl

theorem shaped_of_stage {towers : List (List Word)} {units : Nat} {rows : List (List Word)}
    (h : partition.stage towers units = .ok rows) :
    partition.unitsRequired ≤ units ∧ partition.Shaped towers := by
  obtain ⟨_, enough, h⟩ := bind_eq_ok.mp h
  obtain ⟨_, shaped, _⟩ := bind_eq_ok.mp h
  exact ⟨checkUnits_eq_ok_iff.mp enough, checkTowers_eq_ok_iff.mp shaped⟩

end Staging

section Scattering
variable {rows towers : List (List Word)}

/-- Rows with a share of words for every busy unit. -/
def Supplied (partition : Partition) (rows : List (List Word)) : Prop :=
  partition.unitsRequired ≤ rows.length ∧
    ∀ (unit : Nat) (row : List Word), unit < partition.unitsRequired → rows[unit]? = some row →
      partition.share ≤ row.length

/-- The tower that the rows of its units hold. -/
def gathered (partition : Partition) (rows : List (List Word)) (tower : Nat) : List Word :=
  partition.assemble (rows.drop (tower * partition.split))

/-- The towers that rows hold. -/
def gatheredTowers (partition : Partition) (rows : List (List Word)) : List (List Word) :=
  (List.range partition.towers).map (partition.gathered rows)

/-- Where there are rows enough, the search for a short one decides whether they are supplied. -/
theorem supplied_iff (enough : partition.unitsRequired ≤ rows.length) :
    partition.Supplied rows ↔
      (rows.take partition.unitsRequired).find? (fun row => row.length < partition.share) =
        none := by
  rw [List.find?_eq_none]
  constructor
  · intro supplied row member
    obtain ⟨unit, found⟩ := List.getElem?_of_mem member
    have busy : unit < partition.unitsRequired := by
      have := (List.getElem?_eq_some_iff.mp found).1
      rw [List.length_take] at this
      omega
    rw [List.getElem?_take_of_lt busy] at found
    simpa using supplied.2 unit row busy found
  · refine fun long => ⟨enough, fun unit row busy found => ?_⟩
    have member : row ∈ rows.take partition.unitsRequired :=
      List.mem_of_getElem? ((List.getElem?_take_of_lt busy).trans found)
    simpa using long row member

/-- Rows that agree with the staged rows of a tower are put together to that tower. -/
theorem assemble_eq {tower : List Word}
    (length : tower.length = partition.towerLength)
    (parts : ∀ part, part < partition.split →
      rows[part]? = some (slice (part * partition.share) partition.share tower)) :
    partition.assemble rows = tower := by
  have cut : rows.take partition.split = chunks partition.share tower := by
    rw [chunks_tower length]
    apply List.ext_getElem?
    intro part
    by_cases inside : part < partition.split
    · rw [List.getElem?_take_of_lt inside, parts part inside, getElem?_map_range inside]
    · rw [List.getElem?_take_eq_none (by omega), List.getElem?_eq_none (by simpa using inside)]
  have short : ∀ piece ∈ chunks partition.share tower, piece.take partition.share = piece := by
    intro piece member
    rw [chunks_tower length] at member
    obtain ⟨part, _, rfl⟩ := List.mem_map.mp member
    exact List.take_of_length_le (by rw [length_slice]; omega)
  rw [assemble, cut, List.flatMap_def, List.map_congr_left short, List.map_id',
    flatten_chunks partition.share_pos]

/-- Towers of the right length are overwritten one after the other, each from the rows of its
units. -/
theorem fill_append {front : List (List Word)}
    (conform : ∀ tower ∈ front, tower.length = partition.towerLength)
    (rows rest : List (List Word)) :
    partition.fill rows (front ++ rest) =
      ((List.range front.length).map (partition.gathered rows) ++
          (partition.fill (rows.drop (front.length * partition.split)) rest).1,
        (partition.fill (rows.drop (front.length * partition.split)) rest).2) := by
  induction front generalizing rows with
  | nil => simp
  | cons tower front ih =>
    have fits : ¬ tower.length ≠ partition.towerLength := fun different =>
      different (conform tower (by simp))
    have first : partition.gathered rows 0 = partition.assemble rows := by
      rw [gathered, Nat.zero_mul, List.drop_zero]
    have later : partition.gathered (rows.drop partition.split) = fun k =>
        partition.gathered rows (k + 1) := by
      funext k
      rw [gathered, gathered, List.drop_drop, Nat.succ_mul, Nat.add_comm]
    have behind : partition.split + front.length * partition.split =
        (front.length + 1) * partition.split := by
      rw [Nat.succ_mul, Nat.add_comm]
    simp only [List.cons_append, fill, if_neg fits, ih fun t member => conform t (by simp [member]),
      List.drop_drop, behind, List.length_cons, List.range_succ_eq_map, List.map_cons,
      List.map_map, first, later]
    rfl

theorem fill_conform (conform : ∀ tower ∈ towers, tower.length = partition.towerLength)
    (rows : List (List Word)) :
    partition.fill rows towers =
      ((List.range towers.length).map (partition.gathered rows), .ok ()) := by
  have filled := fill_append conform rows []
  simpa only [List.append_nil, fill] using filled

theorem scatter_supplied {blank : List (List Word)} (supplied : partition.Supplied rows)
    (blanks : partition.Shaped blank) : partition.scatter rows blank = .ok ()
    (partition.gatheredTowers rows) := by
  have counted : ¬ blank.length ≠ partition.towers := fun different => different blanks.1
  have filled : partition.fill rows blank = (partition.gatheredTowers rows, .ok ()) := by
    rw [fill_conform blanks.2, blanks.1, gatheredTowers]
  simp only [scatter, checkUnits_eq_ok_iff.mpr supplied.1, run_lift_ok,
    (supplied_iff supplied.1).mp supplied,
    run_get, if_neg counted, filled]
  rfl

/-- Rows that agree with the staged rows of towers hold those towers. -/
theorem gatheredTowers_eq (shaped : partition.Shaped towers)
    (same : ∀ unit, unit < partition.unitsRequired →
      rows[unit]? = some (partition.row towers unit)) :
    partition.gatheredTowers rows = towers := by
  apply List.ext_getElem
  · rw [gatheredTowers, List.length_map, List.length_range, shaped.1]
  · intro tower _ inside
    have ht : tower < partition.towers := by rwa [shaped.1] at inside
    simp only [gatheredTowers, List.getElem_map, List.getElem_range, gathered]
    refine assemble_eq (shaped.2 _ (List.getElem_mem inside)) fun part hp => ?_
    rw [List.getElem?_drop, same _ (partition.unit_lt ht hp), row_busy towers ht hp,
      List.getD_eq_getElem?_getD, List.getElem?_eq_getElem inside, Option.getD_some]

theorem scatter_eq_ok {blank : List (List Word)} (enough : partition.unitsRequired ≤ rows.length)
    (blanks : partition.Shaped blank) (shaped : partition.Shaped towers)
    (same : ∀ unit, unit < partition.unitsRequired →
      rows[unit]? = some (partition.row towers unit)) :
    partition.scatter rows blank = .ok () towers := by
  have supplied : partition.Supplied rows := by
    refine ⟨enough, fun unit row busy found => ?_⟩
    cases (same unit busy).symm.trans found
    exact Nat.le_of_eq (length_row shaped unit).symm
  rw [scatter_supplied supplied blanks, gatheredTowers_eq shaped same]

end Scattering
end BankedRing.Partition
