import BankedRing.Proofs.Partition.Slots

/-! What scattering writes, also when it fails. The rows and the number of towers are checked
before anything is written, the lengths of the towers one by one on the way: a tower of another
length ends the work, and the towers in front of it have been overwritten by then. Towers that
share one length are either all overwritten or all kept. -/
namespace BankedRing.Partition
variable {partition : Partition} {rows towers : List (List Word)}

/-- Towers are complete, or a first one among them has another length. -/
theorem conform_or_stops (partition : Partition) (towers : List (List Word)) :
    (∀ tower ∈ towers, tower.length = partition.towerLength) ∨
      ∃ front bad rest, towers = front ++ bad :: rest ∧
        (∀ tower ∈ front, tower.length = partition.towerLength) ∧
        bad.length ≠ partition.towerLength := by
  induction towers with
  | nil => exact .inl nofun
  | cons tower towers ih =>
    by_cases fits : tower.length = partition.towerLength
    · rcases ih with conform | ⟨front, bad, rest, rfl, conform, other⟩
      · exact .inl (List.forall_mem_cons.mpr ⟨fits, conform⟩)
      · exact .inr ⟨tower :: front, bad, rest, rfl, List.forall_mem_cons.mpr ⟨fits, conform⟩, other⟩
    · exact .inr ⟨[], tower, towers, rfl, nofun, fits⟩

theorem fill_stops {front rest : List (List Word)} {bad : List Word}
    (conform : ∀ tower ∈ front, tower.length = partition.towerLength)
    (other : bad.length ≠ partition.towerLength) (rows : List (List Word)) :
    partition.fill rows (front ++ bad :: rest) =
      ((List.range front.length).map (partition.gathered rows) ++ bad :: rest,
        .error (.shapeMismatch (.destinationLength partition.towerLength bad.length))) := by
  rw [fill_append conform rows, fill, if_pos other]

/-- What the rows lack is found before anything is written, and so is a wrong number of towers. -/
theorem scatter_cases (partition : Partition) (rows towers : List (List Word)) :
    (∃ e, partition.scatter rows towers = .error e towers) ∨
      partition.Supplied rows ∧ towers.length = partition.towers ∧
        partition.scatter rows towers =
          match partition.fill rows towers with
          | (filled, .ok _) => .ok () filled
          | (filled, .error e) => .error e filled := by
  unfold scatter
  cases enough : partition.checkUnits rows.length with
  | error e => exact .inl ⟨e, rfl⟩
  | ok =>
    rw [run_lift_ok]
    cases lacking : (rows.take partition.unitsRequired).find? fun row =>
      row.length < partition.share with
    | some short => exact .inl ⟨_, rfl⟩
    | none =>
      have supplied := (supplied_iff (checkUnits_eq_ok_iff.mp enough)).mpr lacking
      by_cases counted : towers.length ≠ partition.towers
      · refine .inl ⟨.shapeMismatch (.destinationCount partition.towers towers.length), ?_⟩
        simp only [run_get, if_pos counted]
        rfl
      · refine .inr ⟨supplied, not_not.mp counted, ?_⟩
        simp only [run_get, if_neg counted]
        cases partition.fill rows towers with
        | mk filled outcome => cases outcome <;> rfl

/-- A scattering that fails keeps every tower from the first one of another length on. In front
of it every residue has been replaced by the one in its slot; nothing is in front of it where
the towers share one length, and nothing is replaced where the failure has another cause. -/
theorem scatter_failed {e : Error} {left : List (List Word)}
    (failed : partition.scatter rows towers = .error e left) :
    (left = towers ∨
      ∃ front bad rest written, towers = front ++ bad :: rest ∧ left = written ++ bad :: rest ∧
        (∀ tower ∈ front, tower.length = partition.towerLength) ∧
        bad.length ≠ partition.towerLength ∧
        e = .shapeMismatch (.destinationLength partition.towerLength bad.length) ∧
        written.length = front.length ∧ (∀ tower ∈ written, tower.length = partition.towerLength) ∧
        ∀ tower index, tower < front.length → index < partition.towerLength →
          (written[tower]?.bind fun values => values[index]?) =
            rows[(partition.locate tower index).unit]?.bind fun row =>
              row[(partition.locate tower index).offset]?) ∧
      ((∀ first ∈ towers, ∀ second ∈ towers, first.length = second.length) → left = towers) := by
  rcases partition.scatter_cases rows towers with ⟨_, early⟩ | ⟨supplied, counted, late⟩
  · cases early.symm.trans failed
    exact ⟨.inl rfl, fun _ => rfl⟩
  rcases partition.conform_or_stops towers with conform | ⟨front, bad, rest, rfl, conform, other⟩
  · rw [late, fill_conform conform] at failed
    cases failed
  rw [late, fill_stops conform other] at failed
  cases failed
  have reached : ∀ tower, tower < front.length → tower < partition.towers := by
    intro tower before
    rw [List.length_append] at counted
    omega
  refine ⟨.inr ⟨front, bad, rest, _, rfl, rfl, conform, other, rfl, by simp, ?_, ?_⟩,
    fun uniform => ?_⟩
  · intro values member
    obtain ⟨tower, before, rfl⟩ := List.mem_map.mp member
    exact supplied.length_gathered (reached tower (List.mem_range.mp before))
  · intro tower index before hi
    rw [getElem?_map_range before]
    exact supplied.getElem?_gathered (reached tower before) hi
  · -- Where all lengths agree, the tower that ends the work is the first one.
    cases front with
    | nil => rfl
    | cons first front =>
      have same := uniform first (by simp) bad (by simp)
      exact absurd (same.symm.trans (conform first (by simp))) other

/-- The second of three towers is too short; the first one has been overwritten by then. -/
theorem scatter_failed_short :
    ∃ partition, new 3 2 1 = .ok partition ∧
      partition.scatter [[1, 2], [3, 4], [5, 6]] [[7, 8], [9], [10, 11]] =
        .error (.shapeMismatch (.destinationLength 2 1)) [[1, 2], [9], [10, 11]] ∧
      ∃ front bad rest written : List (List Word), [[7, 8], [9], [10, 11]] = front ++ bad ++ rest ∧
        [[1, 2], [9], [10, 11]] = written ++ bad ++ rest ∧ front = [[7, 8]] ∧ bad = [[9]] ∧
        (written[0]?.bind fun values => values[1]?) = some 2 := by
  have failed : scatter ⟨3, 2, 1, by decide, by decide⟩ [[1, 2], [3, 4], [5, 6]] [[7, 8],
    [9], [10, 11]] =
      .error (.shapeMismatch (.destinationLength 2 1)) [[1, 2], [9], [10, 11]] := rfl
  obtain ⟨kept | ⟨front, bad, rest, written, before, after, conform, other, _, _, _, placed⟩, _⟩ :=
    scatter_failed failed
  · simp at kept
  · have first : front = [[7, 8]] ∧ bad = [9] := by
      rcases front with _ | ⟨a, _ | ⟨b, front⟩⟩
      · cases before
        exact absurd rfl other
      · cases before
        exact ⟨rfl, rfl⟩
      · obtain ⟨_, later⟩ := List.cons.inj before
        obtain ⟨rfl, _⟩ := List.cons.inj later
        exact absurd (conform [9] (by simp)) (by decide)
    obtain ⟨rfl, rfl⟩ := first
    exact ⟨_, rfl, failed, [[7, 8]], [[9]], rest,
      written, by simpa using before, by simpa using after, rfl, rfl,
      placed 0 1 (by decide) (by decide)⟩

/-- A failure over the second tower has cost the first one its residue. -/
theorem scatter_partly_written :
    ∃ partition, new 2 1 1 = .ok partition ∧
      partition.scatter [[1], [2]] [[7], []] =
        .error (.shapeMismatch (.destinationLength 1 0)) [[1], []] ∧
      ([[1], []] : List (List Word)) ≠ [[7], []] :=
  ⟨⟨2, 1, 1, by decide, by decide⟩, rfl, rfl, by decide⟩

end BankedRing.Partition
