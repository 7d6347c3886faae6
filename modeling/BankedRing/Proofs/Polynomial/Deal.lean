import BankedRing.Proofs.Host.Start
import BankedRing.Proofs.Partition.Default
import BankedRing.Proofs.Polynomial.Chain
import BankedRing.Proofs.Polynomial.Formed

/-! Batches dealt out by default. What a partition refuses is refused while its batch is
prepared, since neither the units nor their results become fewer afterwards; and with the
default split a formed polynomial is cut evenly, so that only a lack of units is left. -/
namespace BankedRing

/-- Refusals that only a partition gives. -/
def Error.OfPartition : Error → Prop
  | .unevenPartition _ _ | .insufficientUnits _ _ => True
  | _ => False

theorem Error.ofFault_spares {describe : Fault → Error}
    (h : ∀ fault, ¬ (describe fault).OfPartition) (fault : Fault) :
    ¬ (Error.ofFault describe fault).OfPartition := by
  cases fault with
  | trapped trap => exact id
  | _ => exact h _

/-- A refusal by a partition that wants more units than there are. -/
def Few (required available : Nat) (e : Error) : Prop :=
  e.OfPartition → e = .insufficientUnits required available ∧ available < required

namespace Partition
variable {partition : Partition}

theorem checkUnits_few (partition : Partition) (units : Nat) :
    Admits (Few partition.unitsRequired units) (partition.checkUnits units) := by
  unfold checkUnits
  split
  · rename_i few
    exact .error fun _ => ⟨rfl, few⟩
  · exact .ok _

theorem trapped_few {required available : Nat} {α : Type} (outcome : Checked α) :
    Admits (Few required available) (liftM outcome : Except Error α) := by
  cases outcome with
  | ok a => exact .ok a
  | error trap => exact .error (e := Error.trapped trap) False.elim

theorem stage_few (partition : Partition) (towers : List (List Word)) (units : Nat) :
    Admits (Few partition.unitsRequired units) (partition.stage towers units) := by
  refine .bind (checkUnits_few partition units) fun _ _ => .bind ?_ fun _ _ =>
    .bind (trapped_few _) fun _ _ => .ok _
  unfold checkTowers
  split
  · exact .error False.elim
  · split
    · exact .error False.elim
    · exact .ok _

theorem unitModuli_few (partition : Partition) (moduli : List Word) (units : Nat) :
    Admits (Few partition.unitsRequired units) (partition.unitModuli moduli units) := by
  refine .bind (checkUnits_few partition units) fun _ _ => .guard False.elim fun _ =>
    .bind (trapped_few _) fun _ _ => fun e failed => ?_
  obtain ⟨unit, _, failed⟩ := exists_of_mapM_error failed
  exact trapped_few _ e failed

theorem fill_spares (rows towers : List (List Word)) :
    Admits (fun e => ¬ e.OfPartition) (partition.fill rows towers).2 := by
  induction towers generalizing rows with
  | nil => exact .ok _
  | cons tower rest ih =>
    unfold fill
    split
    · exact .error id
    · exact ih _

theorem scatter_spares {rows : List (List Word)} (enough : partition.unitsRequired ≤ rows.length) :
    Keeps (fun _ => True) (fun e => ¬ e.OfPartition) (partition.scatter rows) := by
  unfold scatter
  rw [checkUnits_eq_ok_iff.mpr enough]
  refine .lift_bind (fun _ _ => ?_) (fun e failed => by cases failed)
  dsimp only
  split
  · exact .throw_bind id
  refine .get fun towers _ => .guard id fun _ => ?_
  exact .bind (.set trivial) fun _ => .lift (fill_spares rows towers)

end Partition

namespace Pool
variable {count : Nat}

theorem visit_spares {describe : Nat → Fault → Error} {steps : List (Device.Step Unit)}
    (named : ∀ unit fault, ¬ (describe unit fault).OfPartition) :
    Keeps (fun pool => pool.units = count) (fun e => ¬ e.OfPartition) (visit describe steps) := by
  intro pool units
  refine ⟨units_visit.trans units, fun e reached failed => ?_⟩
  obtain ⟨_, _, _, _, fault, stopped, _, rfl⟩ := visit_fault failed
  exact Error.ofFault_spares (named _) _

theorem scatter_spares (target : String) (offset : Nat) (buffers : List (List UInt8)) :
    Keeps (fun pool => pool.units = count) (fun e => ¬ e.OfPartition)
      (scatter target offset buffers) :=
  .get fun _ _ => .guard id fun _ => visit_spares fun _ _ => id

theorem broadcast_spares (target : String) (offset : Nat) (bytes : List UInt8) :
    Keeps (fun pool => pool.units = count) (fun e => ¬ e.OfPartition)
      (broadcast target offset bytes) :=
  .get fun _ _ => visit_spares fun _ _ => id

theorem launch_spares : Keeps (fun pool => pool.units = count)
    (fun e => ¬ e.OfPartition) launch := by
  intro pool units
  refine ⟨units_launch.trans units, fun e reached failed => ?_⟩
  rcases launch_fault failed with rfl | ⟨_, _, fault, stopped, _, rfl⟩
  · exact id
  · exact Error.ofFault_spares (fun _ => id) _

theorem gather_spares {pool : Pool} {target : String} {offset length : Nat} {e : Error}
    (h : pool.gather target offset length = .error e) : ¬ e.OfPartition := by
  obtain ⟨device, _, failed⟩ := exists_of_mapM_error h
  cases outcome : device.read target offset length with
  | ok bytes =>
    rw [outcome] at failed
    cases failed
  | error fault =>
    rw [outcome] at failed
    cases failed
    exact Error.ofFault_spares (fun _ => id) fault

theorem length_of_gather {pool : Pool} {target : String} {offset length : Nat}
    {rows : List (List UInt8)} (h : pool.gather target offset length = .ok rows) :
    rows.length = pool.units :=
  (mapM_eq_ok_iff.mp h).1

end Pool

namespace Controller
variable {c left : Controller} {a b : List Tower} {split : Nat} {e : Error}

theorem fill_spares {results : BatchResult} {blank towers : List Tower}
    (supplied : results.partition.unitsRequired ≤ results.rows.length)
    (h : results.fill blank = .error e towers) :
    ¬ e.OfPartition := by
  simp only [BatchResult.fill] at h
  split at h
  · cases h
    exact id
  · split at h
    · cases h
    · rename_i failed
      cases h
      exact (Partition.scatter_spares supplied _ trivial).2 _ _ failed

/-- A run over towers that a partition refuses was refused while its batch was prepared. -/
theorem prepare_of_refused {family : Family}
    (h : runTowers a b (.tower family) split c = .error e left) (refused : e.OfPartition) :
    c.prepare a b split = .error e := by
  have isTower : ¬ (!(Program.tower family).isTower) = true := Bool.false_ne_true
  cases ready : c.prepare a b split with
  | error refusal =>
    simp only [runTowers, if_neg isTower, run_get, ready, run_lift_error] at h
    cases h
    rfl
  | ok batch =>
  simp only [runTowers, if_neg isTower, run_get, ready, run_lift_ok] at h
  obtain ⟨_, _, _, _, enough, towers, _, splits, _⟩ := prepared ready
  obtain ⟨reached, fresh, units⟩ : ∃ reached, load (.tower family) c = .ok () reached ∧
      reached.units = c.units :=
    ⟨_, load_eq_ok _, List.length_map _⟩
  have transfers : Keeps (fun c' => c'.units = c.units) (fun e => ¬ e.OfPartition) (copyIn batch) :=
    copyIn_keeps_of (onPool_keeps_of (Pool.scatter_spares _ _ _))
      (onPool_keeps_of (Pool.broadcast_spares _ _ _))
      (onPool_keeps_of (Pool.scatter_spares _ _ _)) (onPool_keeps_of (Pool.scatter_spares _ _ _))
        (fun _ _ => id)
      fun _ => id
  have launching : Keeps (fun c' => c'.units = c.units) (fun e => ¬ e.OfPartition) execute :=
    execute_keeps_of (fun _ _ _ _ units => (List.length_map _).trans units) (fun _ => id)
      (onPool_keeps_of Pool.launch_spares)
  have behind := transfers.bind fun _ => launching.bind fun _ => collect_keeps_of batch
    (fun c' e _ failed => ?_) fun c' results blank e towers' same collected failed => ?_
  · rw [run_bind_ok fresh] at h
    exact absurd refused ((behind reached units).2 e left h)
  · rcases bind_eq_error.mp failed with failed | ⟨_, _, done⟩
    · exact Pool.gather_spares failed
    · cases done
  -- The results of as many units as the batch was prepared for are never too few.
  · obtain ⟨rows, gathered, collected⟩ := bind_eq_ok.mp collected
    cases collected
    have supplied : batch.partition.unitsRequired ≤ (rows.map Bytes.toWords).length := by
      rw [List.length_map, Pool.length_of_gather gathered, Partition.unitsRequired, towers, splits]
      exact Nat.le_trans enough (Nat.le_of_eq same.symm)
    exact fill_spares supplied failed

section Even
variable {length : Nat} (nonempty : a ≠ []) (long : ∀ tower ∈ a, tower.values.length = length)
  (somewhere : 0 < length) (positive : 0 < split) (even : split ∣ length)
include nonempty long somewhere positive even

theorem prepare_few (b : List Tower) (c : Controller) :
    Admits (Few (a.length * split) c.units) (c.prepare a b split) := by
  by_cases shape : a.length = b.length ∧ a.map (·.modulus) = b.map (·.modulus)
  · obtain ⟨partition, towers, _, splits, prepared⟩ :=
      exists_partition nonempty long somewhere positive even
    rw [prepared b c shape.1 shape.2, ← towers, ← splits]
    exact .bind (partition.unitModuli_few _ _) fun _ _ =>
      .bind (partition.stage_few _ _) fun _ _ => .bind (partition.stage_few _ _) fun _ _ => .ok _
  · obtain ⟨defect, misshapen⟩ := prepare_misshapen (not_and.mp shape) split c
    rw [misshapen]
    exact .error False.elim

theorem prepare_of_few {b : List Tower} (counts : a.length = b.length)
    (moduli : a.map (·.modulus) = b.map (·.modulus)) (few : c.units < a.length * split) :
    c.prepare a b split = .error (.insufficientUnits (a.length * split) c.units) := by
  obtain ⟨partition, towers, _, splits, prepared⟩ :=
    exists_partition nonempty long somewhere positive even
  have refused : partition.checkUnits c.units =
      .error (.insufficientUnits (a.length * split) c.units) := by
    rw [← towers, ← splits] at few ⊢
    exact if_pos few
  rw [prepared b c counts moduli, Partition.unitModuli, refused]
  rfl

end Even
end Controller

namespace TowerPolynomial
variable {family : Family} {x y : TowerPolynomial} {offload : Offload} {registry left : Registry}
    {e : Error}
  {c : Controller}

/-- What a default split finds in a formed polynomial: towers of one length, a power of two. -/
theorem Formed.dealt (formed : x.Formed) :
    x.towers ≠ [] ∧ ∃ k, x.parameters.ringDimension = 2 ^ k ∧
      ∀ tower ∈ x.towers, tower.values.length = 2 ^ k := by
  have moduli := formed.accepted.transformable.nonempty
  obtain ⟨n, chain, built⟩ := formed.accepted
  obtain ⟨k, _, dimension⟩ := RingParameters.dimension_of_ofModuli built
  rw [← (RingParameters.fields_of_ofModuli built).1] at dimension
  refine ⟨?_, k, dimension, dimension ▸ formed.belongs.length⟩
  rintro none
  rw [← formed.belongs.moduli, none] at moduli
  exact moduli rfl

/-- Without a split of its own a batch is refused by its partition for want of units only. -/
theorem onPool_few (formed : x.Formed) (default : offload.split = none)
    (h : onPool family x y offload registry = .error e left) (refused : e.OfPartition) :
    ∃ c, registry[offload.handle]? = some ⟨c, false⟩ ∧ c.units < x.towers.length ∧
      e = .insufficientUnits x.towers.length c.units := by
  obtain ⟨nonempty, k, dimension, long⟩ := formed.dealt
  have someTower : 0 < x.towers.length := List.length_pos_iff.mpr nonempty
  rcases Registry.locked_error_inv h with ⟨c, reached, found, ran⟩ | rfl | rfl
  · rw [run_get, default, Option.getD_none, dimension] at ran
    obtain ⟨j, split, even⟩ := Partition.defaultSplit_dvd c.units x.towers.length k
    have wanting := Controller.prepare_few nonempty long (Nat.two_pow_pos k)
      (Partition.defaultSplit_pos _ _ _) (split ▸ even) y.towers c
    obtain ⟨rfl, few⟩ := wanting e (Controller.prepare_of_refused ran refused) refused
    have few := Partition.few_of_refused someTower few
    refine ⟨c, found, few, ?_⟩
    rw [Partition.defaultSplit_of_few few, Nat.mul_one]
  · exact refused.elim
  · exact refused.elim

/-- A pool with fewer units than towers refuses the batch. -/
theorem onPool_of_few (formed : x.Formed) (peer : y.Over x.parameters)
    (default : offload.split = none) (found : registry[offload.handle]? = some ⟨c, false⟩)
    (few : c.units < x.towers.length) :
    ∃ left, onPool family x y offload registry =
      .error (.insufficientUnits x.towers.length c.units) left := by
  obtain ⟨nonempty, k, dimension, long⟩ := formed.dealt
  have counts : x.towers.length = y.towers.length := by rw [formed.belongs.count, peer.count]
  have moduli : x.towers.map (·.modulus) = y.towers.map (·.modulus) := by
    rw [formed.belongs.moduli, peer.moduli]
  have prepared :=
    Controller.prepare_of_few nonempty long (Nat.two_pow_pos k) Nat.one_pos (Nat.one_dvd _)
    counts moduli (by rwa [Nat.mul_one])
  have isTower : ¬ (!(Program.tower family).isTower) = true := Bool.false_ne_true
  rw [Nat.mul_one] at prepared
  have ran : Controller.runTowers x.towers y.towers (.tower family) 1 c =
      .error (.insufficientUnits x.towers.length c.units) c := by
    simp only [Controller.runTowers, if_neg isTower, run_get, prepared, run_lift_error]
  have split : offload.split.getD
      (Partition.defaultSplit c.units x.towers.length x.parameters.ringDimension) = 1 := by
    rw [default, Option.getD_none, Partition.defaultSplit_of_few few]
  exact ⟨_, Registry.locked_error found (by rw [run_get, split]; exact ran)⟩

/-- The default split is a power of two that divides the ring dimension; where there is a unit
for every tower it fits the units, and the next power of two would not, unless the whole ring
is split up. So a batch of a formed polynomial is never refused as uneven, and for want of
units exactly where the pool has fewer of them than the polynomial has towers. -/
theorem defaultSplit_fits :
    (∀ units towers k : Nat, 0 < units → 0 < towers →
      (∃ j, Partition.defaultSplit units towers (2 ^ k) = 2 ^ j) ∧
      Partition.defaultSplit units towers (2 ^ k) ∣ 2 ^ k ∧
      (towers ≤ units → towers * Partition.defaultSplit units towers (2 ^ k) ≤ units ∧
        (Partition.defaultSplit units towers (2 ^ k) = 2 ^ k ∨
          units < 2 * Partition.defaultSplit units towers (2 ^ k) * towers))) ∧
    ∀ (family : Family) (x y : TowerPolynomial) (offload : Offload) (registry : Registry),
      x.Formed → offload.split = none →
      (∀ length split left, onPool family x y offload registry ≠
        .error (.unevenPartition length split) left) ∧
      (∀ required available left,
        onPool family x y offload registry = .error (.insufficientUnits required available) left →
        ∃ c, registry[offload.handle]? = some ⟨c, false⟩ ∧ c.units < x.towers.length ∧
          required = x.towers.length ∧ available = c.units) ∧
      ∀ c, registry[offload.handle]? = some ⟨c, false⟩ → y.Over x.parameters →
        c.units < x.towers.length →
          ∃ left, onPool family x y offload registry =
            .error (.insufficientUnits x.towers.length c.units) left := by
  refine ⟨fun units towers k _ somewhere => ?_, fun family x y offload registry formed default =>
    ⟨?_, ?_, ?_⟩⟩
  · obtain ⟨j, split, even⟩ := Partition.defaultSplit_dvd units towers k
    exact ⟨⟨j, split⟩, split ▸ even, fun enough =>
      ⟨Partition.defaultSplit_fits_units somewhere enough k,
        Partition.defaultSplit_maximal somewhere enough k⟩⟩
  · intro length split left uneven
    obtain ⟨_, _, _, same⟩ := onPool_few formed default uneven trivial
    cases same
  · intro required available left wanting
    obtain ⟨c, found, few, same⟩ := onPool_few formed default wanting trivial
    cases same
    exact ⟨c, found, few, rfl, rfl⟩
  · intro c found peer few
    exact onPool_of_few formed peer default found few

theorem three_accepted : ∃ parameters, RingParameters.ofModuli 2 [29, 17, 13] = .ok parameters :=
  exists_ok_of_toOption (by decide +kernel)

/-- Seven units for two towers are split in two, and one unit for three towers is refused. -/
theorem defaultSplit_fits_three :
    (2 * Partition.defaultSplit 7 2 (2 ^ 10) ≤ 7 ∧
      7 < 2 * Partition.defaultSplit 7 2 (2 ^ 10) * 2) ∧
    ∃ (c : Controller) (x : TowerPolynomial) (left : Registry), Controller.start Controller.narrow
        (fun _ => .error .notFound) [] = .ok c ∧ x.Formed ∧ x.towers.length = 3 ∧
      onPool .add x x ⟨0, none⟩ [⟨c, false⟩] = .error (.insufficientUnits 3 1) left ∧
      onPool .add x x ⟨0, none⟩ [⟨c, false⟩] ≠ .error (.unevenPartition 2 1) left := by
  obtain ⟨arithmetic, refusals⟩ := defaultSplit_fits
  obtain ⟨parameters, built⟩ := three_accepted
  obtain ⟨c, started, sound, _⟩ := Controller.narrow_starts (fun _ => .error .notFound) []
  have formed := zero_formed ⟨2, _, built⟩ .evaluation
  have towers : (zero parameters .evaluation).towers.length = 3 := by
    rw [zero, List.length_map, (RingParameters.fields_of_ofModuli built).2]
    rfl
  obtain ⟨even, _, wanting⟩ :=
    refusals .add _ (zero parameters .evaluation) ⟨0, none⟩ [⟨c, false⟩] formed rfl
  obtain ⟨left, refused⟩ := wanting c rfl formed.belongs (by rw [sound.count_eq, towers]; decide)
  rw [towers, sound.count_eq] at refused
  obtain ⟨_, _, fits⟩ := arithmetic 7 2 10 (by decide) (by decide)
  obtain ⟨within, whole | maximal⟩ := fits (by decide)
  · exact absurd whole (by decide)
  · exact ⟨⟨within, maximal⟩, c, _, left, started, formed, towers, refused, even 2 1 left⟩

end TowerPolynomial
end BankedRing
