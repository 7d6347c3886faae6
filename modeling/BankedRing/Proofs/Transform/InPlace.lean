import BankedRing.Proofs.Transform.Levels
import BankedRing.Proofs.Transform.Network
import BankedRing.Transform.InPlace

/-! The transforms on one buffer compute what the butterfly network gives. A butterfly exchanges
two cells, a group rewrites its block, and a stage passes through a level of the network; what
the remaining levels make of the buffer stays the same from stage to stage. -/
namespace BankedRing

/-- Reduced words that stand for a list over the ring. -/
structure Stands (m : Word) (words : List Word) (v : List (ZMod m.toNat)) : Prop where
  reduced : ∀ x ∈ words, x < m
  value : residues m words = v

namespace Stands
variable {m x : Word} {words others : List Word} {v v' : List (ZMod m.toNat)}

theorem length (h : Stands m words v) : words.length = v.length := by
  rw [← h.value, length_residues]

theorem append (h : Stands m words v) (h' : Stands m others v') :
    Stands m (words ++ others) (v ++ v') where
  reduced := fun x member => (List.mem_append.mp member).elim (h.reduced x) (h'.reduced x)
  value := by rw [residues, List.map_append, ← h.value, ← h'.value, residues, residues]

theorem cons (less : x < m) (h : Stands m words v) : Stands m (x :: words) (x.toNat :: v) where
  reduced := List.forall_mem_cons.mpr ⟨less, h.reduced⟩
  value := by rw [residues, List.map_cons, ← h.value, residues]

theorem exists_append (h : Stands m words (v ++ v')) :
    ∃ first second, words = first ++ second ∧ Stands m first v ∧ Stands m second v' := by
  obtain ⟨first, second, rfl, value, value'⟩ := List.map_eq_append_iff.mp h.value
  exact ⟨first, second, rfl, ⟨fun x member => h.reduced x (List.mem_append_left _ member), value⟩,
    ⟨fun x member => h.reduced x (List.mem_append_right _ member), value'⟩⟩

end Stands

namespace RootTables

section Cells
variable {m : Word} {position : ℕ} {u x : Word} {before after : List Word}

theorem run_fetch (reached : before.length = position) :
    fetch position ⟨before ++ u :: after⟩ = .ok u ⟨before ++ u :: after⟩ := by
  subst reached
  simp [fetch]
  rfl

theorem run_store (reached : before.length = position) :
    store position x ⟨before ++ u :: after⟩ = .ok () ⟨before ++ x :: after⟩ := by
  subst reached
  have inside : ¬ (Array.mk (before ++ u :: after)).size ≤ before.length := by simp
  have replaced : (Array.mk (before ++ u :: after)).setIfInBounds before.length x =
    ⟨before ++ x :: after⟩ := by simp
  rw [store, run_get, if_neg inside]
  exact congrArg (EStateM.Result.ok ()) replaced

/-- A step that exchanges two cells at a distance for what both are combined to. -/
def Exchanges (m : Word) (f g : ZMod m.toNat → ZMod m.toNat → ZMod m.toNat) (distance : ℕ)
    (step : ℕ → InPlace Unit) : Prop :=
  ∀ (before between after : List Word) (u v : Word), between.length + 1 = distance → u < m → v < m →
    ∃ x y : Word, step before.length ⟨before ++ u :: between ++ v :: after⟩ =
        .ok () ⟨before ++ x :: between ++ y :: after⟩ ∧
      x < m ∧ y < m ∧ (x.toNat : ZMod m.toNat) = f u.toNat v.toNat ∧
      (y.toNat : ZMod m.toNat) = g u.toNat v.toNat

/-- A step that rewrites the block of the buffer at a position. -/
def Rewrites (m : Word) (start size : ℕ) (f : List (ZMod m.toNat) → List (ZMod m.toNat))
    (action : InPlace Unit) :
    Prop :=
  ∀ (before block after : List Word) (v : List (ZMod m.toNat)), before.length = start →
    v.length = size →
      Stands m block v → ∃ block', action ⟨before ++ block ++ after⟩ =
        .ok () ⟨before ++ block' ++ after⟩ ∧
      Stands m block' (f v)

end Cells

section Butterflies
variable {m : Word} {t : Twiddle} {w : ZMod m.toNat} {distance : ℕ}

theorem exists_scaled (supported : Modulus.isSupported m = true) (represents : t.Represents m w)
    (x : Word) :
    ∃ s, t.scale m x = .ok s ∧ s < m ∧ (s.toNat : ZMod m.toNat) = x.toNat * w :=
  ⟨_, (represents.scale_eq_ok supported x).1, residue_lt _ (Modulus.pos supported),
    (represents.scale_eq_ok supported x).2⟩

theorem exists_combined (supported : Modulus.isSupported m = true) (family : Family)
    {u v : Word} (hu : u < m) (hv : v < m) :
    ∃ s, family.apply m (family.constant m) u v = .ok s ∧ s < m ∧
      (s.toNat : ZMod m.toNat) = family.inRing (u.toNat : ZMod m.toNat) v.toNat :=
  ⟨_, family.apply_eq_ok supported hu hv, residue_lt _ (Modulus.pos supported),
    (cast_residue _ (Modulus.pos supported)).trans
      (family.cast_number (UInt64.lt_iff_toNat_lt.mp hv))⟩

theorem run_cells (before after : List Word) {between : List Word} (u v : Word)
    (far : between.length + 1 = distance) :
    fetch before.length ⟨before ++ u :: between ++ v :: after⟩ =
      .ok u ⟨before ++ u :: between ++ v :: after⟩ ∧
      fetch (before.length + distance) ⟨before ++ u :: between ++ v :: after⟩ =
        .ok v ⟨before ++ u :: between ++ v :: after⟩ ∧
      ∀ x y, store before.length x ⟨before ++ u :: between ++ v :: after⟩ =
          .ok () ⟨before ++ x :: between ++ v :: after⟩ ∧
        store (before.length + distance) y ⟨before ++ x :: between ++ v :: after⟩ =
          .ok () ⟨before ++ x :: between ++ y :: after⟩ := by
  have second : ∀ x, (before ++ x :: between).length = before.length + distance := by
    intro x
    rw [List.length_append, List.length_cons, far]
  refine ⟨?_, run_fetch (second u), fun x y => ⟨?_, run_store (second x)⟩⟩
  · rw [List.append_assoc, List.cons_append]
    exact run_fetch rfl
  · rw [List.append_assoc, List.append_assoc, List.cons_append, List.cons_append]
    exact run_store rfl

theorem forwardButterfly_exchanges (supported : Modulus.isSupported m = true)
    (represents : t.Represents m w) :
    Exchanges m (fun u v => u + v * w) (fun u v => u - v * w) distance
      (forwardButterfly m t distance) := by
  intro before between after u v far hu hv
  obtain ⟨s, scaled, sLess, sValue⟩ := exists_scaled supported represents v
  obtain ⟨x, added, xLess, xValue⟩ := exists_combined supported .add hu sLess
  obtain ⟨y, subtracted, yLess, yValue⟩ := exists_combined supported .sub hu sLess
  obtain ⟨readFirst, readSecond, written⟩ := run_cells before after u v far
  obtain ⟨wroteFirst, wroteSecond⟩ := written x y
  rw [sValue] at xValue yValue
  refine ⟨x, y, ?_, xLess, yLess, xValue, yValue⟩
  rw [forwardButterfly, run_bind_ok readFirst, run_bind_ok readSecond, scaled, run_lift_checked_ok,
    show Residue.addReduced u s m = .ok x from added, run_lift_checked_ok, run_bind_ok wroteFirst,
    show Residue.subReduced u s m = .ok y from subtracted, run_lift_checked_ok, wroteSecond]

theorem inverseButterfly_exchanges (supported : Modulus.isSupported m = true)
    (represents : t.Represents m w) :
    Exchanges m (fun u v => u + v) (fun u v => (u - v) * w) distance
      (inverseButterfly m t distance) := by
  intro before between after u v far hu hv
  obtain ⟨x, added, xLess, xValue⟩ := exists_combined supported .add hu hv
  obtain ⟨d, subtracted, _, dValue⟩ := exists_combined supported .sub hu hv
  obtain ⟨y, scaled, yLess, yValue⟩ := exists_scaled supported represents d
  obtain ⟨readFirst, readSecond, written⟩ := run_cells before after u v far
  obtain ⟨wroteFirst, wroteSecond⟩ := written x y
  rw [dValue] at yValue
  refine ⟨x, y, ?_, xLess, yLess, xValue, yValue⟩
  rw [inverseButterfly, run_bind_ok readFirst, run_bind_ok readSecond,
    show Residue.addReduced u v m = .ok x from added, run_lift_checked_ok, run_bind_ok wroteFirst,
    show Residue.subReduced u v m = .ok d from subtracted, run_lift_checked_ok, scaled,
      run_lift_checked_ok,
    wroteSecond]

end Butterflies

section Passes
open Butterfly
variable {m : Word} {distance : ℕ}

/-- One exchange after the other goes through both halves of a block from the front. -/
theorem run_exchanges {f g : ZMod m.toNat → ZMod m.toNat → ZMod m.toNat} {step : ℕ → InPlace Unit}
    (exchanges : Exchanges m f g distance step) {low high : List Word} (between after : List Word)
    (same : low.length = high.length) (far : low.length + between.length = distance)
    (lowLess : ∀ u ∈ low, u < m) (highLess : ∀ v ∈ high, v < m) (before : List Word) :
    ∃ first second, (List.range' before.length low.length).forM step
      ⟨before ++ low ++ between ++ high ++ after⟩ =
        .ok () ⟨before ++ first ++ between ++ second ++ after⟩ ∧
      Stands m first (List.zipWith f (residues m low) (residues m high)) ∧
      Stands m second (List.zipWith g (residues m low) (residues m high)) := by
  -- What has been exchanged goes over to the words before the low half and between the halves.
  induction low generalizing high before between with
  | nil =>
    cases high with
    | nil => exact ⟨[], [], rfl, ⟨nofun, rfl⟩, ⟨nofun, rfl⟩⟩
    | cons v high => cases same
  | cons u low ih =>
    cases high with
    | nil => cases same
    | cons v high =>
      rw [List.length_cons] at far
      obtain ⟨x, y, exchanged, xLess, yLess, xValue, yValue⟩ :=
        exchanges before (low ++ between) (high ++ after) u v
        (by rw [List.length_append]; omega) (lowLess u (by simp)) (highLess v (by simp))
      obtain ⟨first, second, ran, firstStands, secondStands⟩ :=
        ih (between ++ [y]) (Nat.succ.inj same)
        (by rw [List.length_append, List.length_singleton]; omega)
        (fun u member => lowLess u (by simp [member]))
        (fun v member => highLess v (by simp [member])) (before ++ [x])
      have firstCell := firstStands.cons xLess
      have secondCell := secondStands.cons yLess
      rw [xValue] at firstCell
      rw [yValue] at secondCell
      refine ⟨x :: first, y :: second, ?_, firstCell, secondCell⟩
      rw [List.length_append, List.length_singleton] at ran
      simp only [List.append_assoc, List.cons_append, List.nil_append] at exchanged ran ⊢
      rw [List.length_cons, List.range'_succ, run_forM_cons exchanged, ran]

theorem Exchanges.overHalf {f g : ZMod m.toNat → ZMod m.toNat → ZMod m.toNat}
    {step : ℕ → InPlace Unit} (exchanges : Exchanges m f g distance step) (start : ℕ) :
    Rewrites m start (2 * distance) (paired f g distance) (overHalf start distance step) := by
  rintro before block after v rfl length stands
  rw [← List.take_append_drop distance v] at stands
  obtain ⟨low, high, rfl, lowStands, highStands⟩ := stands.exists_append
  have lower : low.length = distance := by
    rw [lowStands.length, List.length_take]
    omega
  have upper : high.length = distance := by
    rw [highStands.length, List.length_drop]
    omega
  obtain ⟨first, second, ran, firstStands, secondStands⟩ :=
    run_exchanges exchanges [] after (lower.trans upper.symm)
    lower lowStands.reduced highStands.reduced before
  rw [lowStands.value, highStands.value] at firstStands secondStands
  refine ⟨first ++ second, ?_, firstStands.append secondStands⟩
  rw [lower] at ran
  simp only [List.append_nil, List.append_assoc] at ran ⊢
  exact ran

/-- Blocks that are rewritten one after the other are rewritten as a level. -/
theorem Rewrites.level {f : ℕ → List (ZMod m.toNat) → List (ZMod m.toNat)}
    {action : ℕ → InPlace Unit} {size start count index node : ℕ} (begins : start = index * size)
    (keeps : ∀ node block, block.length = size → (f node block).length = size)
    (each : ∀ i, i < count → Rewrites m ((index + i) * size) size (f (node + i))
      (action (index + i))) :
    Rewrites m start (count * size) (level size f count node)
      ((List.range' index count).forM action) := by
  subst begins
  -- A block that has been rewritten goes over to the words before the rest.
  induction count generalizing index node with
  | zero =>
    intro before block after v _ _ stands
    exact ⟨block, rfl, stands⟩
  | succ count ih =>
    intro before block after v start length stands
    obtain ⟨v, rest, rfl, head, tail⟩ := exists_block length
    obtain ⟨first, later, rfl, firstStands, laterStands⟩ := stands.exists_append
    obtain ⟨block', ran, blockStands⟩ :=
      each 0 (Nat.succ_pos _) before first (later ++ after) v start head firstStands
    have advanced : (before ++ block').length = (index + 1) * size := by
      rw [List.length_append, blockStands.length, keeps _ v head, start, Nat.succ_mul]
    have others : ∀ i, i < count →
        Rewrites m ((index + 1 + i) * size) size (f (node + 1 + i)) (action (index + 1 + i)) := by
      intro i below
      rw [Nat.add_right_comm, Nat.add_right_comm node]
      exact each (i + 1) (Nat.succ_lt_succ below)
    obtain ⟨later', ranLater, laterStands'⟩ :=
      ih others (before ++ block') later after rest advanced tail laterStands
    refine ⟨block' ++ later', ?_, ?_⟩
    · simp only [List.append_assoc, Nat.add_zero] at ran ranLater ⊢
      rw [List.range'_succ, run_forM_cons ran, ranLater]
    · rw [level_append head]
      exact blockStands.append laterStands'

theorem Rewrites.run {f : List (ZMod m.toNat) → List (ZMod m.toNat)}
    {action : InPlace Unit} {size : ℕ} (rewrites : Rewrites m 0 size f action) {words : List Word}
    {v : List (ZMod m.toNat)} (stands : Stands m words v) (length : v.length = size) :
    ∃ words', action ⟨words⟩ = .ok () ⟨words'⟩ ∧ Stands m words' (f v) := by
  obtain ⟨words', ran, stands'⟩ := rewrites [] words [] v rfl length stands
  simp only [List.nil_append, List.append_nil] at ran
  exact ⟨words', ran, stands'⟩

theorem scale_rewrites {t : Twiddle} {u : ZMod m.toNat} (supported : Modulus.isSupported m = true)
    (represents : t.Represents m u) (position : ℕ) :
    Rewrites m position 1 (List.map (· * u))
      (do store position (← t.scale m (← fetch position))) := by
  rintro before block after v rfl length stands
  obtain ⟨x, rfl⟩ := List.length_eq_one_iff.mp (stands.length.trans length)
  obtain ⟨y, scaled, less, value⟩ := exists_scaled supported represents x
  refine ⟨[y], ?_, fun z member => ?_, ?_⟩
  · simp only [List.append_assoc, List.singleton_append]
    rw [run_bind_ok (run_fetch rfl), scaled, run_lift_checked_ok, run_store rfl]
  · rwa [List.mem_singleton.mp member]
  · rw [← stands.value, residues, residues, List.map_singleton, List.map_singleton,
      List.map_singleton, value]

end Passes

section Stages
open Butterfly
variable {tables : RootTables} {bits groups distance : ℕ} {psi psi' : ZMod tables.modulus.toNat}

theorem Rewrites.lift {α : Type} {m : Word} {start size : ℕ}
    {f : List (ZMod m.toNat) → List (ZMod m.toNat)} {a : α} {outcome : Checked α}
    {next : α → InPlace Unit} (found : outcome = .ok a)
    (rewrites : Rewrites m start size f (next a)) :
    Rewrites m start size f (do next (← outcome)) := by
  subst found
  exact rewrites

/-- A start that runs ahead block by block is the start of each block. -/
theorem foldlM_running (body : ℕ → ℕ → InPlace Unit) (size count index : ℕ) :
    (do let _ ← (List.range' index count).foldlM (fun start i => do
          body start i
          return start + size) (index * size)) =
      (List.range' index count).forM fun i => body (i * size) i := by
  induction count generalizing index with
  | zero => rfl
  | succ count ih =>
    have next := ih (index + 1)
    rw [Nat.succ_mul] at next
    rw [List.range'_succ, List.foldlM_cons, bind_assoc, bind_assoc]
    simp only [pure_bind]
    rw [next]
    rfl

theorem inverseStage_eq (tables : RootTables) (groups distance : ℕ) :
    inverseStage tables groups distance = (List.range' 0 groups).forM (fun i => do
      let t ← twiddle tables.inverse (groups + i)
      overHalf (i * (2 * distance)) distance (inverseButterfly tables.modulus t distance)) := by
  have running := foldlM_running (fun start i => do
    let t ← twiddle tables.inverse (groups + i)
    overHalf start distance (inverseButterfly tables.modulus t distance)) (2 * distance) groups 0
  rw [← running, inverseStage, List.range_eq_range', Nat.zero_mul]
  simp only [bind_assoc]

theorem overHalf_one (start : ℕ) (step : ℕ → InPlace Unit) : overHalf start 1 step = step start :=
  bind_pure_unit

theorem lastStage_eq (tables : RootTables) (half : ℕ) :
    lastStage tables half = forwardStage tables half 1 := by
  simp only [lastStage, forwardStage, Nat.mul_one, overHalf_one]

theorem stage_sizes {s d : ℕ} (total : s + d + 1 = bits) :
    2 * 2 ^ s ≤ 2 ^ bits ∧ 2 ^ bits = 2 ^ s * 2 ^ (d + 1) := by
  constructor
  · rw [← pow_succ']
    exact Nat.pow_le_pow_right (by decide) (by omega)
  · rw [← pow_add, ← total, Nat.add_assoc]

theorem half_two_pow (k : ℕ) : 2 ^ (k + 1) / 2 = 2 ^ k := by
  rw [pow_succ, Nat.mul_div_cancel _ Nat.two_pos]

section
variable (rooted : tables.Rooted bits psi psi')
include rooted

theorem forwardStage_rewrites (inside : 2 * groups ≤ 2 ^ bits) :
    Rewrites tables.modulus 0 (groups * (2 * distance))
      (level (2 * distance) (forwardPairs (slot psi bits) distance) groups groups)
        (forwardStage tables groups distance) := by
  rw [forwardStage, List.range_eq_range']
  refine .level (Nat.zero_mul _).symm (fun node block => length_paired) fun i below => ?_
  obtain ⟨t, found, represents⟩ := rooted.forward (groups + i) (by omega)
  have start : (0 + i) * (2 * distance) = 2 * i * distance := by ring
  rw [start, Nat.zero_add]
  exact .lift found ((forwardButterfly_exchanges rooted.supported represents).overHalf _)

theorem inverseStage_rewrites (inside : 2 * groups ≤ 2 ^ bits) :
    Rewrites tables.modulus 0 (groups * (2 * distance))
      (level (2 * distance) (inversePairs (slot psi' bits) distance) groups groups)
        (inverseStage tables groups distance) := by
  rw [inverseStage_eq]
  refine .level (Nat.zero_mul _).symm (fun node block => length_paired) fun i below => ?_
  obtain ⟨t, found, represents⟩ := rooted.inverse (groups + i) (by omega)
  rw [Nat.zero_add]
  exact .lift found ((inverseButterfly_exchanges rooted.supported represents).overHalf _)

/-- A stage of the forward transform leaves to the next level what its own level gives. -/
theorem forwardStage_computes {s d : ℕ} (total : s + d + 1 = bits) {words : List Word}
    {v : List (ZMod tables.modulus.toNat)} (stands : Stands tables.modulus words v)
    (length : v.length = 2 ^ bits) :
    ∃ words' v', forwardStage tables (2 ^ s) (2 ^ d) ⟨words⟩ = .ok () ⟨words'⟩ ∧
      Stands tables.modulus words' v' ∧
        v'.length = 2 ^ bits ∧ level (2 ^ d) (Butterfly.forward (slot psi bits) d) (2 * 2 ^ s)
          (2 * 2 ^ s) v' =
        level (2 ^ (d + 1)) (Butterfly.forward (slot psi bits) (d + 1)) (2 ^ s) (2 ^ s) v := by
  have size : 2 * 2 ^ d = 2 ^ (d + 1) := (pow_succ' 2 d).symm
  obtain ⟨inside, whole⟩ := stage_sizes total
  have cells : v.length = 2 ^ s * 2 ^ (d + 1) := length.trans whole
  obtain ⟨words', ran, stands'⟩ :=
    (forwardStage_rewrites rooted inside).run stands (cells.trans (by rw [size]))
  rw [size] at stands'
  refine ⟨words', _, ran, stands', ?_, (level_forward cells).symm⟩
  rw [length_level (fun node block => by rw [← size]; exact length_paired) cells, ← cells, length]

/-- While the stages of the forward transform run, what the remaining levels make of the buffer
stays the same. -/
theorem forwardStages_computes {s d : ℕ} (total : s + d + 1 = bits) {words : List Word}
    {v : List (ZMod tables.modulus.toNat)} (stands : Stands tables.modulus words v)
    (length : v.length = 2 ^ bits) :
    ∃ words' v', forwardStages tables (2 ^ (bits - 1)) (2 ^ s) (2 ^ (d + 1)) ⟨words⟩ =
      .ok () ⟨words'⟩ ∧
      Stands tables.modulus words' v' ∧ v'.length = 2 ^ bits ∧
      level 2 (Butterfly.forward (slot psi bits) 1) (2 ^ (bits - 1)) (2 ^ (bits - 1)) v' =
        level (2 ^ (d + 1)) (Butterfly.forward (slot psi bits) (d + 1)) (2 ^ s) (2 ^ s) v := by
  -- The loop counts the groups up; the induction is on the depth that is left below them.
  induction d generalizing s words v with
  | zero =>
    obtain rfl : bits - 1 = s := by omega
    refine ⟨words, v, ?_, stands, length, rfl⟩
    rw [forwardStages, dif_neg (by omega)]
    rfl
  | succ d ih =>
    have more : 2 ^ s < 2 ^ (bits - 1) := Nat.pow_lt_pow_right (by decide) (by omega)
    obtain ⟨middle, between, ran, middleStands, middleLength, passed⟩ :=
      forwardStage_computes rooted total stands length
    obtain ⟨words', v', ranLater, stands', length', same⟩ :=
      ih (s := s + 1) (by omega) middleStands middleLength
    rw [pow_succ' 2 s] at ranLater same
    refine ⟨words', v', ?_, stands', length', same.trans passed⟩
    rw [forwardStages, dif_pos ⟨Nat.two_pow_pos s, more⟩, half_two_pow, run_bind_ok ran, ranLater]

/-- A stage of the inverse transform goes from one level to the next. -/
theorem inverseStage_computes {s d : ℕ} (total : s + d + 1 = bits) {words : List Word}
    {v : List (ZMod tables.modulus.toNat)} (length : v.length = 2 ^ bits)
    (stands : Stands tables.modulus words
      (level (2 ^ d) (Butterfly.inverse (slot psi' bits) d) (2 * 2 ^ s) (2 * 2 ^ s) v)) :
    ∃ words', inverseStage tables (2 ^ s) (2 ^ d) ⟨words⟩ = .ok () ⟨words'⟩ ∧
      Stands tables.modulus words'
      (level (2 ^ (d + 1)) (Butterfly.inverse (slot psi' bits) (d + 1)) (2 ^ s) (2 ^ s) v) := by
  have size : 2 * 2 ^ d = 2 ^ (d + 1) := (pow_succ' 2 d).symm
  obtain ⟨inside, whole⟩ := stage_sizes total
  have cells : v.length = 2 ^ s * 2 ^ (d + 1) := length.trans whole
  have blocks : v.length = 2 * 2 ^ s * 2 ^ d := by rw [cells, pow_succ', mul_left_comm, mul_assoc]
  obtain ⟨words', ran, stands'⟩ := (inverseStage_rewrites rooted inside).run stands
    (by rw [length_level (fun node block => length_inverse) blocks, ← blocks, cells, size])
  rw [size, ← level_inverse cells] at stands'
  exact ⟨words', ran, stands'⟩

/-- While the stages of the inverse transform run, the buffer holds the levels of the inverse
network that have been passed. -/
theorem inverseStages_computes {s d : ℕ} (total : s + d + 1 = bits) {words : List Word}
    {v : List (ZMod tables.modulus.toNat)} (length : v.length = 2 ^ bits)
    (stands : Stands tables.modulus words
      (level (2 ^ d) (Butterfly.inverse (slot psi' bits) d) (2 * 2 ^ s) (2 * 2 ^ s) v)) :
    ∃ words', inverseStages tables (2 ^ s) (2 ^ d) ⟨words⟩ = .ok () ⟨words'⟩ ∧
      Stands tables.modulus words' (Butterfly.inverse (slot psi' bits) bits 1 v) := by
  induction s generalizing d words with
  | zero =>
    obtain rfl : d + 1 = bits := by omega
    obtain ⟨words', ran, stands'⟩ := inverseStage_computes rooted total length stands
    rw [pow_zero, level_one length] at stands'
    refine ⟨words', ?_, stands'⟩
    rw [inverseStages, dif_pos (Nat.one_le_two_pow), run_bind_ok ran, inverseStages,
      dif_neg (by decide)]
    rfl
  | succ s ih =>
    obtain ⟨middle, ran, middleStands⟩ := inverseStage_computes rooted total length stands
    rw [pow_succ' 2 s] at middleStands
    obtain ⟨words', ranLater, stands'⟩ := ih (by omega) middleStands
    refine ⟨words', ?_, stands'⟩
    rw [inverseStages, dif_pos (Nat.one_le_two_pow), run_bind_ok ran, half_two_pow,
      ← pow_succ', ranLater]

theorem forwardInPlace_computes {values : List Word} (length : values.length = 2 ^ bits)
    (reduced : ∀ x ∈ values, x < tables.modulus) :
    ∃ out, forwardInPlace tables ⟨values⟩ = .ok () ⟨out⟩ ∧
      Stands tables.modulus out
        (Butterfly.forward (slot psi bits) bits 1 (residues tables.modulus values)) := by
  have admitted := checkLength_eq_ok rooted length
  have stands : Stands tables.modulus values (residues tables.modulus values) := ⟨reduced, rfl⟩
  have same : (residues tables.modulus values).length = 2 ^ bits := (length_residues _).trans length
  simp only [forwardInPlace, run_get, admitted, run_lift_ok, List.size_toArray, length]
  cases bits with
  | zero =>
    refine ⟨values, ?_, stands⟩
    rw [forwardStages, dif_neg (by decide)]
    rfl
  | succ bits =>
    obtain ⟨middle, v, ran, middleStands, middleLength, remains⟩ :=
      forwardStages_computes (s := 0) (d := bits) rooted (by omega) stands same
    obtain ⟨out, v', ranLast, outStands, _, last⟩ :=
      forwardStage_computes (s := bits) (d := 0) rooted rfl middleStands middleLength
    rw [Nat.add_sub_cancel, pow_zero] at ran
    rw [pow_zero] at ranLast
    have whole : v' = Butterfly.forward (slot psi (bits + 1)) (bits + 1) 1
        (residues tables.modulus values) := by
      calc v' = level (2 ^ 0) (Butterfly.forward (slot psi (bits + 1)) 0) (2 * 2 ^ bits)
             (2 * 2 ^ bits) v' :=
            (level_unchanged fun _ _ => rfl).symm
        _ = level (2 ^ (bits + 1)) (Butterfly.forward (slot psi (bits + 1)) (bits + 1)) 1 1
            (residues tables.modulus values) := last.trans remains
        _ = Butterfly.forward (slot psi (bits + 1)) (bits + 1) 1 (residues tables.modulus values) :=
          level_one same
    rw [whole] at outStands
    refine ⟨out, ?_, outStands⟩
    rw [half_two_pow, run_bind_ok ran, lastStage_eq, ranLast]

theorem inverseInPlace_computes {u : ZMod tables.modulus.toNat}
    (represents : tables.lengthInverse.Represents tables.modulus u) {values : List Word}
    (length : values.length = 2 ^ bits) (reduced : ∀ x ∈ values, x < tables.modulus) :
    ∃ out, inverseInPlace tables ⟨values⟩ = .ok () ⟨out⟩ ∧ Stands tables.modulus out
      ((Butterfly.inverse (slot psi' bits) bits 1 (residues tables.modulus values)).map
        (· * u)) := by
  have admitted := checkLength_eq_ok rooted length
  have stands : Stands tables.modulus values (residues tables.modulus values) := ⟨reduced, rfl⟩
  have same : (residues tables.modulus values).length = 2 ^ bits := (length_residues _).trans length
  have joins : ∃ joined, inverseStages tables (2 ^ bits / 2) 1 ⟨values⟩ = .ok () ⟨joined⟩ ∧
      Stands tables.modulus joined
        (Butterfly.inverse (slot psi' bits) bits 1 (residues tables.modulus values)) := by
    cases bits with
    | zero =>
      refine ⟨values, ?_, stands⟩
      rw [inverseStages, dif_neg (by decide)]
      rfl
    | succ bits =>
      have leaves : level (2 ^ 0) (Butterfly.inverse (slot psi' (bits + 1)) 0) (2 * 2 ^ bits)
        (2 * 2 ^ bits)
          (residues tables.modulus values) = residues tables.modulus values :=
            level_unchanged fun _ _ => rfl
      rw [← leaves] at stands
      obtain ⟨joined, ran, joinedStands⟩ :=
        inverseStages_computes (s := bits) (d := 0) rooted rfl same stands
      exact ⟨joined, by rw [half_two_pow, ← ran, pow_zero], joinedStands⟩
  obtain ⟨joined, ranJoined, joinedStands⟩ := joins
  have cells : (Butterfly.inverse (slot psi' bits) bits 1 (residues tables.modulus values)).length =
      2 ^ bits :=
    Butterfly.length_inverse same
  have scales : Rewrites tables.modulus 0 (2 ^ bits * 1)
    (level 1 (fun _ => List.map (· * u)) (2 ^ bits) 0)
      (scaleStage tables (2 ^ bits)) := by
    rw [scaleStage, List.range_eq_range']
    refine .level rfl (fun _ block length => by rw [List.length_map, length]) fun i _ => ?_
    rw [Nat.mul_one]
    exact scale_rewrites rooted.supported represents _
  rw [Nat.mul_one] at scales
  obtain ⟨out, ran, outStands⟩ := scales.run joinedStands cells
  rw [level_map (by rw [cells, Nat.mul_one])] at outStands
  refine ⟨out, ?_, outStands⟩
  simp only [inverseInPlace, run_get, admitted, run_lift_ok, List.size_toArray, length]
  rw [run_bind_ok ranJoined, ran]

/-- The forward transform on one buffer leaves what the tree gives. -/
theorem forwardInPlace_eq_ok {values : List Word} (length : values.length = 2 ^ bits)
    (reduced : ∀ x ∈ values, x < tables.modulus) :
    ∃ out, forwardInPlace tables ⟨values⟩ = .ok () ⟨out⟩ ∧
      forwardTransform tables values = .ok out ∧
      Stands tables.modulus out
        (Butterfly.forward (slot psi bits) bits 1 (residues tables.modulus values)) := by
  have same : (residues tables.modulus values).length = 2 ^ bits := (length_residues _).trans length
  obtain ⟨out, ran, stands⟩ := forwardInPlace_computes rooted length reduced
  obtain ⟨tree, ranTree, _, treeReduced, evaluates⟩ := forwardTransform_eq_ok rooted length reduced
  have agree : tree = out := by
    refine residues_injective treeReduced stands.reduced (evaluates.trans ?_)
    rw [stands.value, Butterfly.forward_eq_evaluations (splits_slot rooted.minusOne) same]
    rfl
  rw [agree] at ranTree
  exact ⟨out, ran, ranTree, stands⟩

/-- The inverse transform on one buffer leaves what the tree gives. -/
theorem inverseInPlace_eq_ok {u : ZMod tables.modulus.toNat}
    (represents : tables.lengthInverse.Represents tables.modulus u) {values : List Word}
    (length : values.length = 2 ^ bits) (reduced : ∀ x ∈ values, x < tables.modulus) :
    ∃ out, inverseInPlace tables ⟨values⟩ = .ok () ⟨out⟩ ∧
      inverseTransform tables values = .ok out ∧
      Stands tables.modulus out
        ((Butterfly.inverse (slot psi' bits) bits 1 (residues tables.modulus values)).map
          (· * u)) := by
  obtain ⟨out, ran, stands⟩ := inverseInPlace_computes rooted represents length reduced
  obtain ⟨tree, ranTree, _, treeReduced, treeStands⟩ :=
    inverseTransform_eq_scaled rooted represents length reduced
  have agree : tree = out :=
    residues_injective treeReduced stands.reduced (treeStands.trans stands.value.symm)
  rw [agree] at ranTree
  exact ⟨out, ran, ranTree, stands⟩

end

end Stages
end RootTables
end BankedRing
