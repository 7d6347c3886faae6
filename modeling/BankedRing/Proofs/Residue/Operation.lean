import BankedRing.Proofs.Residue.CentredLift
import BankedRing.Proofs.Residue.Inverse
import BankedRing.Proofs.Slices
import BankedRing.Residue.Operation

/-! Elementwise operations never trap on permitted input: with permitted parameters and
reduced operands every cell receives a word. Each cell depends on its own operands only,
so an operation on a part of its lists gives the same part of its result. -/
namespace BankedRing

namespace Residue
variable {m : Word}

theorem scaleRounded_total (d p q : Word) : ∃ w, scaleRounded d p q = .ok w := by
  rw [scaleRounded, DoubleWord.product_eq_ok]
  exact ⟨_, rfl⟩

theorem divideRounded_total {d q : Word} (nonzero : q ≠ 0) (small : d.toNat < 2 ^ 60) :
    ∃ w, divideRounded d q = .ok w := by
  have quotient : (d / q).toNat ≤ d.toNat := by
    rw [UInt64.toNat_div]
    exact Nat.div_le_self _ _
  have half : (q >>> 1).toNat ≤ q.toNat := by
    rw [UInt64.toNat_shiftRight]
    exact Nat.shiftRight_le _ _
  rw [divideRounded, Checked.div, if_neg nonzero, ok_bind, Checked.rem, if_neg nonzero, ok_bind,
    Checked.sub_eq_ok half, ok_bind]
  split
  · exact ⟨_, Checked.add_eq_ok (by simp only [UInt64.toNat_one, UInt64.size]; omega)⟩
  · exact ⟨_, rfl⟩

/-- The magnitude of a centred lift is below the modulus, and its sign is restored
below the modulus again. -/
theorem onCentredLift_total (positive : 0 < m.toNat) {v : Word} (reduced : v < m)
    {f : Word → Checked Word} (total : ∀ d : Word, d.toNat ≤ m.toNat → ∃ w, f d = .ok w) :
    ∃ w, onCentredLift m v f = .ok w := by
  have below : v.toNat ≤ m.toNat := Nat.le_of_lt (UInt64.lt_iff_toNat_lt.mp reduced)
  unfold onCentredLift
  split
  · have magnitude : (m - v).toNat ≤ m.toNat := by
      rw [UInt64.toNat_sub_of_le _ _ (UInt64.le_iff_toNat_le.mpr below)]
      omega
    obtain ⟨w, hw⟩ := total (m - v) magnitude
    have remainder := UInt64.lt_iff_toNat_lt.mp (residue_lt (m := m) w.toNat positive)
    rw [Checked.sub_eq_ok below, ok_bind, hw, ok_bind, reduce_eq_ok w positive, ok_bind]
    split
    · exact ⟨_, rfl⟩
    · exact ⟨_, Checked.sub_eq_ok (Nat.le_of_lt remainder)⟩
  · obtain ⟨w, hw⟩ := total v below
    rw [hw, ok_bind]
    exact ⟨_, reduce_eq_ok w positive⟩

end Residue

/-- Two lists of residues combined position by position. -/
def Family.combined (family : Family) (m : Word) (a b : List Word) : List Word :=
  (a.zip b).map fun (x, y) => residue (family.number m.toNat x.toNat y.toNat) m

theorem Family.length_combined (family : Family) (m : Word) {a b : List Word}
    (shape : b.length = a.length) :
    (family.combined m a b).length = a.length := by
  rw [combined, List.length_map, List.length_zip, shape, Nat.min_self]

theorem Family.combined_lt (family : Family) {m : Word} (positive : 0 < m.toNat) (a b : List Word) :
    ∀ x ∈ family.combined m a b, x < m := by
  intro x member
  obtain ⟨pair, _, rfl⟩ := List.mem_map.mp member
  exact residue_lt _ positive

theorem Family.combined_slice (family : Family) (m : Word) (start count : Nat) (a b : List Word) :
    family.combined m (slice start count a) (slice start count b) =
      slice start count (family.combined m a b) := by
  simp only [combined, slice, ← List.map_take, ← List.map_drop, List.zip_eq_zipWith,
    List.take_zipWith,
    List.drop_zipWith]

namespace Operation

/-- The modulus that the operands of an operation are reduced by. -/
def modulus : Operation → Word
  | .combine _ m _ | .combineScalar _ _ m _ | .parity m | .switchModulus m _ | .changeModulus m _
  | .power _ m | .inverse m | .scaleAndRound m _ _ | .divideAndRound m _ => m

/-- Whether an operation reads a second list. -/
def isBinary : Operation → Bool
  | .combine .. => true
  | _ => false

/-- Parameters under which an operation is meant to be used. -/
def Admitted (operation : Operation) : Prop :=
  Modulus.isSupported operation.modulus = true ∧
    match operation with
    | .combine family m mu | .combineScalar family _ m mu => mu = family.constant m
    | .switchModulus _ new | .changeModulus _ new => Modulus.isSupported new = true
    | .scaleAndRound _ _ q | .divideAndRound _ q => q ≠ 0
    | _ => True

/-- Parameters that no check refuses; the constant of a product may be any word. -/
def Permitted (operation : Operation) : Prop :=
  Modulus.isSupported operation.modulus = true ∧
    match operation with
    | .switchModulus _ new | .changeModulus _ new => Modulus.isSupported new = true
    | .scaleAndRound _ _ q | .divideAndRound _ q => q ≠ 0
    | _ => True

theorem Admitted.permitted {operation : Operation} (h : operation.Admitted) :
    operation.Permitted := by
  obtain ⟨supported, valid⟩ := h
  refine ⟨supported, ?_⟩
  cases operation with
  | combine | combineScalar => trivial
  | _ => exact valid

theorem prepare_total {operation : Operation} (h : operation.Permitted) :
    ∃ prepared, operation.prepare = .ok prepared ∧ prepared.isBinary = operation.isBinary ∧
      ∀ x y, x < operation.modulus → (operation.isBinary = true → y < operation.modulus) →
        ∃ w, prepared.cell x y = .ok w := by
  obtain ⟨supported, valid⟩ := h
  have positive := Modulus.pos supported
  cases operation with
  | combine family m mu =>
    exact ⟨_, rfl, rfl, fun x y hx hy => family.apply_total supported hx (hy rfl) mu⟩
  | combineScalar family scalar m mu =>
    refine ⟨.combineScalar family (residue scalar.toNat m) m mu, ?_, rfl, fun x y hx _ => ?_⟩
    · rw [prepare, Residue.reduce_eq_ok (m := m) scalar positive]
      rfl
    · exact family.apply_total supported hx (residue_lt _ positive) mu
  | parity m => exact ⟨_, rfl, rfl, fun x y _ _ => ⟨_, rfl⟩⟩
  | switchModulus old new =>
    exact ⟨_, rfl, rfl, fun x y hx _ => ⟨_, Residue.switchModulus_eq_ok supported valid hx⟩⟩
  | changeModulus old new =>
    refine ⟨_, rfl, rfl, ?_⟩
    intro x y hx _
    simp only [cell]
    split
    · exact ⟨_, rfl⟩
    · exact ⟨_, Residue.switchModulus_eq_ok supported valid hx⟩
  | power exponent m =>
    refine ⟨.power (residue exponent.toNat m) m, ?_, rfl,
      fun x y _ _ => ⟨_, Residue.pow_eq_ok supported x _⟩⟩
    rw [prepare, Residue.reduce_eq_ok (m := m) exponent positive]
    rfl
  | inverse m =>
    refine ⟨_, rfl, rfl, ?_⟩
    intro x y _ _
    have small := Modulus.lt_two_pow supported
    obtain ⟨r, inverse, _⟩ := Residue.inverse_eq_ok (Modulus.two_le supported)
      (Nat.lt_trans small (by decide)) x
    exact ⟨r, inverse⟩
  | scaleAndRound m p q =>
    exact ⟨_, rfl, rfl, fun x y hx _ =>
      Residue.onCentredLift_total positive hx fun d _ => Residue.scaleRounded_total d p q⟩
  | divideAndRound m q =>
    refine ⟨_, rfl, rfl, ?_⟩
    intro x y hx _
    exact Residue.onCentredLift_total positive hx fun d bound =>
      Residue.divideRounded_total valid (Nat.lt_of_le_of_lt bound (Modulus.lt_two_pow supported))

theorem overwrite_total {f : Word → Word → Checked Word} {sources : List (Word × Word)}
    (total : ∀ s ∈ sources, ∃ w, f s.1 s.2 = .ok w) (destination : List Word) :
    ∃ out, overwrite f sources destination = .ok out ∧ out.length = destination.length := by
  induction sources generalizing destination with
  | nil => exact ⟨destination, rfl, rfl⟩
  | cons s rest ih =>
    cases destination with
    | nil => exact ⟨[], rfl, rfl⟩
    | cons d destination =>
      obtain ⟨w, hw⟩ := total s (by simp)
      obtain ⟨out, ho, length⟩ := ih (fun t h => total t (by simp [h])) destination
      refine ⟨w :: out, ?_, by simp [length]⟩
      simp only [overwrite, hw, ho, ok_bind]
      rfl

theorem overwrite_eq_append {f : Word → Word → Checked Word} {g : Word × Word → Word}
    {sources : List (Word × Word)} (exact : ∀ s ∈ sources, f s.1 s.2 = .ok (g s))
    (destination : List Word) :
    overwrite f sources destination =
      .ok ((sources.take destination.length).map g ++ destination.drop sources.length) := by
  induction sources generalizing destination with
  | nil => rw [List.take_nil]; rfl
  | cons s rest ih =>
    cases destination with
    | nil => rfl
    | cons d destination =>
      have tail := ih (fun t member => exact t (by simp [member])) destination
      simp only [overwrite, exact s (by simp), tail, ok_bind]
      rfl

theorem overwrite_eq_ok {f : Word → Word → Checked Word} {g : Word × Word → Word}
    {sources : List (Word × Word)} (exact : ∀ s ∈ sources, f s.1 s.2 = .ok (g s))
    {destination : List Word} (length : sources.length = destination.length) :
    overwrite f sources destination = .ok (sources.map g) := by
  rw [overwrite_eq_append exact, ← length, List.take_length, length, List.drop_length,
    List.append_nil]

theorem kernel_combine {family : Family} {m : Word} (supported : Modulus.isSupported m = true)
    {a b : List Word} (shape : b.length = a.length) (ha : ∀ x ∈ a, x < m) (hb : ∀ y ∈ b, y < m) :
    (Operation.combine family m (family.constant m)).kernel a b = .ok (family.combined m a b) := by
  refine overwrite_eq_ok (fun s member => ?_)
    (by rw [sources, List.length_zip, shape, Nat.min_self])
  obtain ⟨first, second⟩ := List.of_mem_zip (show (s.1, s.2) ∈ a.zip b from member)
  exact family.apply_eq_ok supported (ha _ first) (hb _ second)

/-- On reduced operands an operation ends in a list as long as its destination, whatever the
lengths of the lists are. -/
theorem apply_total {operation : Operation} (h : operation.Permitted) {a b : List Word}
    (reduced : ∀ x ∈ a, x < operation.modulus)
    (second : operation.isBinary = true → ∀ y ∈ b, y < operation.modulus)
    (destination : List Word) :
    ∃ out, operation.apply a b destination = .ok out ∧ out.length = destination.length := by
  obtain ⟨prepared, ready, binary, cells⟩ := prepare_total h
  simp only [apply, ready, ok_bind]
  refine overwrite_total (fun s member => cells _ _ ?_ fun reads => ?_) destination
  · cases prepared with
    | combine => exact reduced _ (List.of_mem_zip (show (s.1, s.2) ∈ _ from member)).1
    | _ =>
      obtain ⟨x, hx, rfl⟩ := List.mem_map.mp member
      exact reduced x hx
  · rw [← binary] at reads
    cases prepared with
    | combine =>
      exact second (binary.symm.trans reads) _ (List.of_mem_zip (show (s.1, s.2) ∈ _ from member)).2
    | _ => simp [isBinary] at reads

theorem kernel_total {operation : Operation} (h : operation.Permitted) {a b : List Word}
    (reduced : ∀ x ∈ a, x < operation.modulus)
    (second : operation.isBinary = true → ∀ y ∈ b, y < operation.modulus) :
    ∃ out, operation.kernel a b = .ok out ∧ out.length = a.length :=
  apply_total h reduced second a

theorem overwrite_nil (f : Word → Word → Checked Word) (sources : List (Word × Word)) :
    overwrite f sources [] = .ok [] := by
  cases sources <;> rfl

theorem overwrite_drop {f : Word → Word → Checked Word} {sources : List (Word × Word)}
    {destination out : List Word} (h : overwrite f sources destination = .ok out) (start : Nat) :
    overwrite f (sources.drop start) (destination.drop start) = .ok (out.drop start) := by
  induction start generalizing sources destination out with
  | zero => exact h
  | succ start ih =>
    cases sources with
    | nil =>
      cases h
      simp only [List.drop_nil]
      rfl
    | cons s rest =>
      cases destination with
      | nil =>
        cases h
        simp only [List.drop_nil]
        exact overwrite_nil f _
      | cons d destination =>
        obtain ⟨w, _, h⟩ := bind_eq_ok.mp h
        obtain ⟨tail, ho, h⟩ := bind_eq_ok.mp h
        cases h
        exact ih ho

theorem overwrite_take {f : Word → Word → Checked Word} {sources : List (Word × Word)}
    {destination out : List Word} (h : overwrite f sources destination = .ok out) (count : Nat) :
    overwrite f (sources.take count) (destination.take count) = .ok (out.take count) := by
  induction count generalizing sources destination out with
  | zero => rfl
  | succ count ih =>
    cases sources with
    | nil =>
      cases h
      rfl
    | cons s rest =>
      cases destination with
      | nil =>
        cases h
        rfl
      | cons d destination =>
        obtain ⟨w, hw, h⟩ := bind_eq_ok.mp h
        obtain ⟨tail, ho, h⟩ := bind_eq_ok.mp h
        cases h
        simp only [List.take_succ_cons, overwrite, hw, ih ho, ok_bind]
        rfl

theorem sources_slice (operation : Operation) (start count : Nat) (a b : List Word) :
    operation.sources (slice start count a) (slice start count b) =
      slice start count (operation.sources a b) := by
  cases operation with
  | combine => simp only [sources, slice, List.zip_eq_zipWith, List.take_zipWith, List.drop_zipWith]
  | _ => simp only [sources, slice, List.map_take, List.map_drop]

theorem sources_unary {operation : Operation} (h : operation.isBinary = false) (a b c : List Word) :
    operation.sources a b = operation.sources a c := by
  cases operation with
  | combine => simp [isBinary] at h
  | _ => rfl

/-- A part of the lists gives the same part of the result. -/
theorem kernel_slice {operation : Operation} {a b out : List Word}
    (h : operation.kernel a b = .ok out) (start count : Nat) :
    operation.kernel (slice start count a) (slice start count b) = .ok (slice start count out) := by
  obtain ⟨prepared, ready, h⟩ := bind_eq_ok.mp h
  simp only [kernel, apply, ready, ok_bind, sources_slice]
  exact overwrite_take (overwrite_drop h start) count

theorem kernel_unary {operation : Operation} (h : operation.isBinary = false) (a b c : List Word) :
    operation.kernel a b = operation.kernel a c := by
  simp only [kernel, apply]
  cases ready : operation.prepare with
  | error e => rfl
  | ok prepared =>
    have unary : prepared.isBinary = false := by
      cases operation with
      | combine => simp [isBinary] at h
      | combineScalar | power =>
        obtain ⟨_, _, ready⟩ := bind_eq_ok.mp ready
        cases ready
        rfl
      | _ =>
        cases ready
        rfl
    simp only [ok_bind, sources_unary unary a b c]

end Operation
end BankedRing
