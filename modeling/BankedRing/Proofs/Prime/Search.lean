import BankedRing.Prime.Search
import BankedRing.Proofs.Prime.Test
import Mathlib.Order.Bounds.Basic

/-! The search down a progression. It ends with the largest member that the test accepts, wherever
it starts, and is refused exactly where the progression has none. -/
namespace BankedRing.Prime

/-- The accepted words of a progression below a bound. -/
def accepted (bound anchor order : ℕ) : Set Word :=
  {p | p.toNat < bound ∧ p.toNat ≡ anchor [MOD order] ∧ isPrime p = .ok true}

section Progression
variable {bound q anchor order : ℕ}

theorem accepted_congr {other : ℕ} (same : anchor ≡ other [MOD order]) :
    accepted bound anchor order = accepted bound other order := by
  ext p
  exact and_congr_right fun _ => and_congr_left fun _ => ⟨(·.trans same), (·.trans same.symm)⟩

/-- Between two members of a progression there are none. -/
theorem accepted_below (positive : 0 < order) (inside : order ≤ q) :
    accepted q q order = accepted (q - order + 1) (q - order) order := by
  have step : q - order ≡ q [MOD order] := by
    have next : q - order + order ≡ q [MOD order] := by rw [Nat.sub_add_cancel inside]
    exact Nat.ModEq.trans (by rw [Nat.ModEq, Nat.add_mod_right]) next
  ext p
  constructor
  · rintro ⟨below, congruent, prime⟩
    have apart := congruent.add_le_of_lt below
    exact ⟨by omega, congruent.trans step.symm, prime⟩
  · rintro ⟨below, congruent, prime⟩
    exact ⟨by omega, congruent.trans step, prime⟩

theorem accepted_exhausted (outside : q < order) : accepted q q order = ∅ := by
  refine Set.eq_empty_of_forall_notMem fun p => ?_
  rintro ⟨below, congruent, _⟩
  have apart := congruent.add_le_of_lt below
  omega

theorem two_le_of_accepted {p : Word} (prime : isPrime p = .ok true) : 2 ≤ p.toNat := by
  by_contra small
  have less : p < 2 := UInt64.lt_iff_toNat_lt.mpr (Nat.not_le.mp small)
  rw [isPrime, if_pos less] at prime
  cases prime

theorem isGreatest_start {q : Word} (prime : isPrime q = .ok true) :
    IsGreatest (accepted (q.toNat + 1) q.toNat order) q :=
  ⟨⟨Nat.lt_succ_self _, rfl, prime⟩,
    fun _ member => UInt64.le_iff_toNat_le.mpr (Nat.le_of_lt_succ member.1)⟩

theorem accepted_start {q : Word} (composite : isPrime q = .ok false) :
    accepted (q.toNat + 1) q.toNat order = accepted q.toNat q.toNat order := by
  ext p
  refine ⟨fun ⟨below, congruent, prime⟩ => ⟨?_, congruent, prime⟩,
    fun ⟨below, rest⟩ => ⟨by omega, rest⟩⟩
  refine Nat.lt_of_le_of_ne (Nat.le_of_lt_succ below) fun same => ?_
  obtain rfl := UInt64.toNat_inj.mp same
  rw [prime] at composite
  cases composite

end Progression

/-- The greatest element of a set, or nothing where the set is empty. -/
def IsLargest (s : Set Word) : Option Word → Prop
  | some p => IsGreatest s p
  | none => s = ∅

/-- The walk goes through, and stops at the largest accepted number from its start on. -/
theorem descend_largest {order : Word} (positive : 0 < order) (candidate : Word) :
    ∃ found, descend order candidate = .ok found ∧
      IsLargest (accepted (candidate.toNat + 1) candidate.toNat order.toNat) found := by
  induction candidate using descend.induct order with
  | case1 candidate small =>
    refine ⟨none, by rw [descend, if_pos small]; rfl, Set.eq_empty_of_forall_notMem fun p => ?_⟩
    rintro ⟨below, _, prime⟩
    have two := two_le_of_accepted prime
    have small : candidate.toNat ≤ 1 := UInt64.le_iff_toNat_le.mp small
    omega
  | case2 candidate large ih =>
    obtain ⟨answer, tested, _⟩ := isPrime_decides candidate
    rw [descend, if_neg large, tested, ok_bind]
    cases answer with
    | true => exact ⟨some candidate, rfl, isGreatest_start tested⟩
    | false =>
      rw [accepted_start tested]
      by_cases inside : 0 < order ∧ order ≤ candidate
      · obtain ⟨found, ran, largest⟩ := ih inside
        rw [UInt64.toNat_sub_of_le _ _ inside.2,
          ← accepted_below (UInt64.lt_iff_toNat_lt.mp positive)
          (UInt64.le_iff_toNat_le.mp inside.2)] at largest
        exact ⟨found, by rw [dif_pos inside, ran]; rfl, largest⟩
      · refine ⟨none, by rw [dif_neg inside]; rfl, accepted_exhausted ?_⟩
        exact UInt64.lt_iff_toNat_lt.mp (UInt64.not_le.mp fun le => inside ⟨positive, le⟩)

/-- A search answers with the greatest element of a set, or is refused where the set is empty. -/
def Finds (outcome : Except Error Word) (s : Set Word) : Prop :=
  (∃ p, outcome = .ok p ∧ IsGreatest s p) ∨ ∃ defect, outcome = .error (.invalidParameters defect) ∧
  s = ∅

namespace Finds
variable {outcome : Except Error Word} {s : Set Word} {p : Word}

theorem ok_iff (h : Finds outcome s) : outcome = .ok p ↔ IsGreatest s p := by
  rcases h with ⟨q, rfl, greatest⟩ | ⟨defect, rfl, rfl⟩
  · rw [Except.ok.injEq]
    exact ⟨fun same => same ▸ greatest,
      fun other => UInt64.le_antisymm (other.2 greatest.1) (greatest.2 other.1)⟩
  · exact ⟨nofun, fun greatest => absurd greatest.1 (Set.notMem_empty p)⟩

theorem refused_iff (h : Finds outcome s) :
    (∃ defect, outcome = .error (.invalidParameters defect)) ↔ s = ∅ := by
  rcases h with ⟨q, rfl, greatest⟩ | ⟨defect, rfl, rfl⟩
  · exact ⟨nofun, fun empty => absurd greatest.1 (empty ▸ Set.notMem_empty q)⟩
  · exact ⟨fun _ => rfl, fun _ => ⟨defect, rfl⟩⟩

theorem answers_iff (h : Finds outcome s) : (∃ p, outcome = .ok p) ↔ s.Nonempty := by
  rcases h with ⟨q, rfl, greatest⟩ | ⟨defect, rfl, rfl⟩
  · exact ⟨fun _ => ⟨q, greatest.1⟩, fun _ => ⟨q, rfl⟩⟩
  · exact ⟨nofun, fun nonempty => absurd rfl nonempty.ne_empty⟩

theorem refusal (h : Finds outcome s) {e : Error} (failed : outcome = .error e) :
    ∃ defect, e = .invalidParameters defect := by
  rcases h with ⟨q, rfl, _⟩ | ⟨defect, rfl, _⟩
  · cases failed
  · cases failed
    exact ⟨defect, rfl⟩

end Finds

section Searches
variable {order : Word}

theorem previous_finds (positive : 0 < order) (q : Word) :
    Finds (previous q order) (accepted q.toNat q.toNat order.toNat) := by
  rw [previous]
  by_cases inside : order ≤ q
  · obtain ⟨found, ran, largest⟩ := descend_largest positive (q - order)
    rw [UInt64.toNat_sub_of_le _ _ inside, ← accepted_below (UInt64.lt_iff_toNat_lt.mp positive)
      (UInt64.le_iff_toNat_le.mp inside)] at largest
    rw [if_pos ⟨positive, inside⟩, ran, lift_checked_ok, ok_bind]
    cases found with
    | some p => exact .inl ⟨p, rfl, largest⟩
    | none => exact .inr ⟨_, rfl, largest⟩
  · rw [if_neg fun both => inside both.2]
    exact .inr ⟨_, rfl, accepted_exhausted (UInt64.lt_iff_toNat_lt.mp (UInt64.not_le.mp inside))⟩

theorem start_finds (positive : 0 < order) (q : Word) :
    Finds (first.start order q) (accepted (q.toNat + 1) q.toNat order.toNat) := by
  obtain ⟨answer, tested, _⟩ := isPrime_decides q
  rw [first.start, tested, lift_checked_ok, ok_bind]
  cases answer with
  | true => exact .inl ⟨q, rfl, isGreatest_start tested⟩
  | false =>
    rw [accepted_start tested]
    exact previous_finds positive q

/-- The number after the last multiple of the order below the bound is one modulo the order. -/
theorem lastCandidate_modEq (bound order : ℕ) :
    (bound - 1) / order * order + 1 ≡ 1 [MOD order] := by
  rw [Nat.ModEq, Nat.mul_add_mod_self_right]

theorem accepted_lastCandidate {bound order : ℕ} (positive : 0 < order)
    (below : (bound - 1) / order * order + 1 < bound) :
    accepted bound 1 order =
      accepted ((bound - 1) / order * order + 1 + 1) ((bound - 1) / order * order + 1) order := by
  have congruent := lastCandidate_modEq bound order
  have last := Nat.lt_div_mul_add (a := bound - 1) positive
  generalize (bound - 1) / order * order = multiple at *
  rw [accepted_congr congruent.symm]
  ext p
  refine ⟨fun ⟨inside, member, prime⟩ => ⟨?_, member, prime⟩,
    fun ⟨inside, rest⟩ => ⟨by omega, rest⟩⟩
  by_contra above
  have apart := member.symm.add_le_of_lt (by omega)
  omega

theorem admitted_iff {bits : ℕ} : ¬ (bits < 2 ∨ 60 < bits ∨ order = 0) ↔ 2 ≤ bits ∧ bits ≤ 60 ∧
    0 < order := by
  rw [not_or, not_or, Nat.not_lt, Nat.not_lt, UInt64.pos_iff_ne_zero]

theorem first_refused {bits : ℕ} (outside : ¬ (2 ≤ bits ∧ bits ≤ 60 ∧ 0 < order)) :
    first bits order = .error (.invalidParameters (.searchBounds bits order.toNat)) := by
  rw [first, if_pos (not_imp_comm.mp admitted_iff.mp outside)]
  rfl

theorem bounds_of_first {bits : ℕ} {p : Word} (found : first bits order = .ok p) :
    2 ≤ bits ∧ bits ≤ 60 ∧ 0 < order := by
  by_contra outside
  cases (first_refused outside).symm.trans found

/-- Every step towards the last candidate stays at or below the bound. -/
theorem lastCandidate_eq_ok {bound : Word} (least : (1 : Word).toNat ≤ bound.toNat)
    (positive : 0 < order) :
    Checked.div (bound - 1) order = .ok ((bound - 1) / order) ∧
      Checked.mul ((bound - 1) / order) order = .ok ((bound - 1) / order * order) ∧
      Checked.add ((bound - 1) / order * order) 1 = .ok ((bound - 1) / order * order + 1) ∧
      ((bound - 1) / order * order + 1).toNat =
        (bound.toNat - 1) / order.toNat * order.toNat + 1 := by
  have word := bound.toNat_lt
  have most := Nat.div_mul_le_self (bound.toNat - 1) order.toNat
  have quotient : ((bound - 1) / order).toNat = (bound.toNat - 1) / order.toNat := by
    rw [UInt64.toNat_div, UInt64.toNat_sub_of_le _ _ (UInt64.le_iff_toNat_le.mpr least),
      UInt64.toNat_one]
  have product : ((bound - 1) / order * order).toNat =
      (bound.toNat - 1) / order.toNat * order.toNat := by
    rw [UInt64.toNat_mul, quotient, Nat.mod_eq_of_lt (by omega)]
  refine ⟨if_neg (UInt64.pos_iff_ne_zero.mp positive), Checked.mul_eq_ok ?_,
    Checked.add_eq_ok ?_, ?_⟩
  · rw [quotient, UInt64.size]
    omega
  · rw [product, UInt64.toNat_one, UInt64.size]
    omega
  · rw [UInt64.toNat_add, product, UInt64.toNat_one, Nat.mod_eq_of_lt (by omega)]

theorem first_eq {bits : ℕ} (two : 2 ≤ bits) (sixty : bits ≤ 60) (positive : 0 < order) :
    ∃ bound candidate : Word, bound.toNat = 2 ^ bits ∧
      candidate.toNat = (2 ^ bits - 1) / order.toNat * order.toNat + 1 ∧
      first bits order =
        if candidate < bound then first.start order candidate
        else if order ≤ candidate then first.start order (candidate - order)
        else .error (.invalidParameters (.noCandidates order.toNat bits)) := by
  have admitted := admitted_iff.mpr ⟨two, sixty, positive⟩
  have inside : bits < 64 := by omega
  obtain ⟨bound, shifted, size⟩ : ∃ bound : Word, Checked.shiftLeft 1 bits = .ok bound ∧
      bound.toNat = 2 ^ bits :=
    ⟨_, if_pos inside, DoubleWord.toNat_one_shiftLeft inside⟩
  have least : (1 : Word).toNat ≤ bound.toNat := by
    rw [UInt64.toNat_one, size]
    exact Nat.two_pow_pos bits
  obtain ⟨divided, multiplied, added, value⟩ := lastCandidate_eq_ok least positive
  rw [size] at value
  refine ⟨bound, (bound - 1) / order * order + 1, size, value, ?_⟩
  rw [first, if_neg admitted]
  simp only [shifted, Checked.sub_eq_ok least, divided, multiplied, added, lift_checked_ok, ok_bind]
  rfl

theorem first_finds {bits : ℕ} (two : 2 ≤ bits) (sixty : bits ≤ 60) (positive : 0 < order) :
    Finds (first bits order) (accepted (2 ^ bits) 1 order.toNat) := by
  obtain ⟨bound, candidate, size, last, ran⟩ := first_eq two sixty positive
  have steps : 0 < order.toNat := UInt64.lt_iff_toNat_lt.mp positive
  rw [ran]
  by_cases below : candidate < bound
  · rw [if_pos below]
    rw [UInt64.lt_iff_toNat_lt, size, last] at below
    rw [accepted_lastCandidate steps below, ← last]
    exact start_finds positive candidate
  · rw [if_neg below]
    -- The bound itself lies in the progression.
    have whole : candidate.toNat = 2 ^ bits := by
      have most := Nat.div_mul_le_self (2 ^ bits - 1) order.toNat
      have := Nat.two_pow_pos bits
      rw [UInt64.lt_iff_toNat_lt, size] at below
      omega
    have congruent := lastCandidate_modEq (2 ^ bits) order.toNat
    rw [← last] at congruent
    rw [accepted_congr congruent.symm, ← whole]
    by_cases inside : order ≤ candidate
    · rw [if_pos inside, accepted_below steps (UInt64.le_iff_toNat_le.mp inside),
        ← UInt64.toNat_sub_of_le _ _ inside]
      exact start_finds positive (candidate - order)
    · rw [if_neg inside]
      exact .inr ⟨_, rfl, accepted_exhausted (UInt64.lt_iff_toNat_lt.mp (UInt64.not_le.mp inside))⟩

end Searches
end BankedRing.Prime
