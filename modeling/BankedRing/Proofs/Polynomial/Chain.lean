import BankedRing.Proofs.Polynomial.Negacyclic
import BankedRing.Proofs.Prime.Search
import Mathlib.Data.Set.Card

/-! Generated chains of primes. A chain holds the largest accepted numbers of its progression in
falling order. Nothing bounds them from below, so they have the size that was asked for exactly
as far as the progression has numbers of that size. -/
namespace BankedRing

/-- The `count` greatest elements of a set, in falling order. -/
structure IsTop (s : Set Word) (count : ℕ) (chain : List Word) : Prop where
  length : chain.length = count
  falling : chain.Pairwise (· > ·)
  mem : ∀ p ∈ chain, p ∈ s
  beyond : ∀ p ∈ s, p ∉ chain → ∀ q ∈ chain, p < q

theorem IsTop.cons {s : Set Word} {p : Word} {count : ℕ} {chain : List Word}
    (greatest : IsGreatest s p) (top : IsTop {q ∈ s | q < p} count chain) : IsTop s (count + 1)
    (p :: chain) where
  length := by rw [List.length_cons, top.length]
  falling := List.pairwise_cons.mpr ⟨fun q member => (top.mem q member).2, top.falling⟩
  mem := List.forall_mem_cons.mpr ⟨greatest.1, fun q member => (top.mem q member).1⟩
  beyond := by
    intro x member missing
    obtain ⟨other, missing⟩ := not_or.mp (mt List.mem_cons.mpr missing)
    have less : x < p := UInt64.lt_of_le_of_ne (greatest.2 member) other
    exact List.forall_mem_cons.mpr ⟨less, top.beyond x ⟨member, less⟩ missing⟩

instance : Finite Word := Finite.of_injective UInt64.toFin fun _ _ => UInt64.toFin_inj.mp

section Counting
variable {s : Set Word} {chain : List Word}

theorem length_le_ncard (distinct : chain.Nodup) (inside : ∀ p ∈ chain, p ∈ s) :
    chain.length ≤ s.ncard := by
  rw [← List.toFinset_card_of_nodup distinct, ← Set.ncard_coe_finset]
  exact Set.ncard_le_ncard (fun p member => inside p (List.mem_toFinset.mp member)) s.toFinite

theorem ncard_le_length (covered : ∀ p ∈ s, p ∈ chain) : s.ncard ≤ chain.length :=
  calc s.ncard ≤ (chain.toFinset : Set Word).ncard :=
        Set.ncard_le_ncard (fun p member => List.mem_toFinset.mpr (covered p member))
          (Set.toFinite _)
    _ = chain.toFinset.card := Set.ncard_coe_finset _
    _ ≤ chain.length := chain.toFinset_card_le

theorem IsTop.nodup {count : ℕ} (top : IsTop s count chain) : chain.Nodup :=
  top.falling.imp fun less same => by
    rw [same] at less
    exact UInt64.lt_irrefl _ less

/-- A member of the chain reaches a floor exactly if the set has more elements that do than the
chain has members before it. -/
theorem IsTop.floor_le_iff {count i floor : ℕ} {q : Word} (top : IsTop s count chain)
    (found : chain[i]? = some q) :
    floor ≤ q.toNat ↔ i < {p ∈ s | floor ≤ p.toNat}.ncard := by
  obtain ⟨front, back, rfl, rfl⟩ : ∃ front back, chain = front ++ q :: back ∧ front.length = i := by
    obtain ⟨inside, here⟩ := List.getElem?_eq_some_iff.mp found
    refine ⟨chain.take i, chain.drop (i + 1), ?_, List.length_take_of_le (Nat.le_of_lt inside)⟩
    rw [← here, ← List.drop_eq_getElem_cons inside, List.take_append_drop]
  obtain ⟨_, fallingBack, above⟩ := List.pairwise_append.mp top.falling
  have larger : ∀ p ∈ front, q < p := fun p member => above p member q (by simp)
  constructor
  · intro reaches
    have distinct : (q :: front).Nodup :=
      (List.nodup_middle.mp top.nodup).sublist ((List.sublist_append_left front back).cons_cons q)
    refine length_le_ncard distinct (List.forall_mem_cons.mpr ⟨⟨top.mem q (by simp), reaches⟩,
      fun p member => ?_⟩)
    have less := UInt64.lt_iff_toNat_lt.mp (larger p member)
    exact ⟨top.mem p (by simp [member]), Nat.le_of_lt (Nat.lt_of_le_of_lt reaches less)⟩
  · intro many
    by_contra short
    refine absurd many (Nat.not_lt.mpr (ncard_le_length fun p member => ?_))
    obtain ⟨known, reaches⟩ := member
    have less : q < p := UInt64.lt_iff_toNat_lt.mpr (by omega)
    have listed : p ∈ front ++ q :: back := by
      by_contra missing
      exact UInt64.lt_asymm less (top.beyond p known missing q (by simp))
    rcases List.mem_append.mp listed with before | rest
    · exact before
    · rcases List.mem_cons.mp rest with rfl | after
      · exact absurd less (UInt64.lt_irrefl p)
      · exact absurd less (UInt64.lt_asymm ((List.pairwise_cons.mp fallingBack).1 p after))

/-- All members reach a floor exactly if at least as many elements of the set do. -/
theorem IsTop.all_floor_iff {count floor : ℕ} (top : IsTop s count chain) :
    (∀ q ∈ chain, floor ≤ q.toNat) ↔ count ≤ {p ∈ s | floor ≤ p.toNat}.ncard := by
  constructor
  · intro all
    rw [← top.length]
    exact length_le_ncard top.nodup fun p member => ⟨top.mem p member, all p member⟩
  · intro many q member
    obtain ⟨i, inside, rfl⟩ := List.mem_iff_getElem.mp member
    refine (top.floor_le_iff (List.getElem?_eq_getElem inside)).mpr (Nat.lt_of_lt_of_le inside ?_)
    rwa [top.length]

end Counting

namespace RingParameters
variable {n t bits : ℕ} {order q : Word} {moduli chain : List Word} {parameters : RingParameters}

theorem accepted_tail {bound anchor m : ℕ} {p : Word} (member : p ∈ Prime.accepted bound anchor m) :
    Prime.accepted p.toNat p.toNat m = {x ∈ Prime.accepted bound anchor m | x < p} := by
  obtain ⟨inside, congruent, _⟩ := member
  ext x
  constructor
  · rintro ⟨below, same, prime⟩
    exact ⟨⟨Nat.lt_trans below inside, same.trans congruent, prime⟩,
      UInt64.lt_iff_toNat_lt.mpr below⟩
  · rintro ⟨⟨_, same, prime⟩, below⟩
    exact ⟨UInt64.lt_iff_toNat_lt.mp below, same.trans congruent.symm, prime⟩

theorem descending_top (positive : 0 < order) {count : ℕ}
    (h : descending order count q = .ok chain) :
    IsTop (Prime.accepted q.toNat q.toNat order.toNat) count chain := by
  induction count generalizing q chain with
  | zero =>
    cases h
    exact ⟨rfl, .nil, nofun, fun _ _ _ => nofun⟩
  | succ count ih =>
    obtain ⟨next, found, h⟩ := bind_eq_ok.mp h
    obtain ⟨rest, more, h⟩ := bind_eq_ok.mp h
    cases h
    have greatest := (Prime.previous_finds positive q).ok_iff.mp found
    have top := ih more
    rw [accepted_tail greatest.1] at top
    exact top.cons greatest

/-- Accepted parameters have a power of two below the width of a word as their dimension. -/
theorem dimension_of_ofModuli (built : ofModuli n moduli = .ok parameters) :
    ∃ k < 60, n = 2 ^ k := by
  obtain ⟨nonempty, built⟩ := guard_eq_ok.mp built
  obtain ⟨_, _, built⟩ := bind_eq_ok.mp built
  obtain ⟨_, made, _⟩ := bind_eq_ok.mp built
  cases moduli with
  | nil => exact absurd rfl nonempty
  | cons q rest =>
    obtain ⟨_, _, _, _, _, tables, _⟩ := buildTables_cons_eq_ok.mp made
    obtain ⟨_, _, rooted⟩ := bind_eq_ok.mp tables
    obtain ⟨_, k, short, dimension, _⟩ := RootTables.ofRoot_eq_ok rooted
    exact ⟨k, short, dimension⟩

theorem rootOrder_eq_ok (half : n < 2 ^ 63) : ∃ order, rootOrder n = .ok order ∧
    order.toNat = 2 * n := by
  have word : (UInt64.ofNat n).toNat = n :=
    UInt64.toNat_ofNat_of_lt' (Nat.lt_trans half (by decide))
  have two : (2 : Word).toNat = 2 := rfl
  refine ⟨2 * UInt64.ofNat n, Checked.mul_eq_ok ?_, ?_⟩
  · rw [word, two, UInt64.size]
    omega
  · rw [UInt64.toNat_mul, word, two, Nat.mod_eq_of_lt (by omega)]

/-- A generated chain is the top of its progression. -/
theorem generate_top (generated : generate n t bits = .ok parameters) :
    IsTop (Prime.accepted (2 ^ bits) 1 (2 * n)) t parameters.moduli := by
  obtain ⟨order, doubled, generated⟩ := bind_eq_ok.mp generated
  obtain ⟨_, _, generated⟩ := bind_eq_ok.mp generated
  obtain ⟨largest, found, generated⟩ := bind_eq_ok.mp generated
  obtain ⟨two, sixty, positive⟩ := Prime.bounds_of_first found
  cases t with
  | zero => cases generated
  | succ more =>
    obtain ⟨rest, walked, built⟩ := bind_eq_ok.mp generated
    rw [pure_bind] at built
    obtain ⟨k, short, dimension⟩ := dimension_of_ofModuli built
    have half : n < 2 ^ 63 := dimension ▸ Nat.pow_lt_pow_right (by decide) (by omega)
    obtain ⟨_, computed, value⟩ := rootOrder_eq_ok half
    cases computed.symm.trans (lift_eq_ok doubled)
    have greatest := (Prime.first_finds two sixty positive).ok_iff.mp found
    have top := descending_top positive walked
    rw [accepted_tail greatest.1] at top
    rw [(fields_of_ofModuli built).2, ← value]
    exact top.cons greatest

theorem generated_five : ∃ parameters, generate 2 3 5 = .ok parameters ∧
    parameters.moduli = [29, 17, 13] :=
  exists_ok_of_map_toOption (by decide +kernel)

/-- The first search answers for admitted sizes and orders where its progression has an accepted
number, the further one where there is one below its start, and both with the largest; else they
are refused. So a generated chain holds the largest accepted numbers of the progression. -/
theorem searches_largest :
    (∀ (bits : ℕ) (order : Word),
      ((∃ p, Prime.first bits order = .ok p) ↔
        2 ≤ bits ∧ bits ≤ 60 ∧ 0 < order ∧ (Prime.accepted (2 ^ bits) 1 order.toNat).Nonempty) ∧
      (∀ p, Prime.first bits order = .ok p →
        IsGreatest (Prime.accepted (2 ^ bits) 1 order.toNat) p) ∧
      ∀ e, Prime.first bits order = .error e → ∃ defect, e = .invalidParameters defect) ∧
    (∀ q order : Word, 0 < order →
      (∀ p, Prime.previous q order = .ok p ↔
        IsGreatest (Prime.accepted q.toNat q.toNat order.toNat) p) ∧
      ((∃ defect, Prime.previous q order = .error (.invalidParameters defect)) ↔
        Prime.accepted q.toNat q.toNat order.toNat = ∅)) ∧
    ∀ (n t bits : ℕ) (parameters : RingParameters), generate n t bits = .ok parameters →
      IsTop (Prime.accepted (2 ^ bits) 1 (2 * n)) t parameters.moduli := by
  refine ⟨fun bits order => ?_, fun q order positive => ?_, fun n t bits parameters => generate_top⟩
  · by_cases inside : 2 ≤ bits ∧ bits ≤ 60 ∧ 0 < order
    · obtain ⟨two, sixty, positive⟩ := inside
      have finds := Prime.first_finds two sixty positive
      refine ⟨?_, fun p => finds.ok_iff.mp, fun e => finds.refusal⟩
      rw [finds.answers_iff]
      exact ⟨fun nonempty => ⟨two, sixty, positive, nonempty⟩, fun all => all.2.2.2⟩
    · have refused := Prime.first_refused inside
      refine ⟨⟨?_, fun all => absurd ⟨all.1, all.2.1, all.2.2.1⟩ inside⟩, fun p found => ?_,
        fun e failed => ?_⟩
      · rintro ⟨p, found⟩
        cases refused.symm.trans found
      · cases refused.symm.trans found
      · cases refused.symm.trans failed
        exact ⟨_, rfl⟩
  · have finds := Prime.previous_finds positive q
    exact ⟨fun p => finds.ok_iff, finds.refused_iff⟩

/-- Below 64 the walk starts at 49 and meets one prime, 17; three towers take 13 as well, which
is the first below 16. -/
theorem searches_largest_sixteen :
    (0 : Word) < 16 ∧ Prime.first 6 16 = .ok 17 ∧ IsGreatest (Prime.accepted (2 ^ 6) 1 16) 17 ∧
      Prime.accepted 17 17 16 = ∅ ∧
      ∃ parameters, generate 2 3 5 = .ok parameters ∧ parameters.moduli = [29, 17, 13] ∧
        IsTop (Prime.accepted (2 ^ 5) 1 (2 * 2)) 3 [29, 17, 13] := by
  obtain ⟨found, below, generated⟩ := searches_largest
  have largest : Prime.first 6 16 = .ok 17 := by decide +kernel
  have refused : Prime.previous 17 16 =
      .error (.invalidParameters (.progressionExhausted 16 17)) := by
    decide +kernel
  obtain ⟨parameters, made, moduli⟩ := generated_five
  refine ⟨by decide, largest, (found 6 16).2.1 17 largest,
    (below 17 16 (by decide)).2.mp ⟨_, refused⟩, ?_⟩
  exact ⟨parameters, made, moduli, moduli ▸ generated 2 3 5 parameters made⟩

/-- The accepted words of exactly `bits` bits that are 1 modulo `order`. -/
def sized (bits order : ℕ) : Set Word :=
  {p ∈ Prime.accepted (2 ^ bits) 1 order | 2 ^ (bits - 1) ≤ p.toNat}

/-- No member of a generated chain is too large. The member at a place has the size that was
asked for exactly if the progression has more primes of that size than there are members before
it, so that all have it exactly if there are as many such primes as towers. -/
theorem generated_sizes (generated : generate n t bits = .ok parameters) :
    (∀ q ∈ parameters.moduli, q.toNat < 2 ^ bits) ∧
      (∀ i q, parameters.moduli[i]? = some q →
        (2 ^ (bits - 1) ≤ q.toNat ↔ i < (sized bits (2 * n)).ncard)) ∧
      ((∀ q ∈ parameters.moduli, 2 ^ (bits - 1) ≤ q.toNat) ↔ t ≤ (sized bits (2 * n)).ncard) := by
  have top := generate_top generated
  exact ⟨fun q member => (top.mem q member).1, fun i q => top.floor_le_iff, top.all_floor_iff⟩

/-- There are two primes of five bits that are 1 modulo 4; a third tower gets one of four bits. -/
theorem generated_sizes_five :
    ∃ parameters, generate 2 3 5 = .ok parameters ∧ parameters.moduli = [29, 17, 13] ∧
      (sized 5 (2 * 2)).ncard = 2 := by
  obtain ⟨parameters, made, moduli⟩ := generated_five
  obtain ⟨-, place, -⟩ := generated_sizes made
  rw [moduli] at place
  have second : 1 < (sized 5 (2 * 2)).ncard := (place 1 17 rfl).mp (by decide)
  have third : ¬ 2 < (sized 5 (2 * 2)).ncard := mt (place 2 13 rfl).mpr (by decide)
  exact ⟨parameters, made, moduli, by omega⟩

/-- No prime of six bits is 1 modulo 16, and one of five bits is taken in its place. -/
theorem generated_undersized :
    ∃ parameters, generate 8 1 6 = .ok parameters ∧ parameters.moduli = [17] ∧
      ¬ ∀ q ∈ parameters.moduli, 2 ^ (6 - 1) ≤ q.toNat ∧ q.toNat < 2 ^ 6 := by
  obtain ⟨parameters, made, moduli⟩ : ∃ parameters, generate 8 1 6 = .ok parameters ∧
      parameters.moduli = [17] :=
    exists_ok_of_map_toOption (by decide +kernel)
  have short : (17 : Word).toNat < 2 ^ (6 - 1) := by decide
  refine ⟨parameters, made, moduli, fun all => ?_⟩
  rw [moduli] at all
  exact absurd (all 17 (List.mem_singleton_self 17)).1 (Nat.not_le.mpr short)

end RingParameters
end BankedRing
