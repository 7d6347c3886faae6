import BankedRing.Proofs.Device.Stream

/-! Streaming is a map over the whole region. A kernel that computes each word from the words
at the same position gives one and the same bank for every number of tasklets and every cache
size: chunks share no words, and the sources have been read before any result is written, so
it does not matter how regions overlap. -/
namespace BankedRing

/-- Two operands combined position by position; the second one may be missing. -/
def pointwise (f : Word → Option Word → Word) (a b : List Word) : List Word :=
  a.mapIdx fun i x => f x b[i]?

section Pointwise
variable {f : Word → Option Word → Word}

@[simp] theorem length_pointwise (a b : List Word) : (pointwise f a b).length = a.length := by
  rw [pointwise, List.length_mapIdx]

theorem getElem?_pointwise (a b : List Word) (i : Nat) :
    (pointwise f a b)[i]? = a[i]?.map fun x => f x b[i]? := by
  rw [pointwise, List.getElem?_mapIdx]

theorem slice_pointwise (start count : Nat) (a b : List Word) :
    slice start count (pointwise f a b) =
      pointwise f (slice start count a) (slice start count b) := by
  apply List.ext_getElem?
  intro i
  rcases Nat.lt_or_ge i count with inside | outside
  · rw [getElem?_slice inside, getElem?_pointwise, getElem?_pointwise, getElem?_slice inside,
      getElem?_slice inside]
  · rw [List.getElem?_eq_none (by rw [length_slice]; omega),
      List.getElem?_eq_none (by rw [length_pointwise, length_slice]; omega)]

end Pointwise

/-- A kernel that computes every word from the operands' words at its position. -/
def Kernel.Acts (kernel : Kernel) (f : Word → Option Word → Word) : Prop :=
  ∀ a b : List Word, b = [] ∨ b.length = a.length → kernel a b = .ok (pointwise f a b)

theorem Bank.readWords_put_of_apart (bank : Bank) {index offset length : Nat} {words : List Word}
    (apart : offset / 8 + length / 8 ≤ index ∨ index + words.length ≤ offset / 8) :
    (bank.put index words).readWords offset length = bank.readWords offset length := by
  have same := (Bank.replaced_put bank index words).wordsAt_of_disjoint apart
  have checked : (bank.put index words).check offset length = bank.check offset length := by
    rw [Bank.check, Bank.check, Bank.capacity_put]
  simp only [Bank.readWords, checked, same]

namespace Stream
variable {f : Word → Option Word → Word} {kernel : Kernel} {region : Region} {bank : Bank}

theorem getElem?_secondWords (region : Region) (bank : Bank) {i : Nat}
    (inside : i < region.length / 8) :
    (secondWords region bank)[i]? = region.b.map fun b => bank.wordAt (b / 8 + i) := by
  unfold secondWords
  cases region.b with
  | none => rfl
  | some b =>
    simp only [Bank.wordsAt, List.getElem?_map, List.getElem?_range inside]
    rfl

/-- However a region is cut, its chunks make up the map over the whole of it. -/
theorem computes_of_acts (acts : kernel.Acts f) {shape : Shape} (positive : 0 < shape.cacheWords) :
    (launchOf shape region kernel (bank.wordsAt region.a region.length)
      (secondWords region bank)).Computes
      (pointwise f (bank.wordsAt region.a region.length) (secondWords region bank)) := by
  refine Launch.computes_of_slices positive rfl (fun paired => ?_) (length_pointwise _ _)
    fun start => ?_
  · obtain ⟨b, present⟩ := Option.isSome_iff_exists.mp paired
    simp [secondWords, present]
  · rw [slice_pointwise]
    cases present : region.b with
    | none =>
      have missing : secondWords region bank = [] := by simp only [secondWords, present]
      simp only [missing, slice, List.drop_nil, List.take_nil, ite_self]
      exact acts _ [] (.inl rfl)
    | some b =>
      rw [if_pos (show (some b).isSome = true from rfl)]
      refine acts _ _ (.inr ?_)
      simp only [secondWords, present, length_slice, Bank.length_wordsAt]

/-- A launch of a kernel that acts position by position succeeds, whatever overlaps in its
region. In the target every word is then computed from the words that stood at its position
before, everything outside the target reads as before, and the bank is the same for all
numbers of tasklets and all cache sizes. The host needs room for one record of each tasklet
and for the bank up to the end of the target. -/
theorem run_pointwise (acts : kernel.Acts f) (grants : Grants region bank)
    (reachable : Reachable region) :
    ∃ after : Bank,
      (∀ (shape : Shape) (scratch : Scratch), shape.cacheBytes ≠ 0 → shape.cacheBytes % 8 = 0 →
        shape.Recorded →
        max shape.tasklets 1 * ((if region.b.isSome then 3 else 2) * shape.cacheBytes) ≤
          scratch.capacity →
        scratch.capacity < UInt64.size →
        run scratch shape region (.ok kernel) bank = .ok () after) ∧
      (∀ i, i < region.length / 8 → after.wordAt (target region / 8 + i) =
        f (bank.wordAt (region.a / 8 + i)) (region.b.map fun b => bank.wordAt (b / 8 + i))) ∧
      after.capacity = bank.capacity ∧
      ∀ offset length, offset + length ≤ target region ∨ target region + region.length ≤ offset →
        after.readWords offset length = bank.readWords offset length := by
  let whole := pointwise f (bank.wordsAt region.a region.length) (secondWords region bank)
  have length : whole.length = region.length / 8 := by rw [length_pointwise, Bank.length_wordsAt]
  refine ⟨bank.put (target region / 8) whole, ?_, ?_, Bank.capacity_put _ _ _, ?_⟩
  · intro shape scratch nonzero aligned recorded room word
    have positive : 0 < shape.cacheWords := by
      rw [Shape.cacheWords]
      omega
    exact run_computes ⟨nonzero, aligned⟩ recorded reachable grants rfl
      (computes_of_acts acts positive) length
      room word
  · intro i inside
    have old : (bank.wordsAt region.a region.length)[i]? =
        some (bank.wordAt (region.a / 8 + i)) := by
      simp only [Bank.wordsAt, List.getElem?_map, List.getElem?_range inside]
      rfl
    rw [(Bank.replaced_put bank _ whole).inside i (by omega), List.getD_eq_getElem?_getD,
      getElem?_pointwise, old,
      getElem?_secondWords region bank inside]
    rfl
  · intro offset count apart
    have aligned := grants.target
    refine Bank.readWords_put_of_apart bank ?_
    rw [length]
    unfold Bank.Grants at aligned
    omega

/-- Sums of neighbours, written over one of the operands by three tasklets. -/
theorem run_pointwise_overlapping :
    ∃ after : Bank,
      run (Scratch.empty 72) ⟨3, 8⟩ ⟨0, some 8, 24,
        some 8⟩ (.ok fun a b => .ok (pointwise (fun x y => x + y.getD 0) a b))
        ⟨40, #[1, 2, 3, 4, 5]⟩ = .ok () after ∧
      after.wordAt 1 = 3 ∧ after.wordAt 2 = 5 ∧ after.wordAt 3 = 7 ∧
      after.readWords 0 8 = Bank.readWords ⟨40, #[1, 2, 3, 4, 5]⟩ 0 8 := by
  have grants : Grants ⟨0, some 8, 24, some 8⟩ ⟨40, #[1, 2, 3, 4, 5]⟩ := by
    refine ⟨⟨rfl, rfl, by decide⟩, fun b same => ?_, ⟨rfl, rfl, by decide⟩⟩
    cases same
    exact ⟨rfl, rfl, by decide⟩
  have reachable : Reachable ⟨0, some 8, 24, some 8⟩ := by
    unfold Reachable
    decide
  obtain ⟨after, ran, words, _, outside⟩ :=
    run_pointwise (f := fun x y => x + y.getD 0) (fun _ _ _ => rfl) grants reachable
  exact ⟨after, ran ⟨3, 8⟩ (Scratch.empty 72) (by decide) rfl (by decide) (by decide) (by decide),
    words 0 (by decide), words 1 (by decide), words 2 (by decide), outside 0 8 (.inl (by decide))⟩

/-- With more tasklets than the host can record a launch traps that has room for all of its
caches, and so does one whose target ends where the host's buffers cannot reach. -/
theorem run_unrecorded_unreachable :
    (Grants ⟨0, none, 8, none⟩ (Bank.empty 8) ∧
      400000000000000000 * (2 * 8) ≤ 18446744073709551615 ∧
      ∃ stopped, run (Scratch.empty 18446744073709551615) ⟨400000000000000000, 8⟩ ⟨0, none, 8, none⟩
        (.ok fun a b => .ok (pointwise (fun x _ => x) a b)) (Bank.empty 8) =
          .error (.trapped .oversized) stopped) ∧
    (Grants ⟨9223372036854775800, none, 8, none⟩ (Bank.empty 9223372036854775808) ∧
      ∃ stopped, run (Scratch.empty 16) ⟨1, 8⟩ ⟨9223372036854775800, none, 8, none⟩
        (.ok fun a b => .ok (pointwise (fun x _ => x) a b)) (Bank.empty 9223372036854775808) =
          .error (.trapped .oversized) stopped) := by
  have near : Grants ⟨0, none, 8, none⟩ (Bank.empty 8) :=
    ⟨⟨rfl, rfl, by decide⟩, nofun, ⟨rfl, rfl, by decide⟩⟩
  have far : Grants ⟨9223372036854775800, none, 8, none⟩ (Bank.empty 9223372036854775808) :=
    ⟨⟨rfl, rfl, by decide⟩, nofun, ⟨rfl, rfl, by decide⟩⟩
  have small : (Bank.empty 8).capacity < Bank.addressable := by decide
  exact ⟨⟨near, by decide, _, run_unrecorded _ _ (by decide) (by decide) small near⟩, far, _, rfl⟩

end Stream
end BankedRing
