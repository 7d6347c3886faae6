import BankedRing.Chunks

/-! Consecutive parts of a list: one part on its own, and all parts of one size. -/
namespace BankedRing
variable {α β : Type}

/-- Consecutive elements of a list. -/
abbrev slice (start count : Nat) (values : List α) : List α := (values.drop start).take count

theorem length_slice (start count : Nat) (values : List α) :
    (slice start count values).length = min count (values.length - start) := by
  rw [slice, List.length_take, List.length_drop]

theorem length_slice_even {size count k : Nat} {values : List α}
    (even : values.length = size * count) (inside : k < count) :
    (slice (k * size) size values).length = size := by
  have room := Nat.mul_le_mul_right size (Nat.succ_le_of_lt inside)
  rw [Nat.succ_mul, Nat.mul_comm count] at room
  rw [length_slice, even]
  omega

theorem getElem?_slice {start count index : Nat} (h : index < count) (values : List α) :
    (slice start count values)[index]? = values[start + index]? := by
  rw [slice, List.getElem?_take_of_lt h, List.getElem?_drop]

theorem getD_slice {start count index : Nat} (h : index < count) (values : List α) (d : α) :
    (slice start count values).getD index d = values.getD (start + index) d := by
  rw [List.getD_eq_getElem?_getD, getElem?_slice h, List.getD_eq_getElem?_getD]

theorem mapIdx_eq_map (f : α → β) (values : List α) :
    values.mapIdx (fun _ a => f a) = values.map f :=
  List.mapIdx_eq_iff.mpr fun _ => List.getElem?_map

theorem getElem?_map_range {count k : Nat} (inside : k < count) (f : Nat → α) :
    ((List.range count).map f)[k]? = some (f k) := by
  rw [List.getElem?_map, List.getElem?_range inside, Option.map_some]

theorem getElem?_chunks {size : Nat} (positive : 0 < size) (values : List α) (k : Nat) :
    (chunks size values)[k]? =
      if k * size < values.length then some (slice (k * size) size values) else none := by
  fun_induction chunks size values generalizing k with
  | case1 values done =>
    have empty := done.resolve_right (by omega)
    simp [empty]
  | case2 values more ih =>
    have nonempty := List.length_pos_iff.mpr (not_or.mp more).1
    cases k with
    | zero => simp [slice, nonempty]
    | succ k =>
      rw [List.getElem?_cons_succ, ih, List.length_drop]
      have position : size + k * size = (k + 1) * size := by
        rw [Nat.add_mul, Nat.one_mul, Nat.add_comm]
      simp only [slice, List.drop_drop, position]
      by_cases inside : (k + 1) * size < values.length
      · rw [if_pos (by omega), if_pos inside]
      · rw [if_neg (by omega), if_neg inside]

theorem chunks_eq_map {size count : Nat} (positive : 0 < size) {values : List α}
    (even : values.length = size * count) :
    chunks size values = (List.range count).map fun k => slice (k * size) size values := by
  apply List.ext_getElem?
  intro k
  rw [getElem?_chunks positive, List.getElem?_map, even]
  have inside : k * size < size * count ↔ k < count := by
    rw [Nat.mul_comm size count]
    exact Nat.mul_lt_mul_right positive
  by_cases h : k < count
  · rw [if_pos (inside.mpr h), List.getElem?_range h]
    rfl
  · rw [if_neg (fun start => h (inside.mp start)), List.getElem?_eq_none (by simpa using h)]
    rfl

theorem length_flatMap {f : α → List β} {size : Nat} {values : List α}
    (uniform : ∀ a ∈ values, (f a).length = size) : (values.flatMap f).length =
      values.length * size := by
  induction values with
  | nil => simp
  | cons a rest ih =>
    rw [List.flatMap_cons, List.length_append, uniform a (by simp),
      ih fun b member => uniform b (by simp [member]), List.length_cons, Nat.succ_mul, Nat.add_comm]

/-- In pieces of one length an element is found by quotient and remainder. -/
theorem getElem?_flatMap {f : α → List β} {size : Nat} (positive : 0 < size) {values : List α}
    (uniform : ∀ a ∈ values, (f a).length = size) (k : Nat) :
    (values.flatMap f)[k]? = (values[k / size]?).bind fun a => (f a)[k % size]? := by
  induction values generalizing k with
  | nil => simp
  | cons a rest ih =>
    have first := uniform a (by simp)
    rw [List.flatMap_cons]
    by_cases inside : k < size
    · rw [List.getElem?_append_left (by omega), Nat.div_eq_of_lt inside, Nat.mod_eq_of_lt inside]
      rfl
    · have behind : k / size = (k - size) / size + 1 := Nat.div_eq_sub_div positive (by omega)
      have remainder : k % size = (k - size) % size := Nat.mod_eq_sub_mod (by omega)
      rw [List.getElem?_append_right (by omega), first,
        ih fun b member => uniform b (by simp [member]),
        behind, remainder, List.getElem?_cons_succ]

theorem slice_flatMap {f : α → List β} {size : Nat} {values : List α}
    (uniform : ∀ a ∈ values, (f a).length = size) {i : Nat} {a : α} (found : values[i]? = some a) :
    slice (i * size) size (values.flatMap f) = f a := by
  rcases Nat.eq_zero_or_pos size with rfl | positive
  · rw [slice, List.take_zero,
      List.eq_nil_of_length_eq_zero (uniform a (List.mem_of_getElem? found))]
  apply List.ext_getElem?
  intro k
  rcases Nat.lt_or_ge k size with inside | outside
  · rw [getElem?_slice inside, getElem?_flatMap positive uniform, Nat.mul_comm,
      Nat.mul_add_div positive,
      Nat.div_eq_of_lt inside, Nat.add_zero, found, Nat.mul_add_mod, Nat.mod_eq_of_lt inside]
    rfl
  · rw [List.getElem?_eq_none (by rw [length_slice]; omega),
      List.getElem?_eq_none (by rw [uniform a (List.mem_of_getElem? found)]; exact outside)]

/-- A list that is cut into pieces of one size is made of them. -/
theorem flatMap_slices {size count : Nat} {values : List α} (even : values.length = size * count) :
    ((List.range count).flatMap fun k => slice (k * size) size values) = values := by
  rcases Nat.eq_zero_or_pos size with rfl | positive
  · rw [Nat.zero_mul] at even
    rw [List.eq_nil_of_length_eq_zero even]
    exact List.flatMap_eq_nil_iff.mpr fun k _ => List.take_zero
  · rw [List.flatMap_def, ← chunks_eq_map positive even, flatten_chunks positive]

end BankedRing
