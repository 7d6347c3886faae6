/-! Cutting a list into consecutive pieces of one size. -/
namespace BankedRing

/-- Pieces of `size` elements; the last piece may be shorter. -/
def chunks {α : Type} (size : Nat) (values : List α) : List (List α) :=
  if values = [] ∨ size = 0 then [] else values.take size :: chunks size (values.drop size)
termination_by values.length
decreasing_by
  rename_i more
  have := List.length_pos_iff.mpr (not_or.mp more).1
  rw [List.length_drop]
  omega

theorem flatten_chunks {α : Type} {size : Nat} (h : 0 < size) (values : List α) :
    (chunks size values).flatten = values := by
  fun_induction chunks size values with
  | case1 values done => simp [done.resolve_right (by omega)]
  | case2 values more ih => simp [ih]

end BankedRing
