/-! Splitting text at a separator, be it of characters or of bytes. -/
namespace BankedRing.Fields
variable {α : Type} [DecidableEq α]

/-- The pieces between separators; a text without separator is one piece. -/
def split (separator : α) : List α → List (List α)
  | [] => [[]]
  | c :: rest =>
    if c = separator then [] :: split separator rest
    else match split separator rest with
      | [] => [[c]]
      | piece :: pieces => (c :: piece) :: pieces

/-- What stands before and after the first separator. -/
def cut (separator : α) : List α → Option (List α × List α)
  | [] => none
  | c :: rest =>
    if c = separator then some ([], rest)
    else (cut separator rest).map fun (before, after) => (c :: before, after)

/-- What stands before and after the last separator. -/
def cutLast (separator : α) (text : List α) : Option (List α × List α) :=
  (cut separator text.reverse).map fun (after, before) => (before.reverse, after.reverse)

theorem split_ne_nil (separator : α) (text : List α) : split separator text ≠ [] := by
  cases text with
  | nil => simp [split]
  | cons c rest =>
    unfold split
    split
    · simp
    · split <;> simp

end BankedRing.Fields
