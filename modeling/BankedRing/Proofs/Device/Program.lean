import BankedRing.Device.Program
import BankedRing.Proofs.Outcome
import BankedRing.Proofs.Text.Utf8

/-! Every program is found again at its own path, in whatever directory. -/
namespace BankedRing

namespace Fields
variable {α : Type} [DecidableEq α] {separator : α}

theorem split_of_not_mem {text : List α} (h : separator ∉ text) :
    split separator text = [text] := by
  induction text with
  | nil => rfl
  | cons c rest ih =>
    have different : c ≠ separator := fun same => h (by simp [same])
    have absent : separator ∉ rest := fun member => h (by simp [member])
    simp only [split, if_neg different, ih absent]

theorem split_append_cons (before after : List α) :
    split separator (before ++ separator :: after) =
      split separator before ++ split separator after := by
  induction before with
  | nil => simp [split]
  | cons c rest ih =>
    by_cases same : c = separator
    · simp [split, same, ih]
    · simp only [List.cons_append, split, if_neg same, ih]
      cases pieces : split separator rest with
      | nil => exact absurd pieces (split_ne_nil separator rest)
      | cons piece pieces => rfl

theorem cut_of_not_mem {text : List α} (h : separator ∉ text) : cut separator text = none := by
  induction text with
  | nil => rfl
  | cons c rest ih =>
    have different : c ≠ separator := fun same => h (by simp [same])
    have absent : separator ∉ rest := fun member => h (by simp [member])
    simp only [cut, if_neg different, ih absent]
    rfl

end Fields

namespace Path

theorem display_ofString (text : String) : (ofString text).display = text :=
  Utf8.lossy_encode text

/-- A plain name: one component without an extension. -/
structure Plain (name : String) : Prop where
  nonempty : Utf8.encode name ≠ []
  component : slash ∉ Utf8.encode name
  extension : dot ∉ Utf8.encode name

theorem split_join {name : String} (plain : Plain name) (directory : Path) :
    ∃ before, Fields.split slash (join directory name).bytes = before ++ [Utf8.encode name] := by
  have single := Fields.split_of_not_mem plain.component
  rw [join]
  split
  · rename_i empty
    exact ⟨[], by rw [List.getLast?_eq_none_iff.mp empty]; exact single⟩
  · rename_i last shape
    obtain ⟨front, shape⟩ := List.getLast?_eq_some_iff.mp shape
    split
    · rename_i slash
      subst slash
      refine ⟨Fields.split Path.slash front, ?_⟩
      rw [List.append_nil, shape, List.append_assoc, List.singleton_append,
        Fields.split_append_cons, single]
    · refine ⟨Fields.split slash directory.bytes, ?_⟩
      rw [List.append_assoc, List.singleton_append, Fields.split_append_cons, single]

theorem stem?_join {name : String} (plain : Plain name) (directory : Path) :
    stem? (join directory name) = some (Utf8.encode name) := by
  obtain ⟨before, pieces⟩ := split_join plain directory
  have one : Utf8.encode name ≠ [dot] := fun same => plain.extension (by simp [same])
  have two : Utf8.encode name ≠ [dot, dot] := fun same => plain.extension (by simp [same])
  have file : fileName? (join directory name) = some (Utf8.encode name) := by
    rw [fileName?, pieces, List.reverse_append, List.reverse_singleton, List.singleton_append,
      List.find?_cons_of_pos (by simp [plain.nonempty, one])]
    exact if_neg two
  have whole : Fields.cutLast dot (Utf8.encode name) = none := by
    rw [Fields.cutLast, Fields.cut_of_not_mem (by simpa using plain.extension)]
    rfl
  rw [stem?, file, Option.map_some, whole]

end Path

namespace Program

theorem plain_name (program : Program) : Path.Plain program.name := by
  cases program with
  | tower family | elementwise family => cases family <;> exact ⟨by decide, by decide, by decide⟩
  | _ => exact ⟨by decide, by decide, by decide⟩

theorem find?_name (program : Program) :
    (all.find? fun other => other.name = program.name) = some program := by
  cases program with
  | tower family | elementwise family => cases family <;> decide
  | _ => decide

/-- The path of a program is one whose stem is its name; bytes that are no text name none. -/
theorem ofPath?_eq_some_iff {path : Path} {program : Program} :
    ofPath? path = some program ↔ path.stem? = some (Utf8.encode program.name) := by
  constructor
  · intro h
    obtain ⟨stem, file, h⟩ := Option.bind_eq_some_iff.mp h
    obtain ⟨name, text, h⟩ := Option.bind_eq_some_iff.mp h
    have same : program.name = name := by simpa using List.find?_some h
    rw [file, Utf8.decode?_eq_some_iff.mp text, same]
  · intro h
    rw [ofPath?, h, Option.bind_eq_bind, Option.bind_some, Utf8.decode?_eq_some_iff.mpr rfl]
    exact program.find?_name

example : ofPath? "dpu/mod-ops.bin" = some .modular ∧
    ofPath? ⟨[0x62, 0xFF, 0x6F, 0x74]⟩ = none := by
  decide

/-- Programs are known by their names alone. -/
theorem ofPath?_path (program : Program) (directory : Path) :
    ofPath? (program.path directory) = some program :=
  ofPath?_eq_some_iff.mpr (Path.stem?_join program.plain_name directory)

end Program
end BankedRing
