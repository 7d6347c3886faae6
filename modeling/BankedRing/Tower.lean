import BankedRing.Word.Checked

/-! The residues of one polynomial under one modulus. -/
namespace BankedRing

structure Tower where
  modulus : Word
  values : List Word
  deriving DecidableEq

namespace Tower

def zero (modulus : Word) (length : Nat) : Tower := ⟨modulus, List.replicate length 0⟩

/-- Every residue is below the modulus. -/
def Reduced (tower : Tower) : Prop := ∀ x ∈ tower.values, x < tower.modulus

instance (tower : Tower) : Decidable tower.Reduced :=
  List.decidableBAll (· < tower.modulus) tower.values

end Tower
end BankedRing
