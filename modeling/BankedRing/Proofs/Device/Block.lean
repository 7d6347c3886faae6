import BankedRing.Device.Block
import BankedRing.Proofs.Outcome

/-! Parameter blocks survive the way to a unit: what the host encodes is what the unit
decodes, whatever follows behind it. -/
namespace BankedRing

namespace Bytes

theorem read_bind {α β : Type} {reader : Reader α} {next : α → Reader β} {bytes rest : List UInt8}
    {value : α} (h : reader bytes = some (value, rest)) : (reader >>= next) bytes =
      next value rest := by
  show StateT.bind reader next bytes = next value rest
  rw [StateT.bind, h]
  rfl

variable (rest : List UInt8)

theorem number_append {width : Nat} {bytes : List UInt8} (h : bytes.length = width) :
    number width (bytes ++ rest) = some (toNat bytes, rest) := by
  subst h
  simp [number]

theorem word_append (w : Word) : word (ofWord w ++ rest) = some (w, rest) := by
  have value : UInt64.ofNat (toNat (ofWord w)) = w := toWord_ofWord w
  rw [word, read_bind (number_append rest (length_ofWord w)), value]
  rfl

theorem halfWord_append (h : UInt32) : halfWord (ofNat 4 h.toNat ++ rest) = some (h, rest) := by
  have small : h.toNat < 1 <<< (8 * 4) := h.toNat_lt
  rw [halfWord, read_bind (number_append rest (length_ofNat 4 h.toNat)), toNat_ofNat,
    Nat.mod_eq_of_lt small, UInt32.ofNat_toNat]
  rfl

theorem padding_append : halfWord (ofNat 4 0 ++ rest) = some (0, rest) := halfWord_append rest 0

end Bytes

namespace Operand

theorem reader_append (operand : Operand) (rest : List UInt8) :
    reader (operand.encode ++ rest) = some (operand, rest) := by
  simp only [reader, encode, List.append_assoc]
  rw [Bytes.read_bind (Bytes.word_append _ _), Bytes.read_bind (Bytes.halfWord_append _ _),
    Bytes.read_bind (Bytes.padding_append _)]
  rfl

theorem length_encode (operand : Operand) : operand.encode.length = 16 := by
  simp [encode]

end Operand

theorem ElementwiseForm.ofSelector_selector (form : ElementwiseForm) :
    ofSelector form.selector = .ok form := by
  rcases form with placement | placement <;> cases placement <;> rfl

theorem ModularForm.ofSelector_selector (form : ModularForm) :
    ofSelector form.selector = .ok form := by
  cases form with
  | switchModulus => rfl
  | _ placement => cases placement <;> rfl

theorem ElementwiseBlock.length_encode (block : ElementwiseBlock) :
    block.encode.length = byteSize := by
  simp [encode, Operand.length_encode, byteSize]

theorem ElementwiseBlock.decode_encode (block : ElementwiseBlock) (rest : List UInt8) :
    decode (block.encode ++ rest) = .ok block := by
  have read : reader (block.encode ++ rest) =
      some ((block.first, block.second, block.result, block.modulus, block.mu, block.form.selector),
        Bytes.ofNat 4 0 ++ rest) := by
    simp only [reader, encode, List.append_assoc]
    rw [Bytes.read_bind (Operand.reader_append _ _), Bytes.read_bind (Operand.reader_append _ _),
      Bytes.read_bind (Operand.reader_append _ _), Bytes.read_bind (Bytes.word_append _ _),
      Bytes.read_bind (Bytes.word_append _ _), Bytes.read_bind (Bytes.halfWord_append _ _)]
    rfl
  simp only [decode, read, ElementwiseForm.ofSelector_selector, ok_bind]
  rfl

theorem ModularBlock.length_encode (block : ModularBlock) : block.encode.length = byteSize := by
  simp [encode, Operand.length_encode, byteSize]

theorem ModularBlock.decode_encode (block : ModularBlock) (rest : List UInt8) :
    decode (block.encode ++ rest) = .ok block := by
  have read : reader (block.encode ++ rest) =
      some ((block.operand, block.result, block.modulus, block.p, block.q, block.form.selector),
        Bytes.ofNat 4 0 ++ rest) := by
    simp only [reader, encode, List.append_assoc]
    rw [Bytes.read_bind (Operand.reader_append _ _), Bytes.read_bind (Operand.reader_append _ _),
      Bytes.read_bind (Bytes.word_append _ _), Bytes.read_bind (Bytes.word_append _ _),
      Bytes.read_bind (Bytes.word_append _ _), Bytes.read_bind (Bytes.halfWord_append _ _)]
    rfl
  simp only [decode, read, ModularForm.ofSelector_selector, ok_bind]
  rfl

end BankedRing
