import BankedRing.Proofs.Device.Block

/-! The format of parameter blocks and of residues. A layout tells which bytes of a block
carry a field. A unit decodes a byte string exactly when all fields are there and the selector
is one that has been declared, and what it decodes is encoded as the same bytes, padding apart. -/
namespace BankedRing

namespace Bytes
variable {width later : Nat} {α β : Type}

/-- Numbers that are read are written as the bytes they come from. -/
theorem ofNat_toNat (bytes : List UInt8) : ofNat bytes.length (toNat bytes) = bytes := by
  induction bytes with
  | nil => rfl
  | cons byte rest ih =>
    have small := byte.toNat_lt
    have low : (byte.toNat + 256 * toNat rest) % 256 = byte.toNat := by omega
    have high : (byte.toNat + 256 * toNat rest) / 256 = toNat rest := by omega
    rw [List.length_cons, toNat, ofNat, low, high, ih, UInt8.ofNat_toNat]

theorem ofWord_toWord {bytes : List UInt8} (length : bytes.length = 8) :
    ofWord (toWord bytes) = bytes := by
  have small := length ▸ toNat_lt bytes
  rw [ofWord, toWord, UInt64.toNat_ofNat_of_lt' small, ← length, ofNat_toNat]

/-- Residues that are decoded are encoded as the whole words at the front. -/
theorem ofWords_toWords (bytes : List UInt8) :
    ofWords (toWords bytes) = bytes.take (bytes.length / 8 * 8) := by
  induction bytes using toWords.induct with
  | case1 a b c d e f g h rest ih =>
    have word : ofWord (toWord [a, b, c, d, e, f, g, h]) = [a, b, c, d, e, f, g, h] :=
      ofWord_toWord rfl
    have whole : ([a, b, c, d, e, f, g, h] ++ rest).length / 8 * 8 =
        [a, b, c, d, e, f, g, h].length + rest.length / 8 * 8 := by
      simp only [List.length_append, List.length_cons, List.length_nil]
      omega
    show ofWord (toWord [a, b, c, d, e, f, g, h]) ++ ofWords (toWords rest) = _
    rw [ih, word]
    show _ = List.take (([a, b, c, d, e, f, g, h] ++ rest).length / 8 * 8)
      ([a, b, c, d, e, f, g, h] ++ rest)
    rw [whole, List.take_length_add_append]
  | case2 bytes short =>
    have few : bytes.length < 8 := by
      refine Nat.lt_of_not_le fun enough => ?_
      match bytes, enough with
      | a :: b :: c :: d :: e :: f :: g :: h :: rest, _ => exact short a b c d e f g h rest rfl
    have none : toWords bytes = [] := by
      unfold toWords
      split
      · exact absurd rfl (short _ _ _ _ _ _ _ _ _)
      · rfl
    rw [none, Nat.div_eq_of_lt few]
    rfl

/-- A reader of a fixed width, which fails on shorter strings only. -/
def Takes (width : Nat) (value : List UInt8 → α) (reader : Reader α) : Prop :=
  ∀ bytes, reader bytes = if width ≤ bytes.length then some (value bytes, bytes.drop width)
    else none

namespace Takes

theorem pure (a : α) : Takes 0 (fun _ => a) (Pure.pure a) := fun _ => rfl

theorem bind {value : List UInt8 → α} {reader : Reader α} {next : α → Reader β}
    {onward : α → List UInt8 → β} (first : Takes width value reader)
    (second : ∀ a, Takes later (onward a) (next a)) :
    Takes (width + later) (fun bytes => onward (value bytes) (bytes.drop width))
      (reader >>= next) := by
  intro bytes
  show StateT.bind reader next bytes = _
  rw [StateT.bind, first bytes]
  split
  · show next (value bytes) (bytes.drop width) = _
    rw [second, List.length_drop, List.drop_drop]
    have both : later ≤ bytes.length - width ↔ width + later ≤ bytes.length := by omega
    simp only [both]
  · rename_i short
    rw [if_neg (by omega)]
    rfl

end Takes

theorem number_takes (width : Nat) : Takes width (fun bytes => toNat (bytes.take width))
    (number width) := fun _ => rfl

/-- The half word at the front. -/
def halfWordAt (bytes : List UInt8) : UInt32 := UInt32.ofNat (toNat (bytes.take 4))

theorem word_takes : Takes 8 (fun bytes => toWord (bytes.take 8)) word :=
  (number_takes 8).bind fun _ => .pure _

theorem halfWord_takes : Takes 4 halfWordAt halfWord :=
  (number_takes 4).bind fun _ => .pure _

end Bytes

/-- For each byte of a region, whether it carries a field or is padding. -/
abbrev Layout := List Bool

namespace Layout
variable {layout rest : Layout} {written more bytes : List UInt8}

def field (width : Nat) : Layout := List.replicate width true

def padding (width : Nat) : Layout := List.replicate width false

/-- Two byte strings with the same fields. -/
def Agree (layout : Layout) (written bytes : List UInt8) : Prop :=
  ∀ i : Nat, layout[i]? = some true → written[i]? = bytes[i]?

theorem agree_padding (width : Nat) (written bytes : List UInt8) :
    Agree (padding width) written bytes := by
  intro i used
  obtain ⟨_, field⟩ := List.getElem?_eq_some_iff.mp used
  simp [padding] at field

theorem agree_field {width : Nat} (same : written = bytes.take width) :
    Agree (field width) written bytes := by
  intro i used
  have inside := (List.getElem?_eq_some_iff.mp used).1
  rw [field, List.length_replicate] at inside
  rw [same, List.getElem?_take_of_lt inside]

theorem Agree.append (here : Agree layout written bytes) (length : written.length = layout.length)
    (onward : Agree rest more (bytes.drop layout.length)) : Agree (layout ++ rest)
    (written ++ more) bytes := by
  intro i used
  rcases Nat.lt_or_ge i layout.length with inside | beyond
  · rw [List.getElem?_append_left inside] at used
    rw [List.getElem?_append_left (length ▸ inside)]
    exact here i used
  · rw [List.getElem?_append_right beyond] at used
    have same := onward _ used
    rw [List.getElem?_drop, Nat.add_sub_cancel' beyond] at same
    rw [List.getElem?_append_right (length ▸ beyond), length]
    exact same

theorem agree_word (bytes : List UInt8) (long : 8 ≤ bytes.length) :
    Agree (field 8) (Bytes.ofWord (Bytes.toWord (bytes.take 8))) bytes :=
  agree_field (Bytes.ofWord_toWord (List.length_take_of_le long))

theorem agree_halfWord (bytes : List UInt8) (long : 4 ≤ bytes.length) :
    Agree (field 4) (Bytes.ofNat 4 (Bytes.halfWordAt bytes).toNat) bytes := by
  have length : (bytes.take 4).length = 4 := List.length_take_of_le long
  have small := length ▸ Bytes.toNat_lt (bytes.take 4)
  have same := Bytes.ofNat_toNat (bytes.take 4)
  refine agree_field ?_
  rw [Bytes.halfWordAt, UInt32.toNat_ofNat_of_lt' small]
  rwa [length] at same

end Layout

open Layout (field padding Agree agree_padding agree_word agree_halfWord)
open Bytes (toWord halfWordAt Takes word_takes halfWord_takes)

namespace Operand

def layout : Layout := field 8 ++ field 4 ++ padding 4

/-- The operand at the front. -/
def ofBytes (bytes : List UInt8) : Operand := ⟨toWord (bytes.take 8), halfWordAt (bytes.drop 8)⟩

theorem reader_takes : Takes 16 ofBytes reader :=
  word_takes.bind fun _ => halfWord_takes.bind fun _ => halfWord_takes.bind fun _ => .pure _

theorem agree_encode (bytes : List UInt8) (long : 12 ≤ bytes.length) :
    Agree layout (ofBytes bytes).encode bytes := by
  have start := agree_word bytes (by omega)
  have size := agree_halfWord (bytes.drop 8) (by rw [List.length_drop]; omega)
  exact (start.append (Bytes.length_ofWord _) size).append (by simp [field]) (agree_padding _ _ _)

end Operand

section Selectors
variable {Form : Type} {all : List Form} {selector : Form → UInt32} {form : Form} {w : UInt32}

/-- Forms that are listed in the order of their selectors are found at them. -/
theorem selector_of_listed (ordered : all.map selector = (List.range all.length).map UInt32.ofNat)
    (found : all[w.toNat]? = some form) : selector form = w := by
  have inside := (List.getElem?_eq_some_iff.mp found).1
  have listed : (all.map selector)[w.toNat]? = some (selector form) := by
    rw [List.getElem?_map, found]; rfl
  rw [ordered, List.getElem?_map, List.getElem?_range inside] at listed
  simpa using listed.symm

/-- A selector is either declared or unknown. -/
def Resolves (selector : Form → UInt32) (resolve : UInt32 → Except Fault Form) : Prop :=
  ∀ w, (∃ form, selector form = w ∧ resolve w = .ok form) ∨
    (∀ form, selector form ≠ w) ∧ resolve w = .error (.unknownKernel w)

theorem resolves_of_listed (all : List Form) {resolve : UInt32 → Except Fault Form}
    (ordered : all.map selector = (List.range all.length).map UInt32.ofNat)
    (listed : ∀ w, resolve w = (all[w.toNat]?).elim (.error (.unknownKernel w)) .ok)
    (complete : ∀ form, resolve (selector form) = .ok form) : Resolves selector resolve := by
  intro w
  cases found : all[w.toNat]? with
  | some form => exact .inl ⟨form, selector_of_listed ordered found, by rw [listed, found]; rfl⟩
  | none =>
    refine .inr ⟨?_, by rw [listed, found]; rfl⟩
    rintro form rfl
    have resolved := complete form
    rw [listed, found] at resolved
    cases resolved

end Selectors

theorem ElementwiseForm.resolves : Resolves selector ofSelector := by
  refine resolves_of_listed all rfl (fun w => ?_) ofSelector_selector
  unfold ofSelector
  cases all[w.toNat]? <;> rfl

theorem ModularForm.resolves : Resolves selector ofSelector := by
  refine resolves_of_listed all rfl (fun w => ?_) ofSelector_selector
  unfold ofSelector
  cases all[w.toNat]? <;> rfl

/-- The selector of a block stands in its last word, the upper half of which is padding. -/
def selectorOf (byteSize : Nat) (bytes : List UInt8) : UInt32 :=
  halfWordAt (bytes.drop (byteSize - 8))

/-- An encoding into blocks that returns what it was given, whatever follows behind it, and from
which exactly the strings with all fields and a declared selector are decoded. -/
structure Exact {Block Form : Type} (byteSize : Nat) (layout : Layout) (selector : Form → UInt32)
    (encode : Block → List UInt8) (decode : List UInt8 → Except Fault Block) : Prop where
  sized : ∀ block, (encode block).length = byteSize
  laid : layout.length = byteSize
  returns : ∀ block rest, decode (encode block ++ rest) = .ok block
  accepts : ∀ bytes, (∃ block, decode bytes = .ok block) ↔
    byteSize - 4 ≤ bytes.length ∧ ∃ form, selector form = selectorOf byteSize bytes
  short : ∀ bytes, bytes.length < byteSize - 4 → decode bytes = .error (.badSymbol blockSymbol)
  unknown : ∀ bytes, byteSize - 4 ≤ bytes.length →
    (∀ form, selector form ≠ selectorOf byteSize bytes) →
    decode bytes = .error (.unknownKernel (selectorOf byteSize bytes))
  agrees : ∀ bytes block, decode bytes = .ok block → layout.Agree (encode block) bytes

section
variable {Block Form : Type} {byteSize : Nat} {layout : Layout} {selector : Form → UInt32}
  {resolve : UInt32 → Except Fault Form} {encode : Block → List UInt8}
  {decode : List UInt8 → Except Fault Block}
  {make : List UInt8 → Form → Block}

/-- A decoder that reads the fields at their places and then resolves the selector. -/
theorem exact_of_fields (sized : ∀ block, (encode block).length = byteSize)
    (laid : layout.length = byteSize)
    (returns : ∀ block rest, decode (encode block ++ rest) = .ok block)
    (resolves : Resolves selector resolve)
    (short : ∀ bytes, bytes.length < byteSize - 4 → decode bytes = .error (.badSymbol blockSymbol))
    (long : ∀ bytes, byteSize - 4 ≤ bytes.length →
      decode bytes = (do return make bytes (← resolve (selectorOf byteSize bytes))))
    (agree : ∀ bytes form, byteSize - 4 ≤ bytes.length → selector form = selectorOf byteSize bytes →
      layout.Agree (encode (make bytes form)) bytes) :
    Exact byteSize layout selector encode decode := by
  have inv : ∀ bytes block, decode bytes = .ok block → byteSize - 4 ≤ bytes.length ∧
      ∃ form, selector form = selectorOf byteSize bytes ∧ block = make bytes form := by
    intro bytes block decoded
    rcases Nat.lt_or_ge bytes.length (byteSize - 4) with few | enough
    · rw [short bytes few] at decoded
      cases decoded
    · rw [long bytes enough] at decoded
      rcases resolves (selectorOf byteSize bytes) with ⟨form, declared, resolved⟩ | ⟨_, resolved⟩
      · rw [resolved] at decoded
        cases decoded
        exact ⟨enough, form, declared, rfl⟩
      · rw [resolved] at decoded
        cases decoded
  constructor
  case sized => exact sized
  case laid => exact laid
  case returns => exact returns
  case short => exact short
  case accepts =>
    intro bytes
    constructor
    · rintro ⟨block, decoded⟩
      obtain ⟨enough, form, declared, _⟩ := inv bytes block decoded
      exact ⟨enough, form, declared⟩
    · rintro ⟨enough, form, declared⟩
      rw [long bytes enough]
      rcases resolves (selectorOf byteSize bytes) with ⟨found, _, resolved⟩ | ⟨none, _⟩
      · exact ⟨make bytes found, by rw [resolved]; rfl⟩
      · exact absurd declared (none form)
  case unknown =>
    intro bytes enough none
    rw [long bytes enough]
    rcases resolves (selectorOf byteSize bytes) with ⟨form, declared, _⟩ | ⟨_, resolved⟩
    · exact absurd declared (none form)
    · rw [resolved]
      rfl
  case agrees =>
    intro bytes block decoded
    obtain ⟨enough, form, declared, rfl⟩ := inv bytes block decoded
    exact agree bytes form enough declared

end

namespace ElementwiseBlock

def layout : Layout :=
  Operand.layout ++ Operand.layout ++ Operand.layout ++ field 8 ++ field 8 ++ field 4 ++ padding 4

/-- The block whose fields are at their places. -/
def ofFields (bytes : List UInt8) (form : ElementwiseForm) : ElementwiseBlock where
  first := Operand.ofBytes bytes
  second := Operand.ofBytes (bytes.drop 16)
  result := Operand.ofBytes (bytes.drop 32)
  modulus := toWord ((bytes.drop 48).take 8)
  mu := toWord ((bytes.drop 56).take 8)
  form

theorem reader_takes : Takes 68
    (fun bytes => (Operand.ofBytes bytes, Operand.ofBytes (bytes.drop 16),
    Operand.ofBytes (bytes.drop 32), toWord ((bytes.drop 48).take 8),
    toWord ((bytes.drop 56).take 8),
    halfWordAt (bytes.drop 64))) reader := by
  have fields : Takes 68 _ reader :=
    Operand.reader_takes.bind fun first => Operand.reader_takes.bind fun second =>
    Operand.reader_takes.bind fun result => word_takes.bind fun modulus => word_takes.bind fun mu =>
    halfWord_takes.bind fun selector => .pure (first, second, result, modulus, mu, selector)
  simpa only [List.drop_drop, Nat.reduceAdd] using fields

theorem agree_encode {bytes : List UInt8} {form : ElementwiseForm} (long : 68 ≤ bytes.length)
    (declared : form.selector = halfWordAt (bytes.drop 64)) :
    layout.Agree (ofFields bytes form).encode bytes := by
  have rest : ∀ place, (bytes.drop place).length = bytes.length - place := fun _ => List.length_drop
  have first := Operand.agree_encode bytes (by omega)
  have second := Operand.agree_encode (bytes.drop 16) (by rw [rest]; omega)
  have result := Operand.agree_encode (bytes.drop 32) (by rw [rest]; omega)
  have modulus := agree_word (bytes.drop 48) (by rw [rest]; omega)
  have mu := agree_word (bytes.drop 56) (by rw [rest]; omega)
  have selector := agree_halfWord (bytes.drop 64) (by rw [rest]; omega)
  rw [← declared] at selector
  have operands := (first.append rfl second).append rfl result
  exact (((operands.append rfl modulus).append rfl mu).append rfl selector).append rfl
    (agree_padding 4 _ _)

theorem format_exact : Exact byteSize layout ElementwiseForm.selector encode decode := by
  have short : ∀ bytes, bytes.length < byteSize - 4 →
      decode bytes = .error (.badSymbol blockSymbol) := by
    intro bytes few
    have few : ¬ 68 ≤ bytes.length := Nat.not_le_of_lt few
    rw [decode, reader_takes, if_neg few]
  have long : ∀ bytes, byteSize - 4 ≤ bytes.length → decode bytes = (do
      return ofFields bytes (← ElementwiseForm.ofSelector (selectorOf byteSize bytes))) := by
    intro bytes enough
    have enough : 68 ≤ bytes.length := enough
    rw [decode, reader_takes, if_pos enough]
    rfl
  exact exact_of_fields length_encode rfl decode_encode ElementwiseForm.resolves short long
    fun _ _ => agree_encode

end ElementwiseBlock

namespace ModularBlock

def layout : Layout :=
  Operand.layout ++ Operand.layout ++ field 8 ++ field 8 ++ field 8 ++ field 4 ++ padding 4

/-- The block whose fields are at their places. -/
def ofFields (bytes : List UInt8) (form : ModularForm) : ModularBlock where
  operand := Operand.ofBytes bytes
  result := Operand.ofBytes (bytes.drop 16)
  modulus := toWord ((bytes.drop 32).take 8)
  p := toWord ((bytes.drop 40).take 8)
  q := toWord ((bytes.drop 48).take 8)
  form

theorem reader_takes : Takes 60
    (fun bytes => (Operand.ofBytes bytes, Operand.ofBytes (bytes.drop 16),
    toWord ((bytes.drop 32).take 8), toWord ((bytes.drop 40).take 8),
    toWord ((bytes.drop 48).take 8),
    halfWordAt (bytes.drop 56))) reader := by
  have fields : Takes 60 _ reader :=
    Operand.reader_takes.bind fun operand => Operand.reader_takes.bind fun result =>
    word_takes.bind fun modulus => word_takes.bind fun p => word_takes.bind fun q =>
    halfWord_takes.bind fun selector => .pure (operand, result, modulus, p, q, selector)
  simpa only [List.drop_drop, Nat.reduceAdd] using fields

theorem agree_encode {bytes : List UInt8} {form : ModularForm} (long : 60 ≤ bytes.length)
    (declared : form.selector = halfWordAt (bytes.drop 56)) :
    layout.Agree (ofFields bytes form).encode bytes := by
  have rest : ∀ place, (bytes.drop place).length = bytes.length - place := fun _ => List.length_drop
  have operand := Operand.agree_encode bytes (by omega)
  have result := Operand.agree_encode (bytes.drop 16) (by rw [rest]; omega)
  have modulus := agree_word (bytes.drop 32) (by rw [rest]; omega)
  have p := agree_word (bytes.drop 40) (by rw [rest]; omega)
  have q := agree_word (bytes.drop 48) (by rw [rest]; omega)
  have selector := agree_halfWord (bytes.drop 56) (by rw [rest]; omega)
  rw [← declared] at selector
  have words := ((operand.append rfl result).append rfl modulus).append rfl p
  exact ((words.append rfl q).append rfl selector).append rfl (agree_padding 4 _ _)

theorem format_exact : Exact byteSize layout ModularForm.selector encode decode := by
  have short : ∀ bytes, bytes.length < byteSize - 4 →
      decode bytes = .error (.badSymbol blockSymbol) := by
    intro bytes few
    have few : ¬ 60 ≤ bytes.length := Nat.not_le_of_lt few
    rw [decode, reader_takes, if_neg few]
  have long : ∀ bytes, byteSize - 4 ≤ bytes.length → decode bytes = (do
      return ofFields bytes (← ModularForm.ofSelector (selectorOf byteSize bytes))) := by
    intro bytes enough
    have enough : 60 ≤ bytes.length := enough
    rw [decode, reader_takes, if_pos enough]
    rfl
  exact exact_of_fields length_encode rfl decode_encode ModularForm.resolves short long fun _ _ =>
    agree_encode

end ModularBlock

/-- Both blocks and lists of residues return from their encodings, and are decoded from nothing
but their formats. -/
theorem formats_exact :
    Exact ElementwiseBlock.byteSize ElementwiseBlock.layout ElementwiseForm.selector
      ElementwiseBlock.encode ElementwiseBlock.decode ∧
    Exact ModularBlock.byteSize ModularBlock.layout ModularForm.selector
      ModularBlock.encode ModularBlock.decode ∧
    (∀ words, Bytes.toWords (Bytes.ofWords words) = words) ∧
    ∀ bytes, Bytes.ofWords (Bytes.toWords bytes) = bytes.take (bytes.length / 8 * 8) :=
  ⟨ElementwiseBlock.format_exact, ModularBlock.format_exact, Bytes.toWords_ofWords,
    Bytes.ofWords_toWords⟩

/-- Zeros without the last padding are a block, one byte less is too short, and no selector
repeats a byte other than zero. -/
theorem formats_exact_repeated :
    (∃ block, ElementwiseBlock.decode (List.replicate 68 0) = .ok block) ∧
    ModularBlock.decode (List.replicate 59 0) = .error (.badSymbol blockSymbol) ∧
    ElementwiseBlock.decode (List.replicate 72 7) = .error (.unknownKernel 0x07070707) := by
  obtain ⟨elementwise, modular, _⟩ := formats_exact
  have sevens : selectorOf ElementwiseBlock.byteSize (List.replicate 72 7) = 0x07070707 := by decide
  refine ⟨(elementwise.accepts _).mpr ⟨by decide, .scalar .separate, by decide⟩,
    modular.short _ (by decide), ?_⟩
  rw [← sevens]
  refine elementwise.unknown _ (by decide) fun form => ?_
  rw [sevens]
  rcases form with placement | placement <;> cases placement <;> decide

end BankedRing
