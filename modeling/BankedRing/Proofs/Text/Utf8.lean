import BankedRing.Text.Utf8

/-! Bytes are read throughout exactly if they are the encoding of what is read. -/
namespace BankedRing.Utf8
variable {rest bytes : List UInt8} {bits lacking least greatest n a b c d : Nat}

theorem toNat_ofNat (h : n < 256) : (UInt8.ofNat n).toNat = n := Nat.mod_eq_of_lt h

section Leading

theorem lead?_two (lower : 2 ≤ a) (upper : a < 32) :
    lead? (a + 192) = some ⟨a, 1, 0x80, 0xBF⟩ := by
  rw [lead?, if_neg (by omega), if_pos (by omega), show (a + 192) % 32 = a by omega]

theorem lead?_three (upper : a < 16) : lead? (a + 224) =
    some ⟨a, 2, if a = 0 then 0xA0 else 0x80, if a = 13 then 0x9F else 0xBF⟩ := by
  rw [lead?, if_neg (by omega), if_neg (by omega), if_pos (by omega),
    show (a + 224) % 16 = a by omega]
  simp only [show a + 224 = 0xE0 ↔ a = 0 by omega, show a + 224 = 0xED ↔ a = 13 by omega]

theorem lead?_four (upper : a ≤ 4) : lead? (a + 240) =
    some ⟨a, 3, if a = 0 then 0x90 else 0x80, if a = 4 then 0x8F else 0xBF⟩ := by
  rw [lead?, if_neg (by omega), if_neg (by omega), if_neg (by omega), if_pos (by omega),
    show (a + 240) % 8 = a by omega]
  simp only [show a + 240 = 0xF0 ↔ a = 0 by omega, show a + 240 = 0xF4 ↔ a = 4 by omega]

/-- A byte leads a sequence of one, two, three or four bytes, or none. -/
theorem lead_cases (n : Nat) : n ≤ 0x7F ∨ (∃ a, 2 ≤ a ∧ a < 32 ∧ n = a + 192) ∨
    (∃ a, a < 16 ∧ n = a + 224) ∨ (∃ a, a ≤ 4 ∧ n = a + 240) ∨ lead? n = none := by
  by_cases one : n ≤ 0x7F
  · exact .inl one
  by_cases two : 0xC2 ≤ n ∧ n ≤ 0xDF
  · exact .inr (.inl ⟨n - 192, by omega, by omega, by omega⟩)
  by_cases three : 0xE0 ≤ n ∧ n ≤ 0xEF
  · exact .inr (.inr (.inl ⟨n - 224, by omega, by omega⟩))
  by_cases four : 0xF0 ≤ n ∧ n ≤ 0xF4
  · exact .inr (.inr (.inr (.inl ⟨n - 240, by omega, by omega⟩)))
  · rw [lead?, if_neg one, if_neg two, if_neg three, if_neg four]
    exact .inr (.inr (.inr (.inr rfl)))

end Leading

section Encoding

theorem val_ofNat (valid : n < 0xD800 ∨ 0xDFFF < n ∧ n < 0x110000) :
    (Char.ofNat n).val.toNat = n := by
  rw [Char.ofNat, dif_pos valid]
  rfl

theorem encodeChar_one (h : n ≤ 0x7F) :
    String.utf8EncodeChar (Char.ofNat n) = [UInt8.ofNat n] := by
  rw [String.utf8EncodeChar, val_ofNat (by omega), if_pos h]

theorem encodeChar_two (lower : 2 ≤ a) (upper : a < 32) (hb : b < 64) :
    String.utf8EncodeChar (Char.ofNat (a * 64 + b)) =
      [UInt8.ofNat (a + 192), UInt8.ofNat (b + 128)] := by
  rw [String.utf8EncodeChar, val_ofNat (by omega), if_neg (by omega), if_pos (by omega),
    show (a * 64 + b) / 64 % 32 = a by omega, show (a * 64 + b) % 64 = b by omega]

theorem encodeChar_three (lower : 0x20 ≤ a * 64 + b) (upper : a < 16)
    (valid : a * 64 + b < 0x360 ∨ 0x37F < a * 64 + b) (hb : b < 64) (hc : c < 64) :
    String.utf8EncodeChar (Char.ofNat ((a * 64 + b) * 64 + c)) =
      [UInt8.ofNat (a + 224), UInt8.ofNat (b + 128), UInt8.ofNat (c + 128)] := by
  rw [String.utf8EncodeChar, val_ofNat (by omega), if_neg (by omega), if_neg (by omega),
    if_pos (by omega), show ((a * 64 + b) * 64 + c) / 4096 % 16 = a by omega,
    show ((a * 64 + b) * 64 + c) / 64 % 64 = b by omega,
    show ((a * 64 + b) * 64 + c) % 64 = c by omega]

theorem encodeChar_four (lower : 0x10 ≤ a * 64 + b) (upper : a * 64 + b < 0x110)
    (hb : b < 64) (hc : c < 64) (hd : d < 64) :
    String.utf8EncodeChar (Char.ofNat (((a * 64 + b) * 64 + c) * 64 + d)) =
      [UInt8.ofNat (a + 240), UInt8.ofNat (b + 128), UInt8.ofNat (c + 128),
        UInt8.ofNat (d + 128)] := by
  rw [String.utf8EncodeChar, val_ofNat (by omega), if_neg (by omega), if_neg (by omega),
    if_neg (by omega), show (((a * 64 + b) * 64 + c) * 64 + d) / 262144 % 8 = a by omega,
    show (((a * 64 + b) * 64 + c) * 64 + d) / 4096 % 64 = b by omega,
    show (((a * 64 + b) * 64 + c) * 64 + d) / 64 % 64 = c by omega,
    show (((a * 64 + b) * 64 + c) * 64 + d) % 64 = d by omega]

end Encoding

section Reading

theorem read_cons (state : Option Begun) (byte : UInt8) (rest : List UInt8) :
    read state (byte :: rest) =
      (step state byte.toNat).1 ++ read (step state byte.toNat).2 rest := by
  cases state <;> rfl

theorem read_settle (begun : Begun) (rest : List UInt8) :
    begun.settle.1 ++ read begun.settle.2 rest =
      if begun.lacking = 0 then some (Char.ofNat begun.bits) :: read none rest
      else read (some begun) rest := by
  rw [Begun.settle]
  split <;> rfl

theorem read_lead {begun : Begun} (small : n < 256) (lead : lead? n = some begun) :
    read none (UInt8.ofNat n :: rest) =
      if begun.lacking = 0 then some (Char.ofNat begun.bits) :: read none rest
      else read (some begun) rest := by
  rw [read_cons, step, start, toNat_ofNat small, lead]
  exact read_settle begun rest

theorem read_next (small : n < 64) (lower : least ≤ n + 128) (upper : n + 128 ≤ greatest) :
    read (some ⟨bits, lacking + 1, least, greatest⟩) (UInt8.ofNat (n + 128) :: rest) =
      if lacking = 0 then some (Char.ofNat (bits * 64 + n)) :: read none rest
      else read (some ⟨bits * 64 + n, lacking, 0x80, 0xBF⟩) rest := by
  have low : (n + 128) % 64 = n := by omega
  rw [read_cons, step, toNat_ofNat (by omega), if_pos ⟨lower, upper⟩, low, read_settle]
  rfl

theorem read_encodeChar (character : Char) (rest : List UInt8) :
    read none (String.utf8EncodeChar character ++ rest) = some character :: read none rest := by
  have valid : character.toNat < 0xD800 ∨ 0xDFFF < character.toNat ∧ character.toNat < 0x110000 :=
    character.valid
  rw [← Char.ofNat_toNat character]
  generalize character.toNat = v at *
  by_cases one : v ≤ 0x7F
  · rw [encodeChar_one one, List.singleton_append, read_lead (by omega) (if_pos one), if_pos rfl]
  -- Six bits at a time are taken off the code point, until the rest fits into a first byte.
  obtain ⟨v, d, rfl, hd⟩ : ∃ a b, v = a * 64 + b ∧ b < 64 := ⟨v / 64, v % 64, by omega, by omega⟩
  by_cases two : v < 32
  · rw [encodeChar_two (by omega) two hd, List.cons_append,
      read_lead (by omega) (lead?_two (by omega) two)]
    exact read_next hd (by omega) (by omega)
  obtain ⟨v, c, rfl, hc⟩ : ∃ a b, v = a * 64 + b ∧ b < 64 := ⟨v / 64, v % 64, by omega, by omega⟩
  by_cases three : v < 16
  · rw [encodeChar_three (by omega) three (by omega) hc hd, List.cons_append,
      read_lead (by omega) (lead?_three three)]
    refine (read_next hc ?_ ?_).trans (read_next hd (by omega) (by omega)) <;> split <;> omega
  obtain ⟨a, b, rfl, hb⟩ : ∃ a b, v = a * 64 + b ∧ b < 64 := ⟨v / 64, v % 64, by omega, by omega⟩
  rw [encodeChar_four (by omega) (by omega) hb hc hd, List.cons_append,
    read_lead (by omega) (lead?_four (by omega))]
  refine (read_next hb ?_ ?_).trans
    ((read_next hc (by omega) (by omega)).trans (read_next hd (by omega) (by omega)))
  all_goals split <;> omega

theorem read_encode (text : String) : read none (encode text) = text.toList.map some := by
  rw [encode]
  induction text.toList with
  | nil => rfl
  | cons c rest ih => rw [List.flatMap_cons, read_encodeChar, ih, List.map_cons]

/-- What is read of a text's encoding is the text. -/
theorem lossy_encode (text : String) : lossy (encode text) = text := by
  rw [lossy, read_encode, List.map_map]
  exact (congrArg String.ofList (List.map_id _)).trans String.ofList_toList

example : lossy [0x61, 0xF0, 0x90, 0x80, 0x62, 0xED, 0xA0] = "a\ufffdb\ufffd\ufffd" := by decide

variable {character : Char} {more : List (Option Char)}

theorem exists_next (lower : 0x80 ≤ least) (upper : greatest ≤ 0xBF)
    (h : read (some ⟨bits, lacking + 1, least, greatest⟩) bytes = some character :: more) :
    ∃ n rest, bytes = UInt8.ofNat (n + 128) :: rest ∧ n < 64 ∧ least ≤ n + 128 ∧
      n + 128 ≤ greatest ∧
      (if lacking = 0 then some (Char.ofNat (bits * 64 + n)) :: read none rest
      else read (some ⟨bits * 64 + n, lacking, 0x80, 0xBF⟩) rest) = some character :: more := by
  cases bytes with
  | nil => cases h
  | cons byte rest =>
    by_cases inside : least ≤ byte.toNat ∧ byte.toNat ≤ greatest
    · obtain ⟨n, same⟩ : ∃ n, byte.toNat = n + 128 := ⟨byte.toNat - 128, by omega⟩
      have whole : UInt8.ofNat (n + 128) = byte := same ▸ UInt8.ofNat_toNat
      refine ⟨n, rest, by rw [whole], by omega, by omega, by omega, ?_⟩
      rw [← h, ← whole]
      exact (read_next (by omega) (by omega) (by omega)).symm
    · rw [read, step, if_neg inside] at h
      cases h

theorem exists_encodeChar (h : read none bytes = some character :: more) :
    ∃ rest, bytes = String.utf8EncodeChar character ++ rest ∧ read none rest = more := by
  cases bytes with
  | nil => cases h
  | cons byte rest =>
    have ends : ∀ {code : Nat} {tail front : List UInt8},
        some (Char.ofNat code) :: read none tail = some character :: more →
          String.utf8EncodeChar (Char.ofNat code) = front →
            ∃ rest, front ++ tail = String.utf8EncodeChar character ++ rest ∧
              read none rest = more := by
      rintro code tail front same rfl
      obtain ⟨same, later⟩ := List.cons.inj same
      exact ⟨tail, by rw [Option.some.inj same], later⟩
    have small := byte.toNat_lt
    rw [← UInt8.ofNat_toNat (x := byte)] at h ⊢
    generalize byte.toNat = n at *
    rcases lead_cases n with one | ⟨a, la, ua, rfl⟩ | ⟨a, ua, rfl⟩ | ⟨a, ua, rfl⟩ | none
    · rw [read_lead small (if_pos one), if_pos rfl] at h
      exact ends h (encodeChar_one one)
    · rw [read_lead small (lead?_two la ua)] at h
      obtain ⟨b, rest, rfl, hb, _, _, h⟩ := exists_next (by omega) (by omega) h
      exact ends h (encodeChar_two la ua hb)
    · rw [read_lead small (lead?_three ua)] at h
      obtain ⟨b, rest, rfl, hb, lb, ub, h⟩ :=
        exists_next (by split <;> omega) (by split <;> omega) h
      obtain ⟨c, rest, rfl, hc, _, _, h⟩ := exists_next (by omega) (by omega) h
      exact ends h (encodeChar_three (by split at lb <;> omega) ua
        (by split at ub <;> omega) hb hc)
    · rw [read_lead small (lead?_four ua)] at h
      obtain ⟨b, rest, rfl, hb, lb, ub, h⟩ :=
        exists_next (by split <;> omega) (by split <;> omega) h
      obtain ⟨c, rest, rfl, hc, _, _, h⟩ := exists_next (by omega) (by omega) h
      obtain ⟨d, rest, rfl, hd, _, _, h⟩ := exists_next (by omega) (by omega) h
      exact ends h (encodeChar_four (by split at lb <;> omega) (by split at ub <;> omega) hb hc hd)
    · rw [read, step, start, toNat_ofNat small, none] at h
      cases h

theorem read_some_ne_nil (begun : Begun) (bytes : List UInt8) : read (some begun) bytes ≠ [] := by
  induction bytes generalizing begun with
  | nil => nofun
  | cons byte rest ih =>
    rw [read_cons, step]
    split
    · rw [read_settle]
      split
      · exact List.cons_ne_nil _ _
      · exact ih _
    · exact List.cons_ne_nil _ _

theorem eq_nil_of_read (h : read none bytes = []) : bytes = [] := by
  cases bytes with
  | nil => rfl
  | cons byte rest =>
    rw [read_cons, step, start] at h
    cases lead : lead? byte.toNat with
    | none => rw [lead] at h; cases h
    | some begun =>
      simp only [lead] at h
      rw [read_settle] at h
      split at h
      · cases h
      · exact absurd h (read_some_ne_nil _ _)

/-- Bytes that are read throughout are the encoding of what is read. -/
theorem eq_of_read {text : List Char} (h : read none bytes = text.map some) :
    bytes = text.flatMap String.utf8EncodeChar := by
  induction text generalizing bytes with
  | nil => exact eq_nil_of_read h
  | cons c text ih =>
    obtain ⟨rest, rfl, later⟩ := exists_encodeChar h
    rw [List.flatMap_cons, ih later]

theorem mapM_id_eq_some {characters : List (Option Char)} {text : List Char} :
    characters.mapM id = some text ↔ characters = text.map some := by
  induction characters generalizing text with
  | nil =>
    cases text with
    | nil => exact ⟨fun _ => rfl, fun _ => rfl⟩
    | cons => exact ⟨nofun, nofun⟩
  | cons character rest ih =>
    rw [List.mapM_cons]
    cases text with
    | nil => simp [Option.bind_eq_some_iff]
    | cons c text => simp [Option.bind_eq_some_iff, ih]

/-- Bytes have a text if they are its encoding. -/
theorem decode?_eq_some_iff {text : String} : decode? bytes = some text ↔ bytes = encode text := by
  constructor
  · intro h
    obtain ⟨characters, whole, rfl⟩ := Option.map_eq_some_iff.mp h
    rw [encode, String.toList_ofList]
    exact eq_of_read (mapM_id_eq_some.mp whole)
  · rintro rfl
    rw [decode?, mapM_id_eq_some.mpr (read_encode text), Option.map_some, String.ofList_toList]

end Reading
end BankedRing.Utf8
