import OoreBuild.Lib.Text

/-!
# UTF-8

The bytes of a text, and the lossy reading of any bytes as a text: where no character begins, one
replacement character stands for the longest beginning of a character that is there.
-/

namespace Utf8

/-- A string of bytes. -/
abbrev Bytes := List UInt8

/-- The character that the bytes begin with. -/
def decodeChar (bytes : Bytes) : Option Char := bytes.toByteArray.utf8DecodeChar? 0

theorem decodeChar_append (c : Char) (bytes : Bytes) :
    decodeChar (String.utf8EncodeChar c ++ bytes) = some c := by
  unfold decodeChar
  rw [List.toByteArray_append]
  exact ByteArray.utf8DecodeChar?_utf8EncodeChar_append

/-- Whether the second byte continues a character of three or four bytes. -/
def secondFits (first second : UInt8) : Bool :=
  if first = 0xE0 then 0xA0 ≤ second && second ≤ 0xBF
  else if first = 0xED then 0x80 ≤ second && second ≤ 0x9F
  else if first = 0xF0 then 0x90 ≤ second && second ≤ 0xBF
  else if first = 0xF4 then 0x80 ≤ second && second ≤ 0x8F
  else 0xE1 ≤ first && first ≤ 0xF3 && 0x80 ≤ second && second ≤ 0xBF

/-- The bytes that one replacement character stands for, where no character begins. -/
def invalidLength : Bytes → ℕ
  | first :: second :: rest =>
    if !secondFits first second then 1
    else if 0xF0 ≤ first && rest.head?.any fun third => 0x80 ≤ third && third ≤ 0xBF then 3
    else 2
  | _ => 1

/-- The lossy reading with at most `fuel` characters. -/
def decodeFrom : ℕ → Bytes → Text
  | 0, _ | _ + 1, [] => []
  | fuel + 1, first :: rest =>
    match decodeChar (first :: rest) with
    | some c => c :: decodeFrom fuel ((first :: rest).drop c.utf8Size)
    | none => '\uFFFD' :: decodeFrom fuel ((first :: rest).drop (invalidLength (first :: rest)))

/-- The lossy reading; every character takes a byte at least. -/
def decodeLossy (bytes : Bytes) : Text := decodeFrom bytes.length bytes

theorem length_encodeChar_pos (c : Char) : 0 < (String.utf8EncodeChar c).length := by
  rw [String.length_utf8EncodeChar]
  exact c.utf8Size_pos

theorem decodeFrom_bytes (text : Text) (fuel : ℕ) (hfuel : (Text.bytes text).length ≤ fuel) :
    decodeFrom fuel (Text.bytes text) = text := by
  induction text generalizing fuel with
  | nil => cases fuel <;> rfl
  | cons c text ih =>
    have hpos := length_encodeChar_pos c
    have hbytes : Text.bytes (c :: text) = String.utf8EncodeChar c ++ Text.bytes text := rfl
    rw [hbytes, List.length_append] at hfuel
    obtain ⟨fuel, rfl⟩ : ∃ less, fuel = less + 1 := ⟨fuel - 1, by omega⟩
    rw [hbytes]
    obtain ⟨first, rest, hcons⟩ := List.exists_cons_of_length_pos hpos
    have hchar := decodeChar_append c (Text.bytes text)
    have hdrop : (String.utf8EncodeChar c ++ Text.bytes text).drop c.utf8Size = Text.bytes text :=
      List.drop_left' (String.length_utf8EncodeChar c)
    rw [hcons, List.cons_append] at hchar hdrop ⊢
    rw [decodeFrom, hchar]
    show c :: decodeFrom fuel _ = _
    rw [hdrop, ih fuel (by omega)]

/-- A text is read back from its bytes. -/
@[simp] theorem decodeLossy_bytes (text : Text) : decodeLossy (Text.bytes text) = text :=
  decodeFrom_bytes text _ le_rfl

/-! ## ASCII -/

theorem encodeChar_ascii {c : Char} (h : c.toNat < 128) :
    String.utf8EncodeChar c = [UInt8.ofNat c.toNat] := by
  have hval : c.val.toNat ≤ 0x7f := by
    have : c.toNat = c.val.toNat := rfl
    omega
  simp only [String.utf8EncodeChar, if_pos hval]
  rfl

/-- No byte of a character outside ASCII is an ASCII byte. -/
theorem le_of_mem_encodeChar {c : Char} (h : 128 ≤ c.toNat) {byte : UInt8}
    (hb : byte ∈ String.utf8EncodeChar c) : 128 ≤ byte.toNat := by
  have hval : ¬c.val.toNat ≤ 0x7f := by
    have : c.toNat = c.val.toNat := rfl
    omega
  simp only [String.utf8EncodeChar, if_neg hval] at hb
  split at hb
  · simp only [List.mem_cons, List.not_mem_nil, or_false] at hb
    rcases hb with rfl | rfl <;> simp only [UInt8.toNat_ofNat'] <;> omega
  · split at hb
    · simp only [List.mem_cons, List.not_mem_nil, or_false] at hb
      rcases hb with rfl | rfl | rfl <;> simp only [UInt8.toNat_ofNat'] <;> omega
    · simp only [List.mem_cons, List.not_mem_nil, or_false] at hb
      rcases hb with rfl | rfl | rfl | rfl <;> simp only [UInt8.toNat_ofNat'] <;> omega

end Utf8
