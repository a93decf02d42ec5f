import OoreBuild.Lib.Utf8

/-!
# The protobuf wire format

A message is a sequence of fields, and a field is its key and its value. A varint has seven bits in
each byte, the low ones first, and of more than 64 bits the high ones are dropped.
-/

namespace Wire

open Utf8

/-- The value of a field; those of a fixed width are not looked into. -/
inductive Value where
  | varint (n : ℕ)
  | bytes (payload : Bytes)
  | fixed
  deriving DecidableEq, Repr

/-- A field: its number and its value. -/
abbrev Field := ℕ × Value

/-- The bytes of a number in groups of seven bits, with at most `k` groups. -/
inductive Groups : ℕ → Bytes → ℕ → Prop
  | last {k : ℕ} {b : UInt8} (hb : b.toNat < 128) : Groups (k + 1) [b] b.toNat
  | more {k n : ℕ} {b : UInt8} {bytes : Bytes} (hb : 128 ≤ b.toNat) (h : Groups k bytes n) :
    Groups (k + 1) (b :: bytes) (b.toNat % 128 + 128 * n)

/-- The bytes of a varint. -/
def IsVarint (bytes : Bytes) (n : ℕ) : Prop := ∃ m, Groups 10 bytes m ∧ n = m % 2 ^ 64

theorem Groups.length {k n : ℕ} {bytes : Bytes} (h : Groups k bytes n) :
    0 < bytes.length ∧ bytes.length ≤ k := by
  induction h with
  | last hb => simp
  | more hb h ih => simpa using ih.2

theorem IsVarint.length {bytes : Bytes} {n : ℕ} (h : IsVarint bytes n) :
    0 < bytes.length ∧ bytes.length ≤ 10 := by
  obtain ⟨m, hgroups, -⟩ := h
  exact hgroups.length

/-- The groups of a number end by themselves. -/
theorem Groups.unique {k n m : ℕ} {a b rest rest' : Bytes} (ha : Groups k a n) (hb : Groups k b m)
    (h : a ++ rest = b ++ rest') : a = b ∧ n = m := by
  induction ha generalizing b m with
  | last hlow =>
    cases hb with
    | last hlow' =>
      cases h
      exact ⟨rfl, rfl⟩
    | more hhigh _ =>
      cases h
      omega
  | more hhigh _ ih =>
    cases hb with
    | last hlow =>
      cases h
      omega
    | more hhigh' hrest =>
      obtain ⟨rfl, htail⟩ := List.cons.inj h
      obtain ⟨rfl, rfl⟩ := ih hrest htail
      exact ⟨rfl, rfl⟩

theorem IsVarint.unique {a b rest rest' : Bytes} {n m : ℕ} (ha : IsVarint a n) (hb : IsVarint b m)
    (h : a ++ rest = b ++ rest') : a = b ∧ n = m := by
  obtain ⟨n', hgroups, rfl⟩ := ha
  obtain ⟨m', hgroups', rfl⟩ := hb
  obtain ⟨rfl, rfl⟩ := hgroups.unique hgroups' h
  exact ⟨rfl, rfl⟩

/-- The bytes of a field. -/
inductive FieldBytes : Field → Bytes → Prop
  | varint {keyBytes valueBytes : Bytes} {key n : ℕ} (hkey : IsVarint keyBytes key)
    (htype : key % 8 = 0) (hvalue : IsVarint valueBytes n) :
    FieldBytes (key / 8, .varint n) (keyBytes ++ valueBytes)
  | fixed64 {keyBytes payload : Bytes} {key : ℕ} (hkey : IsVarint keyBytes key)
    (htype : key % 8 = 1) (hlength : payload.length = 8) :
    FieldBytes (key / 8, .fixed) (keyBytes ++ payload)
  | bytes {keyBytes lengthBytes payload : Bytes} {key : ℕ} (hkey : IsVarint keyBytes key)
    (htype : key % 8 = 2) (hlength : IsVarint lengthBytes payload.length)
    (hfits : keyBytes.length + lengthBytes.length + payload.length < 2 ^ 64) :
    FieldBytes (key / 8, .bytes payload) (keyBytes ++ lengthBytes ++ payload)
  | fixed32 {keyBytes payload : Bytes} {key : ℕ} (hkey : IsVarint keyBytes key)
    (htype : key % 8 = 5) (hlength : payload.length = 4) :
    FieldBytes (key / 8, .fixed) (keyBytes ++ payload)

theorem FieldBytes.length_pos {field : Field} {bytes : Bytes} (h : FieldBytes field bytes) :
    0 < bytes.length := by
  cases h with
  | varint hkey htype hvalue =>
    have := hkey.length
    rw [List.length_append]
    omega
  | fixed64 hkey htype hlength =>
    rw [List.length_append]
    omega
  | bytes hkey htype hlength hfits =>
    have := hkey.length
    rw [List.length_append, List.length_append]
    omega
  | fixed32 hkey htype hlength =>
    rw [List.length_append]
    omega

/-- The bytes of a message with the fields in their order. -/
inductive Message : List Field → Bytes → Prop
  | nil : Message [] []
  | cons {field : Field} {fields : List Field} {bytes rest : Bytes} (h : FieldBytes field bytes)
    (hrest : Message fields rest) : Message (field :: fields) (bytes ++ rest)

/-- A field whose length passes 64 bits where it begins. -/
def BadLength (bytes : Bytes) : Prop :=
  ∃ keyBytes lengthBytes rest key length, bytes = keyBytes ++ lengthBytes ++ rest ∧
    IsVarint keyBytes key ∧ key % 8 = 2 ∧ IsVarint lengthBytes length ∧
    2 ^ 64 ≤ keyBytes.length + lengthBytes.length + length

/-! ## The fields of a message by number -/

/-- The payloads of the fields of a number. -/
def payloads (number : ℕ) (fields : List Field) : List Bytes :=
  fields.filterMap fun
    | (n, .bytes payload) => if n = number then some payload else none
    | _ => none

/-- The integers of the fields of a number. -/
def varints (number : ℕ) (fields : List Field) : List ℕ :=
  fields.filterMap fun
    | (n, .varint value) => if n = number then some value else none
    | _ => none

theorem payloads_cons (number : ℕ) (field : Field) (fields : List Field) :
    payloads number (field :: fields) = payloads number [field] ++ payloads number fields := by
  unfold payloads
  rw [← List.filterMap_append]
  rfl

theorem mem_payloads {number : ℕ} {fields : List Field} {payload : Bytes} :
    payload ∈ payloads number fields ↔ (number, .bytes payload) ∈ fields := by
  unfold payloads
  rw [List.mem_filterMap]
  constructor
  · rintro ⟨⟨n, value⟩, hmem, hsome⟩
    cases value with
    | bytes payload' =>
      dsimp only at hsome
      split at hsome
      · rename_i hn
        cases hsome
        exact hn ▸ hmem
      · cases hsome
    | varint m => cases hsome
    | fixed => cases hsome
  · intro hmem
    exact ⟨_, hmem, by simp⟩

end Wire
