import OoreBuild.Lib.Wire

/-!
# The manifest of an App Bundle

The manifest is an aapt2 `XmlNode` message. The decoder walks it with a cursor over the bytes, one
loop for each level: the node, its element, an attribute, and the string or the primitive of a
compiled item.

Its additions, shifts and slices are those of 64-bit machine numbers, so each has the outcome
`outOfRange` where its value would leave them.
-/

namespace OoreBuild.Aab

open Text Utf8 Wire

/-! ## Outcomes -/

/-- How a decoding ends. -/
inductive Outcome (α : Type) where
  | ok (value : α)
  | error (message : Text)
  | outOfRange
  deriving DecidableEq, Repr

namespace Outcome

variable {α β : Type}

def bind : Outcome α → (α → Outcome β) → Outcome β
  | ok value, f => f value
  | error message, _ => error message
  | outOfRange, _ => outOfRange

instance : Monad Outcome where
  pure := ok
  bind := bind

/-- `.context(…)` on an option. -/
def ofOption (message : Text) : Option α → Outcome α
  | some value => ok value
  | none => error message

@[simp] theorem ok_bind (value : α) (f : α → Outcome β) : (ok value >>= f) = f value := rfl

end Outcome

/-- An addition to a cursor. -/
def addCursor (cursor n : ℕ) : Outcome ℕ :=
  if cursor + n < 2 ^ 64 then .ok (cursor + n) else .outOfRange

/-- A shift of a 64-bit number. -/
def shiftLeft (n shift : ℕ) : Outcome ℕ :=
  if shift < 64 then .ok (n <<< shift % 2 ^ 64) else .outOfRange

/-- `&bytes[start..]`. -/
def sliceFrom (bytes : Bytes) (start : ℕ) : Outcome Bytes :=
  if start ≤ bytes.length then .ok (bytes.drop start) else .outOfRange

/-- `bytes.get(start..stop)`. -/
def getRange (bytes : Bytes) (start stop : ℕ) : Option Bytes :=
  if start ≤ stop ∧ stop ≤ bytes.length then some ((bytes.take stop).drop start) else none

/-! ## Fields -/

def truncatedVarint : Text := "truncated varint".toList

def varintTooLong : Text := "varint is too long".toList

def truncatedField : Text := "truncated protobuf field".toList

/-- The loop of `readVarint`, with the shifts that are left. -/
def readVarintFrom (bytes : Bytes) : List ℕ → ℕ → ℕ → Outcome (ℕ × ℕ)
  | [], _, _ => .error varintTooLong
  | shift :: shifts, value, cursor => do
    let byte ← Outcome.ofOption truncatedVarint bytes[cursor]?
    let cursor ← addCursor cursor 1
    let part ← shiftLeft (byte.toNat &&& 0x7f) shift
    if byte.toNat &&& 0x80 = 0 then return (value ||| part, cursor)
    readVarintFrom bytes shifts (value ||| part) cursor

/-- The value and the cursor behind it. -/
def readVarint (bytes : Bytes) (cursor : ℕ) : Outcome (ℕ × ℕ) :=
  readVarintFrom bytes (List.range' 0 10 7) 0 cursor

/-- The value of a field from its wire type. -/
def readValue (bytes : Bytes) (key cursor : ℕ) : Outcome (Value × ℕ) :=
  match key &&& 7 with
  | 0 => do
    let (n, cursor) ← readVarint bytes cursor
    return (.varint n, cursor)
  | 1 => do
    let cursor ← addCursor cursor 8
    return (.fixed, cursor)
  | 2 => do
    let (length, cursor) ← readVarint bytes cursor
    let stop ← addCursor cursor length
    let value ← Outcome.ofOption truncatedField (getRange bytes cursor stop)
    let cursor ← addCursor cursor length
    return (.bytes value, cursor)
  | 5 => do
    let cursor ← addCursor cursor 4
    return (.fixed, cursor)
  | other => .error ("unsupported protobuf wire type ".toList ++ ofNat other)

/-- The next field and the bytes behind it. -/
def nextField (bytes : Bytes) : Outcome (Option (Field × Bytes)) :=
  if bytes.isEmpty then .ok none
  else do
    let (key, cursor) ← readVarint bytes 0
    let (value, cursor) ← readValue bytes key cursor
    if bytes.length < cursor then .error truncatedField
    else
      let rest ← sliceFrom bytes cursor
      return some ((key >>> 3, value), rest)

/-- `while let Some((number, value)) = message.next_field()?`; each field takes a byte at least, so
`fuel` is the number of bytes and one more. -/
def foldFields {σ : Type} (step : σ → Field → Outcome σ) : ℕ → Bytes → σ → Outcome σ
  | 0, _, s => .ok s
  | fuel + 1, bytes, s => do
    match ← nextField bytes with
    | none => return s
    | some (field, rest) =>
      let s ← step s field
      foldFields step fuel rest s

/-- The loop over all fields of a message. -/
def forFields {σ : Type} (bytes : Bytes) (s : σ) (step : σ → Field → Outcome σ) : Outcome σ :=
  foldFields step (bytes.length + 1) bytes s

/-! ## Messages -/

structure Attribute where
  namespaceUri : Text := []
  name : Text := []
  value : Text := []
  compiledInt : Option ℤ := none
  compiledString : Option Text := none
  deriving DecidableEq, Repr

/-- `i64::from(raw as u32 as i32)`. -/
def toI32 (raw : ℕ) : ℤ := (raw : ℤ).bmod (2 ^ 32)

/-- `while let Some((1, Value::Bytes(text))) = string.next_field()?`, which ends at any other
field. -/
def decodeString : ℕ → Bytes → Attribute → Outcome Attribute
  | 0, _, attr => .ok attr
  | fuel + 1, bytes, attr => do
    match ← nextField bytes with
    | some ((1, .bytes text), rest) =>
      decodeString fuel rest { attr with compiledString := some (decodeLossy text) }
    | _ => return attr

def decodePrimitive (bytes : Bytes) (attr : Attribute) : Outcome Attribute :=
  forFields bytes attr fun attr field =>
    match field with
    | (6, .varint raw) | (7, .varint raw) => .ok { attr with compiledInt := some (toI32 raw) }
    | _ => .ok attr

/-- `str` (2) holds a `String { value = 1 }` and `prim` (7) holds a `Primitive` whose int fields are
6 (decimal) and 7 (hex). -/
def decodeCompiledItem (bytes : Bytes) (attr : Attribute) : Outcome Attribute :=
  forFields bytes attr fun attr field =>
    match field with
    | (2, .bytes string) => decodeString (string.length + 1) string attr
    | (7, .bytes primitive) => decodePrimitive primitive attr
    | _ => .ok attr

def decodeAttribute (bytes : Bytes) : Outcome Attribute :=
  forFields bytes {} fun attr field =>
    match field with
    | (1, .bytes text) => .ok { attr with namespaceUri := decodeLossy text }
    | (2, .bytes text) => .ok { attr with name := decodeLossy text }
    | (3, .bytes text) => .ok { attr with value := decodeLossy text }
    | (6, .bytes item) => decodeCompiledItem item attr
    | _ => .ok attr

structure AabManifest where
  packageName : Text
  versionCode : ℤ
  versionName : Option Text
  deriving DecidableEq, Repr

def androidNamespace : Text := "http://schemas.android.com/apk/res/android".toList

/-- The bytes of the root element of the node. -/
def rootElement (bytes : Bytes) : Outcome (Option Bytes) :=
  forFields bytes none fun element field =>
    match field with
    | (1, .bytes payload) => .ok (some payload)
    | _ => .ok element

/-- The name and the attributes of an element. -/
def decodeElement (bytes : Bytes) : Outcome (Text × List Attribute) :=
  forFields bytes ([], []) fun (name, attributes) field =>
    match field with
    | (3, .bytes text) => .ok (decodeLossy text, attributes)
    | (4, .bytes payload) => do
      let attr ← decodeAttribute payload
      return (name, attributes ++ [attr])
    | _ => .ok (name, attributes)

def findAttribute (attributes : List Attribute) (namespaceUri wanted : Text) : Option Attribute :=
  attributes.find? fun attr =>
    attr.namespaceUri = namespaceUri && attr.name = wanted

def readVersionCode (attr : Attribute) : Outcome ℤ :=
  match attr.compiledInt with
  | some code => .ok code
  | none =>
    Outcome.ofOption "android:versionCode is not a number".toList (parseI64 (trim attr.value))

def readVersionName (attr : Attribute) : Option Text :=
  ((some attr.value).filter (· ≠ [])).or attr.compiledString

/-- What the decoder takes from the root element. -/
def manifestOf (name : Text) (attributes : List Attribute) : Outcome AabManifest :=
  if name ≠ "manifest".toList then
    .error ("root element is <".toList ++ name ++ ">, expected <manifest>".toList)
  else do
    let packageName ← Outcome.ofOption "manifest has no package attribute".toList
      (((findAttribute attributes [] "package".toList).map Attribute.value).filter (· ≠ []))
    let versionCodeAttribute ← Outcome.ofOption "manifest has no android:versionCode".toList
      (findAttribute attributes androidNamespace "versionCode".toList)
    let versionCode ← readVersionCode versionCodeAttribute
    return {
      packageName
      versionCode
      versionName :=
        (findAttribute attributes androidNamespace "versionName".toList).bind readVersionName }

def parseManifest (bytes : Bytes) : Outcome AabManifest := do
  let element ← rootElement bytes
  let element ← Outcome.ofOption "manifest has no root element".toList element
  let (name, attributes) ← decodeElement element
  manifestOf name attributes

/-! ## Varints -/

theorem land_0x7f (n : ℕ) : n &&& 0x7f = n % 128 := Nat.and_two_pow_sub_one_eq_mod n 7

theorem land_0x80 (b : UInt8) : b.toNat &&& 0x80 = 0 ↔ b.toNat < 128 := by
  have hbytes : ∀ i : Fin 256, i.val &&& 0x80 = 0 ↔ i.val < 128 := by decide +kernel
  exact hbytes ⟨b.toNat, b.toNat_lt⟩

theorem addCursor_of_lt {cursor n : ℕ} (h : cursor + n < 2 ^ 64) :
    addCursor cursor n = .ok (cursor + n) := if_pos h

theorem addCursor_of_le {cursor n : ℕ} (h : 2 ^ 64 ≤ cursor + n) :
    addCursor cursor n = .outOfRange := if_neg (Nat.not_lt.mpr h)

theorem shiftLeft_of_lt {n shift : ℕ} (h : shift < 64) :
    shiftLeft n shift = .ok (n <<< shift % 2 ^ 64) := if_pos h

/-- The bits of a group go above those that are there. -/
theorem lor_group {value shift n : ℕ} (hvalue : value < 2 ^ shift) (hshift : shift < 64) :
    value ||| n <<< shift % 2 ^ 64 = (value + 2 ^ shift * n) % 2 ^ 64 := by
  have hpow : 2 ^ 64 = 2 ^ shift * 2 ^ (64 - shift) := by
    rw [← Nat.pow_add]
    congr 1
    omega
  have hpos : 0 < 2 ^ shift := Nat.two_pow_pos shift
  rw [Nat.shiftLeft_eq, Nat.mul_comm n, hpow, Nat.mul_mod_mul_left, Nat.or_comm,
    ← Nat.two_pow_add_eq_or_of_lt hvalue, Nat.mod_mul, Nat.add_mul_mod_self_left,
    Nat.mod_eq_of_lt hvalue, Nat.add_mul_div_left _ _ hpos, Nat.div_eq_of_lt hvalue, Nat.zero_add,
    Nat.add_comm]

/-- The loop reads the groups that are there, or fails. -/
theorem readVarintFrom_spec (bytes : Bytes) (k shift value cursor : ℕ) (hshift : shift + 7 * k = 70)
    (hvalue : value < 2 ^ shift) (hcursor : cursor + k < 2 ^ 64) :
    (∃ groups m rest, Groups k groups m ∧ bytes.drop cursor = groups ++ rest ∧
      readVarintFrom bytes (List.range' shift k 7) value cursor =
        .ok ((value + 2 ^ shift * m) % 2 ^ 64, cursor + groups.length)) ∨
    ∃ message, readVarintFrom bytes (List.range' shift k 7) value cursor = .error message ∧
      ∀ groups m rest, Groups k groups m → bytes.drop cursor ≠ groups ++ rest := by
  induction k generalizing shift value cursor with
  | zero =>
    refine .inr ⟨varintTooLong, rfl, fun groups m rest hgroups => ?_⟩
    cases hgroups
  | succ k ih =>
    rw [List.range'_succ, readVarintFrom]
    cases hbyte : bytes[cursor]? with
    | none =>
      refine .inr ⟨truncatedVarint, rfl, fun groups m rest hgroups hdrop => ?_⟩
      rw [List.drop_eq_nil_of_le (List.getElem?_eq_none_iff.mp hbyte)] at hdrop
      have := hgroups.length
      simp [List.nil_eq_append_iff.mp hdrop] at this
    | some b =>
      obtain ⟨hlt, hget⟩ := List.getElem?_eq_some_iff.mp hbyte
      have hdrop : bytes.drop cursor = b :: bytes.drop (cursor + 1) := by
        rw [List.drop_eq_getElem_cons hlt, hget]
      simp only [Outcome.ofOption, Outcome.ok_bind,
        addCursor_of_lt (show cursor + 1 < 2 ^ 64 by omega),
        shiftLeft_of_lt (show shift < 64 by omega), land_0x7f, land_0x80,
        lor_group hvalue (show shift < 64 by omega)]
      split
      · rename_i hlow
        refine .inl ⟨[b], b.toNat, bytes.drop (cursor + 1), .last hlow, hdrop, ?_⟩
        rw [Nat.mod_eq_of_lt hlow]
        rfl
      · rename_i hhigh
        have hnext : (value + 2 ^ shift * (b.toNat % 128)) % 2 ^ 64 < 2 ^ (shift + 7) := by
          have hle := Nat.mod_le (value + 2 ^ shift * (b.toNat % 128)) (2 ^ 64)
          have hgroup := Nat.mul_le_mul_left (2 ^ shift)
            (show b.toNat % 128 ≤ 127 by omega)
          rw [Nat.pow_add]
          omega
        rcases ih (shift + 7) _ (cursor + 1) (by omega) hnext (by omega) with
          ⟨groups, m, rest, hgroups, hrest, hok⟩ | ⟨message, herror, hnone⟩
        · refine .inl ⟨b :: groups, b.toNat % 128 + 128 * m, rest, .more (by omega) hgroups,
            by rw [hdrop, hrest]; rfl, ?_⟩
          have hvalue' : value + 2 ^ shift * (b.toNat % 128 + 128 * m) =
              value + 2 ^ shift * (b.toNat % 128) + 2 ^ (shift + 7) * m := by ring
          rw [hok, Nat.mod_add_mod, hvalue', List.length_cons, Nat.add_assoc cursor,
            Nat.add_comm 1]
        · refine .inr ⟨message, herror, fun groups m rest hgroups hdrop' => ?_⟩
          rw [hdrop] at hdrop'
          cases hgroups with
          | last hlow =>
            cases hdrop'
            exact hhigh hlow
          | more _ hgroups =>
            exact hnone _ _ rest hgroups (List.cons.inj hdrop').2

/-- A varint is read, or the reading fails and none is there. -/
theorem readVarint_spec (bytes : Bytes) {cursor : ℕ} (hcursor : cursor + 10 < 2 ^ 64) :
    (∃ varint n rest, IsVarint varint n ∧ bytes.drop cursor = varint ++ rest ∧
      readVarint bytes cursor = .ok (n, cursor + varint.length)) ∨
    ∃ message, readVarint bytes cursor = .error message ∧
      ∀ varint n rest, IsVarint varint n → bytes.drop cursor ≠ varint ++ rest := by
  rcases readVarintFrom_spec bytes 10 0 0 cursor rfl (by decide) hcursor with
    ⟨varint, m, rest, hgroups, hdrop, hok⟩ | ⟨message, herror, hnone⟩
  · refine .inl ⟨varint, m % 2 ^ 64, rest, ⟨m, hgroups, rfl⟩, hdrop, ?_⟩
    unfold readVarint
    rw [hok, Nat.pow_zero, Nat.one_mul, Nat.zero_add]
  · refine .inr ⟨message, herror, fun varint n rest hvarint => ?_⟩
    obtain ⟨m, hgroups, -⟩ := hvarint
    exact hnone varint m rest hgroups

theorem readVarint_of_isVarint {bytes varint rest : Bytes} {cursor n : ℕ}
    (hcursor : cursor + 10 < 2 ^ 64) (h : IsVarint varint n)
    (hdrop : bytes.drop cursor = varint ++ rest) :
    readVarint bytes cursor = .ok (n, cursor + varint.length) := by
  rcases readVarint_spec bytes hcursor with ⟨varint', n', rest', h', hdrop', hok⟩ | ⟨_, _, hnone⟩
  · obtain ⟨rfl, rfl⟩ := h.unique h' (hdrop.symm.trans hdrop')
    exact hok
  · exact absurd hdrop (hnone varint n rest h)

/-! ## Fields -/

theorem land_7 (n : ℕ) : n &&& 7 = n % 8 := Nat.and_two_pow_sub_one_eq_mod n 3

theorem shiftRight_3 (n : ℕ) : n >>> 3 = n / 8 := Nat.shiftRight_eq_div_pow n 3

theorem getRange_append {a b rest : Bytes} :
    getRange (a ++ b ++ rest) a.length (a.length + b.length) = some b := by
  unfold getRange
  rw [if_pos (by simp), List.append_assoc, List.take_length_add_append,
    List.take_left, List.drop_left]

/-- What comes of a field behind its key. -/
def fieldOf (bytes : Bytes) (key : ℕ) (result : Value × ℕ) : Outcome (Option (Field × Bytes)) :=
  if bytes.length < result.2 then .error truncatedField
  else
    (sliceFrom bytes result.2).bind fun rest => .ok (some ((key / 8, result.1), rest))

theorem nextField_of_key {keyBytes rest : Bytes} {key : ℕ} (hkey : IsVarint keyBytes key) :
    nextField (keyBytes ++ rest) =
      (readValue (keyBytes ++ rest) key keyBytes.length).bind (fieldOf (keyBytes ++ rest) key) := by
  have hne : (keyBytes ++ rest).isEmpty = false := by
    have := hkey.length
    rw [List.isEmpty_eq_false_iff_exists_mem]
    obtain ⟨b, tail, rfl⟩ := List.exists_cons_of_length_pos this.1
    exact ⟨b, by simp⟩
  unfold nextField
  rw [hne, if_neg Bool.false_ne_true,
    readVarint_of_isVarint (by decide) hkey (show (keyBytes ++ rest).drop 0 = _ from rfl),
    Outcome.ok_bind, Nat.zero_add]
  dsimp only
  rw [shiftRight_3]
  rfl

theorem fieldOf_append {a rest : Bytes} {key : ℕ} (value : Value) :
    fieldOf (a ++ rest) key (value, a.length) = .ok (some ((key / 8, value), rest)) := by
  unfold fieldOf sliceFrom
  rw [if_neg (by simp), if_pos (by simp), List.drop_left]
  rfl

section ReadValue

variable {bytes : Bytes} {key cursor : ℕ}

theorem readValue_varint (htype : key % 8 = 0) : readValue bytes key cursor =
    (readVarint bytes cursor).bind fun result => .ok (.varint result.1, result.2) := by
  unfold readValue
  rw [land_7, htype]
  rfl

theorem readValue_fixed64 (htype : key % 8 = 1) : readValue bytes key cursor =
    (addCursor cursor 8).bind fun cursor => .ok (.fixed, cursor) := by
  unfold readValue
  rw [land_7, htype]
  rfl

theorem readValue_bytes (htype : key % 8 = 2) : readValue bytes key cursor =
    (readVarint bytes cursor).bind fun result => (addCursor result.2 result.1).bind fun stop =>
      (Outcome.ofOption truncatedField (getRange bytes result.2 stop)).bind fun value =>
        (addCursor result.2 result.1).bind fun cursor => .ok (.bytes value, cursor) := by
  unfold readValue
  rw [land_7, htype]
  rfl

theorem readValue_fixed32 (htype : key % 8 = 5) : readValue bytes key cursor =
    (addCursor cursor 4).bind fun cursor => .ok (.fixed, cursor) := by
  unfold readValue
  rw [land_7, htype]
  rfl

theorem readValue_other (htype : key % 8 ≠ 0 ∧ key % 8 ≠ 1 ∧ key % 8 ≠ 2 ∧ key % 8 ≠ 5) :
    ∃ message, readValue bytes key cursor = .error message := by
  obtain ⟨h0, h1, h2, h5⟩ := htype
  unfold readValue
  rw [land_7]
  split
  · rename_i heq
    exact absurd heq h0
  · rename_i heq
    exact absurd heq h1
  · rename_i heq
    exact absurd heq h2
  · rename_i heq
    exact absurd heq h5
  · exact ⟨_, rfl⟩

end ReadValue

/-- A field that is there is read. -/
theorem nextField_of_fieldBytes {field : Field} {bytes rest : Bytes} (h : FieldBytes field bytes) :
    nextField (bytes ++ rest) = .ok (some (field, rest)) := by
  cases h with
  | @varint keyBytes valueBytes key n hkey htype hvalue =>
    have hlength := hkey.length
    rw [List.append_assoc, nextField_of_key hkey, readValue_varint htype,
      readVarint_of_isVarint (by omega) hvalue List.drop_left, ← List.append_assoc,
      ← List.length_append]
    exact fieldOf_append _
  | @fixed64 keyBytes payload key hkey htype hpayload =>
    have hlength := hkey.length
    have hcursor : (keyBytes ++ payload).length = keyBytes.length + 8 := by
      rw [List.length_append, hpayload]
    rw [List.append_assoc, nextField_of_key hkey, readValue_fixed64 htype,
      addCursor_of_lt (by omega), ← List.append_assoc, ← hcursor]
    exact fieldOf_append _
  | @bytes keyBytes lengthBytes payload key hkey htype hvalue hfits =>
    have hlength := hkey.length
    have hstop : (keyBytes ++ lengthBytes ++ payload).length =
        (keyBytes ++ lengthBytes).length + payload.length := List.length_append
    rw [List.append_assoc, List.append_assoc, nextField_of_key hkey, readValue_bytes htype,
      readVarint_of_isVarint (by omega) hvalue List.drop_left, ← List.append_assoc,
      ← List.append_assoc, ← List.length_append]
    show ((addCursor _ _).bind fun stop => _ : Outcome _).bind _ = _
    rw [addCursor_of_lt (by rw [List.length_append]; exact hfits)]
    show ((Outcome.ofOption _ (getRange _ _ _)).bind fun value => _ : Outcome _).bind _ = _
    rw [getRange_append, ← hstop]
    exact fieldOf_append _
  | @fixed32 keyBytes payload key hkey htype hpayload =>
    have hlength := hkey.length
    have hcursor : (keyBytes ++ payload).length = keyBytes.length + 4 := by
      rw [List.length_append, hpayload]
    rw [List.append_assoc, nextField_of_key hkey, readValue_fixed32 htype,
      addCursor_of_lt (by omega), ← List.append_assoc, ← hcursor]
    exact fieldOf_append _

/-- A length that passes 64 bits takes the cursor out of its range. -/
theorem nextField_of_badLength {bytes : Bytes} (h : BadLength bytes) :
    nextField bytes = .outOfRange := by
  obtain ⟨keyBytes, lengthBytes, rest, key, length, rfl, hkey, htype, hvalue, hle⟩ := h
  have hlength := hkey.length
  rw [List.append_assoc, nextField_of_key hkey, readValue_bytes htype,
    readVarint_of_isVarint (by omega) hvalue List.drop_left]
  show ((addCursor _ _).bind fun stop => _ : Outcome _).bind _ = _
  rw [addCursor_of_le hle]
  rfl

/-- The payload of a fixed width is there, or the bytes end before. -/
theorem fixed_cases {keyBytes rest : Bytes} {key width : ℕ}
    (hfield : ∀ payload : Bytes, payload.length = width →
      FieldBytes (key / 8, .fixed) (keyBytes ++ payload))
    (hnext : nextField (keyBytes ++ rest) =
      fieldOf (keyBytes ++ rest) key (.fixed, keyBytes.length + width)) :
    (∃ field bytes rest', keyBytes ++ rest = bytes ++ rest' ∧ FieldBytes field bytes) ∨
      ∃ message, nextField (keyBytes ++ rest) = .error message := by
  by_cases hlength : width ≤ rest.length
  · refine .inl ⟨_, keyBytes ++ rest.take width, rest.drop width, ?_,
      hfield _ (List.length_take_of_le hlength)⟩
    rw [List.append_assoc, List.take_append_drop]
  · refine .inr ⟨truncatedField, ?_⟩
    rw [hnext]
    exact if_pos (by rw [List.length_append]; show _ < keyBytes.length + width; omega)

/-- The four ways a field begins: the end, a field, a length out of range, and an error. -/
theorem nextField_cases (bytes : Bytes) : bytes = [] ∨
    (∃ field fieldBytes rest, bytes = fieldBytes ++ rest ∧ FieldBytes field fieldBytes) ∨
    BadLength bytes ∨ ∃ message, nextField bytes = .error message := by
  by_cases hnil : bytes = []
  · exact .inl hnil
  refine .inr ?_
  rcases readVarint_spec bytes (show 0 + 10 < 2 ^ 64 by decide) with
    ⟨keyBytes, key, rest, hkey, hbytes, -⟩ | ⟨message, herror, -⟩
  · rw [List.drop_zero] at hbytes
    subst hbytes
    have hlength := hkey.length
    by_cases h0 : key % 8 = 0
    · rcases readVarint_spec (keyBytes ++ rest) (show keyBytes.length + 10 < 2 ^ 64 by omega) with
        ⟨valueBytes, n, rest', hvalue, hdrop, -⟩ | ⟨message, herror, -⟩
      · rw [List.drop_left] at hdrop
        exact .inl ⟨_, keyBytes ++ valueBytes, rest', by rw [hdrop, List.append_assoc],
          .varint hkey h0 hvalue⟩
      · refine .inr (.inr ⟨message, ?_⟩)
        rw [nextField_of_key hkey, readValue_varint h0, herror]
        rfl
    by_cases h1 : key % 8 = 1
    · refine (fixed_cases (fun payload => .fixed64 hkey h1) ?_).imp id .inr
      rw [nextField_of_key hkey, readValue_fixed64 h1, addCursor_of_lt (by omega)]
      rfl
    by_cases h2 : key % 8 = 2
    · rcases readVarint_spec (keyBytes ++ rest) (show keyBytes.length + 10 < 2 ^ 64 by omega) with
        ⟨lengthBytes, length, rest', hvalue, hdrop, hok⟩ | ⟨message, herror, -⟩
      · rw [List.drop_left] at hdrop
        subst hdrop
        rw [← List.append_assoc] at hok ⊢
        by_cases hfits : keyBytes.length + lengthBytes.length + length < 2 ^ 64
        · by_cases hthere : length ≤ rest'.length
          · refine .inl ⟨_, keyBytes ++ lengthBytes ++ rest'.take length, rest'.drop length, ?_,
              .bytes hkey h2 ?_ ?_⟩
            · rw [List.append_assoc _ (rest'.take length), List.take_append_drop]
            · rw [List.length_take_of_le hthere]
              exact hvalue
            · rw [List.length_take_of_le hthere]
              exact hfits
          · refine .inr (.inr ⟨truncatedField, ?_⟩)
            rw [List.append_assoc, nextField_of_key hkey, readValue_bytes h2, ← List.append_assoc,
              hok]
            show ((addCursor _ _).bind fun stop => _ : Outcome _).bind _ = _
            rw [addCursor_of_lt hfits]
            show ((Outcome.ofOption _ (getRange _ _ _)).bind fun value => _ : Outcome _).bind _ = _
            have hnone : getRange (keyBytes ++ lengthBytes ++ rest')
                (keyBytes.length + lengthBytes.length)
                (keyBytes.length + lengthBytes.length + length) = none :=
              if_neg (by simp only [List.length_append]; omega)
            rw [hnone]
            rfl
        · exact .inr (.inl ⟨keyBytes, lengthBytes, rest', key, length, rfl, hkey, h2, hvalue,
            Nat.le_of_not_lt hfits⟩)
      · refine .inr (.inr ⟨message, ?_⟩)
        rw [nextField_of_key hkey, readValue_bytes h2, herror]
        rfl
    by_cases h5 : key % 8 = 5
    · refine (fixed_cases (fun payload => .fixed32 hkey h5) ?_).imp id .inr
      rw [nextField_of_key hkey, readValue_fixed32 h5, addCursor_of_lt (by omega)]
      rfl
    · obtain ⟨message, herror⟩ := @readValue_other (keyBytes ++ rest) key keyBytes.length
        ⟨h0, h1, h2, h5⟩
      refine .inr (.inr ⟨message, ?_⟩)
      rw [nextField_of_key hkey, herror]
      rfl
  · refine .inr (.inr ⟨message, ?_⟩)
    unfold nextField
    rw [if_neg (by simpa using hnil), herror]
    rfl

/-! ## Loops -/

/-- The bytes of a message whose fields are all fine. -/
def Readable (fine : Field → Prop) (bytes : Bytes) : Prop :=
  ∃ fields, Message fields bytes ∧ ∀ field ∈ fields, fine field

/-- Behind fields that are all fine the bytes go on with a length out of range, or with a field that
has one inside. -/
def Broken (fine bad : Field → Prop) (bytes : Bytes) : Prop :=
  ∃ fields before rest, bytes = before ++ rest ∧ Message fields before ∧
    (∀ field ∈ fields, fine field) ∧
    (BadLength rest ∨ ∃ field fieldBytes rest', rest = fieldBytes ++ rest' ∧
      FieldBytes field fieldBytes ∧ bad field)

/-- The outcome of a decoding is known from its input. -/
structure Follows {σ α : Type} (fine bad : α → Prop) (decode : σ → α → Outcome σ) : Prop where
  ok_iff : ∀ s a, (∃ s', decode s a = .ok s') ↔ fine a
  outOfRange_iff : ∀ s a, decode s a = .outOfRange ↔ bad a

section Loop

variable {σ : Type} {fine bad : Field → Prop} {step : σ → Field → Outcome σ}

theorem nextField_nil : nextField [] = .ok none := rfl

theorem foldFields_nil (fuel : ℕ) (s : σ) : foldFields step (fuel + 1) [] s = .ok s := rfl

theorem foldFields_fieldBytes {field : Field} {bytes : Bytes} (h : FieldBytes field bytes)
    (rest : Bytes) (fuel : ℕ) (s : σ) : foldFields step (fuel + 1) (bytes ++ rest) s =
      (step s field).bind fun s => foldFields step fuel rest s := by
  rw [foldFields, nextField_of_fieldBytes h]
  rfl

/-- The loop over a message is the fold over its fields. -/
theorem foldFields_message {fields : List Field} {bytes : Bytes} (h : Message fields bytes)
    {fuel : ℕ} (hfuel : bytes.length < fuel) (s : σ) :
    foldFields step fuel bytes s = fields.foldlM step s := by
  induction h generalizing fuel s with
  | nil =>
    obtain ⟨fuel, rfl⟩ : ∃ less, fuel = less + 1 := ⟨fuel - 1, by omega⟩
    rfl
  | cons hfield _ ih =>
    have hpos := hfield.length_pos
    rw [List.length_append] at hfuel
    obtain ⟨fuel, rfl⟩ : ∃ less, fuel = less + 1 := ⟨fuel - 1, by omega⟩
    rw [foldFields_fieldBytes hfield, List.foldlM_cons]
    exact congrArg _ (funext fun s => ih (by omega) s)

theorem not_badLength_nil : ¬BadLength [] := by
  intro h
  have hnext := nextField_of_badLength h
  rw [nextField_nil] at hnext
  cases hnext

theorem not_badLength_append {field : Field} {bytes : Bytes} (h : FieldBytes field bytes)
    (rest : Bytes) : ¬BadLength (bytes ++ rest) := by
  intro hbad
  have hnext := nextField_of_badLength hbad
  rw [nextField_of_fieldBytes h] at hnext
  cases hnext

/-- A field and the bytes behind it are found in one way. -/
theorem fieldBytes_unique {field field' : Field} {bytes bytes' rest rest' : Bytes}
    (h : FieldBytes field bytes) (h' : FieldBytes field' bytes')
    (heq : bytes ++ rest = bytes' ++ rest') : field = field' ∧ rest = rest' := by
  have hnext : nextField (bytes ++ rest) = .ok (some (field, rest)) := nextField_of_fieldBytes h
  rw [heq, nextField_of_fieldBytes h'] at hnext
  cases hnext
  exact ⟨rfl, rfl⟩

theorem readable_nil (fine : Field → Prop) : Readable fine [] :=
  ⟨[], .nil, fun _ h => absurd h List.not_mem_nil⟩

theorem not_broken_nil (fine bad : Field → Prop) : ¬Broken fine bad [] := by
  rintro ⟨fields, before, rest, hbytes, -, -, hrest⟩
  obtain ⟨rfl, rfl⟩ := List.nil_eq_append_iff.mp hbytes
  rcases hrest with hlength | ⟨field, fieldBytes, rest', hnil, hfield, -⟩
  · exact not_badLength_nil hlength
  · have hpos := hfield.length_pos
    rw [(List.nil_eq_append_iff.mp hnil).1] at hpos
    exact absurd hpos (Nat.lt_irrefl 0)

theorem readable_append {field : Field} {bytes rest : Bytes} (h : FieldBytes field bytes) :
    Readable fine (bytes ++ rest) ↔ fine field ∧ Readable fine rest := by
  constructor
  · rintro ⟨fields, hmessage, hfine⟩
    generalize heq : bytes ++ rest = all at hmessage
    cases hmessage with
    | nil =>
      have hpos := h.length_pos
      rw [(List.append_eq_nil_iff.mp heq).1] at hpos
      exact absurd hpos (Nat.lt_irrefl 0)
    | cons hfield hrest =>
      obtain ⟨rfl, rfl⟩ := fieldBytes_unique h hfield heq
      exact ⟨hfine _ List.mem_cons_self, _, hrest,
        fun other hother => hfine other (List.mem_cons_of_mem _ hother)⟩
  · rintro ⟨hfine, fields, hrest, hall⟩
    refine ⟨field :: fields, .cons h hrest, fun other hother => ?_⟩
    rcases List.mem_cons.mp hother with rfl | hmem
    · exact hfine
    · exact hall other hmem

theorem broken_append {field : Field} {bytes rest : Bytes} (h : FieldBytes field bytes) :
    Broken fine bad (bytes ++ rest) ↔ bad field ∨ fine field ∧ Broken fine bad rest := by
  constructor
  · rintro ⟨fields, before, rest', heq, hmessage, hfine, hrest⟩
    cases hmessage with
    | nil =>
      rw [List.nil_append] at heq
      rcases hrest with hlength | ⟨field', fieldBytes, rest'', heq', hfield', hbad⟩
      · exact absurd (heq ▸ hlength) (not_badLength_append h rest)
      · obtain ⟨rfl, -⟩ := fieldBytes_unique h hfield' (heq.trans heq')
        exact .inl hbad
    | cons hfield hmessage =>
      rw [List.append_assoc] at heq
      obtain ⟨rfl, rfl⟩ := fieldBytes_unique h hfield heq
      exact .inr ⟨hfine _ List.mem_cons_self, _, _, _, rfl, hmessage,
        fun other hother => hfine other (List.mem_cons_of_mem _ hother), hrest⟩
  · rintro (hbad | ⟨hfine, fields, before, rest', rfl, hmessage, hall, hrest⟩)
    · exact ⟨[], [], _, rfl, .nil, fun _ h => absurd h List.not_mem_nil,
        .inr ⟨field, bytes, rest, rfl, h, hbad⟩⟩
    · refine ⟨field :: fields, bytes ++ before, rest', (List.append_assoc ..).symm,
        .cons h hmessage, fun other hother => ?_, hrest⟩
      rcases List.mem_cons.mp hother with rfl | hmem
      · exact hfine
      · exact hall other hmem

/-- Where no field begins, nothing is readable. -/
theorem not_readable_of_nextField {bytes : Bytes}
    (hnext : ∀ result, nextField bytes ≠ .ok result) : ¬Readable fine bytes := by
  rintro ⟨fields, hmessage, -⟩
  cases hmessage with
  | nil => exact hnext none nextField_nil
  | cons hfield hrest => exact hnext _ (nextField_of_fieldBytes hfield)

theorem not_broken_of_nextField {bytes : Bytes} {message : Text}
    (hnext : nextField bytes = .error message) : ¬Broken fine bad bytes := by
  rintro ⟨fields, before, rest, rfl, hmessage, -, hrest⟩
  cases hmessage with
  | nil =>
    rcases hrest with hlength | ⟨field, fieldBytes, rest', rfl, hfield, -⟩
    · rw [List.nil_append, nextField_of_badLength hlength] at hnext
      cases hnext
    · rw [List.nil_append, nextField_of_fieldBytes hfield] at hnext
      cases hnext
  | cons hfield hmessage =>
    rw [List.append_assoc, nextField_of_fieldBytes hfield] at hnext
    cases hnext

/-- The outcome of the loop follows from the bytes when that of each step does. -/
theorem foldFields_follows (h : Follows fine bad step) (fuel : ℕ) (bytes : Bytes)
    (hfuel : bytes.length < fuel) (s : σ) :
    ((∃ s', foldFields step fuel bytes s = .ok s') ↔ Readable fine bytes) ∧
      (foldFields step fuel bytes s = .outOfRange ↔ Broken fine bad bytes) := by
  induction fuel generalizing bytes s with
  | zero => omega
  | succ fuel ih =>
    rcases nextField_cases bytes with rfl | ⟨field, fieldBytes, rest, rfl, hfield⟩ | hlength |
      ⟨message, herror⟩
    · rw [foldFields_nil]
      exact ⟨iff_of_true ⟨s, rfl⟩ (readable_nil fine),
        iff_of_false (fun h => by cases h) (not_broken_nil fine bad)⟩
    · have hpos := hfield.length_pos
      rw [List.length_append] at hfuel
      rw [foldFields_fieldBytes hfield, readable_append hfield, broken_append hfield]
      have hok := h.ok_iff s field
      have hout := h.outOfRange_iff s field
      cases hstep : step s field with
      | ok s' =>
        rw [hstep] at hok hout
        have hfine : fine field := hok.mp ⟨s', rfl⟩
        have hnot : ¬bad field := fun hbad => by cases hout.mpr hbad
        obtain ⟨ihok, ihout⟩ := ih rest (by omega) s'
        exact ⟨ihok.trans (by simp [hfine]), ihout.trans (by simp [hfine, hnot])⟩
      | error message =>
        rw [hstep] at hok hout
        have hfine : ¬fine field := fun hfine => by cases (hok.mpr hfine).choose_spec
        have hnot : ¬bad field := fun hbad => by cases hout.mpr hbad
        exact ⟨iff_of_false (fun ⟨_, h⟩ => by cases h) (fun h => hfine h.1),
          iff_of_false (fun h => by cases h) (by simp [hfine, hnot])⟩
      | outOfRange =>
        rw [hstep] at hok hout
        have hfine : ¬fine field := fun hfine => by cases (hok.mpr hfine).choose_spec
        exact ⟨iff_of_false (fun ⟨_, h⟩ => by cases h) (fun h => hfine h.1),
          iff_of_true rfl (.inl (hout.mp rfl))⟩
    · have hnext := nextField_of_badLength hlength
      have hloop : foldFields step (fuel + 1) bytes s = .outOfRange := by
        rw [foldFields, hnext]
        rfl
      rw [hloop]
      refine ⟨iff_of_false (fun ⟨_, h⟩ => by cases h)
        (not_readable_of_nextField fun result h => ?_),
        iff_of_true rfl ⟨[], [], bytes, rfl, .nil, fun _ h => absurd h List.not_mem_nil,
          .inl hlength⟩⟩
      rw [hnext] at h
      cases h
    · have hloop : foldFields step (fuel + 1) bytes s = .error message := by
        rw [foldFields, herror]
        rfl
      rw [hloop]
      refine ⟨iff_of_false (fun ⟨_, h⟩ => by cases h)
        (not_readable_of_nextField fun result h => ?_),
        iff_of_false (fun h => by cases h) (not_broken_of_nextField herror)⟩
      rw [herror] at h
      cases h

theorem forFields_follows (h : Follows fine bad step) :
    Follows (Readable fine) (Broken fine bad) fun s bytes => forFields bytes s step where
  ok_iff s bytes := (foldFields_follows h _ bytes (Nat.lt_succ_self _) s).1
  outOfRange_iff s bytes := (foldFields_follows h _ bytes (Nat.lt_succ_self _) s).2

end Loop

end OoreBuild.Aab
