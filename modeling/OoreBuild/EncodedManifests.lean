import OoreBuild.AabManifest

/-!
# Encoded manifests

Which bytes make the decoder leave the 64-bit range, and what it returns for the bytes of an encoded
manifest. The loop over the fields of a string ends at the first field that is not the string's
value, so a value behind an unknown field is not read.
-/

namespace OoreBuild.Aab

open Text Utf8 Wire

/-! ## Lengths out of range -/

/-- The field of a string that its loop goes on after. -/
def IsText (field : Field) : Prop := ∃ text, field = (1, .bytes text)

/-- Behind its values a string ends, or has another field. -/
def ReadableString (bytes : Bytes) : Prop :=
  ∃ fields before rest, bytes = before ++ rest ∧ Message fields before ∧
    (∀ field ∈ fields, IsText field) ∧
    (rest = [] ∨ ∃ field fieldBytes rest', rest = fieldBytes ++ rest' ∧
      FieldBytes field fieldBytes ∧ ¬IsText field)

def BrokenString : Bytes → Prop := Broken IsText fun _ => False

theorem decodeString_text {bytes text : Bytes} (h : FieldBytes (1, .bytes text) bytes)
    (rest : Bytes) (fuel : ℕ) (attr : Attribute) :
    decodeString (fuel + 1) (bytes ++ rest) attr =
      decodeString fuel rest { attr with compiledString := some (decodeLossy text) } := by
  rw [decodeString, nextField_of_fieldBytes h]
  rfl

/-- The loop ends at a field that is not the value. -/
theorem decodeString_other {field : Field} {bytes : Bytes} (h : FieldBytes field bytes)
    (hother : ¬IsText field) (rest : Bytes) (fuel : ℕ) (attr : Attribute) :
    decodeString (fuel + 1) (bytes ++ rest) attr = .ok attr := by
  rw [decodeString, nextField_of_fieldBytes h]
  obtain ⟨number, value⟩ := field
  rw [Outcome.ok_bind]
  split
  · rename_i heq
    cases heq
    exact absurd ⟨_, rfl⟩ hother
  · rfl

theorem readableString_append {field : Field} {bytes rest : Bytes} (h : FieldBytes field bytes) :
    ReadableString (bytes ++ rest) ↔ (IsText field → ReadableString rest) := by
  constructor
  · rintro ⟨fields, before, rest', heq, hmessage, htexts, hrest⟩ htext
    cases hmessage with
    | nil =>
      rw [List.nil_append] at heq
      rcases hrest with rfl | ⟨field', fieldBytes, rest'', rfl, hfield', hother⟩
      · have hpos := h.length_pos
        rw [(List.append_eq_nil_iff.mp heq).1] at hpos
        exact absurd hpos (Nat.lt_irrefl 0)
      · obtain ⟨rfl, -⟩ := fieldBytes_unique h hfield' heq
        exact absurd htext hother
    | cons hfield hmessage =>
      rw [List.append_assoc] at heq
      obtain ⟨rfl, rfl⟩ := fieldBytes_unique h hfield heq
      exact ⟨_, _, _, rfl, hmessage,
        fun other hmem => htexts other (List.mem_cons_of_mem _ hmem), hrest⟩
  · intro hrest
    by_cases htext : IsText field
    · obtain ⟨fields, before, rest', rfl, hmessage, htexts, hend⟩ := hrest htext
      refine ⟨field :: fields, bytes ++ before, rest', (List.append_assoc ..).symm,
        .cons h hmessage, fun other hmem => ?_, hend⟩
      rcases List.mem_cons.mp hmem with rfl | hmem
      · exact htext
      · exact htexts other hmem
    · exact ⟨[], [], _, rfl, .nil, fun _ hmem => absurd hmem List.not_mem_nil,
        .inr ⟨field, bytes, rest, rfl, h, htext⟩⟩

/-- A string is not readable where no field begins. -/
theorem not_readableString {bytes : Bytes} (hnext : ∀ result, nextField bytes ≠ .ok result) :
    ¬ReadableString bytes := by
  rintro ⟨fields, before, rest, rfl, hmessage, -, hrest⟩
  cases hmessage with
  | nil =>
    rw [List.nil_append] at hnext
    rcases hrest with rfl | ⟨field, fieldBytes, rest', rfl, hfield, -⟩
    · exact hnext none nextField_nil
    · exact hnext _ (nextField_of_fieldBytes hfield)
  | cons hfield hmessage =>
    rw [List.append_assoc] at hnext
    exact hnext _ (nextField_of_fieldBytes hfield)

theorem decodeString_spec (fuel : ℕ) (bytes : Bytes) (hfuel : bytes.length < fuel)
    (attr : Attribute) : ((∃ result, decodeString fuel bytes attr = .ok result) ↔
        ReadableString bytes) ∧
      (decodeString fuel bytes attr = .outOfRange ↔ BrokenString bytes) := by
  induction fuel generalizing bytes attr with
  | zero => omega
  | succ fuel ih =>
    rcases nextField_cases bytes with rfl | ⟨field, fieldBytes, rest, rfl, hfield⟩ | hlength |
      ⟨message, herror⟩
    · have hloop : decodeString (fuel + 1) [] attr = .ok attr := rfl
      rw [hloop]
      exact ⟨iff_of_true ⟨attr, rfl⟩ ⟨[], [], [], rfl, .nil,
        fun _ h => absurd h List.not_mem_nil, .inl rfl⟩,
        iff_of_false (fun h => by cases h) (not_broken_nil _ _)⟩
    · have hpos := hfield.length_pos
      rw [List.length_append] at hfuel
      unfold BrokenString
      rw [readableString_append hfield, broken_append hfield]
      by_cases htext : IsText field
      · have hrest := ih rest (by omega)
        obtain ⟨text, rfl⟩ := htext
        rw [decodeString_text hfield]
        obtain ⟨ihok, ihout⟩ := hrest { attr with compiledString := some (decodeLossy text) }
        have htext : IsText (1, .bytes text) := ⟨text, rfl⟩
        exact ⟨ihok.trans ⟨fun h _ => h, fun h => h htext⟩,
          ihout.trans ⟨fun h => .inr ⟨htext, h⟩, fun h => h.elim False.elim And.right⟩⟩
      · rw [decodeString_other hfield htext]
        exact ⟨iff_of_true ⟨attr, rfl⟩ fun h => absurd h htext,
          iff_of_false (fun h => by cases h) fun h => h.elim id fun h => htext h.1⟩
    · have hnext := nextField_of_badLength hlength
      have hloop : decodeString (fuel + 1) bytes attr = .outOfRange := by
        rw [decodeString, hnext]
        rfl
      rw [hloop]
      refine ⟨iff_of_false (fun ⟨_, h⟩ => by cases h) (not_readableString fun result h => ?_),
        iff_of_true rfl ⟨[], [], bytes, rfl, .nil, fun _ h => absurd h List.not_mem_nil,
          .inl hlength⟩⟩
      rw [hnext] at h
      cases h
    · have hloop : decodeString (fuel + 1) bytes attr = .error message := by
        rw [decodeString, herror]
        rfl
      rw [hloop]
      refine ⟨iff_of_false (fun ⟨_, h⟩ => by cases h) (not_readableString fun result h => ?_),
        iff_of_false (fun h => by cases h) (not_broken_of_nextField herror)⟩
      rw [herror] at h
      cases h

/-- The payloads of the fields of a number are all fine. -/
def FineAt (number : ℕ) (fine : Bytes → Prop) (field : Field) : Prop :=
  ∀ payload, field = (number, .bytes payload) → fine payload

/-- A payload of the number is bad. -/
def BadAt (number : ℕ) (bad : Bytes → Prop) (field : Field) : Prop :=
  ∃ payload, field = (number, .bytes payload) ∧ bad payload

def ReadablePrimitive : Bytes → Prop := Readable fun _ => True

def BrokenPrimitive : Bytes → Prop := Broken (fun _ => True) fun _ => False

def ReadableItem : Bytes → Prop :=
  Readable fun field => FineAt 2 ReadableString field ∧ FineAt 7 ReadablePrimitive field

def BrokenItem : Bytes → Prop :=
  Broken (fun field => FineAt 2 ReadableString field ∧ FineAt 7 ReadablePrimitive field)
    fun field => BadAt 2 BrokenString field ∨ BadAt 7 BrokenPrimitive field

def ReadableAttribute : Bytes → Prop := Readable (FineAt 6 ReadableItem)

def BrokenAttribute : Bytes → Prop := Broken (FineAt 6 ReadableItem) (BadAt 6 BrokenItem)

def ReadableElement : Bytes → Prop := Readable (FineAt 4 ReadableAttribute)

def BrokenElement : Bytes → Prop := Broken (FineAt 4 ReadableAttribute) (BadAt 4 BrokenAttribute)

/-- The decoder comes to a length that passes 64 bits from where the cursor is: in the node, or,
when the node is read to its end, in the last element of the node. What comes before it is read
without an error. -/
def LengthOutOfRange (bytes : Bytes) : Prop :=
  Broken (fun _ => True) (fun _ => False) bytes ∨
    ∃ fields element, Message fields bytes ∧ (payloads 1 fields).getLast? = some element ∧
      BrokenElement element

section Levels

variable {n number : ℕ} {payload : Bytes} {fine bad : Bytes → Prop}

@[simp] theorem fineAt_bytes :
    FineAt number fine (n, .bytes payload) ↔ (n = number → fine payload) := by
  constructor
  · rintro h rfl
    exact h payload rfl
  · rintro h payload' heq
    cases heq
    exact h rfl

@[simp] theorem badAt_bytes :
    BadAt number bad (n, .bytes payload) ↔ n = number ∧ bad payload := by
  constructor
  · rintro ⟨payload', heq, hbad⟩
    cases heq
    exact ⟨rfl, hbad⟩
  · rintro ⟨rfl, hbad⟩
    exact ⟨payload, rfl, hbad⟩

@[simp] theorem fineAt_varint (m : ℕ) : FineAt number fine (n, .varint m) :=
  fun _ heq => by cases heq

@[simp] theorem not_badAt_varint (m : ℕ) : ¬BadAt number bad (n, .varint m) :=
  fun ⟨_, heq, _⟩ => by cases heq

@[simp] theorem fineAt_fixed : FineAt number fine (n, .fixed) := fun _ heq => by cases heq

@[simp] theorem not_badAt_fixed : ¬BadAt number bad (n, .fixed) :=
  fun ⟨_, heq, _⟩ => by cases heq

theorem follows_of_both {σ α : Type} {fine bad : α → Prop} {step : σ → α → Outcome σ}
    (h : ∀ s a, ((∃ s', step s a = .ok s') ↔ fine a) ∧ (step s a = .outOfRange ↔ bad a)) :
    Follows fine bad step where
  ok_iff s a := (h s a).1
  outOfRange_iff s a := (h s a).2

theorem Follows.both {σ α : Type} {fine bad : α → Prop} {step : σ → α → Outcome σ}
    (h : Follows fine bad step) (s : σ) (a : α) :
    ((∃ s', step s a = .ok s') ↔ fine a) ∧ (step s a = .outOfRange ↔ bad a) :=
  ⟨h.ok_iff s a, h.outOfRange_iff s a⟩

/-- A step that never fails. -/
theorem follows_of_ok {σ α : Type} {step : σ → α → Outcome σ}
    (h : ∀ s a, ∃ s', step s a = .ok s') : Follows (fun _ => True) (fun _ => False) step where
  ok_iff s a := iff_of_true (h s a) trivial
  outOfRange_iff s a := by
    obtain ⟨s', hok⟩ := h s a
    rw [hok]
    exact iff_of_false (fun h => by cases h) id

theorem ok_follows {σ : Type} {s : σ} {fine bad : Prop} (hfine : fine) (hbad : ¬bad) :
    ((∃ s', (Outcome.ok s : Outcome σ) = .ok s') ↔ fine) ∧
      ((Outcome.ok s : Outcome σ) = .outOfRange ↔ bad) :=
  ⟨iff_of_true ⟨s, rfl⟩ hfine, iff_of_false (fun h => by cases h) hbad⟩

end Levels

theorem follows_string : Follows ReadableString BrokenString
    fun attr bytes => decodeString (bytes.length + 1) bytes attr where
  ok_iff attr bytes := (decodeString_spec _ bytes (Nat.lt_succ_self _) attr).1
  outOfRange_iff attr bytes := (decodeString_spec _ bytes (Nat.lt_succ_self _) attr).2

theorem follows_primitive : Follows ReadablePrimitive BrokenPrimitive
    fun attr bytes => decodePrimitive bytes attr :=
  forFields_follows (follows_of_ok fun attr field => by
    split
    · exact ⟨_, rfl⟩
    · exact ⟨_, rfl⟩
    · exact ⟨_, rfl⟩)

theorem follows_item : Follows ReadableItem BrokenItem
    fun attr bytes => decodeCompiledItem bytes attr := by
  refine forFields_follows (follows_of_both fun attr field => ?_)
  obtain ⟨n, value⟩ := field
  split
  · rename_i string heq
    cases heq
    simpa using follows_string.both attr string
  · rename_i primitive heq
    cases heq
    simpa using follows_primitive.both attr primitive
  · rename_i hstring hprimitive
    cases value with
    | varint m => exact ok_follows (by simp) (by simp)
    | fixed => exact ok_follows (by simp) (by simp)
    | bytes payload =>
      have h2 : n ≠ 2 := fun h => hstring payload (by rw [h])
      have h7 : n ≠ 7 := fun h => hprimitive payload (by rw [h])
      exact ok_follows (by simp [h2, h7]) (by simp [h2, h7])

theorem decodeAttribute_both (bytes : Bytes) :
    ((∃ attr, decodeAttribute bytes = .ok attr) ↔ ReadableAttribute bytes) ∧
      (decodeAttribute bytes = .outOfRange ↔ BrokenAttribute bytes) := by
  refine (forFields_follows (follows_of_both fun attr field => ?_)).both ({} : Attribute) bytes
  obtain ⟨n, value⟩ := field
  split
  · rename_i text heq
    cases heq
    exact ok_follows (by simp) (by simp)
  · rename_i text heq
    cases heq
    exact ok_follows (by simp) (by simp)
  · rename_i text heq
    cases heq
    exact ok_follows (by simp) (by simp)
  · rename_i item heq
    cases heq
    simpa using follows_item.both attr item
  · rename_i hitem
    cases value with
    | varint m => exact ok_follows (by simp) (by simp)
    | fixed => exact ok_follows (by simp) (by simp)
    | bytes payload =>
      have h6 : n ≠ 6 := fun h => hitem payload (by rw [h])
      exact ok_follows (by simp [h6]) (by simp [h6])

theorem decodeElement_both (bytes : Bytes) :
    ((∃ element, decodeElement bytes = .ok element) ↔ ReadableElement bytes) ∧
      (decodeElement bytes = .outOfRange ↔ BrokenElement bytes) := by
  refine (forFields_follows (follows_of_both fun element field => ?_)).both ([], []) bytes
  obtain ⟨n, value⟩ := field
  obtain ⟨name, attributes⟩ := element
  dsimp only
  split
  · rename_i text heq
    cases heq
    exact ok_follows (by simp) (by simp)
  · rename_i payload heq
    cases heq
    obtain ⟨hok, hout⟩ := decodeAttribute_both payload
    cases hattr : decodeAttribute payload with
    | ok attr =>
      rw [hattr] at hok hout
      exact ok_follows (by simpa using hok.mp ⟨attr, rfl⟩)
        (by simpa using fun hbad => by cases hout.mpr hbad)
    | error message =>
      rw [hattr] at hok hout
      refine ⟨iff_of_false (fun ⟨_, h⟩ => by cases h) ?_, iff_of_false (fun h => by cases h) ?_⟩
      · simpa using fun hfine => by cases (hok.mpr hfine).choose_spec
      · simpa using fun hbad => by cases hout.mpr hbad
    | outOfRange =>
      rw [hattr] at hok hout
      refine ⟨iff_of_false (fun ⟨_, h⟩ => by cases h) ?_, iff_of_true rfl ?_⟩
      · simpa using fun hfine => by cases (hok.mpr hfine).choose_spec
      · simpa using hout.mp rfl
  · rename_i hattr
    cases value with
    | varint m => exact ok_follows (by simp) (by simp)
    | fixed => exact ok_follows (by simp) (by simp)
    | bytes payload =>
      have h4 : n ≠ 4 := fun h => hattr payload (by rw [h])
      exact ok_follows (by simp [h4]) (by simp [h4])

/-- The last element of a node that is read to its end. -/
theorem rootElement_message {fields : List Field} {bytes : Bytes} (h : Message fields bytes) :
    rootElement bytes = .ok (payloads 1 fields).getLast? := by
  unfold rootElement forFields
  rw [foldFields_message h (Nat.lt_succ_self _),
    ← Option.or_none (o := (payloads 1 fields).getLast?)]
  clear h
  generalize (none : Option Bytes) = element
  induction fields generalizing element with
  | nil => rfl
  | cons field fields ih =>
    rw [List.foldlM_cons]
    split
    · rename_i payload
      rw [Outcome.ok_bind, ih]
      have hcons : payloads 1 ((1, .bytes payload) :: fields) = payload :: payloads 1 fields := rfl
      rw [hcons, List.getLast?_cons]
      cases (payloads 1 fields).getLast? <;> rfl
    · rename_i hother
      have hnone : payloads 1 [field] = [] := by
        obtain ⟨n, value⟩ := field
        cases value with
        | varint m => rfl
        | fixed => rfl
        | bytes payload =>
          have hn : n ≠ 1 := fun h => hother payload (by rw [h])
          simp [payloads, hn]
      rw [Outcome.ok_bind, ih, payloads_cons, hnone, List.nil_append]

theorem rootElement_both (bytes : Bytes) :
    ((∃ element, rootElement bytes = .ok element) ↔ Readable (fun _ => True) bytes) ∧
      (rootElement bytes = .outOfRange ↔ Broken (fun _ => True) (fun _ => False) bytes) := by
  refine (forFields_follows (follows_of_ok fun element field => ?_)).both none bytes
  split
  · exact ⟨_, rfl⟩
  · exact ⟨_, rfl⟩

theorem ofOption_bind_ne_outOfRange {α β : Type} {message : Text} {value : Option α}
    {f : α → Outcome β} (h : ∀ a, f a ≠ .outOfRange) :
    (Outcome.ofOption message value >>= f) ≠ .outOfRange := by
  cases value with
  | none => exact fun heq => by cases heq
  | some a => exact h a

theorem manifestOf_ne_outOfRange (name : Text) (attributes : List Attribute) :
    manifestOf name attributes ≠ .outOfRange := by
  unfold manifestOf
  split
  · exact fun h => by cases h
  · refine ofOption_bind_ne_outOfRange fun packageName => ofOption_bind_ne_outOfRange fun attr => ?_
    unfold readVersionCode
    split
    · exact fun h => by cases h
    · exact ofOption_bind_ne_outOfRange fun code h => by cases h

/-- Behind the element nothing leaves the range any more. -/
theorem parseManifest_outOfRange_iff (bytes : Bytes) :
    parseManifest bytes = .outOfRange ↔ LengthOutOfRange bytes := by
  unfold parseManifest LengthOutOfRange
  obtain ⟨hok, hout⟩ := rootElement_both bytes
  rw [← hout]
  cases hroot : rootElement bytes with
  | outOfRange => exact iff_of_true rfl (.inl rfl)
  | error message =>
    refine iff_of_false (fun h => by cases h) ?_
    rintro (h | ⟨fields, element, hmessage, -, -⟩)
    · cases h
    · rw [rootElement_message hmessage] at hroot
      cases hroot
  | ok root =>
    obtain ⟨fields, hmessage, -⟩ := hok.mp ⟨root, hroot⟩
    have hlast : ∀ fields', Message fields' bytes → (payloads 1 fields').getLast? = root := by
      intro fields' hmessage'
      rw [rootElement_message hmessage'] at hroot
      exact Outcome.ok.inj hroot
    cases root with
    | none =>
      refine iff_of_false (fun h => by cases h) ?_
      rintro (h | ⟨fields', element, hmessage', helement, -⟩)
      · cases h
      · rw [hlast fields' hmessage'] at helement
        cases helement
    | some element =>
      obtain ⟨-, hbroken⟩ := decodeElement_both element
      have hparse : (decodeElement element >>= fun parts =>
          manifestOf parts.1 parts.2) = .outOfRange ↔ decodeElement element = .outOfRange := by
        cases decodeElement element with
        | ok parts => exact iff_of_false (manifestOf_ne_outOfRange _ _) fun h => by cases h
        | error message => exact iff_of_false (fun h => by cases h) fun h => by cases h
        | outOfRange => exact iff_of_true rfl rfl
      refine (hparse.trans hbroken).trans ⟨fun h => .inr ⟨fields, element, hmessage,
        hlast fields hmessage, h⟩, ?_⟩
      rintro (h | ⟨fields', element', hmessage', helement, h⟩)
      · cases h
      · rw [hlast fields' hmessage'] at helement
        cases helement
        exact h

/-! ## Encoded messages -/

/-- The field of a text is there once; that of an empty text may be missing. -/
def Singular (found : List Bytes) (text : Text) : Prop :=
  found = [Text.bytes text] ∨ found = [] ∧ text = []

/-- The value of a compiled item. -/
inductive CompiledItem where
  /-- A string with its fields in their order, and the value among them. -/
  | string (fields : List Field) (value : Option Text)
  | decimal (n : ℤ)
  | hexadecimal (n : ℕ)
  | other

structure XmlAttribute where
  namespaceUri : Text
  name : Text
  value : Text
  compiled : Option CompiledItem

structure XmlElement where
  name : Text
  attributes : List XmlAttribute

/-- The integers of a primitive: an `int32` is written with 64 bits. -/
def CompiledItem.Primitive (fields : List Field) : CompiledItem → Prop
  | decimal n => -2 ^ 31 ≤ n ∧ n < 2 ^ 31 ∧ varints 6 fields = [(n % 2 ^ 64).toNat] ∧
      varints 7 fields = []
  | hexadecimal n => n < 2 ^ 32 ∧ varints 6 fields = [] ∧ varints 7 fields = [n]
  | _ => varints 6 fields = [] ∧ varints 7 fields = []

/-- The item has one value: a string, a primitive, or something the decoder does not read. -/
def CompiledItem.Encodes (item : CompiledItem) (bytes : Bytes) : Prop :=
  ∃ fields, Message fields bytes ∧
    match item with
    | string stringFields value => payloads 7 fields = [] ∧ ∃ string, payloads 2 fields = [string] ∧
        Message stringFields string ∧ payloads 1 stringFields = (value.map Text.bytes).toList
    | decimal _ | hexadecimal _ => payloads 2 fields = [] ∧ ∃ primitive primitiveFields,
        payloads 7 fields = [primitive] ∧ Message primitiveFields primitive ∧
          item.Primitive primitiveFields
    | other => payloads 2 fields = [] ∧ (payloads 7 fields = [] ∨ ∃ primitive primitiveFields,
        payloads 7 fields = [primitive] ∧ Message primitiveFields primitive ∧
          item.Primitive primitiveFields)

def XmlAttribute.Encodes (attr : XmlAttribute) (bytes : Bytes) : Prop :=
  ∃ fields, Message fields bytes ∧ Singular (payloads 1 fields) attr.namespaceUri ∧
    Singular (payloads 2 fields) attr.name ∧ Singular (payloads 3 fields) attr.value ∧
    match attr.compiled with
    | none => payloads 6 fields = []
    | some item => ∃ itemBytes, payloads 6 fields = [itemBytes] ∧ item.Encodes itemBytes

def XmlElement.Encodes (root : XmlElement) (bytes : Bytes) : Prop :=
  ∃ fields, Message fields bytes ∧ Singular (payloads 3 fields) root.name ∧
    List.Forall₂ (fun payload attr => attr.Encodes payload) (payloads 4 fields) root.attributes

/-- The bytes of a node with the element. -/
def EncodesNode (root : XmlElement) (bytes : Bytes) : Prop :=
  ∃ fields element, Message fields bytes ∧ payloads 1 fields = [element] ∧ root.Encodes element

/-! ## What is encoded -/

def CompiledItem.int : CompiledItem → Option ℤ
  | decimal n => some n
  | hexadecimal n => some n
  | _ => none

def CompiledItem.text : CompiledItem → Option Text
  | string _ value => value
  | _ => none

/-- Compiled, or else the number that the raw value writes. -/
def XmlAttribute.versionCode (attr : XmlAttribute) : Option ℤ :=
  (attr.compiled.bind CompiledItem.int).or (parseI64 (trim attr.value))

/-- Raw, or else compiled. -/
def XmlAttribute.versionName (attr : XmlAttribute) : Option Text :=
  ((some attr.value).filter (· ≠ [])).or (attr.compiled.bind CompiledItem.text)

def XmlElement.find (root : XmlElement) (namespaceUri wanted : Text) : Option XmlAttribute :=
  root.attributes.find? fun attr => attr.namespaceUri = namespaceUri && attr.name = wanted

/-- The manifest of a root element, if it has a package and a version code. -/
def XmlElement.manifest (root : XmlElement) : Option AabManifest := do
  let packageName ←
    ((root.find [] "package".toList).map XmlAttribute.value).filter (· ≠ [])
  let versionCodeAttribute ← root.find androidNamespace "versionCode".toList
  let versionCode ← versionCodeAttribute.versionCode
  return {
    packageName
    versionCode
    versionName :=
      (root.find androidNamespace "versionName".toList).bind XmlAttribute.versionName }

/-- The decoder returns the manifest, or an error where there is none. -/
def Returns (root : XmlElement) (outcome : Outcome AabManifest) : Prop :=
  match root.manifest with
  | some manifest => outcome = .ok manifest
  | none => ∃ message, outcome = .error message

/-- The decoder ends within the 64-bit range, and returns what an encoded manifest says. -/
def Decodes (bytes : Bytes) : Prop :=
  ((∃ manifest, parseManifest bytes = .ok manifest) ∨
    ∃ message, parseManifest bytes = .error message) ∧
  ∀ root, EncodesNode root bytes → root.name = "manifest".toList →
    Returns root (parseManifest bytes)

/-- The compiled values that the decoder reads as they are: a hexadecimal version code below 2^31,
and, where no raw version name is there, a string that begins with its value. -/
def XmlElement.ValuesReadable (root : XmlElement) : Prop :=
  root.manifest ≠ none →
    (∀ attr n, root.find androidNamespace "versionCode".toList = some attr →
      attr.compiled = some (.hexadecimal n) → n < 2 ^ 31) ∧
    ∀ attr fields text, root.find androidNamespace "versionName".toList = some attr →
      attr.value = [] → attr.compiled = some (.string fields (some text)) →
        ∃ payload, fields.head? = some (1, .bytes payload)

/-! ## What the decoder reads -/

def CompiledItem.readInt : CompiledItem → Option ℤ
  | decimal n => some n
  | hexadecimal n => some (toI32 n)
  | _ => none

/-- The value of a string, where it comes first. -/
def CompiledItem.readText : CompiledItem → Option Text
  | string ((1, .bytes _) :: _) value => value
  | _ => none

def Attribute.compile (attr : Attribute) (item : CompiledItem) : Attribute :=
  { attr with
    compiledInt := item.readInt.or attr.compiledInt
    compiledString := item.readText.or attr.compiledString }

def XmlAttribute.decoded (attr : XmlAttribute) : Attribute where
  namespaceUri := attr.namespaceUri
  name := attr.name
  value := attr.value
  compiledInt := attr.compiled.bind CompiledItem.readInt
  compiledString := attr.compiled.bind CompiledItem.readText

theorem not_isText_of_payloads {field : Field} {fields : List Field}
    (h : payloads 1 (field :: fields) = []) : ¬IsText field := by
  rintro ⟨text, rfl⟩
  cases h

/-- Without a value nothing is read. -/
theorem decodeString_none {fields : List Field} {bytes : Bytes} (h : Message fields bytes)
    (hnone : payloads 1 fields = []) {fuel : ℕ} (hfuel : 0 < fuel) (attr : Attribute) :
    decodeString fuel bytes attr = .ok attr := by
  obtain ⟨fuel, rfl⟩ : ∃ less, fuel = less + 1 := ⟨fuel - 1, by omega⟩
  cases h with
  | nil => rfl
  | cons hfield hrest => exact decodeString_other hfield (not_isText_of_payloads hnone) _ _ _

theorem readText_other {field : Field} {fields : List Field} {value : Option Text}
    (h : ¬IsText field) : (CompiledItem.string (field :: fields) value).readText = none := by
  obtain ⟨n, payload⟩ := field
  unfold CompiledItem.readText
  split
  · rename_i heq
    cases heq
    exact absurd ⟨_, rfl⟩ h
  · rfl

theorem decodeString_message {fields : List Field} {bytes : Bytes} {value : Option Text}
    (h : Message fields bytes) (hvalue : payloads 1 fields = (value.map Text.bytes).toList)
    (attr : Attribute) : decodeString (bytes.length + 1) bytes attr =
      .ok (attr.compile (.string fields value)) := by
  cases h with
  | nil => rfl
  | @cons field fields bytes rest hfield hrest =>
    by_cases htext : IsText field
    · obtain ⟨text, rfl⟩ := htext
      have hpos := hfield.length_pos
      cases value with
      | none => cases hvalue
      | some value =>
        obtain ⟨rfl, hnone⟩ : text = Text.bytes value ∧ payloads 1 fields = [] :=
          List.cons.inj hvalue
        rw [decodeString_text hfield, decodeString_none hrest hnone
          (by rw [List.length_append]; omega), decodeLossy_bytes]
        rfl
    · rw [decodeString_other hfield htext]
      unfold Attribute.compile
      rw [readText_other htext]
      rfl

/-- A field 9 before the value `1` hides it. -/
example : decodeString 6 [0x48, 0x00, 0x0A, 0x01, 0x31] {} = .ok {} := by decide +kernel

/-- The integer of a field that the decoder takes for a compiled one. -/
def intOf : Field → Option ℕ
  | (number, .varint n) => if number = 6 ∨ number = 7 then some n else none
  | _ => none

theorem decodePrimitive_message {fields : List Field} {bytes : Bytes} (h : Message fields bytes)
    (attr : Attribute) : decodePrimitive bytes attr = .ok ((fields.filterMap intOf).foldl
      (fun attr n => { attr with compiledInt := some (toI32 n) }) attr) := by
  unfold decodePrimitive forFields
  rw [foldFields_message h (Nat.lt_succ_self _)]
  clear h
  induction fields generalizing attr with
  | nil => rfl
  | cons field fields ih =>
    rw [List.foldlM_cons, List.filterMap_cons]
    split
    · exact ih _
    · exact ih _
    · rename_i h6 h7
      have hnone : intOf field = none := by
        obtain ⟨number, value⟩ := field
        cases value with
        | bytes payload => rfl
        | fixed => rfl
        | varint n =>
          refine if_neg ?_
          rintro (rfl | rfl)
          · exact h6 n rfl
          · exact h7 n rfl
      rw [hnone]
      exact ih attr

/-- The integers are those of one number where the other has none. -/
theorem ints_eq {fields : List Field} {number other : ℕ} (hnone : varints other fields = [])
    (hintOf : ∀ n m, intOf (n, .varint m) = if n = number ∨ n = other then some m else none) :
    fields.filterMap intOf = varints number fields := by
  unfold varints at *
  refine List.filterMap_congr fun field hfield => ?_
  obtain ⟨n, value⟩ := field
  cases value with
  | bytes payload => rfl
  | fixed => rfl
  | varint m =>
    have hother := List.filterMap_eq_nil_iff.mp hnone _ hfield
    dsimp only at hother ⊢
    have hne : n ≠ other := fun h => by
      rw [if_pos h] at hother
      cases hother
    rw [hintOf]
    simp [hne]

theorem toI32_toNat {n : ℤ} (hlow : -2 ^ 31 ≤ n) (hhigh : n < 2 ^ 31) :
    toI32 (n % 2 ^ 64).toNat = n := by
  unfold toI32 Int.bmod
  norm_num at *
  omega

theorem toI32_eq_iff {n : ℕ} : toI32 n = n ↔ n < 2 ^ 31 := by
  unfold toI32 Int.bmod
  norm_num
  omega

/-- The integer that the decoder reads from a primitive. -/
theorem decodePrimitive_item {item : CompiledItem} {fields : List Field} {bytes : Bytes}
    (h : Message fields bytes) (hitem : item.Primitive fields) (attr : Attribute) :
    decodePrimitive bytes attr =
      .ok { attr with compiledInt := item.readInt.or attr.compiledInt } := by
  rw [decodePrimitive_message h]
  cases item with
  | decimal n =>
    obtain ⟨hlow, hhigh, hvarints, hnone⟩ := hitem
    rw [ints_eq hnone (fun _ _ => rfl), hvarints, List.foldl_cons, toI32_toNat hlow hhigh]
    rfl
  | hexadecimal n =>
    obtain ⟨-, hnone, hvarints⟩ := hitem
    rw [@ints_eq fields 7 6 hnone fun _ _ => if_congr or_comm rfl rfl, hvarints]
    rfl
  | string stringFields value =>
    rw [ints_eq hitem.2 (fun _ _ => rfl), hitem.1]
    rfl
  | other =>
    rw [ints_eq hitem.2 (fun _ _ => rfl), hitem.1]
    rfl

section Fold

variable {σ : Type} {step : σ → Field → Outcome σ} {fields : List Field}

/-- Fields that do nothing can be left out. -/
theorem foldlM_filter {relevant : Field → Bool}
    (h : ∀ s field, relevant field = false → step s field = .ok s) (s : σ) :
    fields.foldlM step s = (fields.filter relevant).foldlM step s := by
  induction fields generalizing s with
  | nil => rfl
  | cons field fields ih =>
    rw [List.foldlM_cons]
    cases hrelevant : relevant field with
    | false =>
      rw [h s field hrelevant, List.filter_cons_of_neg (by simp [hrelevant]), Outcome.ok_bind, ih]
    | true =>
      rw [List.filter_cons_of_pos hrelevant, List.foldlM_cons]
      exact congrArg _ (funext ih)

theorem filter_eq_payloads {relevant : Field → Bool} {number : ℕ}
    (h : ∀ field ∈ fields, relevant field = true ↔ ∃ payload, field = (number, .bytes payload)) :
    fields.filter relevant =
      (payloads number fields).map fun payload => (number, .bytes payload) := by
  induction fields with
  | nil => rfl
  | cons field fields ih =>
    have hrest := ih fun other hother => h other (List.mem_cons_of_mem _ hother)
    have hfield := h field List.mem_cons_self
    rw [payloads_cons, List.map_append, ← hrest]
    by_cases hpayload : ∃ payload, field = (number, .bytes payload)
    · rw [List.filter_cons_of_pos (hfield.mpr hpayload)]
      obtain ⟨payload, rfl⟩ := hpayload
      simp [payloads]
    · rw [List.filter_cons_of_neg fun hrelevant => hpayload (hfield.mp hrelevant)]
      have hnone : payloads number [field] = [] := by
        rw [List.eq_nil_iff_forall_not_mem]
        intro payload hmem
        exact hpayload ⟨payload, (List.mem_singleton.mp (mem_payloads.mp hmem)).symm⟩
      rw [hnone]
      rfl

end Fold

/-- The fields of a compiled item that the decoder looks into. -/
def isItemField : Field → Bool
  | (n, .bytes _) => n = 2 || n = 7
  | _ => false

/-- Of an item without fields of one number, those of the other are decoded. -/
theorem decodeCompiledItem_payloads {fields : List Field} {bytes : Bytes} {number other : ℕ}
    (h : Message fields bytes) (hnone : payloads other fields = [])
    (hnumbers : number = 2 ∧ other = 7 ∨ number = 7 ∧ other = 2) (attr : Attribute) :
    decodeCompiledItem bytes attr =
      ((payloads number fields).map fun payload => (number, Value.bytes payload)).foldlM
        (fun attr field =>
          match field with
          | (2, .bytes string) => decodeString (string.length + 1) string attr
          | (7, .bytes primitive) => decodePrimitive primitive attr
          | _ => .ok attr) attr := by
  unfold decodeCompiledItem forFields
  rw [foldFields_message h (Nat.lt_succ_self _), @foldlM_filter _ _ fields isItemField]
  · congr 1
    refine filter_eq_payloads fun field hfield => ?_
    obtain ⟨n, value⟩ := field
    cases value with
    | varint m => exact iff_of_false Bool.false_ne_true fun ⟨_, h⟩ => by cases h
    | fixed => exact iff_of_false Bool.false_ne_true fun ⟨_, h⟩ => by cases h
    | bytes payload =>
      have hne : n ≠ other := by
        rintro rfl
        have hmem := mem_payloads.mpr hfield
        rw [hnone] at hmem
        exact List.not_mem_nil hmem
      have hfields : isItemField (n, .bytes payload) = true ↔ n = 2 ∨ n = 7 := by
        simp [isItemField]
      rw [hfields]
      simp only [Prod.mk.injEq, Value.bytes.injEq, exists_and_left, exists_eq', and_true]
      omega
  · intro attr field hother
    split
    · cases hother
    · cases hother
    · rfl

/-- The decoder reads the item's value, but for a string whose value does not come first. -/
theorem decodeCompiledItem_encodes {item : CompiledItem} {bytes : Bytes} (h : item.Encodes bytes)
    (attr : Attribute) : decodeCompiledItem bytes attr = .ok (attr.compile item) := by
  obtain ⟨fields, hmessage, hitem⟩ := h
  cases item with
  | string stringFields value =>
    obtain ⟨hnone, string, hstring, hmessage', hvalue⟩ := hitem
    rw [decodeCompiledItem_payloads hmessage hnone (.inl ⟨rfl, rfl⟩), hstring]
    show (decodeString _ string attr >>= _) = _
    rw [decodeString_message hmessage' hvalue]
    rfl
  | decimal n =>
    obtain ⟨hnone, primitive, primitiveFields, hprimitive, hmessage', hvalue⟩ := hitem
    rw [decodeCompiledItem_payloads hmessage hnone (.inr ⟨rfl, rfl⟩), hprimitive]
    show (decodePrimitive primitive attr >>= _) = _
    rw [decodePrimitive_item hmessage' hvalue]
    rfl
  | hexadecimal n =>
    obtain ⟨hnone, primitive, primitiveFields, hprimitive, hmessage', hvalue⟩ := hitem
    rw [decodeCompiledItem_payloads hmessage hnone (.inr ⟨rfl, rfl⟩), hprimitive]
    show (decodePrimitive primitive attr >>= _) = _
    rw [decodePrimitive_item hmessage' hvalue]
    rfl
  | other =>
    obtain ⟨hnone, hnil | ⟨primitive, primitiveFields, hprimitive, hmessage', hvalue⟩⟩ := hitem
    · rw [decodeCompiledItem_payloads hmessage hnone (.inr ⟨rfl, rfl⟩), hnil]
      rfl
    · rw [decodeCompiledItem_payloads hmessage hnone (.inr ⟨rfl, rfl⟩), hprimitive]
      show (decodePrimitive primitive attr >>= _) = _
      rw [decodePrimitive_item hmessage' hvalue]
      rfl

/-- The last of the texts, if there is one. -/
def lastText (found : List Bytes) (text : Text) : Text :=
  found.foldl (fun _ payload => decodeLossy payload) text

theorem lastText_singular {found : List Bytes} {text : Text} (h : Singular found text) :
    lastText found [] = text := by
  rcases h with rfl | ⟨rfl, rfl⟩
  · exact decodeLossy_bytes text
  · rfl

theorem payloads_cons_of_ne {n number : ℕ} {payload : Bytes} {fields : List Field}
    (h : n ≠ number) :
    payloads number ((n, .bytes payload) :: fields) = payloads number fields := by
  simp [payloads, h]

/-- An attribute after the fields with the compiled items. -/
def Attribute.after (attr : Attribute) (fields : List Field) (items : List CompiledItem) :
    Attribute where
  namespaceUri := lastText (payloads 1 fields) attr.namespaceUri
  name := lastText (payloads 2 fields) attr.name
  value := lastText (payloads 3 fields) attr.value
  compiledInt := items.foldl (fun old item => item.readInt.or old) attr.compiledInt
  compiledString := items.foldl (fun old item => item.readText.or old) attr.compiledString

/-- The fields of an attribute may come in any order. -/
theorem decodeAttribute_message {fields : List Field} {bytes : Bytes} {items : List CompiledItem}
    (h : Message fields bytes)
    (hitems : List.Forall₂ (fun payload item => CompiledItem.Encodes item payload)
      (payloads 6 fields) items) :
    decodeAttribute bytes = .ok (Attribute.after {} fields items) := by
  unfold decodeAttribute forFields
  rw [foldFields_message h (Nat.lt_succ_self _)]
  clear h
  generalize ({} : Attribute) = attr
  induction fields generalizing attr items with
  | nil =>
    cases hitems
    rfl
  | cons field fields ih =>
    rw [List.foldlM_cons]
    split
    · exact ih hitems _
    · exact ih hitems _
    · exact ih hitems _
    · rename_i payload
      cases hitems with
      | cons hitem hrest =>
        rw [decodeCompiledItem_encodes hitem]
        exact ih hrest _
    · rename_i h1 h2 h3 h6
      obtain ⟨n, value⟩ := field
      cases value with
      | varint m => exact ih hitems attr
      | fixed => exact ih hitems attr
      | bytes payload =>
        have hne1 : n ≠ 1 := fun h => h1 payload (by rw [h])
        have hne2 : n ≠ 2 := fun h => h2 payload (by rw [h])
        have hne3 : n ≠ 3 := fun h => h3 payload (by rw [h])
        have hne6 : n ≠ 6 := fun h => h6 payload (by rw [h])
        rw [payloads_cons_of_ne hne6] at hitems
        rw [Outcome.ok_bind, ih hitems]
        unfold Attribute.after
        rw [payloads_cons_of_ne hne1, payloads_cons_of_ne hne2, payloads_cons_of_ne hne3]

theorem decodeAttribute_encodes {attr : XmlAttribute} {bytes : Bytes} (h : attr.Encodes bytes) :
    decodeAttribute bytes = .ok attr.decoded := by
  obtain ⟨fields, hmessage, huri, hname, hvalue, hcompiled⟩ := h
  obtain ⟨uri, name, value, compiled⟩ := attr
  have htexts : ∀ items, Attribute.after {} fields items =
      ⟨uri, name, value, items.foldl (fun old item => CompiledItem.readInt item |>.or old) none,
        items.foldl (fun old item => CompiledItem.readText item |>.or old) none⟩ := by
    intro items
    unfold Attribute.after
    rw [lastText_singular huri, lastText_singular hname, lastText_singular hvalue]
  cases compiled with
  | none =>
    have hnil : payloads 6 fields = [] := hcompiled
    have hitems : List.Forall₂ (fun payload item => CompiledItem.Encodes item payload)
        (payloads 6 fields) [] := by
      rw [hnil]
      exact .nil
    rw [decodeAttribute_message hmessage hitems, htexts]
    rfl
  | some item =>
    obtain ⟨itemBytes, hitem, hencodes⟩ := hcompiled
    have hitems : List.Forall₂ (fun payload item => CompiledItem.Encodes item payload)
        (payloads 6 fields) [item] := by
      rw [hitem]
      exact .cons hencodes .nil
    rw [decodeAttribute_message hmessage hitems, htexts]
    simp [XmlAttribute.decoded]

theorem decodeElement_message {fields : List Field} {bytes : Bytes} {attrs : List XmlAttribute}
    (h : Message fields bytes)
    (hattrs : List.Forall₂ (fun payload attr => XmlAttribute.Encodes attr payload)
      (payloads 4 fields) attrs) :
    decodeElement bytes =
      .ok (lastText (payloads 3 fields) [], attrs.map XmlAttribute.decoded) := by
  unfold decodeElement forFields
  rw [foldFields_message h (Nat.lt_succ_self _)]
  clear h
  show _ = Outcome.ok (lastText _ (([], []) : Text × List Attribute).1,
    (([], []) : Text × List Attribute).2 ++ attrs.map XmlAttribute.decoded)
  generalize (([], []) : Text × List Attribute) = start
  induction fields generalizing start attrs with
  | nil =>
    cases hattrs
    rw [List.map_nil, List.append_nil]
    rfl
  | cons field fields ih =>
    obtain ⟨name, done⟩ := start
    rw [List.foldlM_cons]
    dsimp only
    split
    · exact ih hattrs _
    · rename_i payload
      cases hattrs with
      | @cons _ attr _ attrs hattr hrest =>
        rw [decodeAttribute_encodes hattr]
        refine (ih hrest (name, done ++ [attr.decoded])).trans ?_
        rw [List.append_assoc]
        rfl
    · rename_i h3 h4
      obtain ⟨n, value⟩ := field
      cases value with
      | varint m => exact ih hattrs _
      | fixed => exact ih hattrs _
      | bytes payload =>
        have hne3 : n ≠ 3 := fun h => h3 payload (by rw [h])
        have hne4 : n ≠ 4 := fun h => h4 payload (by rw [h])
        rw [payloads_cons_of_ne hne4] at hattrs
        rw [Outcome.ok_bind, ih hattrs, payloads_cons_of_ne hne3]

/-- What the decoder makes of an encoded node. -/
theorem parseManifest_encodes {root : XmlElement} {bytes : Bytes} (h : EncodesNode root bytes) :
    parseManifest bytes = manifestOf root.name (root.attributes.map XmlAttribute.decoded) := by
  obtain ⟨fields, element, hmessage, helement, elementFields, hmessage', hname, hattrs⟩ := h
  unfold parseManifest
  rw [rootElement_message hmessage, helement]
  show (decodeElement element >>= _) = _
  rw [decodeElement_message hmessage' hattrs, lastText_singular hname]
  rfl

/-! ## When the values are read as they are -/

theorem findAttribute_decoded (root : XmlElement) (namespaceUri wanted : Text) :
    findAttribute (root.attributes.map XmlAttribute.decoded) namespaceUri wanted =
      (root.find namespaceUri wanted).map XmlAttribute.decoded := by
  unfold findAttribute
  rw [List.find?_map]
  rfl

/-- The version code as the decoder reads it. -/
def XmlAttribute.codeRead (attr : XmlAttribute) : Option ℤ :=
  (attr.compiled.bind CompiledItem.readInt).or (parseI64 (trim attr.value))

theorem readVersionCode_decoded (attr : XmlAttribute) : readVersionCode attr.decoded =
    Outcome.ofOption "android:versionCode is not a number".toList attr.codeRead := by
  unfold readVersionCode XmlAttribute.codeRead XmlAttribute.decoded
  dsimp only
  cases attr.compiled.bind CompiledItem.readInt with
  | none => rfl
  | some code => rfl

theorem codeRead_isSome (attr : XmlAttribute) :
    attr.codeRead.isSome = attr.versionCode.isSome := by
  unfold XmlAttribute.codeRead XmlAttribute.versionCode
  generalize parseI64 (trim attr.value) = raw
  cases attr.compiled with
  | none => rw [Option.bind_none, Option.bind_none]
  | some item => cases item <;> simp [CompiledItem.readInt, CompiledItem.int]

theorem codeRead_eq_iff (attr : XmlAttribute) : attr.codeRead = attr.versionCode ↔
    ∀ n, attr.compiled = some (.hexadecimal n) → n < 2 ^ 31 := by
  unfold XmlAttribute.codeRead XmlAttribute.versionCode
  cases attr.compiled with
  | none =>
    rw [Option.bind_none, Option.bind_none]
    exact iff_of_true rfl fun n h => by cases h
  | some item =>
    rw [Option.bind_some, Option.bind_some]
    cases item with
    | hexadecimal n =>
      rw [CompiledItem.readInt, CompiledItem.int, Option.some_or, Option.some_or,
        Option.some.injEq, toI32_eq_iff]
      refine ⟨fun hn m h => ?_, fun h => h n rfl⟩
      cases h
      exact hn
    | decimal n => exact iff_of_true rfl fun n h => by cases h
    | string fields value => exact iff_of_true rfl fun n h => by cases h
    | other => exact iff_of_true rfl fun n h => by cases h

theorem readText_eq_iff (fields : List Field) (value : Option Text) :
    (CompiledItem.string fields value).readText = value ↔
      ∀ text, value = some text → ∃ payload, fields.head? = some (1, .bytes payload) := by
  by_cases htext : ∃ payload, fields.head? = some (1, .bytes payload)
  · refine iff_of_true ?_ fun _ _ => htext
    obtain ⟨payload, hhead⟩ := htext
    obtain ⟨rest, rfl⟩ := List.head?_eq_some_iff.mp hhead
    rfl
  · have hnone : (CompiledItem.string fields value).readText = none := by
      cases fields with
      | nil => rfl
      | cons field fields =>
        exact readText_other fun ⟨text, h⟩ => htext ⟨text, by rw [h]; rfl⟩
    rw [hnone]
    cases value with
    | none => exact iff_of_true rfl fun text h => by cases h
    | some text => exact iff_of_false (fun h => by cases h) fun h => htext (h text rfl)

theorem readVersionName_eq_iff (attr : XmlAttribute) :
    readVersionName attr.decoded = attr.versionName ↔
      (attr.value = [] → ∀ fields text, attr.compiled = some (.string fields (some text)) →
        ∃ payload, fields.head? = some (1, .bytes payload)) := by
  unfold readVersionName XmlAttribute.versionName XmlAttribute.decoded
  dsimp only
  by_cases hvalue : attr.value = []
  · have hraw : (some attr.value).filter (· ≠ []) = none := by simp [hvalue]
    rw [hraw, Option.none_or, Option.none_or]
    cases attr.compiled with
    | none => exact iff_of_true rfl fun _ fields text h => by cases h
    | some item =>
      cases item with
      | string fields value =>
        refine (readText_eq_iff fields value).trans ⟨fun h _ fields' text heq => ?_,
          fun h text heq => h hvalue fields text (by rw [heq])⟩
        cases heq
        exact h text rfl
      | decimal n => exact iff_of_true rfl fun _ fields text h => by cases h
      | hexadecimal n => exact iff_of_true rfl fun _ fields text h => by cases h
      | other => exact iff_of_true rfl fun _ fields text h => by cases h
  · have hraw : (some attr.value).filter (· ≠ []) = some attr.value := by simp [hvalue]
    rw [hraw]
    exact iff_of_true rfl fun h => absurd h hvalue

theorem nameRead_eq_iff (found : Option XmlAttribute) :
    (found.map XmlAttribute.decoded).bind readVersionName = found.bind XmlAttribute.versionName ↔
      ∀ attr fields text, found = some attr → attr.value = [] →
        attr.compiled = some (.string fields (some text)) →
          ∃ payload, fields.head? = some (1, .bytes payload) := by
  cases found with
  | none => exact iff_of_true rfl fun _ _ _ h => by cases h
  | some attr =>
    refine (readVersionName_eq_iff attr).trans ⟨?_, fun h hvalue fields text => h attr fields text
      rfl hvalue⟩
    rintro h attr' fields text hattr hvalue
    cases hattr
    exact h hvalue fields text

/-- The decoder returns the manifest of an element exactly when its compiled values are read as they
are. -/
theorem returns_iff (root : XmlElement) (hname : root.name = "manifest".toList) :
    Returns root (manifestOf root.name (root.attributes.map XmlAttribute.decoded)) ↔
      root.ValuesReadable := by
  unfold manifestOf
  rw [if_neg (not_not.mpr hname), findAttribute_decoded, findAttribute_decoded,
    findAttribute_decoded, Option.map_map,
    show Attribute.value ∘ XmlAttribute.decoded = XmlAttribute.value from rfl]
  unfold Returns XmlElement.ValuesReadable XmlElement.manifest
  cases ((root.find [] "package".toList).map XmlAttribute.value).filter (· ≠ []) with
  | none => exact iff_of_true ⟨_, rfl⟩ fun h => absurd rfl h
  | some packageName =>
    cases root.find androidNamespace "versionCode".toList with
    | none => exact iff_of_true ⟨_, rfl⟩ fun h => absurd rfl h
    | some attr =>
      have hsome := codeRead_isSome attr
      show (match attr.versionCode.bind fun code => some (AabManifest.mk packageName code
            ((root.find androidNamespace "versionName".toList).bind XmlAttribute.versionName)) with
          | some manifest => (readVersionCode attr.decoded).bind _ = _
          | none => ∃ message, (readVersionCode attr.decoded).bind _ = _) ↔
        (attr.versionCode.bind fun code => some (AabManifest.mk packageName code
            ((root.find androidNamespace "versionName".toList).bind XmlAttribute.versionName))) ≠
          none → _
      rw [readVersionCode_decoded]
      cases hversion : attr.versionCode with
      | none =>
        rw [hversion, Option.isSome_none, Option.isSome_eq_false_iff, Option.isNone_iff_eq_none]
          at hsome
        rw [hsome]
        exact iff_of_true ⟨_, rfl⟩ fun h => absurd rfl h
      | some code =>
        rw [hversion, Option.isSome_some, Option.isSome_iff_exists] at hsome
        obtain ⟨read, hread⟩ := hsome
        have hcode := codeRead_eq_iff attr
        rw [hread, hversion, Option.some.injEq] at hcode
        rw [hread]
        have hname := nameRead_eq_iff (root.find androidNamespace "versionName".toList)
        show (Outcome.ok (AabManifest.mk packageName read _) =
          .ok (AabManifest.mk packageName code _)) ↔ (some _ ≠ none → _)
        rw [Outcome.ok.injEq, AabManifest.mk.injEq, hcode, hname]
        constructor
        · rintro ⟨-, hread, hnamed⟩ -
          refine ⟨fun attr' n heq => ?_, hnamed⟩
          cases heq
          exact hread n
        · intro h
          obtain ⟨hread, hnamed⟩ := h (Option.some_ne_none _)
          exact ⟨rfl, fun n => hread attr n rfl, hnamed⟩

theorem ok_or_error_iff {α : Type} (outcome : Outcome α) :
    ((∃ value, outcome = .ok value) ∨ ∃ message, outcome = .error message) ↔
      outcome ≠ .outOfRange := by
  cases outcome with
  | ok value => exact iff_of_true (.inl ⟨value, rfl⟩) fun h => by cases h
  | error message => exact iff_of_true (.inr ⟨message, rfl⟩) fun h => by cases h
  | outOfRange =>
    refine iff_of_false ?_ fun h => h rfl
    rintro (⟨value, h⟩ | ⟨message, h⟩)
    · cases h
    · cases h

/-- The decoder does what it should exactly for the bytes without a length out of range whose
manifest has compiled values that are read as they are. -/
theorem decodes_iff (bytes : Bytes) : Decodes bytes ↔ ¬LengthOutOfRange bytes ∧
    ∀ root, EncodesNode root bytes → root.name = "manifest".toList → root.ValuesReadable := by
  unfold Decodes
  rw [ok_or_error_iff, Ne, parseManifest_outOfRange_iff]
  refine and_congr_right fun _ => forall_congr' fun root => forall_congr' fun hencodes =>
    forall_congr' fun hname => ?_
  rw [parseManifest_encodes hencodes]
  exact returns_iff root hname

/-- A root element of 2^64 - 1 bytes, none of which is there. -/
def hugeLength : Bytes := 0x0A :: List.replicate 9 0xFF ++ [0x01]

theorem not_decodes_hugeLength : ¬∀ bytes, Decodes bytes := by
  intro h
  have hout : parseManifest hugeLength = .outOfRange := by decide +kernel
  exact (ok_or_error_iff _).mp (h hugeLength).1 hout

end OoreBuild.Aab
