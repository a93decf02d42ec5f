import OoreBuild.Lib.Utf8

/-!
# Java property files

The format of `java.util.Properties`, read from a stream of bytes. Every byte is one Latin-1
character. The characters make natural lines, these make logical lines, since a line break after
an odd number of backslashes does not count, and a logical line makes one entry: the key ends at
the first `=`, `:` or blank without a backslash, and the escapes of the key and of the element are
undone. A later entry of a key replaces an earlier one.
-/

namespace Properties

/-- A string of the reader: its UTF-16 code units. -/
abbrev Units := List ℕ

/-- The code units of a character. -/
def utf16 (c : Char) : Units :=
  if c.toNat < 0x10000 then [c.toNat]
  else [0xD800 + (c.toNat - 0x10000) / 0x400, 0xDC00 + (c.toNat - 0x10000) % 0x400]

def ofText (text : Text) : Units := text.flatMap utf16

/-- Every byte as a character. -/
def latin1 (bytes : List UInt8) : Text := bytes.map fun byte => Char.ofNat byte.toNat

theorem latin1_append (a b : List UInt8) : latin1 (a ++ b) = latin1 a ++ latin1 b := List.map_append

theorem toNat_ofByte (byte : UInt8) : (Char.ofNat byte.toNat).toNat = byte.toNat := by
  have hbyte := byte.toNat_lt
  rw [Char.ofNat, dif_pos (Or.inl (by omega))]
  rfl

theorem map_toNat_latin1 (bytes : List UInt8) :
    (latin1 bytes).map Char.toNat = bytes.map UInt8.toNat := by
  simp [latin1, toNat_ofByte]

theorem latin1_encodeChar {c : Char} (h : c.toNat < 128) :
    latin1 (String.utf8EncodeChar c) = [c] := by
  have hbyte : (UInt8.ofNat c.toNat).toNat = c.toNat := by
    rw [UInt8.toNat_ofNat']
    omega
  simp [latin1, Utf8.encodeChar_ascii h, hbyte]

/-- A character is read as itself or as characters outside ASCII. -/
theorem mem_latin1_encodeChar {c d : Char} (h : d ∈ latin1 (String.utf8EncodeChar c)) :
    d = c ∨ 128 ≤ d.toNat := by
  by_cases hc : c.toNat < 128
  · rw [latin1_encodeChar hc] at h
    exact .inl (List.mem_singleton.mp h)
  · obtain ⟨byte, hbyte, rfl⟩ := List.mem_map.mp h
    rw [toNat_ofByte]
    exact .inr (Utf8.le_of_mem_encodeChar (not_lt.mp hc) hbyte)

/-- ASCII text is read as it is. -/
theorem latin1_bytes {text : Text} (h : ∀ c ∈ text, c.toNat < 128) :
    latin1 (Text.bytes text) = text := by
  induction text with
  | nil => rfl
  | cons c text ih =>
    have hbytes : Text.bytes (c :: text) = String.utf8EncodeChar c ++ Text.bytes text := rfl
    rw [hbytes, latin1_append, latin1_encodeChar (h c (by simp)), ih fun d hd => h d (by simp [hd])]
    rfl

theorem utf16_ascii {c : Char} (h : c.toNat < 128) : utf16 c = [c.toNat] := by
  rw [utf16, if_pos (by omega)]

theorem ofText_ascii {text : Text} (h : ∀ c ∈ text, c.toNat < 128) :
    ofText text = text.map Char.toNat := by
  induction text with
  | nil => rfl
  | cons c text ih =>
    have hunits : ofText (c :: text) = utf16 c ++ ofText text := rfl
    rw [hunits, utf16_ascii (h c (by simp)), ih fun d hd => h d (by simp [hd])]
    rfl

/-- A character outside ASCII takes more bytes than code units. -/
theorem length_utf16_lt {c : Char} (h : 128 ≤ c.toNat) :
    (utf16 c).length < (String.utf8EncodeChar c).length := by
  have hval : c.toNat = c.val.toNat := rfl
  simp only [String.utf8EncodeChar, utf16]
  split <;> split <;> (try split) <;> (try split) <;> simp <;> omega

theorem length_utf16_le (c : Char) : (utf16 c).length ≤ (String.utf8EncodeChar c).length := by
  by_cases h : c.toNat < 128
  · rw [utf16_ascii h, Utf8.encodeChar_ascii h]
    simp
  · exact (length_utf16_lt (not_lt.mp h)).le

theorem length_ofText_le (text : Text) : (ofText text).length ≤ (Text.bytes text).length := by
  induction text with
  | nil => rfl
  | cons c text ih =>
    have hc := length_utf16_le c
    have hbytes : Text.bytes (c :: text) = String.utf8EncodeChar c ++ Text.bytes text := rfl
    have hunits : ofText (c :: text) = utf16 c ++ ofText text := rfl
    rw [hbytes, hunits, List.length_append, List.length_append]
    omega

/-- The bytes of a text are its code units for ASCII text only. -/
theorem bytes_eq_ofText_iff {text : Text} :
    (Text.bytes text).map UInt8.toNat = ofText text ↔ ∀ c ∈ text, c.toNat < 128 := by
  constructor
  · intro h
    replace h : (Text.bytes text).length = (ofText text).length := by
      simpa using congrArg List.length h
    induction text with
    | nil => simp
    | cons c text ih =>
      have hc := length_utf16_le c
      have hrest := length_ofText_le text
      have hbytes : Text.bytes (c :: text) = String.utf8EncodeChar c ++ Text.bytes text := rfl
      have hunits : ofText (c :: text) = utf16 c ++ ofText text := rfl
      rw [hbytes, hunits, List.length_append, List.length_append] at h
      refine List.forall_mem_cons.mpr ⟨?_, ih (by omega)⟩
      by_contra hwide
      have := length_utf16_lt (not_lt.mp hwide)
      omega
  · intro h
    rw [ofText_ascii h, ← map_toNat_latin1, latin1_bytes h]

/-! ## Logical lines -/

/-- The blanks of the format, line breaks apart. -/
def isBlank (c : Char) : Bool := c = ' ' || c = '\t' || c = '\x0c'

def isBreak (c : Char) : Bool := c = '\n' || c = '\r'

/-- Where the reader stands. -/
inductive Mode
  /-- Before a logical line. -/
  | start
  | comment
  /-- In a logical line, perhaps after a backslash that is still open and not in the text. -/
  | line (text : Text) (escaped : Bool)
  /-- After an escaped line break, perhaps a carriage return that a line feed may complete. -/
  | continued (text : Text) (afterReturn : Bool)
  deriving DecidableEq, Repr

structure Reader where
  lines : List Text
  mode : Mode
  deriving DecidableEq, Repr

def begin : Reader := ⟨[], .start⟩

/-- A character that goes on with a logical line. -/
def extend (text : Text) (c : Char) : Mode :=
  if c = '\\' then .line text true else .line (text ++ [c]) false

def step (r : Reader) (c : Char) : Reader :=
  match r.mode with
  | .start =>
    if isBlank c || isBreak c then r
    else if c = '#' || c = '!' then ⟨r.lines, .comment⟩
    else ⟨r.lines, extend [] c⟩
  | .comment => if isBreak c then ⟨r.lines, .start⟩ else r
  | .line text false =>
    if isBreak c then ⟨r.lines ++ [text], .start⟩ else ⟨r.lines, extend text c⟩
  | .line text true =>
    if isBreak c then ⟨r.lines, .continued text (c = '\r')⟩
    else ⟨r.lines, .line (text ++ ['\\', c]) false⟩
  | .continued text afterReturn =>
    -- Where the line so far is a lone backslash, the JDK's reader passes over an empty line here (and
    -- an end of the stream); this one ends a logical line without text, an entry with an empty key.
    if isBlank c || afterReturn && c = '\n' then ⟨r.lines, .continued text false⟩
    else if isBreak c then ⟨r.lines ++ [text], .start⟩
    else ⟨r.lines, extend text c⟩

def run (r : Reader) (text : Text) : Reader := text.foldl step r

/-- The logical lines at the end of the stream, where an open backslash is dropped. -/
def finish (r : Reader) : List Text :=
  match r.mode with
  | .start | .comment => r.lines
  | .line text _ | .continued text _ => r.lines ++ [text]

@[simp] theorem finish_start (lines : List Text) : finish ⟨lines, .start⟩ = lines := rfl

/-! ## Entries -/

def endsKey (c : Char) : Bool := c = '=' || c = ':' || isBlank c

/-- The raw key of a logical line, and the rest of the line from what ends the key on. -/
def splitKey : Bool → Text → Text × Text
  | _, [] => ([], [])
  | true, c :: rest => (c :: (splitKey false rest).1, (splitKey false rest).2)
  | false, c :: rest =>
    if endsKey c then ([], c :: rest)
    else (c :: (splitKey (c = '\\') rest).1, (splitKey (c = '\\') rest).2)

/-- The raw element: blanks, one `=` or `:`, and blanks again come before it. -/
def dropSeparator (rest : Text) : Text :=
  match rest.dropWhile isBlank with
  | [] => []
  | c :: element => if c = '=' || c = ':' then element.dropWhile isBlank else c :: element

def hexDigit (c : Char) : Option ℕ :=
  if '0' ≤ c && c ≤ '9' then some (c.toNat - 48)
  else if 'a' ≤ c && c ≤ 'f' then some (c.toNat - 87)
  else if 'A' ≤ c && c ≤ 'F' then some (c.toNat - 55)
  else none

/-- The character that a backslash and `c` stand for; of an unknown one the backslash is dropped. -/
def escapedUnit (c : Char) : ℕ :=
  if c = 't' then 9 else if c = 'n' then 10 else if c = 'f' then 12 else if c = 'r' then 13
  else c.toNat

/-- Where the undoing of escapes stands: in a code unit, with the digits still to come after the
next one. -/
inductive Pending
  | plain
  | backslash
  | hex (left unit : ℕ)
  deriving DecidableEq, Repr

def convertStep : Units × Pending → Char → Option (Units × Pending)
  | (units, .plain), c =>
    if c = '\\' then some (units, .backslash) else some (units ++ [c.toNat], .plain)
  | (units, .backslash), c =>
    if c = 'u' then some (units, .hex 3 0) else some (units ++ [escapedUnit c], .plain)
  | (units, .hex 0 unit), c => (hexDigit c).map fun d => (units ++ [unit * 16 + d], .plain)
  | (units, .hex (left + 1) unit), c =>
    (hexDigit c).map fun d => (units, .hex left (unit * 16 + d))

/-- A raw key or element without its escapes; a code unit without four digits is an error. -/
def convert (raw : Text) : Option Units :=
  (raw.foldlM convertStep ([], .plain)).bind fun
    | (_, .hex _ _) => none
    | (units, _) => some units

/-- The entry of a logical line. -/
def entry (line : Text) : Option (Units × Units) :=
  (convert (splitKey false line).1).bind fun key =>
    (convert (dropSeparator (splitKey false line).2)).map fun element => (key, element)

/-- The entries of a stream in their order, unless one is malformed. -/
def load (bytes : List UInt8) : Option (List (Units × Units)) :=
  (finish (run begin (latin1 bytes))).mapM entry

/-- The properties after more entries. -/
def put (properties : Units → Option Units) (entries : List (Units × Units)) :
    Units → Option Units :=
  entries.foldl (fun properties e => Function.update properties e.1 (some e.2)) properties

/-- What entries say of each key. -/
def ofEntries (entries : List (Units × Units)) : Units → Option Units := put (fun _ => none) entries

/-! ## Reading on -/

theorem run_cons (r : Reader) (c : Char) (text : Text) : run r (c :: text) = run (step r c) text :=
  rfl

theorem run_append (r : Reader) (a b : Text) : run r (a ++ b) = run (run r a) b :=
  List.foldl_append

/-- Text without line breaks in which every backslash has the character it escapes. -/
inductive Closed : Text → Prop
  | nil : Closed []
  | plain {c : Char} {text : Text} (hc : c ≠ '\\') (hbreak : isBreak c = false)
      (h : Closed text) : Closed (c :: text)
  | escaped {c : Char} {text : Text} (hbreak : isBreak c = false) (h : Closed text) :
      Closed ('\\' :: c :: text)

namespace Closed

theorem append {a b : Text} (ha : Closed a) (hb : Closed b) : Closed (a ++ b) := by
  induction ha with
  | nil => exact hb
  | plain hc hbreak _ ih => exact .plain hc hbreak ih
  | escaped hbreak _ ih => exact .escaped hbreak ih

theorem of_plain {text : Text} (h : ∀ c ∈ text, c ≠ '\\' ∧ isBreak c = false) : Closed text := by
  induction text with
  | nil => exact .nil
  | cons c text ih =>
    obtain ⟨hc, hbreak⟩ := h c (by simp)
    exact .plain hc hbreak (ih fun d hd => h d (by simp [hd]))

theorem of_cons {c : Char} {text : Text} (h : Closed (c :: text)) (hc : c ≠ '\\') :
    Closed text := by
  cases h with
  | plain _ _ h => exact h
  | escaped => exact absurd rfl hc

end Closed

/-- Closed text goes to the end of a logical line. -/
theorem run_line {text : Text} (h : Closed text) (lines : List Text) (before : Text) :
    run ⟨lines, .line before false⟩ text = ⟨lines, .line (before ++ text) false⟩ := by
  induction h generalizing before with
  | nil => rw [List.append_nil]; rfl
  | @plain c text hc hbreak _ ih =>
    have hstep : step ⟨lines, .line before false⟩ c = ⟨lines, .line (before ++ [c]) false⟩ := by
      simp [step, extend, hc, hbreak]
    show run (step _ c) text = _
    rw [hstep, ih, List.append_assoc, List.singleton_append]
  | @escaped c text hbreak _ ih =>
    have hstep : step (step ⟨lines, .line before false⟩ '\\') c =
        ⟨lines, .line (before ++ ['\\', c]) false⟩ := by
      simp [step, extend, hbreak, show isBreak '\\' = false from rfl]
    show run (step (step _ '\\') c) text = _
    rw [hstep, ih, List.append_assoc]
    rfl

/-- A closed line is one logical line, when it does not begin as a blank or a comment does. -/
theorem run_whole {c : Char} {text : Text} (h : Closed (c :: text)) (hc : c ≠ '\\')
    (hstart : (isBlank c || c = '#' || c = '!') = false) (lines : List Text) :
    run ⟨lines, .start⟩ (c :: text ++ ['\n']) = ⟨lines ++ [c :: text], .start⟩ := by
  have hbreak : isBreak c = false := by
    cases h with
    | plain _ hbreak _ => exact hbreak
    | escaped => exact absurd rfl hc
  simp only [Bool.or_eq_false_iff, decide_eq_false_iff_not] at hstart
  have hstep : step ⟨lines, .start⟩ c = ⟨lines, .line [c] false⟩ := by
    simp [step, extend, hc, hbreak, hstart]
  rw [List.cons_append]
  show run (step _ c) (text ++ ['\n']) = _
  rw [hstep, run_append, run_line (h.of_cons hc)]
  rfl

/-- A comment leaves no trace. -/
theorem run_comment {text : Text} (h : ∀ c ∈ text, isBreak c = false) (lines : List Text) :
    run ⟨lines, .start⟩ ('#' :: text ++ ['\n']) = ⟨lines, .start⟩ := by
  have hcomment : ∀ text : Text, (∀ c ∈ text, isBreak c = false) →
      run ⟨lines, .comment⟩ text = ⟨lines, .comment⟩ := by
    intro text h
    induction text with
    | nil => rfl
    | cons c text ih =>
      have hstep : step ⟨lines, .comment⟩ c = ⟨lines, .comment⟩ := by
        simp [step, h c (by simp)]
      show run (step _ c) text = _
      rw [hstep, ih fun d hd => h d (by simp [hd])]
  rw [List.cons_append]
  show run (step _ '#') (text ++ ['\n']) = _
  rw [show step ⟨lines, .start⟩ '#' = ⟨lines, .comment⟩ from rfl, run_append, hcomment text h]
  rfl

/-- A closed text after an escaped line break goes on with the line. -/
theorem run_continued {c : Char} {text : Text} (h : Closed (c :: text)) (hc : c ≠ '\\')
    (hblank : isBlank c = false) (lines : List Text) (before : Text) :
    run ⟨lines, .continued before false⟩ (c :: text ++ ['\n']) =
      ⟨lines ++ [before ++ c :: text], .start⟩ := by
  have hbreak : isBreak c = false := by
    cases h with
    | plain _ hbreak _ => exact hbreak
    | escaped => exact absurd rfl hc
  have hstep : step ⟨lines, .continued before false⟩ c = ⟨lines, .line (before ++ [c]) false⟩ := by
    simp [step, extend, hc, hbreak, hblank]
  rw [List.cons_append]
  show run (step _ c) (text ++ ['\n']) = _
  rw [hstep, run_append, run_line (h.of_cons hc), List.append_assoc]
  rfl

/-- The logical line that a line feed would not end. -/
def carried (r : Reader) : Option Text :=
  match r.mode with
  | .line text true | .continued text true => some text
  | _ => none

theorem step_of_carried {r : Reader} {text : Text} (h : carried r = some text) :
    step r '\n' = ⟨r.lines, .continued text false⟩ ∧ finish r = r.lines ++ [text] := by
  obtain ⟨lines, mode⟩ := r
  rcases mode with _ | _ | ⟨before, _ | _⟩ | ⟨before, _ | _⟩ <;> cases h
  · exact ⟨rfl, rfl⟩
  · exact ⟨rfl, rfl⟩

theorem step_of_not_carried {r : Reader} (h : carried r = none) :
    step r '\n' = ⟨finish r, .start⟩ := by
  obtain ⟨lines, mode⟩ := r
  rcases mode with _ | _ | ⟨before, _ | _⟩ | ⟨before, _ | _⟩
  · rfl
  · rfl
  · rfl
  · cases h
  · rfl
  · cases h

/-- Where the reader stands in a logical line, the text before is closed. -/
def Mode.WellFormed : Mode → Prop
  | .start | .comment => True
  | .line text _ | .continued text _ => Closed text

theorem extend_wellFormed {text : Text} (h : Closed text) {c : Char} (hbreak : isBreak c = false) :
    (extend text c).WellFormed := by
  unfold extend
  by_cases hc : c = '\\'
  · rw [if_pos hc]
    exact h
  · rw [if_neg hc]
    exact h.append (.plain hc hbreak .nil)

theorem step_wellFormed {r : Reader} (h : r.mode.WellFormed) (c : Char) :
    (step r c).mode.WellFormed := by
  obtain ⟨lines, mode⟩ := r
  cases hbreak : isBreak c with
  | true =>
    have hblank : isBlank c = false := by
      simp only [isBreak, Bool.or_eq_true, decide_eq_true_eq] at hbreak
      rcases hbreak with rfl | rfl <;> rfl
    rcases mode with _ | _ | ⟨text, _ | _⟩ | ⟨text, afterReturn⟩ <;>
      simp only [step, hbreak, hblank, Bool.or_true, Bool.false_or, if_true]
    · exact h
    · trivial
    · trivial
    · exact h
    · split
      · exact h
      · trivial
  | false =>
    rcases mode with _ | _ | ⟨text, _ | _⟩ | ⟨text, afterReturn⟩ <;>
      simp only [step, hbreak, Bool.or_false, if_false, Bool.false_eq_true]
    · split
      · exact h
      · split
        · trivial
        · exact extend_wellFormed .nil hbreak
    · exact h
    · exact extend_wellFormed h hbreak
    · exact Closed.append h (.escaped hbreak .nil)
    · split
      · exact h
      · exact extend_wellFormed h hbreak

theorem run_wellFormed {r : Reader} (h : r.mode.WellFormed) (text : Text) :
    (run r text).mode.WellFormed := by
  induction text generalizing r with
  | nil => exact h
  | cons c text ih => exact ih (step_wellFormed h c)

theorem closed_of_carried {bytes : List UInt8} {text : Text}
    (h : carried (run begin (latin1 bytes)) = some text) : Closed text := by
  have hmode := run_wellFormed (r := begin) trivial (latin1 bytes)
  generalize run begin (latin1 bytes) = r at h hmode
  obtain ⟨lines, mode⟩ := r
  rcases mode with _ | _ | ⟨before, _ | _⟩ | ⟨before, _ | _⟩ <;> cases h <;> exact hmode

/-! ## Entries of longer lines -/

attribute [local simp] splitKey convertStep

/-- Once the key has ended, more text goes to the rest. -/
theorem splitKey_of_rest {escaped : Bool} {a : Text} (h : (splitKey escaped a).2 ≠ []) (b : Text) :
    splitKey escaped (a ++ b) = ((splitKey escaped a).1, (splitKey escaped a).2 ++ b) := by
  induction a generalizing escaped with
  | nil => cases escaped <;> exact absurd rfl h
  | cons c a ih =>
    cases escaped with
    | true =>
      have hrest : (splitKey false a).2 ≠ [] := h
      simp [ih hrest]
    | false =>
      by_cases hc : endsKey c = true
      · simp [hc]
      · have hrest : (splitKey (c = '\\') a).2 ≠ [] := by simpa [hc] using h
        simp [hc, ih hrest]

/-- A closed text without the end of a key is all key. -/
theorem splitKey_of_closed {a : Text} (ha : Closed a) (h : (splitKey false a).2 = []) (b : Text) :
    splitKey false (a ++ b) = (a ++ (splitKey false b).1, (splitKey false b).2) := by
  induction ha with
  | nil => rfl
  | @plain c text hc _ _ ih =>
    by_cases hends : endsKey c = true
    · simp [hends] at h
    · have hrest : (splitKey false text).2 = [] := by simpa [hends, hc] using h
      simp [hends, hc, ih hrest]
  | @escaped c text _ _ ih =>
    have hends : endsKey '\\' = false := rfl
    have hrest : (splitKey false text).2 = [] := by simpa [hends] using h
    simp [hends, ih hrest]

theorem splitKey_plain {key : Text} (h : ∀ c ∈ key, endsKey c = false ∧ c ≠ '\\') {c : Char}
    (hc : endsKey c = true) (rest : Text) :
    splitKey false (key ++ c :: rest) = (key, c :: rest) := by
  induction key with
  | nil => simp [hc]
  | cons d key ih =>
    obtain ⟨hends, hd⟩ := h d (by simp)
    simp [hends, hd, ih fun e he => h e (by simp [he])]

namespace Closed

theorem splitKey_rest {a : Text} (ha : Closed a) : Closed (splitKey false a).2 := by
  induction ha with
  | nil => exact .nil
  | @plain c text hc hbreak h ih =>
    by_cases hends : endsKey c = true
    · simpa [hends] using Closed.plain hc hbreak h
    · simpa [hends, hc] using ih
  | escaped _ _ ih => simpa [show endsKey '\\' = false from rfl] using ih

theorem dropBlanks {a : Text} (ha : Closed a) : Closed (a.dropWhile isBlank) := by
  induction ha with
  | nil => exact .nil
  | @plain c text hc hbreak h ih =>
    by_cases hblank : isBlank c = true
    · simpa [List.dropWhile_cons, hblank] using ih
    · simpa [List.dropWhile_cons, hblank] using Closed.plain hc hbreak h
  | escaped hbreak h _ => exact .escaped hbreak h

theorem dropSeparator {a : Text} (ha : Closed a) : Closed (Properties.dropSeparator a) := by
  have hdrop := ha.dropBlanks
  unfold Properties.dropSeparator
  split
  · exact .nil
  · next c element heq =>
    rw [heq] at hdrop
    split
    · next hc =>
      refine (hdrop.of_cons ?_).dropBlanks
      rintro rfl
      exact absurd hc (by decide)
    · exact hdrop

end Closed

/-- Text that begins as an element does stays at the end of the element. -/
theorem dropSeparator_append {c : Char} (hblank : isBlank c = false)
    (hc : (c = '=' || c = ':') = false) (rest text : Text) :
    dropSeparator (rest ++ c :: text) = dropSeparator rest ++ c :: text := by
  have hhead : (c :: text).dropWhile isBlank = c :: text := by simp [hblank]
  have hsep : ¬(c = '=' ∨ c = ':') := by simpa using hc
  unfold dropSeparator
  rw [List.dropWhile_append, hhead]
  cases h : rest.dropWhile isBlank with
  | nil => simp [hsep]
  | cons d element =>
    by_cases hd : d = '=' ∨ d = ':'
    · simp only [List.isEmpty_cons, Bool.false_eq_true, if_false, List.cons_append]
      simp only [Bool.or_eq_true, decide_eq_true_eq, if_pos hd, List.dropWhile_append, hhead]
      split
      · next hempty => rw [List.isEmpty_iff.mp hempty, List.nil_append]
      · rfl
    · simp [hd]

theorem convertFrom_plain {text : Text} (h : ∀ c ∈ text, c ≠ '\\') (units : Units) :
    text.foldlM convertStep (units, .plain) = some (units ++ text.map Char.toNat, .plain) := by
  induction text generalizing units with
  | nil => simp
  | cons c text ih =>
    have hc : c ≠ '\\' := h c (by simp)
    simp [hc, ih fun d hd => h d (by simp [hd])]

/-- After a closed text no backslash is open. -/
theorem convertFrom_closed {a : Text} (ha : Closed a) {s s' : Units × Pending}
    (hs : s.2 ≠ .backslash) (h : a.foldlM convertStep s = some s') : s'.2 ≠ .backslash := by
  induction ha generalizing s with
  | nil =>
    cases h
    exact hs
  | @plain c text hc _ _ ih =>
    rw [List.foldlM_cons] at h
    obtain ⟨t, hstep, ht⟩ := Option.bind_eq_some_iff.mp h
    refine ih ?_ ht
    obtain ⟨units, _ | _ | ⟨_ | left, unit⟩⟩ := s
    · simp only [convertStep, hc, if_false, Option.some.injEq] at hstep
      subst hstep
      nofun
    · exact absurd rfl hs
    · obtain ⟨d, -, rfl⟩ := Option.map_eq_some_iff.mp hstep
      nofun
    · obtain ⟨d, -, rfl⟩ := Option.map_eq_some_iff.mp hstep
      nofun
  | @escaped c text _ _ ih =>
    rw [List.foldlM_cons] at h
    obtain ⟨t, hstep, ht⟩ := Option.bind_eq_some_iff.mp h
    rw [List.foldlM_cons] at ht
    obtain ⟨t', hstep', ht'⟩ := Option.bind_eq_some_iff.mp ht
    refine ih ?_ ht'
    obtain ⟨units, _ | _ | ⟨_ | left, unit⟩⟩ := s
    · cases hstep
      simp only [convertStep] at hstep'
      split at hstep' <;> cases hstep' <;> nofun
    · exact absurd rfl hs
    · cases hstep
    · cases hstep

/-- Plain text after a closed one is not changed by the escapes before it. -/
theorem convert_append {a b : Text} (ha : Closed a) (hb : ∀ c ∈ b, c ≠ '\\') {units : Units}
    (h : convert a = some units) : convert (a ++ b) = some (units ++ b.map Char.toNat) := by
  obtain ⟨⟨before, pending⟩, hfold, hend⟩ := Option.bind_eq_some_iff.mp h
  have hopen : pending ≠ .backslash := convertFrom_closed (s := ([], .plain)) ha (by nofun) hfold
  cases pending with
  | plain =>
    cases hend
    unfold convert
    rw [List.foldlM_append, hfold]
    show ((b.foldlM convertStep (units, .plain)).bind _) = _
    rw [convertFrom_plain hb]
    rfl
  | backslash => exact absurd rfl hopen
  | hex => cases hend

/-- Raw text that stands for the code units, whatever comes before it. -/
structure Reads (raw : Text) (units : Units) : Prop where
  closed : Closed raw
  converts : ∀ before, raw.foldlM convertStep (before, .plain) = some (before ++ units, .plain)

namespace Reads

theorem nil : Reads [] [] := ⟨.nil, fun before => by simp⟩

theorem append {a b : Text} {u v : Units} (ha : Reads a u) (hb : Reads b v) :
    Reads (a ++ b) (u ++ v) := by
  refine ⟨ha.closed.append hb.closed, fun before => ?_⟩
  rw [List.foldlM_append, ha.converts, ← List.append_assoc]
  exact hb.converts _

theorem plain {text : Text} (h : ∀ c ∈ text, c ≠ '\\' ∧ isBreak c = false) :
    Reads text (text.map Char.toNat) :=
  ⟨.of_plain h, fun before => convertFrom_plain (fun c hc => (h c hc).1) before⟩

theorem escaped {c : Char} (hbreak : isBreak c = false) (hc : c ≠ 'u') :
    Reads ['\\', c] [escapedUnit c] :=
  ⟨.escaped hbreak .nil, fun before => by simp [hc]⟩

theorem convert {raw : Text} {units : Units} (h : Reads raw units) :
    Properties.convert raw = some units := by
  unfold Properties.convert
  rw [h.converts]
  rfl

end Reads

/-- The entry of a key without escapes and an element that does not begin with a blank. -/
theorem entry_assignment {key element : Text} {units : Units}
    (hkey : ∀ c ∈ key, endsKey c = false ∧ c ≠ '\\') (h : Reads element units)
    (hhead : ∀ c ∈ element.head?, isBlank c = false) :
    entry (key ++ '=' :: element) = some (key.map Char.toNat, units) := by
  have hdrop : element.dropWhile isBlank = element := by
    cases element with
    | nil => rfl
    | cons c element => simp [hhead c rfl]
  have hsep : dropSeparator ('=' :: element) = element := by
    simp [dropSeparator, show isBlank '=' = false from rfl, hdrop]
  have hplain := convertFrom_plain (fun c hc => (hkey c hc).2) []
  have hconvert : convert key = some (key.map Char.toNat) := by
    unfold convert
    rw [hplain]
    rfl
  unfold entry
  rw [splitKey_plain hkey rfl, hconvert, hsep, h.convert]
  rfl

/-! ## Properties -/

theorem put_append (properties : Units → Option Units) (a b : List (Units × Units)) :
    put properties (a ++ b) = put (put properties a) b :=
  List.foldl_append

theorem put_of_notMem {entries : List (Units × Units)} {key : Units}
    (h : key ∉ entries.map Prod.fst) (properties : Units → Option Units) :
    put properties entries key = properties key := by
  induction entries generalizing properties with
  | nil => rfl
  | cons e entries ih =>
    simp only [List.map_cons, List.mem_cons, not_or] at h
    show put (Function.update properties e.1 (some e.2)) entries key = _
    rw [ih h.2, Function.update_of_ne h.1]

theorem put_of_mem {entries : List (Units × Units)} (hnodup : (entries.map Prod.fst).Nodup)
    {e : Units × Units} (h : e ∈ entries) (properties : Units → Option Units) :
    put properties entries e.1 = some e.2 := by
  induction entries generalizing properties with
  | nil => cases h
  | cons first entries ih =>
    rw [List.map_cons, List.nodup_cons] at hnodup
    show put (Function.update properties first.1 (some first.2)) entries e.1 = _
    rcases List.mem_cons.mp h with rfl | h
    · rw [put_of_notMem hnodup.1, Function.update_self]
    · exact ih hnodup.2 h _

/-- Entries of the same keys make the same properties when they are the same, and the rest is. -/
theorem put_eq_put_iff {a b : List (Units × Units)} (hkeys : a.map Prod.fst = b.map Prod.fst)
    (hnodup : (a.map Prod.fst).Nodup) {p q : Units → Option Units} :
    put p a = put q b ↔ a = b ∧ ∀ key ∉ a.map Prod.fst, p key = q key := by
  constructor
  · intro h
    refine ⟨?_, fun key hkey => ?_⟩
    · have hlength : a.length = b.length := by simpa using congrArg List.length hkeys
      refine List.ext_getElem hlength fun i ha hb => ?_
      have hkey : a[i].1 = b[i].1 := by
        rw [← List.getElem_map Prod.fst (h := by simpa using ha),
          ← List.getElem_map Prod.fst (h := by simpa using hb)]
        exact List.getElem_of_eq hkeys _
      have helement : some a[i].2 = some b[i].2 := by
        rw [← put_of_mem hnodup (List.getElem_mem ha) p,
          ← put_of_mem (hkeys ▸ hnodup) (List.getElem_mem hb) q, h, hkey]
      exact Prod.ext hkey (Option.some.inj helement)
    · rw [← put_of_notMem hkey p, h, put_of_notMem (hkeys ▸ hkey) q]
  · rintro ⟨rfl, hrest⟩
    funext key
    by_cases hkey : key ∈ a.map Prod.fst
    · obtain ⟨e, he, rfl⟩ := List.mem_map.mp hkey
      rw [put_of_mem hnodup he, put_of_mem hnodup he]
    · rw [put_of_notMem hkey, put_of_notMem hkey, hrest key hkey]

/-- The same key with another element is seen unless the key does not count. -/
theorem update_element_iff {p : Units → Option Units} {keys : List Units} {key a b : Units}
    (hne : a ≠ b) :
    (∀ k ∉ keys, Function.update p key (some a) k = Function.update p key (some b) k) ↔
      key ∈ keys := by
  constructor
  · intro h
    by_contra hkey
    have heq := h key hkey
    rw [Function.update_self, Function.update_self] at heq
    exact hne (Option.some.inj heq)
  · intro hkey k hk
    have hne : k ≠ key := fun heq => hk (heq ▸ hkey)
    rw [Function.update_of_ne hne, Function.update_of_ne hne]

/-- Entries of two keys are mistaken for one another when neither changes what counts. -/
theorem update_key_iff {p : Units → Option Units} {keys : List Units} {key key' a b : Units}
    (hne : key ≠ key') :
    (∀ k ∉ keys, Function.update p key (some a) k = Function.update p key' (some b) k) ↔
      (key ∈ keys ∨ p key = some a) ∧ (key' ∈ keys ∨ p key' = some b) := by
  constructor
  · intro h
    refine ⟨or_iff_not_imp_left.mpr fun hkey => ?_, or_iff_not_imp_left.mpr fun hkey => ?_⟩
    · have heq := h key hkey
      rw [Function.update_self, Function.update_of_ne hne] at heq
      exact heq.symm
    · have heq := h key' hkey
      rwa [Function.update_self, Function.update_of_ne hne.symm] at heq
  · rintro ⟨hfirst, hsecond⟩ k hk
    by_cases hkey : k = key
    · subst hkey
      rw [Function.update_self, Function.update_of_ne hne, hfirst.resolve_left hk]
    · rw [Function.update_of_ne hkey]
      by_cases hkey' : k = key'
      · subst hkey'
        rw [Function.update_self, hsecond.resolve_left hk]
      · rw [Function.update_of_ne hkey']

end Properties
