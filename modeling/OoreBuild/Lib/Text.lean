import Mathlib

/-!
# Unicode text

Text is a list of Unicode scalar values. A string slice of the modelled programs is such a list;
its length in bytes is `byteLen`, the length of its UTF-8 encoding. The operations below are the
standard string operations of the programs: trimming by the `White_Space` property, searching
for a needle, and cutting text at its first occurrence.
-/

/-- A string: its Unicode scalar values in order. -/
abbrev Text := List Char

namespace Text

instance : Coe String Text := ⟨String.toList⟩

instance instLawfulBEqText : LawfulBEq (List Char) := inferInstance

theorem nodup_pairs_nil : ([] : List (Text × Text)).Nodup := List.nodup_nil

/-! ## Characters -/

/-- The `White_Space` property. -/
def isWhitespace (c : Char) : Bool :=
  let n := c.toNat
  (9 ≤ n && n ≤ 13) || n == 0x20 || n == 0x85 || n == 0xA0 || n == 0x1680 ||
    (0x2000 ≤ n && n ≤ 0x200A) || n == 0x2028 || n == 0x2029 || n == 0x202F || n == 0x205F ||
    n == 0x3000

/-- The general category `Cc`. -/
def isControl (c : Char) : Bool :=
  let n := c.toNat
  n ≤ 0x1F || (0x7F ≤ n && n ≤ 0x9F)

def isAsciiDigit (c : Char) : Bool := '0' ≤ c && c ≤ '9'

def isAsciiLowercase (c : Char) : Bool := 'a' ≤ c && c ≤ 'z'

def isAsciiUppercase (c : Char) : Bool := 'A' ≤ c && c ≤ 'Z'

def isAsciiAlphabetic (c : Char) : Bool := isAsciiLowercase c || isAsciiUppercase c

def isAsciiAlphanumeric (c : Char) : Bool := isAsciiAlphabetic c || isAsciiDigit c

/-- Lowercase the ASCII letters and keep every other character. -/
def toAsciiLowercase (t : Text) : Text := t.map Char.toLower

/-! ## Bytes -/

/-- The UTF-8 encoding. -/
def bytes (t : Text) : List UInt8 := t.flatMap String.utf8EncodeChar

/-- The number of bytes of the UTF-8 encoding. -/
def byteLen (t : Text) : ℕ := (t.map Char.utf8Size).sum

@[simp] theorem byteLen_nil : byteLen [] = 0 := rfl

@[simp] theorem byteLen_append (a b : Text) : byteLen (a ++ b) = byteLen a + byteLen b := by
  simp [byteLen]

/-! ## Numbers -/

/-- A natural number in decimal. -/
def ofNat (n : ℕ) : Text := Nat.toDigits 10 n

/-- An integer in decimal. -/
def ofInt : ℤ → Text
  | .ofNat n => ofNat n
  | .negSucc n => '-' :: ofNat (n + 1)

theorem ofNat_injective : Function.Injective ofNat := by
  intro n m h
  rw [← Nat.ofDigitChars_toDigits (b := 10) (n := n) (by decide) (by decide),
    ← Nat.ofDigitChars_toDigits (b := 10) (n := m) (by decide) (by decide)]
  exact congrArg (Nat.ofDigitChars 10 · 0) h

theorem notMem_ofNat {c : Char} (h : c.isDigit = false) (n : ℕ) : c ∉ ofNat n := by
  intro hmem
  rw [Nat.isDigit_of_mem_toDigits (by decide) (by decide) hmem] at h
  cases h

/-- The text after a plus sign, if one comes first. -/
def dropPlus : Text → Text
  | '+' :: t => t
  | t => t

/-- The number that decimal digits write, below `limit`; a plus sign may come first. -/
def parseUnsigned (limit : ℕ) (t : Text) : Option ℕ :=
  if dropPlus t ≠ [] ∧ (dropPlus t).all isAsciiDigit then
    (some (Nat.ofDigitChars 10 (dropPlus t) 0)).filter (· < limit)
  else none

/-- `i64` from its decimal digits. -/
def parseI64 : Text → Option ℤ
  | '-' :: digits =>
    if digits.head? = some '+' then none
    else (parseUnsigned (2 ^ 63 + 1) digits).map fun n => -(n : ℤ)
  | text => (parseUnsigned (2 ^ 63) text).map fun n => (n : ℤ)

theorem mem_dropPlus {t : Text} {c : Char} (hc : c ∈ t) : c = '+' ∨ c ∈ dropPlus t := by
  unfold dropPlus
  split
  · exact List.mem_cons.mp hc
  · exact .inr hc

/-- A number is written with digits and a plus sign. -/
theorem mem_of_parseUnsigned {limit : ℕ} {t : Text} {n : ℕ} (h : parseUnsigned limit t = some n)
    {c : Char} (hc : c ∈ t) : c = '+' ∨ isAsciiDigit c = true := by
  unfold parseUnsigned at h
  split at h
  · rename_i hdigits
    exact (mem_dropPlus hc).imp_right (List.all_eq_true.mp hdigits.2 c)
  · cases h

/-! ## Trimming -/

def trimStart (t : Text) : Text := t.dropWhile isWhitespace

def trimEnd (t : Text) : Text := t.rdropWhile isWhitespace

/-- The text without leading and trailing whitespace. -/
def trim (t : Text) : Text := trimEnd (trimStart t)

/-- The text is the trimmed text between whitespace. -/
theorem exists_trim (t : Text) :
    ∃ a b : Text, (∀ c ∈ a, isWhitespace c) ∧ (∀ c ∈ b, isWhitespace c) ∧ t = a ++ trim t ++ b := by
  refine ⟨t.takeWhile isWhitespace, (trimStart t).rtakeWhile isWhitespace,
    fun c hc => List.mem_takeWhile_imp hc, fun c hc => List.mem_rtakeWhile_imp hc, ?_⟩
  unfold trim trimEnd
  rw [List.append_assoc, List.rdropWhile_append_rtakeWhile, trimStart,
    List.takeWhile_append_dropWhile]

theorem trim_eq_nil_iff {t : Text} : trim t = [] ↔ ∀ c ∈ t, isWhitespace c := by
  constructor
  · intro h
    obtain ⟨a, b, ha, hb, ht⟩ := exists_trim t
    rw [h, List.append_nil] at ht
    intro c hc
    rw [ht] at hc
    exact (List.mem_append.mp hc).elim (ha c) (hb c)
  · intro h
    have hs : trimStart t = [] := List.dropWhile_eq_nil_iff.mpr h
    rw [trim, hs, trimEnd, List.rdropWhile_nil]

/-- The trimmed text does not start with whitespace. -/
theorem head_trim {t : Text} {c : Char} (h : c ∈ (trim t).head?) : isWhitespace c = false := by
  obtain ⟨b, hb⟩ : trim t <+: trimStart t := List.rdropWhile_prefix _ _
  have hc : (trimStart t).head? = some c := by
    rw [← hb, List.head?_append, Option.mem_def.mp h]
    rfl
  have := List.head?_dropWhile_not isWhitespace t
  rw [trimStart] at hc
  rw [hc] at this
  simpa using this

/-- The trimmed text does not end with whitespace. -/
theorem getLast_trim {t : Text} {c : Char} (h : c ∈ (trim t).getLast?) :
    isWhitespace c = false := by
  have hne : trimEnd (trimStart t) ≠ [] := by
    rintro hnil
    rw [trim, hnil] at h
    simp at h
  have := List.rdropWhile_last_not isWhitespace (trimStart t) hne
  rw [trim, Option.mem_def, List.getLast?_eq_some_getLast hne, Option.some.injEq] at h
  rw [← h]
  simpa [trimEnd] using this

/-- Text that neither starts nor ends with whitespace is trimmed. -/
theorem trim_eq_self {t : Text} (hhead : ∀ c ∈ t.head?, isWhitespace c = false)
    (hlast : ∀ c ∈ t.getLast?, isWhitespace c = false) : trim t = t := by
  have hs : trimStart t = t := by
    cases t with
    | nil => rfl
    | cons c cs => simp [trimStart, hhead c (by simp)]
  rw [trim, hs, trimEnd, List.rdropWhile_eq_self_iff]
  intro hne
  have := hlast _ (List.getLast?_eq_some_getLast hne)
  simp [this]

@[simp] theorem trim_trim (t : Text) : trim (trim t) = trim t :=
  trim_eq_self (fun _ => head_trim) (fun _ => getLast_trim)

/-! ## Searching -/

/-- The text after `needle`, when it starts with it. -/
def stripPrefix : Text → Text → Option Text
  | [], t => some t
  | _ :: _, [] => none
  | n :: ns, c :: cs => if n = c then stripPrefix ns cs else none

/-- Whether the text starts with `needle`. -/
def startsWith (t needle : Text) : Bool := (stripPrefix needle t).isSome

/-- Whether the text ends with `needle`. -/
def endsWith (t needle : Text) : Bool := startsWith t.reverse needle.reverse

/-- The text before and after the first occurrence of `needle`. -/
def splitFirst (needle : Text) : Text → Option (Text × Text)
  | [] => (stripPrefix needle []).map fun rest => ([], rest)
  | c :: cs =>
    match stripPrefix needle (c :: cs) with
    | some rest => some ([], rest)
    | none => (splitFirst needle cs).map fun p => (c :: p.1, p.2)

/-- Whether `needle` occurs in the text. -/
def contains (t needle : Text) : Bool := (splitFirst needle t).isSome

theorem stripPrefix_eq_some_iff {needle t rest : Text} :
    stripPrefix needle t = some rest ↔ t = needle ++ rest := by
  induction needle generalizing t with
  | nil => simp [stripPrefix]
  | cons n needle ih =>
    cases t with
    | nil => simp [stripPrefix]
    | cons c t =>
      unfold stripPrefix
      split
      · rename_i heq
        rw [ih, heq, List.cons_append, List.cons_inj_right]
      · rename_i hne
        refine iff_of_false nofun fun h => hne ?_
        exact (List.cons.inj h).1.symm

theorem stripPrefix_eq_none_iff {needle t : Text} :
    stripPrefix needle t = none ↔ ¬ needle <+: t := by
  rw [Option.eq_none_iff_forall_ne_some]
  constructor
  · rintro h ⟨rest, heq⟩
    exact h rest (stripPrefix_eq_some_iff.mpr heq.symm)
  · intro h rest heq
    exact h ⟨rest, (stripPrefix_eq_some_iff.mp heq).symm⟩

/-- The text around the first occurrence. -/
theorem splitFirst_eq_some {needle t before after : Text}
    (h : splitFirst needle t = some (before, after)) : t = before ++ needle ++ after := by
  induction t generalizing before with
  | nil =>
    unfold splitFirst at h
    obtain ⟨rest, hrest, heq⟩ := Option.map_eq_some_iff.mp h
    cases heq
    exact stripPrefix_eq_some_iff.mp hrest
  | cons c t ih =>
    unfold splitFirst at h
    split at h
    · rename_i rest hrest
      cases h
      exact stripPrefix_eq_some_iff.mp hrest
    · obtain ⟨⟨before', after'⟩, hrest, heq⟩ := Option.map_eq_some_iff.mp h
      cases heq
      rw [ih hrest]
      rfl

/-- Text that follows does not move the first occurrence. -/
theorem splitFirst_append {needle t before after : Text}
    (h : splitFirst needle t = some (before, after)) (more : Text) :
    splitFirst needle (t ++ more) = some (before, after ++ more) := by
  have hstrip : ∀ {t rest : Text}, stripPrefix needle t = some rest →
      stripPrefix needle (t ++ more) = some (rest ++ more) := by
    intro t rest hrest
    rw [stripPrefix_eq_some_iff] at hrest ⊢
    rw [hrest, List.append_assoc]
  induction t generalizing before with
  | nil =>
    unfold splitFirst at h
    obtain ⟨rest, hrest, heq⟩ := Option.map_eq_some_iff.mp h
    cases heq
    -- only the empty needle occurs in the empty text
    have hnil : needle = [] := by
      have := stripPrefix_eq_some_iff.mp hrest
      exact (List.append_eq_nil_iff.mp this.symm).1
    subst hnil
    cases more with
    | nil => rw [List.append_nil, List.append_nil, splitFirst, hrest, Option.map_some]
    | cons c more =>
      have := hstrip hrest
      rw [List.nil_append] at this ⊢
      rw [splitFirst, this]
  | cons c t ih =>
    unfold splitFirst at h
    rw [List.cons_append, splitFirst]
    cases hpre : stripPrefix needle (c :: t) with
    | some rest =>
      rw [hpre] at h
      cases h
      rw [← List.cons_append, hstrip hpre]
    | none =>
      rw [hpre] at h
      obtain ⟨⟨before', after'⟩, hrest, heq⟩ := Option.map_eq_some_iff.mp h
      cases heq
      -- the needle fits into the text, so it does not start here with the text that follows either
      have hlength : needle.length ≤ (c :: t).length := by
        rw [splitFirst_eq_some hrest]
        simp only [List.length_cons, List.length_append]
        omega
      have hnot : stripPrefix needle (c :: (t ++ more)) = none := by
        rw [stripPrefix_eq_none_iff] at hpre ⊢
        intro h
        exact hpre (List.prefix_of_prefix_length_le h (List.prefix_append (c :: t) more) hlength)
      rw [hnot, ih hrest]
      rfl

theorem length_of_splitFirst {needle t before after : Text}
    (h : splitFirst needle t = some (before, after)) :
    t.length = before.length + needle.length + after.length := by
  rw [splitFirst_eq_some h, List.length_append, List.length_append]

theorem splitFirst_eq_none_iff {needle t : Text} :
    splitFirst needle t = none ↔ ¬ needle <:+: t := by
  induction t with
  | nil =>
    unfold splitFirst
    rw [Option.map_eq_none_iff, stripPrefix_eq_none_iff, List.prefix_nil, List.infix_nil]
  | cons c t ih =>
    unfold splitFirst
    rw [List.infix_cons_iff, not_or, ← ih, ← stripPrefix_eq_none_iff]
    cases stripPrefix needle (c :: t) with
    | some rest => simp
    | none => simp

/-- Text without the needle does not hide one that follows, where the needle's first character
does not come again in it. -/
theorem splitFirst_needle {c : Char} {cs before : Text} (hc : c ∉ cs)
    (hbefore : ¬ (c :: cs) <:+: before) (after : Text) :
    splitFirst (c :: cs) (before ++ ((c :: cs) ++ after)) = some (before, after) := by
  induction before with
  | nil =>
    have hstrip : stripPrefix (c :: cs) (c :: (cs ++ after)) = some after :=
      stripPrefix_eq_some_iff.mpr rfl
    rw [List.nil_append, List.cons_append, splitFirst, hstrip]
  | cons d before ih =>
    have hnot : stripPrefix (c :: cs) (d :: (before ++ ((c :: cs) ++ after))) = none := by
      rw [stripPrefix_eq_none_iff]
      intro hpre
      have hself : d :: before <+: d :: (before ++ ((c :: cs) ++ after)) :=
        List.prefix_append (d :: before) _
      rcases Nat.le_total (c :: cs).length (d :: before).length with hle | hle
      · exact hbefore (List.prefix_of_prefix_length_le hpre hself hle).isInfix
      · -- the needle would start in the text before it and start again inside itself
        obtain ⟨m, hm⟩ := List.prefix_of_prefix_length_le hself hpre hle
        rw [← hm, ← List.cons_append, List.prefix_append_right_inj] at hpre
        cases m with
        | nil =>
          rw [List.append_nil] at hm
          exact hbefore (hm ▸ List.infix_refl _)
        | cons e m =>
          obtain ⟨rfl, -⟩ := List.cons_prefix_cons.mp hpre
          rw [List.cons_append] at hm
          obtain ⟨rfl, rfl⟩ := List.cons.inj hm
          exact hc (List.mem_append_right _ List.mem_cons_self)
    rw [List.cons_append, splitFirst, hnot, ih fun h => hbefore (h.trans (List.suffix_cons d before).isInfix)]
    rfl

theorem contains_iff {t needle : Text} : contains t needle = true ↔ needle <:+: t := by
  unfold contains
  rw [Option.isSome_iff_ne_none, ne_eq, splitFirst_eq_none_iff, not_not]

/-! ## Splitting and joining -/

/-- The parts between the characters that satisfy `p`, empty ones included. -/
def split (p : Char → Bool) : Text → List Text
  | [] => [[]]
  | c :: cs =>
    match split p cs with
    | [] => [[c]]
    | part :: parts => if p c then [] :: part :: parts else (c :: part) :: parts

/-- The non-empty parts between whitespace. -/
def splitWhitespace (t : Text) : List Text := (split isWhitespace t).filter (· ≠ [])

/-- Drop one carriage return at the end, as the line reader does. -/
def stripCr (line : Text) : Text := if line.getLast? = some '\r' then line.dropLast else line

/-- The lines: split at every line feed, without the ending carriage return of a line that a
line feed ended, and without an empty last line. -/
def lines (t : Text) : List Text :=
  let parts := split (· = '\n') t
  parts.dropLast.map stripCr ++ (match parts.getLast? with
    | some [] | none => []
    | some last => [last])

/-- The parts with `separator` between them. -/
def join (separator : Text) (parts : List Text) : Text := List.intercalate separator parts

theorem split_ne_nil (p : Char → Bool) (t : Text) : split p t ≠ [] := by
  cases t with
  | nil => simp [split]
  | cons c cs =>
    unfold split
    split
    · simp
    · split <;> simp

/-- Every character separates parts or is in one of them. -/
theorem exists_mem_split {p : Char → Bool} {t : Text} {c : Char} (hc : c ∈ t) (hp : p c = false) :
    ∃ part ∈ split p t, c ∈ part := by
  induction t with
  | nil => cases hc
  | cons d t ih =>
    rw [split]
    cases hsplit : split p t with
    | nil => exact absurd hsplit (split_ne_nil p t)
    | cons first rest =>
      rw [hsplit] at ih
      rcases List.mem_cons.mp hc with rfl | hc
      · exact ⟨c :: first, by simp [hp], List.mem_cons_self⟩
      · obtain ⟨part, hpart, hmem⟩ := ih hc
        by_cases hd : p d = true
        · exact ⟨part, by simp [hd, List.mem_cons.mp hpart], hmem⟩
        · rcases List.mem_cons.mp hpart with rfl | hrest
          · exact ⟨d :: part, by simp [hd], List.mem_cons_of_mem _ hmem⟩
          · exact ⟨part, by simp [hd, hrest], hmem⟩

/-- A part without the character, and what follows the character. -/
theorem split_append_cons {p : Char → Bool} {part : Text} (hpart : ∀ c ∈ part, p c = false)
    {c : Char} (hc : p c = true) (rest : Text) :
    split p (part ++ c :: rest) = part :: split p rest := by
  induction part with
  | nil =>
    rw [List.nil_append, split]
    cases hsplit : split p rest with
    | nil => exact absurd hsplit (split_ne_nil p rest)
    | cons first others => simp [hc]
  | cons d part ih =>
    rw [List.cons_append, split, ih fun c hc => hpart c (List.mem_cons_of_mem _ hc)]
    simp [hpart d List.mem_cons_self]

theorem split_of_forall {p : Char → Bool} {t : Text} (h : ∀ c ∈ t, p c = false) :
    split p t = [t] := by
  induction t with
  | nil => rfl
  | cons c cs ih =>
    rw [split, ih fun d hd => h d (List.mem_cons_of_mem _ hd)]
    simp [h c List.mem_cons_self]

/-- Parts without the character are read back from the text that it joins them to. -/
theorem split_join {c : Char} {parts : List Text} (hne : parts ≠ [])
    (hparts : ∀ part ∈ parts, c ∉ part) : split (· = c) (join [c] parts) = parts := by
  have hfree : ∀ part ∈ parts, ∀ d ∈ part, decide (d = c) = false := by
    intro part hpart d hd
    rw [decide_eq_false_iff_not]
    rintro rfl
    exact hparts part hpart hd
  induction parts with
  | nil => exact absurd rfl hne
  | cons part rest ih =>
    cases rest with
    | nil =>
      show split _ (List.intercalate [c] [part]) = [part]
      rw [show List.intercalate [c] [part] = part by simp [List.intercalate]]
      exact split_of_forall (hfree part List.mem_cons_self)
    | cons next rest =>
      have hjoin : join [c] (part :: next :: rest) = part ++ c :: join [c] (next :: rest) := by
        simp [join, List.intercalate]
      rw [hjoin, split_append_cons (hfree part List.mem_cons_self) (by simp),
        ih (by simp) (fun p hp => hparts p (List.mem_cons_of_mem _ hp))
          fun p hp => hfree p (List.mem_cons_of_mem _ hp)]

end Text
