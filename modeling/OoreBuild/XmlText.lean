import OoreBuild.Reports

/-!
# XML text

`unescape` decodes the entities of a text and keeps what it cannot decode. Its loop moves on by a
character at least, so it ends (`unescapes_unescape`), and it inverts every way to escape a text:
each character is written as itself or as a reference to it.
-/

namespace OoreBuild

namespace Reports

open Text

/-! ## The loop ends -/

/-- What the loop of `unescape` adds to its output for the rest of a value. -/
inductive Unescapes : Text → Text → Prop where
  /-- No ampersand is left. -/
  | done {rest} : splitFirst "&" rest = none → Unescapes rest rest
  /-- No semicolon is left. -/
  | stop {rest before after} : splitFirst "&" rest = some (before, after) →
      splitFirst ";" after = none → Unescapes rest (before ++ '&' :: after)
  | decoded {rest before after entity next c out} : splitFirst "&" rest = some (before, after) →
      splitFirst ";" after = some (entity, next) → decodeEntity entity = some c →
      Unescapes next out → Unescapes rest (before ++ c :: out)
  | kept {rest before after entity next out} : splitFirst "&" rest = some (before, after) →
      splitFirst ";" after = some (entity, next) → decodeEntity entity = none →
      Unescapes after out → Unescapes rest (before ++ '&' :: out)

theorem unescapes_unescapeFrom (fuel : ℕ) (rest : Text) (h : rest.length ≤ fuel) :
    Unescapes rest (unescapeFrom fuel rest) := by
  induction fuel generalizing rest with
  | zero =>
    have hnil : rest = [] := List.eq_nil_of_length_eq_zero (Nat.le_zero.mp h)
    subst hnil
    exact Unescapes.done rfl
  | succ fuel ih =>
    unfold unescapeFrom
    cases hamp : splitFirst "&" rest with
    | none => exact Unescapes.done hamp
    | some found =>
      obtain ⟨before, after⟩ := found
      have hafter : after.length ≤ fuel := by
        have := length_of_splitFirst hamp
        have hone : ("&" : Text).length = 1 := rfl
        omega
      dsimp only
      cases hsemi : splitFirst ";" after with
      | none => exact Unescapes.stop hamp hsemi
      | some found =>
        obtain ⟨entity, next⟩ := found
        have hnext : next.length ≤ fuel := by
          have := length_of_splitFirst hsemi
          omega
        dsimp only
        cases hdecode : decodeEntity entity with
        | none => exact Unescapes.kept hamp hsemi hdecode (ih after hafter)
        | some c => exact Unescapes.decoded hamp hsemi hdecode (ih next hnext)

/-- The loop ends on every text, with the result of `unescape`. -/
theorem unescapes_unescape (value : Text) : Unescapes value (unescape value) :=
  unescapes_unescapeFrom _ value le_rfl

/-! ## Escaped text -/

/-- The value of hexadecimal digits. -/
def hexValue (digits : Text) : ℕ :=
  digits.foldl (fun value c => value * 16 + (hexDigit c).getD 0) 0

/-- What stands between the ampersand and the semicolon of a reference to a character. -/
inductive Reference : Text → Char → Prop where
  | lt : Reference "lt" '<'
  | gt : Reference "gt" '>'
  | amp : Reference "amp" '&'
  | quot : Reference "quot" '"'
  | apos : Reference "apos" '\''
  | decimal {digits : Text} {c : Char} : digits ≠ [] → digits.all isAsciiDigit = true →
      Nat.ofDigitChars 10 digits 0 = c.toNat → Reference ('#' :: digits) c
  | hex {digits : Text} {c : Char} : digits ≠ [] →
      (digits.all fun d => (hexDigit d).isSome) = true →
      hexValue digits = c.toNat → Reference ('#' :: 'x' :: digits) c

/-- The second text is an escaped form of the first. -/
inductive Escapes : Text → Text → Prop where
  | nil : Escapes [] []
  | plain {c : Char} {t e : Text} : c ≠ '&' → Escapes t e → Escapes (c :: t) (c :: e)
  | reference {r : Text} {c : Char} {t e : Text} : Reference r c → Escapes t e →
      Escapes (c :: t) ('&' :: (r ++ ';' :: e))

theorem charFromU32_toNat (c : Char) : charFromU32 c.toNat = some c := by
  have hvalid : c.toNat.isValidChar := c.valid
  unfold charFromU32
  rw [if_pos hvalid, Char.ofNat_toNat]

theorem toNat_lt_u32Max (c : Char) : c.toNat < u32Max := by
  have h := c.valid
  have : c.toNat < 0x110000 := by
    rcases h with h | h
    · exact lt_trans h (by decide)
    · exact h.2
  exact lt_trans this (by decide)

/-- Digits are read to their value where it is within the limit. -/
theorem parseDigits_eq {digit : Char → Option ℕ} {base limit : ℕ} (digits : Text) (start : ℕ)
    (hbase : 0 < base) (hdigits : ∀ d ∈ digits, (digit d).isSome = true)
    (hlimit : digits.foldl (fun value c => value * base + (digit c).getD 0) start ≤ limit) :
    digits.foldl (fun value c => do
      let value ← value
      let d ← digit c
      let next := value * base + d
      if next ≤ limit then some next else none) (some start) =
        some (digits.foldl (fun value c => value * base + (digit c).getD 0) start) := by
  induction digits generalizing start with
  | nil => rfl
  | cons c rest ih =>
    obtain ⟨d, hd⟩ := Option.isSome_iff_exists.mp (hdigits c List.mem_cons_self)
    -- a value never falls below the one before
    have hgrows (rest : Text) (start : ℕ) :
        start ≤ rest.foldl (fun value c => value * base + (digit c).getD 0) start := by
      induction rest generalizing start with
      | nil => exact le_rfl
      | cons c rest ih =>
        calc start ≤ start * base := Nat.le_mul_of_pos_right start hbase
          _ ≤ start * base + (digit c).getD 0 := Nat.le_add_right _ _
          _ ≤ _ := ih _
    rw [List.foldl_cons, hd, Option.getD_some] at hlimit
    have hnext : start * base + d ≤ limit := le_trans (hgrows rest _) hlimit
    have htail := ih (start * base + d) (fun d hd => hdigits d (List.mem_cons_of_mem _ hd)) hlimit
    rw [List.foldl_cons, List.foldl_cons, hd, Option.getD_some, ← htail]
    show List.foldl _ (if start * base + d ≤ limit then some (start * base + d) else none) rest = _
    rw [if_pos hnext]

theorem dropPlus_of_all {p : Char → Bool} {digits : Text} (hp : p '+' = false)
    (h : digits.all p = true) : dropPlus digits = digits := by
  cases digits with
  | nil => rfl
  | cons c rest =>
    have hc : c ≠ '+' := by
      rintro rfl
      rw [List.all_cons, hp, Bool.false_and] at h
      cases h
    unfold dropPlus
    split
    · next heq => exact absurd (List.cons.inj heq).1 hc
    · rfl

/-- What follows the mark of a hexadecimal reference is not a decimal digit. -/
theorem stripPrefix_hex_decimal {digits : Text} {mark : Char} (hmark : isAsciiDigit mark = false)
    (h : digits.all isAsciiDigit = true) : stripPrefix ['#', mark] ('#' :: digits) = none := by
  rw [Option.eq_none_iff_forall_ne_some]
  intro rest hrest
  have heq := stripPrefix_eq_some_iff.mp hrest
  rw [List.cons_append, List.cons.injEq] at heq
  rw [heq.2, List.cons_append, List.all_cons, hmark, Bool.false_and] at h
  cases h

/-- A reference is decoded to its character. -/
theorem decodeEntity_reference {r : Text} {c : Char} (h : Reference r c) :
    decodeEntity r = some c := by
  cases h with
  | lt => rfl
  | gt => rfl
  | amp => rfl
  | quot => rfl
  | apos => rfl
  | @decimal digits _ hne hall hvalue =>
    have hhash (name : Text) (hname : name.head? ≠ some '#') : '#' :: digits ≠ name := by
      rintro rfl
      exact hname rfl
    unfold decodeEntity
    rw [if_neg (hhash _ (by decide)), if_neg (hhash _ (by decide)), if_neg (hhash _ (by decide)),
      if_neg (hhash _ (by decide)), if_neg (hhash _ (by decide))]
    have hlow : stripPrefix "#x" ('#' :: digits) = none := stripPrefix_hex_decimal rfl hall
    have hupper : stripPrefix "#X" ('#' :: digits) = none := stripPrefix_hex_decimal rfl hall
    have hdec : stripPrefix "#" ('#' :: digits) = some digits := stripPrefix_eq_some_iff.mpr rfl
    have hparse : parseUnsigned u32Max digits = some c.toNat := by
      unfold parseUnsigned
      rw [dropPlus_of_all rfl hall, if_pos ⟨hne, hall⟩, hvalue, Option.filter_some,
        if_pos (decide_eq_true (toNat_lt_u32Max c))]
    rw [hlow, hupper, hdec]
    show (parseUnsigned u32Max digits).bind charFromU32 = _
    rw [hparse]
    exact charFromU32_toNat c
  | @hex digits _ hne hall hvalue =>
    have hhash (name : Text) (hname : name.head? ≠ some '#') : '#' :: 'x' :: digits ≠ name := by
      rintro rfl
      exact hname rfl
    unfold decodeEntity
    rw [if_neg (hhash _ (by decide)), if_neg (hhash _ (by decide)), if_neg (hhash _ (by decide)),
      if_neg (hhash _ (by decide)), if_neg (hhash _ (by decide))]
    have hlow : stripPrefix "#x" ('#' :: 'x' :: digits) = some digits :=
      stripPrefix_eq_some_iff.mpr rfl
    have hparse : parseDigits 16 hexDigit u32Max digits = some c.toNat := by
      unfold parseDigits
      rw [dropPlus_of_all rfl hall]
      dsimp only
      rw [if_neg hne, ← hvalue]
      refine parseDigits_eq digits 0 (by decide) (List.all_eq_true.mp hall) ?_
      show hexValue digits ≤ u32Max
      rw [hvalue]
      exact (toNat_lt_u32Max c).le
    rw [hlow]
    show ((parseDigits 16 hexDigit u32Max digits).or _).bind charFromU32 = _
    rw [hparse]
    exact charFromU32_toNat c

theorem semicolon_notMem_reference {r : Text} {c : Char} (h : Reference r c) : ';' ∉ r := by
  cases h with
  | lt => decide
  | gt => decide
  | amp => decide
  | quot => decide
  | apos => decide
  | decimal _ hall _ =>
    intro hmem
    rcases List.mem_cons.mp hmem with heq | hmem
    · cases heq
    · cases List.all_eq_true.mp hall _ hmem
  | hex _ hall _ =>
    intro hmem
    rcases List.mem_cons.mp hmem with heq | hmem
    · cases heq
    · rcases List.mem_cons.mp hmem with heq | hmem
      · cases heq
      · cases List.all_eq_true.mp hall _ hmem

/-- A character that is not an ampersand is kept. -/
theorem unescapeFrom_cons {c : Char} (hc : c ≠ '&') (fuel : ℕ) (rest : Text) :
    unescapeFrom (fuel + 1) (c :: rest) = c :: unescapeFrom (fuel + 1) rest := by
  have hstrip : stripPrefix "&" (c :: rest) = none := by
    show (if '&' = c then _ else none) = none
    exact if_neg hc.symm
  unfold unescapeFrom
  rw [splitFirst, hstrip]
  dsimp only
  cases splitFirst "&" rest with
  | none => rfl
  | some found =>
    obtain ⟨before, after⟩ := found
    dsimp only [Option.map_some]
    cases splitFirst ";" after with
    | none => rfl
    | some found =>
      obtain ⟨entity, next⟩ := found
      dsimp only
      cases decodeEntity entity <;> rfl

theorem unescapeFrom_escapes {t e : Text} (h : Escapes t e) (fuel : ℕ) (hfuel : e.length ≤ fuel) :
    unescapeFrom fuel e = t := by
  induction h generalizing fuel with
  | nil =>
    cases fuel <;> rfl
  | @plain c t e hc _ ih =>
    obtain ⟨fuel, rfl⟩ := Nat.exists_eq_succ_of_ne_zero (n := fuel) (by
      rw [List.length_cons] at hfuel
      omega)
    rw [List.length_cons] at hfuel
    rw [unescapeFrom_cons hc, ih (fuel + 1) (by omega)]
  | @reference r c t e hr _ ih =>
    obtain ⟨fuel, rfl⟩ := Nat.exists_eq_succ_of_ne_zero (n := fuel) (by
      rw [List.length_cons] at hfuel
      omega)
    have hfind {d : Char} {before : Text} (hd : d ∉ before) (after : Text) :
        splitFirst [d] (before ++ ([d] ++ after)) = some (before, after) :=
      splitFirst_needle List.not_mem_nil
        (fun h => hd (h.subset (List.mem_singleton_self d))) after
    have hamp : splitFirst "&" ('&' :: (r ++ ';' :: e)) = some ([], r ++ ';' :: e) :=
      hfind List.not_mem_nil _
    have hsemi : splitFirst ";" (r ++ ';' :: e) = some (r, e) :=
      hfind (semicolon_notMem_reference hr) e
    rw [List.length_cons, List.length_append, List.length_cons] at hfuel
    unfold unescapeFrom
    rw [hamp]
    dsimp only
    rw [hsemi]
    dsimp only
    rw [decodeEntity_reference hr]
    show c :: unescapeFrom fuel e = c :: t
    rw [ih fuel (by omega)]

/-- `unescape` inverts escaping. -/
theorem unescape_escapes {t e : Text} (h : Escapes t e) : unescape e = t :=
  unescapeFrom_escapes h _ le_rfl

end Reports

end OoreBuild
