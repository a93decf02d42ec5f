import OoreBuild.BuildCreation

/-!
# Cron expressions

A schedule's five-field expression, read in UTC: `parse` takes it apart into a set of values for
each field and `dueBetween` looks for a minute at which it fires.
-/

namespace OoreBuild

open Text

/-- A parsed five-field cron expression. A set of values has a bit for each. -/
structure Cron where
  minutes : BitVec 64
  hours : BitVec 64
  daysOfMonth : BitVec 64
  months : BitVec 64
  daysOfWeek : BitVec 64
  /-- Standard cron: when both day fields are restricted, either may match. -/
  dayOfMonthAny : Bool
  dayOfWeekAny : Bool
  deriving DecidableEq, Repr

namespace Cron

def bit (value : ℕ) : BitVec 64 := 1 <<< value

/-! ## Reading a field -/

def parseValue (raw : Text) (min max : ℕ) (name : Text) : Except Text ℕ :=
  match (parseUnsigned (2 ^ 32) raw).filter fun value => min ≤ value && value ≤ max with
  | some value => .ok value
  | none => .error (name ++ " value '" ++ raw ++ "' must be between " ++ ofNat min ++ " and " ++
      ofNat max)

/-- The loop over the values of a range, with `fuel` for its rounds. The next value is a 32-bit
sum, which wraps around. -/
def setSteps (step last : ℕ) : ℕ → ℕ → BitVec 64 → BitVec 64
  | 0, _, set => set
  | fuel + 1, value, set =>
    if value ≤ last then setSteps step last fuel ((value + step) % 2 ^ 32) (set ||| bit value)
    else set

/-- Rounds that the loop over a range of 64 bits can take. -/
def maxSteps : ℕ := 64

/-- The rounds left, at most: the values rise to the last one, or fall when the sum wraps. -/
def stepsLeft (step last value : ℕ) : ℕ :=
  if last < value then 0 else if step + last < 2 ^ 32 then last + 1 - value else value + 1

theorem stepsLeft_lt {step last value : ℕ} (hstep : 0 < step) (hlimit : step < 2 ^ 32)
    (hlast : last < 2 ^ 31) (hvalue : value ≤ last) :
    stepsLeft step last ((value + step) % 2 ^ 32) < stepsLeft step last value := by
  unfold stepsLeft
  rw [if_neg (Nat.not_lt.mpr hvalue)]
  by_cases hwrap : value + step < 2 ^ 32
  · rw [Nat.mod_eq_of_lt hwrap]
    split <;> split <;> omega
  · have hmod : (value + step) % 2 ^ 32 = value + step - 2 ^ 32 := by
      rw [Nat.mod_eq_sub_mod (Nat.not_lt.mp hwrap), Nat.mod_eq_of_lt (by omega)]
    rw [hmod]
    split <;> split <;> omega

/-- Fuel beyond the rounds of the loop changes nothing. -/
theorem setSteps_of_le {step last : ℕ} (hstep : 0 < step) (hlimit : step < 2 ^ 32)
    (hlast : last < 2 ^ 31) {fuel more : ℕ} {value : ℕ} (set : BitVec 64)
    (hfuel : stepsLeft step last value ≤ fuel) (hmore : stepsLeft step last value ≤ more) :
    setSteps step last fuel value set = setSteps step last more value set := by
  induction fuel generalizing more value set with
  | zero =>
    have hvalue : ¬ value ≤ last := by
      intro hvalue
      have := stepsLeft_lt hstep hlimit hlast hvalue
      omega
    cases more with
    | zero => rfl
    | succ more => rw [setSteps, setSteps, if_neg hvalue]
  | succ fuel ih =>
    by_cases hvalue : value ≤ last
    · have hlt := stepsLeft_lt hstep hlimit hlast hvalue
      cases more with
      | zero => omega
      | succ more =>
        rw [setSteps, setSteps, if_pos hvalue, if_pos hvalue]
        exact ih _ (by omega) (by omega)
    · cases more with
      | zero => rw [setSteps, setSteps, if_neg hvalue]
      | succ more => rw [setSteps, setSteps, if_neg hvalue, if_neg hvalue]

/-- The loop ends within `maxSteps` rounds over any range of a 64-bit set. -/
theorem setSteps_maxSteps {step last value : ℕ} (hstep : 0 < step) (hlimit : step < 2 ^ 32)
    (hlast : last < 64) (set : BitVec 64) {fuel : ℕ} (hfuel : maxSteps ≤ fuel) :
    setSteps step last fuel value set = setSteps step last maxSteps value set := by
  have hleft : stepsLeft step last value ≤ maxSteps := by
    unfold stepsLeft maxSteps
    split
    · omega
    · split <;> omega
  exact setSteps_of_le hstep hlimit (by omega) set (hleft.trans hfuel) hleft

/-- The range and the step of a part. -/
def parseStep (part name : Text) : Except Text (Text × ℕ) :=
  match splitFirst ['/'] part with
  | some (range, raw) =>
    match (parseUnsigned (2 ^ 32) raw).filter (0 < ·) with
    | some step => .ok (range, step)
    | none => .error (name ++ " step '" ++ raw ++ "' must be a positive number")
  | none => .ok (part, 1)

/-- The first and the last value of a range. `5/15` means from 5 to the end in steps of 15. -/
def parseRange (part range : Text) (min max : ℕ) (name : Text) : Except Text (ℕ × ℕ) :=
  if range = ['*'] then .ok (min, max)
  else match splitFirst ['-'] range with
    | some (start, last) => do
      let start ← parseValue start min max name
      let last ← parseValue last min max name
      return (start, last)
    | none => do
      let value ← parseValue range min max name
      return (value, if contains part ['/'] then max else value)

def parsePart (min max : ℕ) (name : Text) (set : BitVec 64) (part : Text) :
    Except Text (BitVec 64) := do
  let (range, step) ← parseStep part name
  let (start, last) ← parseRange part range min max name
  if last < start then .error (name ++ " range '" ++ range ++ "' runs backwards")
  else return setSteps step last maxSteps start set

def parseField (field : Text) (min max : ℕ) (name : Text) : Except Text (BitVec 64) :=
  (split (· = ',') field).foldlM (parsePart min max name) 0

/-! ## Reading an expression -/

/-- What the aliases stand for. -/
def expand (expression : Text) : Text :=
  if expression = "@hourly" then "0 * * * *"
  else if expression = "@daily" ∨ expression = "@midnight" then "0 0 * * *"
  else if expression = "@weekly" then "0 0 * * 0"
  else if expression = "@monthly" then "0 0 1 * *"
  else if expression = "@yearly" ∨ expression = "@annually" then "0 0 1 1 *"
  else expression

/-- 7 is Sunday, like 0. -/
def foldSunday (daysOfWeek : BitVec 64) : BitVec 64 :=
  if daysOfWeek &&& bit 7 ≠ 0 then (daysOfWeek &&& ~~~bit 7) ||| 1 else daysOfWeek

def parse (expression : Text) : Except Text Cron :=
  match splitWhitespace (expand (trim expression)) with
  | [minute, hour, dayOfMonth, month, dayOfWeek] => do
    let daysOfWeek ← parseField dayOfWeek 0 7 "day-of-week"
    let minutes ← parseField minute 0 59 "minute"
    let hours ← parseField hour 0 23 "hour"
    let daysOfMonth ← parseField dayOfMonth 1 31 "day-of-month"
    let months ← parseField month 1 12 "month"
    return { minutes, hours, daysOfMonth, months, daysOfWeek := foldSunday daysOfWeek
             dayOfMonthAny := dayOfMonth = ['*'], dayOfWeekAny := dayOfWeek = ['*'] }
  | _ => .error "must have five fields: minute hour day-of-month month day-of-week"

/-! ## Firing -/

/-- The month and the day of month, `days` after 1970-01-01. The years are counted from March, so
that a leap day comes last, in eras of 400 years. -/
def monthDay (days : ℕ) : ℕ × ℕ :=
  let dayOfEra := (days + 719468) % 146097
  let yearOfEra := (dayOfEra - dayOfEra / 1460 + dayOfEra / 36524 - dayOfEra / 146096) / 365
  let dayOfYear := dayOfEra - (365 * yearOfEra + yearOfEra / 4 - yearOfEra / 100)
  let month := (5 * dayOfYear + 2) / 153
  (if month < 10 then month + 3 else month - 9, dayOfYear - (153 * month + 2) / 5 + 1)

-- 2028-02-29
example : monthDay 21243 = (2, 29) := by decide

/-- The day of the week, counted from Sunday. 1970-01-01 was a Thursday. -/
def weekday (days : ℕ) : ℕ := (days + 4) % 7

def has (set : BitVec 64) (value : ℕ) : Bool := set &&& bit value ≠ 0

/-- Whether the schedule fires in the minute containing `time`, a Unix time. -/
def fires (cron : Cron) (time : ℕ) : Bool :=
  let days := time / 86400
  let dayOfMonth := has cron.daysOfMonth (monthDay days).2
  let dayOfWeek := has cron.daysOfWeek (weekday days)
  let day := match cron.dayOfMonthAny, cron.dayOfWeekAny with
    | true, true => true
    | true, false => dayOfWeek
    | false, true => dayOfMonth
    | false, false => dayOfMonth || dayOfWeek
  day && has cron.minutes (time / 60 % 60) && has cron.hours (time / 3600 % 24) &&
    has cron.months (monthDay days).1

/-- The last Unix time that is a date, 262142-12-31 23:59:59. -/
def maxTimestamp : ℕ := 8210266876799

/-- Whether the schedule fires in the given minute after 1970. -/
def firesIn (cron : Cron) (minute : ℕ) : Bool :=
  minute * 60 ≤ maxTimestamp && cron.fires (minute * 60)

/-- Whether the schedule fires in any minute of `(after, last]`. -/
def dueBetween (cron : Cron) (after last : ℕ) : Bool :=
  (List.range (last / 60 - after / 60)).any fun i => cron.firesIn (after / 60 + 1 + i)

theorem dueBetween_iff {cron : Cron} {after last : ℕ} :
    cron.dueBetween after last = true ↔
      ∃ minute, after < minute * 60 ∧ minute * 60 ≤ last ∧ cron.firesIn minute = true := by
  unfold dueBetween
  rw [List.any_eq_true]
  constructor
  · rintro ⟨i, hi, hfires⟩
    rw [List.mem_range] at hi
    exact ⟨after / 60 + 1 + i, by omega, by omega, hfires⟩
  · rintro ⟨minute, hafter, hlast, hfires⟩
    refine ⟨minute - (after / 60 + 1), List.mem_range.mpr (by omega), ?_⟩
    rwa [Nat.add_sub_cancel' (by omega)]

/-! ## The characters of an expression -/

/-- The characters that a field can have. -/
def IsFieldChar (c : Char) : Prop :=
  isAsciiDigit c = true ∨ c = '+' ∨ c = '*' ∨ c = '/' ∨ c = '-' ∨ c = ','

theorem isFieldChar_of_parseUnsigned {limit : ℕ} {raw : Text} {n : ℕ}
    (h : parseUnsigned limit raw = some n) {c : Char} (hc : c ∈ raw) : IsFieldChar c := by
  rcases mem_of_parseUnsigned h hc with hplus | hdigit
  · exact .inr (.inl hplus)
  · exact .inl hdigit

theorem isFieldChar_of_parseValue {raw name : Text} {min max value : ℕ}
    (h : parseValue raw min max name = .ok value) {c : Char} (hc : c ∈ raw) : IsFieldChar c := by
  unfold parseValue at h
  split at h
  · rename_i heq
    exact isFieldChar_of_parseUnsigned (Option.filter_eq_some_iff.mp heq).1 hc
  · cases h

theorem isFieldChar_of_parseRange {part range name : Text} {min max : ℕ} {ends : ℕ × ℕ}
    (h : parseRange part range min max name = .ok ends) {c : Char} (hc : c ∈ range) :
    IsFieldChar c := by
  unfold parseRange at h
  split at h
  · rename_i hany
    rw [hany] at hc
    exact .inr (.inr (.inl (List.mem_singleton.mp hc)))
  · split at h
    · rename_i start last hsplit
      obtain ⟨n, hstart, h⟩ := bind_eq_ok.mp h
      obtain ⟨m, hlast, -⟩ := bind_eq_ok.mp h
      rw [splitFirst_eq_some hsplit] at hc
      rcases List.mem_append.mp hc with hc | hc
      · rcases List.mem_append.mp hc with hc | hc
        · exact isFieldChar_of_parseValue hstart hc
        · exact .inr (.inr (.inr (.inr (.inl (List.mem_singleton.mp hc)))))
      · exact isFieldChar_of_parseValue hlast hc
    · obtain ⟨n, hvalue, -⟩ := bind_eq_ok.mp h
      exact isFieldChar_of_parseValue hvalue hc

theorem isFieldChar_of_parsePart {min max : ℕ} {name part : Text} {set set' : BitVec 64}
    (h : parsePart min max name set part = .ok set') {c : Char} (hc : c ∈ part) :
    IsFieldChar c := by
  obtain ⟨⟨range, step⟩, hstep, h⟩ := bind_eq_ok.mp h
  obtain ⟨ends, hrange, -⟩ := bind_eq_ok.mp h
  unfold parseStep at hstep
  split at hstep
  · rename_i range' raw hsplit
    split at hstep
    · rename_i hraw
      cases hstep
      rw [splitFirst_eq_some hsplit] at hc
      rcases List.mem_append.mp hc with hc | hc
      · rcases List.mem_append.mp hc with hc | hc
        · exact isFieldChar_of_parseRange hrange hc
        · exact .inr (.inr (.inr (.inl (List.mem_singleton.mp hc))))
      · exact isFieldChar_of_parseUnsigned (Option.filter_eq_some_iff.mp hraw).1 hc
    · cases hstep
  · cases hstep
    exact isFieldChar_of_parseRange hrange hc

theorem isFieldChar_of_parseField {field name : Text} {min max : ℕ} {set : BitVec 64}
    (h : parseField field min max name = .ok set) {c : Char} (hc : c ∈ field) : IsFieldChar c := by
  by_cases hcomma : c = ','
  · exact .inr (.inr (.inr (.inr (.inr hcomma))))
  · obtain ⟨part, hpart, hmem⟩ := exists_mem_split (p := (· = ',')) hc (by simp [hcomma])
    unfold parseField at h
    generalize (0 : BitVec 64) = start at h
    generalize split (· = ',') field = parts at h hpart
    induction parts generalizing start with
    | nil => cases hpart
    | cons first rest ih =>
      rw [List.foldlM_cons] at h
      obtain ⟨next, hfirst, hrest⟩ := bind_eq_ok.mp h
      rcases List.mem_cons.mp hpart with rfl | hpart
      · exact isFieldChar_of_parsePart hfirst hmem
      · exact ih next hrest hpart

/-- What `|` separates from the expression in a schedule's key is not part of it. -/
theorem notMem_of_parse {expression : Text} {cron : Cron} (h : parse expression = .ok cron) :
    '|' ∉ trim expression := by
  intro hbar
  have hnot : ¬ IsFieldChar '|' := by
    unfold IsFieldChar
    decide
  have hexpand : '|' ∈ expand (trim expression) := by
    unfold expand
    split_ifs with h1 h2 h3 h4 h5
    · rw [h1] at hbar
      exact absurd hbar (by decide)
    · rcases h2 with h2 | h2
      all_goals
        rw [h2] at hbar
        exact absurd hbar (by decide)
    · rw [h3] at hbar
      exact absurd hbar (by decide)
    · rw [h4] at hbar
      exact absurd hbar (by decide)
    · rcases h5 with h5 | h5
      all_goals
        rw [h5] at hbar
        exact absurd hbar (by decide)
    · exact hbar
  obtain ⟨field, hfield, hmem⟩ := exists_mem_split (p := isWhitespace) hexpand (by decide)
  have hword : field ∈ splitWhitespace (expand (trim expression)) := by
    refine List.mem_filter.mpr ⟨hfield, ?_⟩
    rw [decide_eq_true_eq]
    rintro rfl
    cases hmem
  unfold parse at h
  split at h
  · rename_i hsplit
    rw [hsplit] at hword
    obtain ⟨_, hdayOfWeek, h⟩ := bind_eq_ok.mp h
    obtain ⟨_, hminute, h⟩ := bind_eq_ok.mp h
    obtain ⟨_, hhour, h⟩ := bind_eq_ok.mp h
    obtain ⟨_, hdayOfMonth, h⟩ := bind_eq_ok.mp h
    obtain ⟨_, hmonth, -⟩ := bind_eq_ok.mp h
    simp only [List.mem_cons, List.not_mem_nil, or_false] at hword
    rcases hword with rfl | rfl | rfl | rfl | rfl
    · exact hnot (isFieldChar_of_parseField hminute hmem)
    · exact hnot (isFieldChar_of_parseField hhour hmem)
    · exact hnot (isFieldChar_of_parseField hdayOfMonth hmem)
    · exact hnot (isFieldChar_of_parseField hmonth hmem)
    · exact hnot (isFieldChar_of_parseField hdayOfWeek hmem)
  · cases h

theorem parse_trim (expression : Text) : parse (trim expression) = parse expression := by
  unfold parse
  rw [trim_trim]

end Cron

end OoreBuild
