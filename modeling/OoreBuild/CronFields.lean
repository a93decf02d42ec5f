import OoreBuild.Cron

/-!
# What a cron expression stands for

Each part of a field denotes an arithmetic progression within the field's bounds (`Part`), and the
set of the field is their union. The loop that builds it adds 32-bit numbers, so a step so large
that the sum wraps around sets values below the first one as well (`parse_reads_iff`).
-/

namespace OoreBuild

open Text

namespace Cron

/-! ## What must hold -/

structure Progression where
  first : ℕ
  last : ℕ
  step : ℕ

def Progression.Has (p : Progression) (n : ℕ) : Prop := n ≤ p.last ∧ ∃ k, n = p.first + k * p.step

/-- A decimal number that a `u32` can hold. -/
def Number (raw : Text) (n : ℕ) : Prop := parseUnsigned (2 ^ 32) raw = some n

/-- A number within the bounds of a field. -/
def Value (min max : ℕ) (raw : Text) (n : ℕ) : Prop := Number raw n ∧ min ≤ n ∧ n ≤ max

/-- The progression that a part of a field denotes. -/
inductive Part (min max : ℕ) : Text → Progression → Prop
  | any : Part min max ['*'] ⟨min, max, 1⟩
  | anyStep {raw : Text} {step : ℕ} (h : Number raw step) (hpos : 0 < step) :
      Part min max ('*' :: '/' :: raw) ⟨min, max, step⟩
  | value {raw : Text} {n : ℕ} (h : Value min max raw n) : Part min max raw ⟨n, n, 1⟩
  | valueStep {raw rawStep : Text} {n step : ℕ} (h : Value min max raw n)
      (hstep : Number rawStep step) (hpos : 0 < step) :
      Part min max (raw ++ '/' :: rawStep) ⟨n, max, step⟩
  | range {rawFirst rawLast : Text} {first last : ℕ} (hfirst : Value min max rawFirst first)
      (hlast : Value min max rawLast last) (hle : first ≤ last) :
      Part min max (rawFirst ++ '-' :: rawLast) ⟨first, last, 1⟩
  | rangeStep {rawFirst rawLast rawStep : Text} {first last step : ℕ}
      (hfirst : Value min max rawFirst first) (hlast : Value min max rawLast last)
      (hle : first ≤ last) (hstep : Number rawStep step) (hpos : 0 < step) :
      Part min max (rawFirst ++ '-' :: rawLast ++ '/' :: rawStep) ⟨first, last, step⟩

/-- A field with its bounds. Its set has 64 bits. -/
structure Field where
  text : Text
  min : ℕ
  max : ℕ
  le : min ≤ max
  max_lt : max < 64

def Field.parts (field : Field) : List Text := split (· = ',') field.text

/-- The union of the progressions of the parts. -/
def Field.Has (field : Field) (n : ℕ) : Prop :=
  ∃ part ∈ field.parts, ∃ p, Part field.min field.max part p ∧ p.Has n

/-- The values that the loop meets, in order. -/
def steps (step last : ℕ) : ℕ → ℕ → List ℕ
  | 0, _ => []
  | fuel + 1, value =>
    if value ≤ last then value :: steps step last fuel ((value + step) % 2 ^ 32) else []

def Progression.steps (p : Progression) (fuel : ℕ) : List ℕ := Cron.steps p.step p.last fuel p.first

/-- No sum of the loop leaves the 32 bits. -/
def Field.NoOverflow (field : Field) : Prop :=
  ∀ part ∈ field.parts, ∀ p, Part field.min field.max part p →
    ∀ value ∈ p.steps maxSteps, value + p.step < 2 ^ 32

/-- The loop has come to its end. -/
def Field.LoopEnds (field : Field) : Prop :=
  ∀ part ∈ field.parts, ∀ p, Part field.min field.max part p →
    ∀ fuel, maxSteps ≤ fuel → p.steps fuel = p.steps maxSteps

/-- A time, as far as schedules look at it. Weekdays are counted from Sunday. -/
structure Moment where
  minute : ℕ
  hour : ℕ
  day : ℕ
  month : ℕ
  weekday : ℕ

/-- Whether the schedule fires in the minute. -/
def matchesAt (cron : Cron) (time : Moment) : Bool :=
  let dayOfMonth := has cron.daysOfMonth time.day
  let dayOfWeek := has cron.daysOfWeek time.weekday
  let day := match cron.dayOfMonthAny, cron.dayOfWeekAny with
    | true, true => true
    | true, false => dayOfWeek
    | false, true => dayOfMonth
    | false, false => dayOfMonth || dayOfWeek
  day && has cron.minutes time.minute && has cron.hours time.hour && has cron.months time.month

def momentOf (time : ℕ) : Moment where
  minute := time / 60 % 60
  hour := time / 3600 % 24
  day := (monthDay (time / 86400)).2
  month := (monthDay (time / 86400)).1
  weekday := weekday (time / 86400)

theorem fires_eq_matchesAt (cron : Cron) (time : ℕ) :
    cron.fires time = cron.matchesAt (momentOf time) := rfl

/-- The fields of an expression. -/
structure Fields where
  minute : Text
  hour : Text
  dayOfMonth : Text
  month : Text
  dayOfWeek : Text

namespace Fields

def minutes (f : Fields) : Field := ⟨f.minute, 0, 59, by decide, by decide⟩

def hours (f : Fields) : Field := ⟨f.hour, 0, 23, by decide, by decide⟩

def daysOfMonth (f : Fields) : Field := ⟨f.dayOfMonth, 1, 31, by decide, by decide⟩

def months (f : Fields) : Field := ⟨f.month, 1, 12, by decide, by decide⟩

def daysOfWeek (f : Fields) : Field := ⟨f.dayOfWeek, 0, 7, by decide, by decide⟩

def all (f : Fields) : List Field :=
  [f.minutes, f.hours, f.daysOfMonth, f.months, f.daysOfWeek]

/-- The weekday is in its set; 7 is Sunday, like 0. -/
def HasWeekday (f : Fields) (n : ℕ) : Prop :=
  n ≠ 7 ∧ f.daysOfWeek.Has n ∨ n = 0 ∧ f.daysOfWeek.Has 7

/-- When both day fields are restricted, either may match. -/
def DayRule (f : Fields) (day weekday : ℕ) : Prop :=
  if f.dayOfMonth = ['*'] then f.dayOfWeek = ['*'] ∨ f.HasWeekday weekday
  else if f.dayOfWeek = ['*'] then f.daysOfMonth.Has day
  else f.daysOfMonth.Has day ∨ f.HasWeekday weekday

/-- The expression has these fields. -/
def Of (f : Fields) (expression : Text) : Prop :=
  splitWhitespace (expand (trim expression)) =
    [f.minute, f.hour, f.dayOfMonth, f.month, f.dayOfWeek]

end Fields

/-- The expression is read as its fields say. -/
structure Reads (f : Fields) (cron : Cron) : Prop where
  minutes : ∀ n, has cron.minutes n = true ↔ f.minutes.Has n
  hours : ∀ n, has cron.hours n = true ↔ f.hours.Has n
  daysOfMonth : ∀ n, has cron.daysOfMonth n = true ↔ f.daysOfMonth.Has n
  months : ∀ n, has cron.months n = true ↔ f.months.Has n
  daysOfWeek : ∀ n, has cron.daysOfWeek n = true ↔ f.HasWeekday n
  fires : ∀ time, cron.matchesAt time = true ↔ f.minutes.Has time.minute ∧
    f.hours.Has time.hour ∧ f.months.Has time.month ∧ f.DayRule time.day time.weekday
  noOverflow : ∀ field ∈ f.all, field.NoOverflow
  ends : ∀ field ∈ f.all, field.LoopEnds

/-! ## The loop -/

theorem getLsbD_bit (value n : ℕ) : (bit value).getLsbD n = decide (n < 64 ∧ n = value) := by
  have hbit : bit value = BitVec.ofNat 64 (1 <<< value) := rfl
  rw [hbit, BitVec.getLsbD_ofNat, Nat.one_shiftLeft, Nat.testBit_two_pow, Bool.decide_and]
  congr 1
  exact decide_eq_decide.mpr eq_comm

theorem getLsbD_empty (n : ℕ) : (0 : BitVec 64).getLsbD n = false := BitVec.getLsbD_zero

theorem has_eq_getLsbD (set : BitVec 64) (n : ℕ) : has set n = set.getLsbD n := by
  unfold has
  rw [Bool.eq_iff_iff, decide_eq_true_iff, ne_eq, not_iff_comm, Bool.not_eq_true]
  constructor
  · intro h
    apply BitVec.eq_of_getLsbD_eq
    intro i hi
    rw [BitVec.getLsbD_and, getLsbD_bit, getLsbD_empty]
    by_cases hn : i = n
    · rw [hn, h, Bool.false_and]
    · rw [decide_eq_false (fun h => hn h.2), Bool.and_false]
  · intro h
    by_cases hn : n < 64
    · have hand : (set &&& bit n).getLsbD n = (0 : BitVec 64).getLsbD n := by rw [h]
      rwa [BitVec.getLsbD_and, getLsbD_bit, decide_eq_true ⟨hn, rfl⟩, Bool.and_true,
        getLsbD_empty] at hand
    · exact BitVec.getLsbD_of_ge _ _ (by omega)

theorem has_or_bit (set : BitVec 64) {value : ℕ} (hvalue : value < 64) (n : ℕ) :
    has (set ||| bit value) n = true ↔ has set n = true ∨ n = value := by
  rw [has_eq_getLsbD, has_eq_getLsbD, BitVec.getLsbD_or, Bool.or_eq_true, getLsbD_bit,
    decide_eq_true_iff]
  refine or_congr_right ⟨fun h => h.2, fun h => ⟨?_, h⟩⟩
  omega

/-- The loop sets the values that it meets. -/
theorem has_setSteps {step last : ℕ} (hlast : last < 64) (fuel value : ℕ) (set : BitVec 64)
    (n : ℕ) : has (setSteps step last fuel value set) n = true ↔
      has set n = true ∨ n ∈ steps step last fuel value := by
  induction fuel generalizing value set with
  | zero => simp [setSteps, steps]
  | succ fuel ih =>
    unfold setSteps steps
    by_cases hvalue : value ≤ last
    · rw [if_pos hvalue, if_pos hvalue, ih, has_or_bit set (by omega), List.mem_cons, or_assoc]
    · rw [if_neg hvalue, if_neg hvalue]
      simp

/-- Without a sum that wraps, the loop meets the values of the progression. -/
theorem mem_steps_iff {step last : ℕ} (hstep : 0 < step) (hlimit : last + step < 2 ^ 32)
    {fuel value : ℕ} (hfuel : last + 1 - value ≤ fuel) (n : ℕ) :
    n ∈ steps step last fuel value ↔ n ≤ last ∧ ∃ k, n = value + k * step := by
  induction fuel generalizing value with
  | zero =>
    refine iff_of_false List.not_mem_nil ?_
    rintro ⟨hle, k, rfl⟩
    omega
  | succ fuel ih =>
    unfold steps
    by_cases hvalue : value ≤ last
    · rw [if_pos hvalue, Nat.mod_eq_of_lt (by omega), List.mem_cons, ih (by omega)]
      constructor
      · rintro (rfl | ⟨hle, k, rfl⟩)
        · exact ⟨hvalue, 0, by simp⟩
        · exact ⟨hle, k + 1, by ring⟩
      · rintro ⟨hle, k, rfl⟩
        cases k with
        | zero => exact .inl (by simp)
        | succ k => exact .inr ⟨hle, k, by ring⟩
    · rw [if_neg hvalue]
      refine iff_of_false List.not_mem_nil ?_
      rintro ⟨hle, k, rfl⟩
      omega

/-! ## Reading a part -/

theorem splitFirst_append_char {c : Char} {before : Text} (h : c ∉ before) (after : Text) :
    splitFirst [c] (before ++ c :: after) = some (before, after) :=
  splitFirst_needle List.not_mem_nil ((List.singleton_infix_iff ..).not.mpr h) after

theorem splitFirst_of_notMem {c : Char} {t : Text} (h : c ∉ t) : splitFirst [c] t = none :=
  splitFirst_eq_none_iff.mpr ((List.singleton_infix_iff ..).not.mpr h)

theorem Number.notMem {raw : Text} {n : ℕ} (h : Number raw n) {c : Char} (hplus : c ≠ '+')
    (hdigit : isAsciiDigit c = false) : c ∉ raw := by
  intro hc
  rcases mem_of_parseUnsigned h hc with heq | hd
  · exact hplus heq
  · rw [hd] at hdigit
    cases hdigit

theorem parseValue_ok_iff {raw name : Text} {min max n : ℕ} :
    parseValue raw min max name = .ok n ↔ Value min max raw n := by
  unfold parseValue Value Number
  cases hfilter : (parseUnsigned (2 ^ 32) raw).filter fun value => min ≤ value && value ≤ max with
  | none =>
    refine iff_of_false nofun ?_
    rintro ⟨hraw, hmin, hmax⟩
    rw [hraw, Option.filter_some, if_pos (by simp [hmin, hmax])] at hfilter
    cases hfilter
  | some value =>
    obtain ⟨hraw, hbounds⟩ := Option.filter_eq_some_iff.mp hfilter
    simp only [Bool.and_eq_true, decide_eq_true_eq] at hbounds
    rw [hraw]
    constructor
    · rintro ⟨⟩
      exact ⟨rfl, hbounds⟩
    · rintro ⟨⟨⟩, -⟩
      rfl

theorem parseStep_some {range rawStep name : Text} {step : ℕ} (hrange : '/' ∉ range)
    (h : Number rawStep step) (hpos : 0 < step) :
    parseStep (range ++ '/' :: rawStep) name = .ok (range, step) := by
  unfold parseStep
  unfold Number at h
  rw [splitFirst_append_char hrange]
  simp only [h, Option.filter_some, decide_eq_true hpos, if_true]

theorem parseStep_none {part name : Text} (h : '/' ∉ part) :
    parseStep part name = .ok (part, 1) := by
  unfold parseStep
  rw [splitFirst_of_notMem h]

theorem parseStep_ok {part name range : Text} {step : ℕ}
    (h : parseStep part name = .ok (range, step)) :
    (∃ rawStep, part = range ++ '/' :: rawStep ∧ Number rawStep step ∧ 0 < step) ∨
      part = range ∧ step = 1 ∧ '/' ∉ part := by
  unfold parseStep at h
  cases hsplit : splitFirst ['/'] part with
  | some parts =>
    obtain ⟨range', rawStep⟩ := parts
    rw [hsplit] at h
    dsimp only at h
    split at h
    · rename_i step' hfilter
      cases h
      obtain ⟨hraw, hpos⟩ := Option.filter_eq_some_iff.mp hfilter
      refine .inl ⟨rawStep, ?_, hraw, of_decide_eq_true hpos⟩
      rw [splitFirst_eq_some hsplit, List.append_assoc, List.singleton_append]
    · cases h
  | none =>
    rw [hsplit] at h
    cases h
    exact .inr ⟨rfl, rfl, (List.singleton_infix_iff ..).not.mp (splitFirst_eq_none_iff.mp hsplit)⟩

theorem parseRange_value {part raw name : Text} {min max n : ℕ} (h : Value min max raw n) :
    parseRange part raw min max name =
      .ok (n, if contains part ['/'] then max else n) := by
  have hany : raw ≠ ['*'] := by
    rintro rfl
    exact h.1.notMem (by decide) (by decide) List.mem_cons_self
  unfold parseRange
  rw [if_neg hany, splitFirst_of_notMem (h.1.notMem (by decide) (by decide)),
    parseValue_ok_iff.mpr h]
  rfl

theorem parseRange_range {part rawFirst rawLast name : Text} {min max first last : ℕ}
    (hfirst : Value min max rawFirst first) (hlast : Value min max rawLast last) :
    parseRange part (rawFirst ++ '-' :: rawLast) min max name = .ok (first, last) := by
  have hany : rawFirst ++ '-' :: rawLast ≠ ['*'] := by
    intro heq
    have hmem : '-' ∈ rawFirst ++ '-' :: rawLast := by simp
    rw [heq] at hmem
    exact absurd hmem (by decide)
  unfold parseRange
  rw [if_neg hany, splitFirst_append_char (hfirst.1.notMem (by decide) (by decide))]
  dsimp only
  rw [parseValue_ok_iff.mpr hfirst, parseValue_ok_iff.mpr hlast]
  rfl

theorem parsePart_of {part range name : Text} {min max : ℕ} {p : Progression}
    (hstep : parseStep part name = .ok (range, p.step))
    (hrange : parseRange part range min max name = .ok (p.first, p.last))
    (hle : p.first ≤ p.last) (set : BitVec 64) :
    parsePart min max name set part =
      .ok (setSteps p.step p.last maxSteps p.first set) := by
  unfold parsePart
  rw [hstep]
  show (parseRange part range min max name >>= _) = _
  rw [hrange]
  exact if_neg (Nat.not_lt.mpr hle)

theorem contains_slash_iff {t : Text} : contains t ['/'] = true ↔ '/' ∈ t :=
  contains_iff.trans (List.singleton_infix_iff ..)

theorem Part.step_pos {min max : ℕ} {part : Text} {p : Progression} (h : Part min max part p) :
    0 < p.step := by
  cases h <;> first | assumption | exact Nat.one_pos

theorem Part.first_le {min max : ℕ} {part : Text} {p : Progression} (h : Part min max part p)
    (hle : min ≤ max) : p.first ≤ p.last := by
  cases h with
  | any => exact hle
  | anyStep h hpos => exact hle
  | value h => exact Nat.le_refl _
  | valueStep h hstep hpos => exact h.2.2
  | range hfirst hlast hle => exact hle
  | rangeStep hfirst hlast hle hstep hpos => exact hle

theorem Part.last_le {min max : ℕ} {part : Text} {p : Progression} (h : Part min max part p) :
    p.last ≤ max := by
  cases h with
  | any => exact Nat.le_refl _
  | anyStep h hpos => exact Nat.le_refl _
  | value h => exact h.2.2
  | valueStep h hstep hpos => exact Nat.le_refl _
  | range hfirst hlast hle => exact hlast.2.2
  | rangeStep hfirst hlast hle hstep hpos => exact hlast.2.2

theorem parsePart_of_part {min max : ℕ} {part name : Text} {p : Progression}
    (h : Part min max part p) (hle : min ≤ max) (set : BitVec 64) :
    parsePart min max name set part =
      .ok (setSteps p.step p.last maxSteps p.first set) := by
  have hfirst := h.first_le hle
  have hslash : ∀ {raw : Text} {n : ℕ}, Value min max raw n → '/' ∉ raw := fun hraw =>
    hraw.1.notMem (by decide) (by decide)
  cases h with
  | any => exact parsePart_of (parseStep_none (by decide : '/' ∉ ['*'])) rfl hfirst set
  | anyStep h hpos =>
    exact parsePart_of (parseStep_some (by decide : '/' ∉ ['*']) h hpos) rfl hfirst set
  | value h =>
    refine parsePart_of (parseStep_none (hslash h)) ?_ hfirst set
    rw [parseRange_value h, if_neg (contains_slash_iff.not.mpr (hslash h))]
  | valueStep h hstep hpos =>
    refine parsePart_of (parseStep_some (hslash h) hstep hpos) ?_ hfirst set
    rw [parseRange_value h, if_pos (contains_slash_iff.mpr (by simp))]
  | range hf hl hle =>
    refine parsePart_of (parseStep_none ?_) (parseRange_range hf hl) hfirst set
    simp [hslash hf, hslash hl]
  | rangeStep hf hl hle hstep hpos =>
    refine parsePart_of (parseStep_some ?_ hstep hpos) (parseRange_range hf hl) hfirst set
    simp [hslash hf, hslash hl]

theorem part_of_parsePart {min max : ℕ} {part name : Text} {set set' : BitVec 64}
    (h : parsePart min max name set part = .ok set') : ∃ p, Part min max part p := by
  obtain ⟨⟨range, step⟩, hstep, h⟩ := bind_eq_ok.mp h
  obtain ⟨⟨first, last⟩, hrange, h⟩ := bind_eq_ok.mp h
  have hle : first ≤ last := by
    by_contra hlt
    dsimp only at h
    rw [if_pos (Nat.lt_of_not_le hlt)] at h
    cases h
  unfold parseRange at hrange
  rcases parseStep_ok hstep with ⟨rawStep, rfl, hnumber, hpos⟩ | ⟨rfl, rfl, hslash⟩
  · by_cases hany : range = ['*']
    · subst hany
      exact ⟨_, .anyStep hnumber hpos⟩
    · rw [if_neg hany] at hrange
      split at hrange
      · rename_i rawFirst rawLast hsplit
        obtain ⟨n, hfirst, hrange⟩ := bind_eq_ok.mp hrange
        obtain ⟨m, hlast, hrange⟩ := bind_eq_ok.mp hrange
        cases hrange
        have heq : range = rawFirst ++ '-' :: rawLast := by
          rw [splitFirst_eq_some hsplit, List.append_assoc, List.singleton_append]
        rw [heq]
        exact ⟨_, .rangeStep (parseValue_ok_iff.mp hfirst) (parseValue_ok_iff.mp hlast) hle
          hnumber hpos⟩
      · obtain ⟨n, hvalue, -⟩ := bind_eq_ok.mp hrange
        exact ⟨_, .valueStep (parseValue_ok_iff.mp hvalue) hnumber hpos⟩
  · by_cases hany : part = ['*']
    · subst hany
      exact ⟨_, .any⟩
    · rw [if_neg hany] at hrange
      split at hrange
      · rename_i rawFirst rawLast hsplit
        obtain ⟨n, hfirst, hrange⟩ := bind_eq_ok.mp hrange
        obtain ⟨m, hlast, hrange⟩ := bind_eq_ok.mp hrange
        cases hrange
        have heq : part = rawFirst ++ '-' :: rawLast := by
          rw [splitFirst_eq_some hsplit, List.append_assoc, List.singleton_append]
        rw [heq]
        exact ⟨_, .range (parseValue_ok_iff.mp hfirst) (parseValue_ok_iff.mp hlast) hle⟩
      · obtain ⟨n, hvalue, -⟩ := bind_eq_ok.mp hrange
        exact ⟨_, .value (parseValue_ok_iff.mp hvalue)⟩

/-! ## Reading a field -/

/-- The values that the loops over the parts of a field meet. -/
def Field.Met (field : Field) (n : ℕ) : Prop :=
  ∃ part ∈ field.parts, ∃ p, Part field.min field.max part p ∧ n ∈ p.steps maxSteps

theorem foldlM_parsePart {min max : ℕ} {name : Text} (hle : min ≤ max) (hmax : max < 64)
    {parts : List Text} {set set' : BitVec 64}
    (h : parts.foldlM (parsePart min max name) set = .ok set') (n : ℕ) :
    has set' n = true ↔ has set n = true ∨
      ∃ part ∈ parts, ∃ p, Part min max part p ∧ n ∈ p.steps maxSteps := by
  induction parts generalizing set with
  | nil =>
    cases h
    simp
  | cons part parts ih =>
    rw [List.foldlM_cons] at h
    obtain ⟨next, hpart, hrest⟩ := bind_eq_ok.mp h
    obtain ⟨p, hp⟩ := part_of_parsePart hpart
    have hlast : p.last < 64 := Nat.lt_of_le_of_lt hp.last_le hmax
    rw [parsePart_of_part hp hle] at hpart
    cases hpart
    rw [ih hrest, has_setSteps hlast, List.exists_mem_cons_iff, or_assoc]
    refine or_congr_right (or_congr_left ⟨fun hn => ⟨p, hp, hn⟩, ?_⟩)
    -- the part denotes one progression only
    rintro ⟨q, hq, hn⟩
    have hpart : parsePart min max name 0 part =
        .ok (setSteps p.step p.last maxSteps p.first 0) := parsePart_of_part hp hle 0
    have hboth : setSteps p.step p.last maxSteps p.first 0 =
        setSteps q.step q.last maxSteps q.first 0 :=
      Except.ok.inj (hpart.symm.trans (parsePart_of_part hq hle 0))
    have hmet : has (setSteps p.step p.last maxSteps p.first 0) n = true := by
      rw [hboth, has_setSteps (Nat.lt_of_le_of_lt hq.last_le hmax)]
      exact .inr hn
    refine ((has_setSteps hlast maxSteps p.first 0 n).mp hmet).resolve_left fun hempty => ?_
    rw [has_eq_getLsbD, getLsbD_empty] at hempty
    cases hempty

/-- The set of a field holds the values that its loops meet. -/
theorem parseField_met {field : Field} {name : Text} {set : BitVec 64}
    (h : parseField field.text field.min field.max name = .ok set) (n : ℕ) :
    has set n = true ↔ field.Met n := by
  rw [foldlM_parsePart field.le field.max_lt h n, has_eq_getLsbD, getLsbD_empty]
  exact or_iff_right Bool.false_ne_true

/-- A step beyond the last value leaves the first one alone. -/
theorem steps_eq_singleton {step last value : ℕ} (hvalue : value ≤ last)
    (hnext : last < value + step) (hlimit : value + step < 2 ^ 32) :
    steps step last maxSteps value = [value] := by
  show steps step last (62 + 1 + 1) value = [value]
  rw [steps, if_pos hvalue, Nat.mod_eq_of_lt hlimit, steps, if_neg (Nat.not_le.mpr hnext)]

theorem Part.mem_steps_iff {min max : ℕ} {part : Text} {p : Progression}
    (h : Part min max part p) (hle : min ≤ max) (hmax : max < 64)
    (hfirst : p.first + p.step < 2 ^ 32) (n : ℕ) : n ∈ p.steps maxSteps ↔ p.Has n := by
  have hlast := h.last_le
  by_cases hlimit : p.last + p.step < 2 ^ 32
  · exact Cron.mem_steps_iff h.step_pos hlimit (by unfold maxSteps; omega) n
  · have hvalue := h.first_le hle
    unfold Progression.steps Progression.Has
    rw [steps_eq_singleton hvalue (by omega) hfirst, List.mem_singleton]
    constructor
    · rintro rfl
      exact ⟨hvalue, 0, by simp⟩
    · rintro ⟨hn, k, rfl⟩
      cases k with
      | zero => simp
      | succ k =>
        have : p.step ≤ (k + 1) * p.step := Nat.le_mul_of_pos_left _ (by omega)
        omega

/-- The sums of a part fit once its first one does: a step that leads to a second value is
small. -/
theorem Part.fits_of_first {min max : ℕ} {part : Text} {p : Progression}
    (h : Part min max part p) (hle : min ≤ max) (hmax : max < 64)
    (hfirst : p.first + p.step < 2 ^ 32) :
    ∀ value ∈ p.steps maxSteps, value + p.step < 2 ^ 32 := by
  intro value hvalue
  have hlast := h.last_le
  obtain ⟨hn, k, rfl⟩ := (h.mem_steps_iff hle hmax hfirst value).mp hvalue
  cases k with
  | zero => simpa using hfirst
  | succ k =>
    have : p.step ≤ (k + 1) * p.step := Nat.le_mul_of_pos_left _ (by omega)
    omega

/-- The first sum of each part fits into 32 bits. -/
def Field.SumsFit (field : Field) : Prop :=
  ∀ part ∈ field.parts, ∀ p, Part field.min field.max part p → p.first + p.step < 2 ^ 32

theorem Field.SumsFit.met_iff {field : Field} (h : field.SumsFit) (n : ℕ) :
    field.Met n ↔ field.Has n := by
  have hpart : ∀ part ∈ field.parts, ∀ p, Part field.min field.max part p →
      (n ∈ p.steps maxSteps ↔ p.Has n) := fun part hpart p hp =>
    hp.mem_steps_iff field.le field.max_lt (h part hpart p hp) n
  constructor
  · rintro ⟨part, hmem, p, hp, hn⟩
    exact ⟨part, hmem, p, hp, (hpart part hmem p hp).mp hn⟩
  · rintro ⟨part, hmem, p, hp, hn⟩
    exact ⟨part, hmem, p, hp, (hpart part hmem p hp).mpr hn⟩

theorem Field.SumsFit.noOverflow {field : Field} (h : field.SumsFit) : field.NoOverflow :=
  fun part hpart p hp => hp.fits_of_first field.le field.max_lt (h part hpart p hp)

theorem Field.NoOverflow.sumsFit {field : Field} (h : field.NoOverflow) : field.SumsFit := by
  intro part hpart p hp
  refine h part hpart p hp p.first ?_
  show p.first ∈ Cron.steps p.step p.last (63 + 1) p.first
  rw [steps, if_pos (hp.first_le field.le)]
  exact List.mem_cons_self

/-- Rounds beyond the end of the loop meet nothing. -/
theorem steps_of_le {step last : ℕ} (hstep : 0 < step) (hlimit : step < 2 ^ 32)
    (hlast : last < 2 ^ 31) {fuel more value : ℕ} (hfuel : stepsLeft step last value ≤ fuel)
    (hmore : stepsLeft step last value ≤ more) :
    steps step last fuel value = steps step last more value := by
  induction fuel generalizing more value with
  | zero =>
    have hvalue : ¬ value ≤ last := by
      intro hvalue
      have := stepsLeft_lt hstep hlimit hlast hvalue
      omega
    cases more with
    | zero => rfl
    | succ more => rw [steps, steps, if_neg hvalue]
  | succ fuel ih =>
    by_cases hvalue : value ≤ last
    · have hlt := stepsLeft_lt hstep hlimit hlast hvalue
      cases more with
      | zero => omega
      | succ more =>
        have hrest := @ih more ((value + step) % 2 ^ 32) (by omega) (by omega)
        rw [steps, steps, if_pos hvalue, if_pos hvalue, hrest]
    · cases more with
      | zero => rw [steps, steps, if_neg hvalue]
      | succ more => rw [steps, steps, if_neg hvalue, if_neg hvalue]

theorem Number.lt {raw : Text} {n : ℕ} (h : Number raw n) : n < 2 ^ 32 := by
  unfold Number parseUnsigned at h
  split at h
  · exact of_decide_eq_true (Option.filter_eq_some_iff.mp h).2
  · cases h

theorem Part.step_lt {min max : ℕ} {part : Text} {p : Progression} (h : Part min max part p) :
    p.step < 2 ^ 32 := by
  cases h with
  | any => exact Nat.one_lt_two_pow (by decide)
  | anyStep h hpos => exact h.lt
  | value h => exact Nat.one_lt_two_pow (by decide)
  | valueStep h hstep hpos => exact hstep.lt
  | range hfirst hlast hle => exact Nat.one_lt_two_pow (by decide)
  | rangeStep hfirst hlast hle hstep hpos => exact hstep.lt

theorem Field.loopEnds (field : Field) : field.LoopEnds := by
  intro part _ p hp fuel hfuel
  have hlast := hp.last_le
  have hmax := field.max_lt
  have hleft : stepsLeft p.step p.last p.first ≤ maxSteps := by
    unfold stepsLeft maxSteps
    split
    · omega
    · split <;> omega
  exact steps_of_le hp.step_pos hp.step_lt (by omega) (hleft.trans hfuel) hleft

/-! ## Reading an expression -/

theorem has_foldSunday (set : BitVec 64) (n : ℕ) :
    has (foldSunday set) n = true ↔ n ≠ 7 ∧ has set n = true ∨ n = 0 ∧ has set 7 = true := by
  have hseven : set &&& bit 7 ≠ 0 ↔ has set 7 = true := by
    unfold has
    exact decide_eq_true_iff.symm
  unfold foldSunday
  by_cases h : set &&& bit 7 ≠ 0
  · rw [if_pos h, has_eq_getLsbD, BitVec.getLsbD_or, BitVec.getLsbD_and, BitVec.getLsbD_not,
      getLsbD_bit, has_eq_getLsbD set n]
    have hone : (1 : BitVec 64).getLsbD n = decide (n = 0) := by
      have := getLsbD_bit 0 n
      rw [show bit 0 = (1 : BitVec 64) from rfl] at this
      rw [this]
      exact decide_eq_decide.mpr ⟨fun h => h.2, fun h => ⟨by omega, h⟩⟩
    rw [hone, Bool.or_eq_true, Bool.and_eq_true, decide_eq_true_iff, and_comm,
      and_iff_left (hseven.mp h)]
    refine or_congr_left (and_congr_left fun hn => ?_)
    by_cases hlt : n < 64
    · simp [hlt]
    · rw [BitVec.getLsbD_of_ge _ _ (by omega)] at hn
      cases hn
  · have hsunday : has set 7 ≠ true := hseven.not.mp h
    rw [if_neg h, or_iff_left fun hsun => hsunday hsun.2]
    refine ⟨fun hn => ⟨?_, hn⟩, fun hn => hn.2⟩
    rintro rfl
    exact hsunday hn

/-- The sets hold what the loops meet, also where a sum wraps. -/
theorem parse_met {expression : Text} {cron : Cron} (h : parse expression = .ok cron) :
    ∃ f : Fields, f.Of expression ∧ (∀ n, has cron.minutes n = true ↔ f.minutes.Met n) ∧
      (∀ n, has cron.hours n = true ↔ f.hours.Met n) ∧
      (∀ n, has cron.daysOfMonth n = true ↔ f.daysOfMonth.Met n) ∧
      (∀ n, has cron.months n = true ↔ f.months.Met n) ∧
      (∀ n, has cron.daysOfWeek n = true ↔
        n ≠ 7 ∧ f.daysOfWeek.Met n ∨ n = 0 ∧ f.daysOfWeek.Met 7) ∧
      cron.dayOfMonthAny = decide (f.dayOfMonth = ['*']) ∧
      cron.dayOfWeekAny = decide (f.dayOfWeek = ['*']) := by
  unfold parse at h
  split at h
  · rename_i minute hour dayOfMonth month dayOfWeek hsplit
    obtain ⟨daysOfWeek, hdaysOfWeek, h⟩ := bind_eq_ok.mp h
    obtain ⟨minutes, hminutes, h⟩ := bind_eq_ok.mp h
    obtain ⟨hours, hhours, h⟩ := bind_eq_ok.mp h
    obtain ⟨daysOfMonth, hdaysOfMonth, h⟩ := bind_eq_ok.mp h
    obtain ⟨months, hmonths, h⟩ := bind_eq_ok.mp h
    cases h
    let f : Fields := ⟨minute, hour, dayOfMonth, month, dayOfWeek⟩
    have hweek : ∀ n, has daysOfWeek n = true ↔ f.daysOfWeek.Met n := parseField_met hdaysOfWeek
    refine ⟨f, hsplit, parseField_met hminutes, parseField_met hhours, parseField_met hdaysOfMonth,
      parseField_met hmonths, fun n => ?_, rfl, rfl⟩
    rw [has_foldSunday, hweek, hweek]
  · cases h

theorem matchesAt_iff {f : Fields} {cron : Cron}
    (hmonth : cron.dayOfMonthAny = decide (f.dayOfMonth = ['*']))
    (hweek : cron.dayOfWeekAny = decide (f.dayOfWeek = ['*']))
    (hdays : ∀ n, has cron.daysOfMonth n = true ↔ f.daysOfMonth.Has n)
    (hweekdays : ∀ n, has cron.daysOfWeek n = true ↔ f.HasWeekday n)
    (hminutes : ∀ n, has cron.minutes n = true ↔ f.minutes.Has n)
    (hhours : ∀ n, has cron.hours n = true ↔ f.hours.Has n)
    (hmonths : ∀ n, has cron.months n = true ↔ f.months.Has n) (time : Moment) :
    cron.matchesAt time = true ↔ f.minutes.Has time.minute ∧ f.hours.Has time.hour ∧
      f.months.Has time.month ∧ f.DayRule time.day time.weekday := by
  have hday : (match cron.dayOfMonthAny, cron.dayOfWeekAny with
      | true, true => true
      | true, false => has cron.daysOfWeek time.weekday
      | false, true => has cron.daysOfMonth time.day
      | false, false => has cron.daysOfMonth time.day || has cron.daysOfWeek time.weekday) = true ↔
      f.DayRule time.day time.weekday := by
    rw [hmonth, hweek]
    unfold Fields.DayRule
    by_cases hm : f.dayOfMonth = ['*'] <;> by_cases hw : f.dayOfWeek = ['*']
    · simp [hm, hw]
    · simp [hm, hw, hweekdays]
    · simp [hm, hw, hdays]
    · simp [hm, hw, hdays, hweekdays]
  unfold matchesAt
  dsimp only
  rw [Bool.and_eq_true, Bool.and_eq_true, Bool.and_eq_true, hday, hminutes, hhours, hmonths]
  tauto

/-- An expression is read as its fields say, without a sum that leaves the 32 bits, exactly when
the first value of each part and its step fit into 32 bits together. -/
theorem parse_reads_iff {expression : Text} {cron : Cron} (h : parse expression = .ok cron) :
    ∃ f : Fields, f.Of expression ∧ (Reads f cron ↔ ∀ field ∈ f.all, field.SumsFit) := by
  obtain ⟨f, hof, hminutes, hhours, hdays, hmonths, hweekdays, hmonth, hweek⟩ := parse_met h
  refine ⟨f, hof, fun hreads field hfield => (hreads.noOverflow field hfield).sumsFit,
    fun hfits => ?_⟩
  have hmet : ∀ field ∈ f.all, ∀ n, field.Met n ↔ field.Has n := fun field hfield =>
    (hfits field hfield).met_iff
  have hm := fun n => (hminutes n).trans (hmet f.minutes (by simp [Fields.all]) n)
  have hh := fun n => (hhours n).trans (hmet f.hours (by simp [Fields.all]) n)
  have hd := fun n => (hdays n).trans (hmet f.daysOfMonth (by simp [Fields.all]) n)
  have hmo := fun n => (hmonths n).trans (hmet f.months (by simp [Fields.all]) n)
  have hw : ∀ n, has cron.daysOfWeek n = true ↔ f.HasWeekday n := by
    intro n
    have hall := hmet f.daysOfWeek (by simp [Fields.all])
    rw [hweekdays n, hall, hall]
    rfl
  exact
    { minutes := hm
      hours := hh
      daysOfMonth := hd
      months := hmo
      daysOfWeek := hw
      fires := matchesAt_iff hmonth hweek hd hw hm hh hmo
      noOverflow := fun field hfield => (hfits field hfield).noOverflow
      ends := fun field _ => field.loopEnds }

theorem parse_of_toOption {expression : Text} {cron : Cron}
    (h : (parse expression).toOption = some cron) : parse expression = .ok cron := by
  cases hparse : parse expression with
  | error e =>
    rw [hparse] at h
    cases h
  | ok read =>
    rw [hparse] at h
    cases h
    rfl

def quarterly : Text := "5/15,40-50 0 * * 7"

theorem parse_reads_iff_quarterly : ∃ cron, parse quarterly = .ok cron ∧
    has cron.daysOfWeek 0 = true ∧
    ∃ f : Fields, f.Of quarterly ∧ (Reads f cron ↔ ∀ field ∈ f.all, field.SumsFit) := by
  have hrun : (parse quarterly).toOption.any (fun cron => has cron.daysOfWeek 0) = true := by
    decide +kernel
  obtain ⟨cron, hparse, hsunday⟩ := (Option.any_eq_true ..).mp hrun
  have hok : parse quarterly = .ok cron := parse_of_toOption hparse
  exact ⟨cron, hok, hsunday, parse_reads_iff hok⟩

/-- From 5 in steps of the largest 32-bit number. -/
def largeStep : Text := "5/4294967295 * * * *"

/-- The step of this expression wraps around and sets 4, 3, 2, 1 and 0 as well. -/
theorem large_step_wraps : ∃ cron, parse largeStep = .ok cron ∧ has cron.minutes 4 = true ∧
    ¬ ∃ f : Fields, f.Of largeStep ∧ Reads f cron := by
  have hrun : (parse largeStep).toOption.any (fun cron => has cron.minutes 4) = true := by
    decide +kernel
  obtain ⟨cron, hparse, hfour⟩ := (Option.any_eq_true ..).mp hrun
  refine ⟨cron, parse_of_toOption hparse, hfour, ?_⟩
  rintro ⟨f, hof, hreads⟩
  have hfields : splitWhitespace (expand (trim largeStep)) =
      ["5/4294967295".toList, ['*'], ['*'], ['*'], ['*']] := by decide +kernel
  have hminute : f.minute = "5/4294967295".toList := (List.cons.inj (hof.symm.trans hfields)).1
  have hfits := (hreads.noOverflow f.minutes (by simp [Fields.all])).sumsFit
  have hpart : Part 0 59 (['5'] ++ '/' :: "4294967295".toList) ⟨5, 59, 4294967295⟩ :=
    .valueStep ⟨by unfold Number; decide +kernel, by decide, by decide⟩
      (by unfold Number; decide +kernel) (by decide)
  have hmem : ['5'] ++ '/' :: "4294967295".toList ∈ f.minutes.parts := by
    unfold Field.parts Fields.minutes
    rw [hminute]
    decide +kernel
  exact absurd (hfits _ hmem _ hpart) (by decide)

end Cron

end OoreBuild
