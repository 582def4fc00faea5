import Mathlib.Algebra.Order.Field.Rat
import Mathlib.Data.Char
import Mathlib.Data.List.Lex
import Mathlib.Tactic.Linarith
import Mathlib.Tactic.Positivity

/-!
# Timestamps and their text

Dates of the proleptic Gregorian calendar with years of four digits, times of the day, and the
timestamps of RFC 3339, with the instants they denote and their texts. Since all fields have fixed
widths, the texts of two dates or of two times of the day compare as the dates or times do. A
timestamp's text is compared with the text of a moment in UTC field by field, its offset and fraction
last.
-/

namespace FsServer.Lib

/-! ### Calendar -/

def isLeap (year : Nat) : Bool := year % 4 = 0 ∧ (year % 100 ≠ 0 ∨ year % 400 = 0)

def daysIn (year month : Nat) : Nat :=
  if month = 2 then if isLeap year then 29 else 28
  else if month = 4 ∨ month = 6 ∨ month = 9 ∨ month = 11 then 30
  else 31

structure Date where
  year : Nat
  month : Nat
  day : Nat
  year_le : year ≤ 9999
  month_pos : 1 ≤ month
  month_le : month ≤ 12
  day_pos : 1 ≤ day
  day_le : day ≤ daysIn year month

/-- The second is 60 in a leap second, during which a clock shows the second before once more. -/
structure TimeOfDay where
  hour : Nat
  minute : Nat
  second : Nat
  hour_le : hour ≤ 23
  minute_le : minute ≤ 59
  second_le : second ≤ 60

def daysBeforeYear : Nat → Nat
  | 0 => 0
  | year + 1 => daysBeforeYear year + if isLeap year then 366 else 365

def daysBeforeMonth (year : Nat) : Nat → Nat
  | 0 => 0
  | 1 => 0
  | month + 2 => daysBeforeMonth year (month + 1) + daysIn year (month + 1)

def Date.dayNumber (date : Date) : Nat :=
  daysBeforeYear date.year + daysBeforeMonth date.year date.month + (date.day - 1)

def TimeOfDay.seconds (time : TimeOfDay) : Nat :=
  time.hour * 3600 + time.minute * 60 + min time.second 59

variable {first second : Nat}

theorem daysBeforeYear_mono (h : first ≤ second) :
    daysBeforeYear first ≤ daysBeforeYear second := by
  induction h with
  | refl => exact le_rfl
  | step _ ih => exact ih.trans (Nat.le_add_right _ _)

variable {year : Nat}

theorem daysBeforeMonth_succ {month : Nat} (h : 1 ≤ month) :
    daysBeforeMonth year (month + 1) = daysBeforeMonth year month + daysIn year month := by
  cases month with
  | zero => omega
  | succ month => rfl

theorem daysBeforeMonth_le (hpos : 1 ≤ first) (h : first < second) :
    daysBeforeMonth year first + daysIn year first ≤ daysBeforeMonth year second := by
  induction h with
  | refl => exact (daysBeforeMonth_succ hpos).ge
  | step hle ih =>
    rw [Nat.succ_eq_add_one, daysBeforeMonth_succ (hpos.trans (Nat.le_of_succ_le hle))]
    exact ih.trans (Nat.le_add_right _ _)

theorem daysBeforeMonth_year (year : Nat) :
    daysBeforeMonth year 13 = if isLeap year then 366 else 365 := by
  simp only [daysBeforeMonth, daysIn]
  cases isLeap year with
  | true => rfl
  | false => rfl

theorem Date.dayNumber_lt (date : Date) :
    date.dayNumber < daysBeforeYear date.year + daysBeforeMonth date.year date.month
      + daysIn date.year date.month := by
  have hpos := date.day_pos
  have hle := date.day_le
  unfold Date.dayNumber
  omega

/-- The order of the dates by year, month and day. -/
def Date.Before (first second : Date) : Prop :=
  first.year < second.year ∨ first.year = second.year ∧
    (first.month < second.month ∨ first.month = second.month ∧ first.day < second.day)

theorem Date.Before.dayNumber_lt {first second : Date} (h : first.Before second) :
    first.dayNumber < second.dayNumber := by
  have hfirst := first.dayNumber_lt
  rcases h with hyear | ⟨hyear, hmonth | ⟨hmonth, hday⟩⟩
  · have hmonths : daysBeforeMonth first.year first.month + daysIn first.year first.month
        ≤ daysBeforeMonth first.year 13 :=
      daysBeforeMonth_le first.month_pos (Nat.lt_succ_of_le first.month_le)
    rw [daysBeforeMonth_year] at hmonths
    have hyears := daysBeforeYear_mono (Nat.succ_le_of_lt hyear)
    rw [Nat.succ_eq_add_one, daysBeforeYear] at hyears
    unfold Date.dayNumber at hfirst ⊢
    omega
  · have hmonths : daysBeforeMonth first.year first.month + daysIn first.year first.month
        ≤ daysBeforeMonth first.year second.month := daysBeforeMonth_le first.month_pos hmonth
    unfold Date.dayNumber at hfirst ⊢
    rw [← hyear]
    omega
  · have hpos := first.day_pos
    unfold Date.dayNumber
    rw [← hyear, ← hmonth]
    omega

/-! ### Texts -/

theorem append_lt_append_iff {α : Type} [LinearOrder α] {first second rest rest' : List α}
    (hlength : first.length = second.length) :
    first ++ rest < second ++ rest' ↔ first < second ∨ first = second ∧ rest < rest' := by
  induction first generalizing second with
  | nil =>
    obtain rfl := List.length_eq_zero_iff.mp hlength.symm
    simp
  | cons head tail ih =>
    cases second with
    | nil => simp at hlength
    | cons head' tail' =>
      rw [List.length_cons, List.length_cons, Nat.add_right_cancel_iff] at hlength
      rw [List.cons_append, List.cons_append, List.cons_lt_cons_iff, List.cons_lt_cons_iff,
        ih hlength, List.cons.injEq]
      tauto

def twoDigits (n : Nat) : List Char := [Nat.digitChar (n / 10), Nat.digitChar (n % 10)]

variable {a b : Nat}

theorem digitChar_lt_iff (ha : a < 10) (hb : b < 10) :
    Nat.digitChar a < Nat.digitChar b ↔ a < b := by
  have hall : ∀ a b : Fin 10, Nat.digitChar a < Nat.digitChar b ↔ (a : Nat) < b := by decide
  exact hall ⟨a, ha⟩ ⟨b, hb⟩

theorem digitChar_inj (ha : a < 10) (hb : b < 10) : Nat.digitChar a = Nat.digitChar b ↔ a = b := by
  have hall : ∀ a b : Fin 10, Nat.digitChar a = Nat.digitChar b ↔ (a : Nat) = b := by decide
  exact hall ⟨a, ha⟩ ⟨b, hb⟩

theorem twoDigits_lt_iff (ha : a < 100) (hb : b < 100) : twoDigits a < twoDigits b ↔ a < b := by
  rw [twoDigits, twoDigits, List.cons_lt_cons_iff, List.cons_lt_cons_iff,
    digitChar_lt_iff (by omega) (by omega), digitChar_inj (by omega) (by omega),
    digitChar_lt_iff (by omega) (by omega)]
  simp only [List.not_lt_nil, and_false, or_false]
  omega

theorem twoDigits_append_lt_iff {rest rest' : List Char} (ha : a < 100) (hb : b < 100) :
    twoDigits a ++ rest < twoDigits b ++ rest' ↔ a < b ∨ twoDigits a = twoDigits b ∧ rest < rest' := by
  have hlength : (twoDigits a).length = (twoDigits b).length := rfl
  rw [append_lt_append_iff hlength, twoDigits_lt_iff ha hb]

theorem twoDigits_inj (ha : a < 100) (hb : b < 100) : twoDigits a = twoDigits b ↔ a = b := by
  rw [twoDigits, twoDigits, List.cons.injEq, List.cons.injEq, digitChar_inj (by omega) (by omega),
    digitChar_inj (by omega) (by omega)]
  simp only [and_true]
  omega

def Date.text (date : Date) : List Char :=
  twoDigits (date.year / 100) ++ (twoDigits (date.year % 100) ++ ('-' :: (twoDigits date.month ++
    ('-' :: twoDigits date.day))))

def TimeOfDay.text (time : TimeOfDay) : List Char :=
  twoDigits time.hour ++ (':' :: (twoDigits time.minute ++ (':' :: twoDigits time.second)))

theorem Date.day_lt (date : Date) : date.day < 100 := by
  have hle := date.day_le
  unfold daysIn at hle
  split_ifs at hle <;> omega

theorem Date.text_lt_iff (first second : Date) : first.text < second.text ↔ first.Before second := by
  have hyear := first.year_le
  have hyear' := second.year_le
  have hmonth := first.month_le
  have hmonth' := second.month_le
  unfold Date.text Date.Before
  rw [twoDigits_append_lt_iff (by omega) (by omega), twoDigits_append_lt_iff (by omega) (by omega),
    List.cons_lt_cons_iff, twoDigits_append_lt_iff (by omega) (by omega), List.cons_lt_cons_iff,
    twoDigits_inj (by omega) (by omega), twoDigits_inj (by omega) (by omega),
    twoDigits_inj (by omega) (by omega), twoDigits_lt_iff first.day_lt second.day_lt]
  simp only [lt_self_iff_false, true_and, false_or]
  omega

theorem Date.text_inj {first second : Date} (h : first.text = second.text) :
    first.dayNumber = second.dayNumber := by
  have hyear := first.year_le
  have hyear' := second.year_le
  have hmonth := first.month_le
  have hmonth' := second.month_le
  unfold Date.text at h
  obtain ⟨hcentury, h⟩ := List.append_inj h rfl
  obtain ⟨hyears, h⟩ := List.append_inj h rfl
  obtain ⟨hmonths, h⟩ := List.append_inj (List.cons.inj h).2 rfl
  rw [twoDigits_inj (by omega) (by omega)] at hcentury hyears hmonths
  have hday := (twoDigits_inj first.day_lt second.day_lt).mp (List.cons.inj h).2
  have hsame : first.year = second.year := by omega
  unfold Date.dayNumber
  rw [hsame, hmonths, hday]

theorem Date.text_lt_iff_dayNumber (first second : Date) :
    first.text < second.text ↔ first.dayNumber < second.dayNumber := by
  constructor
  · exact fun h => ((first.text_lt_iff second).mp h).dayNumber_lt
  · intro h
    rcases lt_trichotomy first.text second.text with hlt | heq | hgt
    · exact hlt
    · exact absurd (Date.text_inj heq) h.ne
    · exact absurd ((second.text_lt_iff first).mp hgt).dayNumber_lt h.not_gt

theorem Date.text_eq_iff_dayNumber (first second : Date) :
    first.text = second.text ↔ first.dayNumber = second.dayNumber := by
  constructor
  · exact Date.text_inj
  · intro h
    rcases lt_trichotomy first.text second.text with hlt | heq | hgt
    · exact absurd h ((first.text_lt_iff_dayNumber second).mp hlt).ne
    · exact heq
    · exact absurd h ((second.text_lt_iff_dayNumber first).mp hgt).ne'

theorem TimeOfDay.text_lt_iff (first second : TimeOfDay) :
    first.text < second.text ↔
      first.hour < second.hour ∨ first.hour = second.hour ∧
        (first.minute < second.minute ∨ first.minute = second.minute ∧ first.second < second.second) := by
  have hhour := first.hour_le
  have hhour' := second.hour_le
  have hminute := first.minute_le
  have hminute' := second.minute_le
  have hsecond := first.second_le
  have hsecond' := second.second_le
  unfold TimeOfDay.text
  rw [twoDigits_append_lt_iff (by omega) (by omega), List.cons_lt_cons_iff,
    twoDigits_append_lt_iff (by omega) (by omega), List.cons_lt_cons_iff,
    twoDigits_inj (by omega) (by omega), twoDigits_inj (by omega) (by omega),
    twoDigits_lt_iff (by omega) (by omega)]
  simp only [lt_self_iff_false, true_and, false_or]

theorem TimeOfDay.text_eq_iff (first second : TimeOfDay) :
    first.text = second.text ↔
      first.hour = second.hour ∧ first.minute = second.minute ∧ first.second = second.second := by
  have hhour := first.hour_le
  have hhour' := second.hour_le
  have hminute := first.minute_le
  have hminute' := second.minute_le
  have hsecond := first.second_le
  have hsecond' := second.second_le
  constructor
  · intro h
    unfold TimeOfDay.text at h
    obtain ⟨hhours, h⟩ := List.append_inj h rfl
    obtain ⟨hminutes, h⟩ := List.append_inj (List.cons.inj h).2 rfl
    have hseconds := (List.cons.inj h).2
    rw [twoDigits_inj (by omega) (by omega)] at hhours hminutes hseconds
    exact ⟨hhours, hminutes, hseconds⟩
  · rintro ⟨hhours, hminutes, hseconds⟩
    unfold TimeOfDay.text
    rw [hhours, hminutes, hseconds]

/-! ### Timestamps and moments -/

inductive Zone where
  | utc
  | lowerUtc
  | offset (negative : Bool) (hours : Fin 24) (minutes : Fin 60)

namespace Zone

def text : Zone → List Char
  | utc => ['Z']
  | lowerUtc => ['z']
  | offset negative hours minutes =>
    (if negative then '-' else '+') :: (twoDigits hours ++ (':' :: twoDigits minutes))

def seconds : Zone → Int
  | utc | lowerUtc => 0
  | offset negative hours minutes =>
    let ahead : Int := (hours : Nat) * 3600 + (minutes : Nat) * 60
    if negative then -ahead else ahead

end Zone

/-- A timestamp of RFC 3339. `T` may be written small, and without a fraction there are no digits. -/
structure Stamp where
  date : Date
  lowerT : Bool
  time : TimeOfDay
  fraction : List (Fin 10)
  zone : Zone

namespace Stamp

def fractionText : List (Fin 10) → List Char
  | [] => []
  | digits => '.' :: digits.map fun digit => Nat.digitChar digit

def fractionValue (digits : List (Fin 10)) : ℚ :=
  digits.foldr (fun digit rest => ((digit : Nat) + rest) / 10) 0

def body (stamp : Stamp) : List Char :=
  stamp.date.text ++ ((if stamp.lowerT then 't' else 'T') :: stamp.time.text)

def text (stamp : Stamp) : List Char :=
  stamp.body ++ (fractionText stamp.fraction ++ stamp.zone.text)

def localSeconds (stamp : Stamp) : Int := stamp.date.dayNumber * 86400 + stamp.time.seconds

def instant (stamp : Stamp) : ℚ :=
  ((stamp.localSeconds - stamp.zone.seconds : Int) : ℚ) + fractionValue stamp.fraction

theorem fractionValue_bounds (digits : List (Fin 10)) :
    0 ≤ fractionValue digits ∧ fractionValue digits < 1 := by
  induction digits with
  | nil => exact ⟨le_rfl, one_pos⟩
  | cons digit digits ih =>
    have hcons : fractionValue (digit :: digits) = ((digit : Nat) + fractionValue digits) / 10 := rfl
    have hdigit : ((digit : Nat) : ℚ) ≤ 9 := by
      exact_mod_cast Nat.le_of_lt_succ digit.isLt
    rw [hcons]
    constructor
    · have hnonneg : (0 : ℚ) ≤ (digit : Nat) := Nat.cast_nonneg _
      linarith [ih.1]
    · linarith [ih.2]

theorem le_instant_iff (stamp : Stamp) (seconds : Int) :
    (seconds : ℚ) ≤ stamp.instant ↔ seconds ≤ stamp.localSeconds - stamp.zone.seconds := by
  obtain ⟨hnonneg, hlt⟩ := fractionValue_bounds stamp.fraction
  unfold instant
  constructor
  · intro h
    by_contra hnot
    have hstep : stamp.localSeconds - stamp.zone.seconds + 1 ≤ seconds := by omega
    have hcast : ((stamp.localSeconds - stamp.zone.seconds : Int) : ℚ) + 1 ≤ seconds := by
      exact_mod_cast hstep
    linarith
  · intro h
    have hcast : (seconds : ℚ) ≤ ((stamp.localSeconds - stamp.zone.seconds : Int) : ℚ) := by
      exact_mod_cast h
    linarith

end Stamp

structure Moment where
  date : Date
  time : TimeOfDay
  second_lt : time.second < 60

namespace Moment

def text (moment : Moment) : List Char :=
  moment.date.text ++ ('T' :: (moment.time.text ++ ['Z']))

def seconds (moment : Moment) : Int := moment.date.dayNumber * 86400 + moment.time.seconds

end Moment

/-- The last second whose text is not after a text that begins as the timestamp's does; `whole` is
whether what comes then is not before `Z`. -/
def Stamp.lastSecond (stamp : Stamp) (whole : Bool) : Int :=
  if stamp.lowerT then stamp.date.dayNumber * 86400 + 86399
  else if whole ∨ stamp.time.second = 60 then stamp.localSeconds
  else stamp.localSeconds - 1

/-- **The text of a timestamp against the text of a moment.** -/
theorem Stamp.text_lt_iff (stamp : Stamp) (tail : List Char) (moment : Moment) :
    stamp.body ++ tail < moment.text ↔
      stamp.lastSecond (decide (¬ tail < ['Z'])) < moment.seconds := by
  have hdates : stamp.date.text.length = moment.date.text.length := rfl
  have htimes : stamp.time.text.length = moment.time.text.length := rfl
  have hhour := moment.time.hour_le
  have hminute := moment.time.minute_le
  have hsecond := moment.second_lt
  rw [body, Moment.text, List.append_assoc, append_lt_append_iff hdates,
    Date.text_lt_iff_dayNumber, Date.text_eq_iff_dayNumber, List.cons_append, List.cons_lt_cons_iff]
  unfold lastSecond localSeconds Moment.seconds TimeOfDay.seconds
  cases stamp.lowerT with
  | true =>
    have hsmall : ¬ 't' < 'T' ∧ 't' ≠ 'T' := by decide
    simp only [if_true, hsmall, false_and, or_self, and_false, or_false]
    omega
  | false =>
    have hminute' := stamp.time.minute_le
    have hhour' := stamp.time.hour_le
    have hsecond' := stamp.time.second_le
    rw [append_lt_append_iff htimes, TimeOfDay.text_lt_iff, TimeOfDay.text_eq_iff]
    simp only [Bool.false_eq_true, if_false, lt_self_iff_false, true_and, false_or]
    by_cases htail : tail < ['Z']
    · simp only [htail, not_true_eq_false, decide_false, Bool.false_eq_true, false_or, and_true]
      split_ifs with hleap
      · omega
      · omega
    · simp only [htail, not_false_eq_true, decide_true, true_or, if_true, and_false, or_false]
      omega

end FsServer.Lib
