import Mathlib

namespace ElektronPool.Lib.Calendar

section Scale

variable {start : ℕ → ℕ} {n k bound : ℕ}

def lastStart (start : ℕ → ℕ) (bound n : ℕ) : ℕ := Nat.findGreatest (fun k ↦ start k ≤ n) bound

theorem lastStart_le (start : ℕ → ℕ) (bound n : ℕ) : lastStart start bound n ≤ bound :=
  Nat.findGreatest_le bound

theorem start_lastStart_le (h : start 0 ≤ n) : start (lastStart start bound n) ≤ n :=
  Nat.findGreatest_spec (P := fun k ↦ start k ≤ n) (Nat.zero_le bound) h

theorem lt_start_lastStart_succ (hbound : n < start (bound + 1)) :
    n < start (lastStart start bound n + 1) := by
  rcases (lastStart_le start bound n).lt_or_eq with hlt | heq
  · apply not_le.mp
    exact Nat.findGreatest_is_greatest (P := fun k ↦ start k ≤ n) (Nat.lt_succ_self _) hlt
  · rw [heq]
    exact hbound

end Scale

section Year

variable {year : ℕ}

def isLeap (year : ℕ) : Bool := year % 4 = 0 && (year % 100 ≠ 0 || year % 400 = 0)

def daysInYear (year : ℕ) : ℕ := if isLeap year then 366 else 365

/-- The first day of the year this many years after 1970, counted from the first of 1970. -/
def dayFromYear (years : ℕ) : ℕ :=
  365 * years + (years + 1) / 4 + (years + 369) / 400 - (years + 69) / 100

theorem dayFromYear_succ (years : ℕ) :
    dayFromYear (years + 1) = dayFromYear years + daysInYear (1970 + years) := by
  have hle : (years + 69) / 100 ≤ years := by omega
  have h4 : (years + 1 + 1) / 4 =
      (years + 1) / 4 + if (1970 + years) % 4 = 0 then 1 else 0 := by
    split_ifs <;> omega
  have h100 : (years + 69 + 1) / 100 =
      (years + 69) / 100 + if (1970 + years) % 100 = 0 then 1 else 0 := by
    split_ifs <;> omega
  have h400 : (years + 369 + 1) / 400 =
      (years + 369) / 400 + if (1970 + years) % 400 = 0 then 1 else 0 := by
    split_ifs <;> omega
  have h100_of (h : (1970 + years) % 400 = 0) : (1970 + years) % 100 = 0 := by omega
  have h4_of (h : (1970 + years) % 100 = 0) : (1970 + years) % 4 = 0 := by omega
  rw [dayFromYear, dayFromYear, Nat.add_right_comm years 1 369, Nat.add_right_comm years 1 69, h4,
    h100, h400, daysInYear, isLeap]
  generalize (years + 1) / 4 = fourths at *
  generalize (years + 69) / 100 = hundredths at *
  generalize (years + 369) / 400 = fourHundredths at *
  by_cases hfour : (1970 + years) % 4 = 0
  · by_cases hhundred : (1970 + years) % 100 = 0
    · by_cases hfourHundred : (1970 + years) % 400 = 0
      · simp only [hfour, hhundred, hfourHundred, decide_true, if_true, Bool.or_true, Bool.and_true]
        omega
      · simp only [hfour, hhundred, hfourHundred, decide_true, decide_false, if_true, if_false,
          ne_eq, not_true_eq_false, Bool.or_false, Bool.and_false, Bool.false_eq_true]
        omega
    · simp only [hfour, hhundred, mt h100_of hhundred, decide_true, decide_false, if_true, if_false,
        ne_eq, not_false_eq_true, Bool.true_or, Bool.and_true]
      omega
  · simp only [hfour, mt h4_of hfour, mt h100_of (mt h4_of hfour), decide_false, if_false,
      Bool.false_and, Bool.false_eq_true]
    omega

theorem daysInYear_pos (year : ℕ) : 365 ≤ daysInYear year := by
  rw [daysInYear]
  split_ifs <;> decide

theorem strictMono_dayFromYear : StrictMono dayFromYear := by
  apply strictMono_nat_of_lt_succ
  intro years
  have hpos := daysInYear_pos (1970 + years)
  rw [dayFromYear_succ]
  omega

end Year

section Month

variable {leap : Bool} {month : ℕ}

def daysInMonth (leap : Bool) (month : ℕ) : ℕ :=
  [31, if leap then 29 else 28, 31, 30, 31, 30, 31, 31, 30, 31, 30, 31].getD month 31

theorem daysInMonth_pos (leap : Bool) (month : ℕ) : 0 < daysInMonth leap month := by
  by_cases hmonth : month < 12
  · interval_cases month <;> cases leap <;> decide
  · rw [daysInMonth, List.getD_eq_default _ _ (by simpa using hmonth)]
    decide

def monthStart (leap : Bool) : ℕ → ℕ
  | 0 => 0
  | month + 1 => monthStart leap month + daysInMonth leap month

theorem strictMono_monthStart (leap : Bool) : StrictMono (monthStart leap) := by
  apply strictMono_nat_of_lt_succ
  intro month
  have hpos := daysInMonth_pos leap month
  rw [monthStart]
  omega

theorem monthStart_twelve (year : ℕ) : monthStart (isLeap year) 12 = daysInYear year := by
  rw [daysInYear]
  cases isLeap year <;> rfl

end Month

/-- A day of the calendar from 1970 on. The months are counted from zero and the
days from one, as `getUTCMonth` and `getUTCDate` count them. -/
@[ext]
structure Date where
  year : ℕ
  month : ℕ
  day : ℕ
  le_year : 1970 ≤ year
  month_lt : month < 12
  one_le_day : 1 ≤ day
  day_le : day ≤ daysInMonth (isLeap year) month
deriving DecidableEq

namespace Date

variable {a b : Date}

def toDay (date : Date) : ℕ :=
  dayFromYear (date.year - 1970) + monthStart (isLeap date.year) date.month + (date.day - 1)

def yearsOf (n : ℕ) : ℕ := lastStart dayFromYear (n / 365) n

theorem dayFromYear_yearsOf_le (n : ℕ) : dayFromYear (yearsOf n) ≤ n :=
  start_lastStart_le (by simp [dayFromYear])

theorem lt_dayFromYear_div (n : ℕ) : n < dayFromYear (n / 365 + 1) := by
  simp only [dayFromYear]
  omega

theorem lt_dayFromYear_yearsOf_succ (n : ℕ) : n < dayFromYear (yearsOf n + 1) :=
  lt_start_lastStart_succ (lt_dayFromYear_div n)

def dayInYear (n : ℕ) : ℕ := n - dayFromYear (yearsOf n)

theorem dayInYear_lt (n : ℕ) :
    dayInYear n < monthStart (isLeap (1970 + yearsOf n)) 12 := by
  have hle := dayFromYear_yearsOf_le n
  have hlt := lt_dayFromYear_yearsOf_succ n
  rw [dayFromYear_succ] at hlt
  rw [monthStart_twelve, dayInYear]
  omega

def monthOf (n : ℕ) : ℕ := lastStart (monthStart (isLeap (1970 + yearsOf n))) 11 (dayInYear n)

theorem monthStart_monthOf_le (n : ℕ) :
    monthStart (isLeap (1970 + yearsOf n)) (monthOf n) ≤ dayInYear n :=
  start_lastStart_le (Nat.zero_le _)

theorem lt_monthStart_monthOf_succ (n : ℕ) :
    dayInYear n < monthStart (isLeap (1970 + yearsOf n)) (monthOf n + 1) :=
  lt_start_lastStart_succ (dayInYear_lt n)

def ofDay (n : ℕ) : Date where
  year := 1970 + yearsOf n
  month := monthOf n
  day := dayInYear n - monthStart (isLeap (1970 + yearsOf n)) (monthOf n) + 1
  le_year := Nat.le_add_right _ _
  month_lt := Nat.lt_succ_of_le (lastStart_le _ _ _)
  one_le_day := Nat.le_add_left _ _
  day_le := by
    have hlt := lt_monthStart_monthOf_succ n
    have hle := monthStart_monthOf_le n
    rw [monthStart] at hlt
    omega

theorem toDay_ofDay (n : ℕ) : (ofDay n).toDay = n := by
  have hyear := dayFromYear_yearsOf_le n
  have hmonth := monthStart_monthOf_le n
  simp only [toDay, ofDay, Nat.add_sub_cancel_left, Nat.add_sub_cancel]
  simp only [dayInYear] at hmonth ⊢
  omega

theorem monthStart_add_day_le (date : Date) :
    monthStart (isLeap date.year) date.month + date.day ≤
      monthStart (isLeap date.year) (date.month + 1) := by
  have hday := date.day_le
  rw [monthStart]
  omega

theorem toDay_lt_dayFromYear (date : Date) :
    date.toDay < dayFromYear (date.year - 1970 + 1) := by
  have hday := date.one_le_day
  have hle := monthStart_add_day_le date
  have hmonth := (strictMono_monthStart (isLeap date.year)).monotone
    (show date.month + 1 ≤ 12 from date.month_lt)
  have hyear := date.le_year
  rw [monthStart_twelve] at hmonth
  rw [toDay, dayFromYear_succ, show 1970 + (date.year - 1970) = date.year by omega]
  omega

/-- An earlier year, or month of the year, or day of the month, is an earlier day. -/
theorem toDay_lt_of_lex (h : a.year < b.year ∨ a.year = b.year ∧
    (a.month < b.month ∨ a.month = b.month ∧ a.day < b.day)) : a.toDay < b.toDay := by
  have ha := a.one_le_day
  have hle := monthStart_add_day_le a
  rcases h with hyear | ⟨hyear, hmonth | ⟨hmonth, hday⟩⟩
  · have hstart := strictMono_dayFromYear.monotone
      (show a.year - 1970 + 1 ≤ b.year - 1970 by have := a.le_year; omega)
    have hlt := a.toDay_lt_dayFromYear
    have hb : dayFromYear (b.year - 1970) ≤ b.toDay := by
      rw [toDay, Nat.add_assoc]
      exact Nat.le_add_right _ _
    omega
  · have hstart := (strictMono_monthStart (isLeap a.year)).monotone
      (show a.month + 1 ≤ b.month from hmonth)
    simp only [toDay, ← hyear]
    omega
  · simp only [toDay, ← hyear, ← hmonth]
    omega

theorem lex_trichotomy (a b : Date) : a = b ∨
    (a.year < b.year ∨ a.year = b.year ∧
      (a.month < b.month ∨ a.month = b.month ∧ a.day < b.day)) ∨
    (b.year < a.year ∨ b.year = a.year ∧
      (b.month < a.month ∨ b.month = a.month ∧ b.day < a.day)) := by
  rw [Date.ext_iff]
  omega

theorem lex_of_toDay_lt (h : a.toDay < b.toDay) : a.year < b.year ∨ a.year = b.year ∧
    (a.month < b.month ∨ a.month = b.month ∧ a.day < b.day) := by
  rcases lex_trichotomy a b with rfl | hlt | hlt
  · exact absurd h (lt_irrefl _)
  · exact hlt
  · exact absurd h (toDay_lt_of_lex hlt).asymm

end Date

section Digits

variable {width n m : ℕ}

def lastDigits : (width n : ℕ) → List Char
  | 0, _ => []
  | width + 1, n => lastDigits width (n / 10) ++ [(n % 10).digitChar]

/-- `String(n).padStart(width, '0')`. -/
def zeroPadded (width n : ℕ) : List Char := (Nat.toDigits 10 n).leftpad width '0'

theorem lastDigits_zero (width : ℕ) : lastDigits width 0 = List.replicate width '0' := by
  induction width with
  | zero => rfl
  | succ width ih => rw [lastDigits, Nat.zero_div, ih, List.replicate_succ']; rfl

theorem length_lastDigits (width n : ℕ) : (lastDigits width n).length = width := by
  induction width generalizing n with
  | zero => rfl
  | succ width ih => rw [lastDigits, List.length_append, ih, List.length_singleton]

theorem leftpad_append_singleton (cs : List Char) (c : Char) :
    (cs ++ [c]).leftpad (width + 1) '0' = cs.leftpad width '0' ++ [c] := by
  simp only [List.leftpad, List.length_append, List.length_singleton, Nat.add_sub_add_right,
    List.append_assoc]

theorem zeroPadded_eq_lastDigits (h : n < 10 ^ (width + 1)) :
    zeroPadded (width + 1) n = lastDigits (width + 1) n := by
  induction width generalizing n with
  | zero =>
    rw [zeroPadded, Nat.toDigits_of_lt_base (by simpa using h), lastDigits,
      Nat.mod_eq_of_lt (by simpa using h)]
    rfl
  | succ width ih =>
    by_cases hn : n < 10
    · rw [zeroPadded, Nat.toDigits_of_lt_base hn, lastDigits, Nat.div_eq_of_lt hn,
        Nat.mod_eq_of_lt hn, lastDigits_zero]
      rw [← List.nil_append [n.digitChar], leftpad_append_singleton]
      simp [List.leftpad]
    · rw [zeroPadded, Nat.toDigits_of_base_le (by decide) (not_lt.mp hn), lastDigits,
        leftpad_append_singleton, ← ih (by rw [pow_succ] at h; omega), zeroPadded]

theorem append_lt_append {as bs : List Char} (xs ys : List Char) (hlength : as.length = bs.length)
    (h : as < bs) : as ++ xs < bs ++ ys := by
  induction as generalizing bs with
  | nil =>
    rw [List.length_nil, eq_comm, List.length_eq_zero_iff] at hlength
    subst hlength
    exact absurd h (lt_irrefl _)
  | cons a as ih =>
    cases bs with
    | nil => cases hlength
    | cons b bs =>
      rw [List.cons_lt_cons_iff] at h
      rw [List.cons_append, List.cons_append, List.cons_lt_cons_iff]
      refine h.imp_right fun hlt ↦ ⟨hlt.1, ih ?_ hlt.2⟩
      simpa using hlength

theorem digitChar_lt (hlt : n < m) (hm : m < 10) : n.digitChar < m.digitChar := by
  interval_cases m <;> interval_cases n <;> decide

/-- Numbers of as many digits are ordered as their texts. -/
theorem lastDigits_lt (hlt : n < m) (hm : m < 10 ^ width) :
    lastDigits width n < lastDigits width m := by
  induction width generalizing n m with
  | zero => rw [pow_zero] at hm; omega
  | succ width ih =>
    rw [lastDigits, lastDigits]
    rcases (Nat.div_le_div_right hlt.le : n / 10 ≤ m / 10).lt_or_eq with hdiv | hdiv
    · apply append_lt_append _ _ (by rw [length_lastDigits, length_lastDigits])
      exact ih hdiv (by rw [pow_succ] at hm; omega)
    · rw [hdiv]
      apply List.append_left_lt
      rw [List.cons_lt_cons_iff]
      exact .inl (digitChar_lt (by omega) (Nat.mod_lt _ (by decide)))

end Digits

section Fields

/-- Numbers padded to their widths, each with the character after it. -/
def fieldsText : List (ℕ × Char) → List ℕ → List Char
  | (width, after) :: layout, n :: ns => zeroPadded width n ++ after :: fieldsText layout ns
  | _, _ => []

def Fits : List (ℕ × Char) → List ℕ → Prop
  | (width, _) :: layout, n :: ns => width ≠ 0 ∧ n < 10 ^ width ∧ Fits layout ns
  | [], [] => True
  | _, _ => False

theorem fieldsText_lt {layout : List (ℕ × Char)} {ns ms : List ℕ} (hns : Fits layout ns)
    (hms : Fits layout ms) (hlt : ns < ms) : fieldsText layout ns < fieldsText layout ms := by
  induction layout generalizing ns ms with
  | nil =>
    cases ns with
    | nil =>
      cases ms with
      | nil => exact absurd hlt (lt_irrefl _)
      | cons m ms => exact hms.elim
    | cons n ns => exact hns.elim
  | cons field layout ih =>
    cases ns with
    | nil => exact hns.elim
    | cons n ns =>
      cases ms with
      | nil => exact hms.elim
      | cons m ms =>
        obtain ⟨width, after⟩ := field
        obtain ⟨hwidth, hn, hns⟩ := hns
        obtain ⟨-, hm, hms⟩ := hms
        obtain ⟨width, rfl⟩ := Nat.exists_eq_succ_of_ne_zero hwidth
        rw [fieldsText, fieldsText, zeroPadded_eq_lastDigits hn, zeroPadded_eq_lastDigits hm]
        rcases List.cons_lt_cons_iff.mp hlt with hfirst | ⟨rfl, hrest⟩
        · apply append_lt_append _ _ (by rw [length_lastDigits, length_lastDigits])
          exact lastDigits_lt hfirst hm
        · apply List.append_left_lt
          rw [List.cons_lt_cons_iff]
          exact .inr ⟨rfl, ih hns hms hrest⟩

end Fields

section Iso

variable {t t' : ℕ}

def msPerDay : ℕ := 86400000

def longYears : ℕ := 253402300800000

def maxTime : ℕ := 8640000000000000

def dateOf (t : ℕ) : Date := Date.ofDay (t / msPerDay)

def isoFields (t : ℕ) : List ℕ :=
  [(dateOf t).month + 1, (dateOf t).day, t % msPerDay / 3600000, t % 3600000 / 60000,
    t % 60000 / 1000, t % 1000]

def isoLayout : List (ℕ × Char) := [(2, '-'), (2, 'T'), (2, ':'), (2, ':'), (2, '.'), (3, 'Z')]

def isoText (t : ℕ) : String :=
  String.ofList (fieldsText ((4, '-') :: isoLayout) ((dateOf t).year :: isoFields t))

/-- `new Date(t).toISOString()`, which throws where `t` is no time of a date. -/
def toISOString (t : ℕ) : Option String :=
  if maxTime < t then none
  else if t < longYears then some (isoText t)
  else
    some (String.ofList ('+' ::
      fieldsText ((6, '-') :: isoLayout) ((dateOf t).year :: isoFields t)))

theorem day_le_thirtyOne (date : Date) : date.day ≤ 31 := by
  refine date.day_le.trans ?_
  have hmonth := date.month_lt
  generalize date.month = month at hmonth ⊢
  interval_cases month <;> cases isLeap date.year <;> decide

theorem year_lt_tenThousand (h : t < longYears) : (dateOf t).year < 10000 := by
  by_contra! hyear
  have hstart : dayFromYear 8030 ≤ dayFromYear ((dateOf t).year - 1970) :=
    strictMono_dayFromYear.monotone (by omega)
  have hday : (dateOf t).toDay = t / msPerDay := Date.toDay_ofDay _
  rw [Date.toDay] at hday
  rw [show dayFromYear 8030 = 2932897 by decide] at hstart
  simp only [longYears, msPerDay] at h hday
  omega

theorem fits_isoFields (t : ℕ) : Fits isoLayout (isoFields t) := by
  have hmonth := (dateOf t).month_lt
  have hday := day_le_thirtyOne (dateOf t)
  refine ⟨by decide, ?_, by decide, ?_, by decide, ?_, by decide, ?_, by decide, ?_, by decide, ?_,
    trivial⟩ <;> norm_num [msPerDay] <;> omega

/-- Times are ordered as the lists of their fields. -/
theorem isoFields_lt (h : t < t') :
    (dateOf t).year :: isoFields t < (dateOf t').year :: isoFields t' := by
  simp only [isoFields, List.cons_lt_cons_iff, msPerDay]
  rcases (Nat.div_le_div_right h.le : t / msPerDay ≤ t' / msPerDay).lt_or_eq with hday | hday
  · have hlt : (dateOf t).toDay < (dateOf t').toDay := by
      rw [dateOf, dateOf, Date.toDay_ofDay, Date.toDay_ofDay]
      exact hday
    rcases Date.lex_of_toDay_lt hlt with hyear | ⟨hyear, hmonth | ⟨hmonth, hdate⟩⟩
    · exact .inl hyear
    · exact .inr ⟨hyear, .inl (Nat.succ_lt_succ hmonth)⟩
    · exact .inr ⟨hyear, .inr ⟨congrArg (· + 1) hmonth, .inl hdate⟩⟩
  · have hdate : dateOf t = dateOf t' := congrArg Date.ofDay hday
    rw [hdate]
    refine .inr ⟨rfl, .inr ⟨rfl, .inr ⟨rfl, ?_⟩⟩⟩
    simp only [msPerDay] at hday
    omega

theorem toISOString_eq (h : t < longYears) : toISOString t = some (isoText t) := by
  have hmax : longYears ≤ maxTime := by decide
  rw [toISOString, if_neg (by omega), if_pos h]

/-- Before the year 10000 the texts of times are ordered as the times are. -/
theorem isoText_lt (hlt : t < t') (h : t' < longYears) : isoText t < isoText t' := by
  rw [String.lt_iff, isoText, isoText, String.toList_ofList, String.toList_ofList]
  have hyear := year_lt_tenThousand (hlt.trans h)
  have hyear' := year_lt_tenThousand h
  exact fieldsText_lt ⟨by decide, hyear, fits_isoFields t⟩ ⟨by decide, hyear', fits_isoFields t'⟩
    (isoFields_lt hlt)

example : toISOString 1709210096789 = some "2024-02-29T12:34:56.789Z" := by decide +kernel

end Iso

end ElektronPool.Lib.Calendar
