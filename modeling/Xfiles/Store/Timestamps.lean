import Mathlib.Data.Prod.Lex
import Xfiles.Lib.TextOrder

/-!
# Timestamps as text

`Timestamp` is a `DateTime<Utc>`: a date of the Gregorian calendar, and a time
of day with its nanoseconds.  In a leap second the nanoseconds run on past
`10 ^ 9`.  `instant` is what two timestamps are compared by, the number of the
day before the time of day.

`toRfc3339` is the text that is stored: the date and the time with fixed widths,
the fraction with the fewest of 0, 3, 6 or 9 digits that are exact, and the
offset `+00:00`.  A year outside `0..9999` is written with its sign.

The database compares texts by their bytes.  For years in `0..9999` that is the
order of the instants (`textBytes_lt_iff`): the separators stand at fixed
places, and where the fractions differ in length `+` stands below `.` and below
every digit.
-/

namespace Xfiles.Store

open TextOrder

/-! ## Timestamps -/

def isLeap (year : Int) : Bool :=
  year % 4 = 0 ∧ (year % 100 ≠ 0 ∨ year % 400 = 0)

/-- The days of a month, counted from 1. -/
def daysIn (leap : Bool) : Nat → Nat
  | 2 => if leap then 29 else 28
  | 4 | 6 | 9 | 11 => 30
  | _ => 31

/-- A `DateTime<Utc>`. -/
@[ext] structure Timestamp where
  year : Int
  month : Nat
  day : Nat
  hour : Nat
  minute : Nat
  second : Nat
  nano : Nat
  month_pos : 1 ≤ month
  month_le : month ≤ 12
  day_pos : 1 ≤ day
  day_le : day ≤ daysIn (isLeap year) month
  hour_lt : hour < 24
  minute_lt : minute < 60
  second_lt : second < 60
  nano_lt : nano < 2 * 10 ^ 9
  /-- Only the last second of a minute is followed by a leap second. -/
  leap_second : 10 ^ 9 ≤ nano → second = 59

/-- The days of a year before a month. -/
def daysBeforeMonth (leap : Bool) : Nat → Nat
  | 0 | 1 => 0
  | month + 2 => daysBeforeMonth leap (month + 1) + daysIn leap (month + 1)

/-- The days before a year. -/
def daysBeforeYear (year : Int) : Int :=
  365 * year + (year - 1) / 4 - (year - 1) / 100 + (year - 1) / 400

namespace Timestamp

/-- The number of the day. -/
def days (t : Timestamp) : Int :=
  daysBeforeYear t.year + daysBeforeMonth (isLeap t.year) t.month + t.day

/-- The second of the day. -/
def secs (t : Timestamp) : Nat := 3600 * t.hour + 60 * t.minute + t.second

/-- What two timestamps are compared by. -/
def instant (t : Timestamp) : Int ×ₗ Nat ×ₗ Nat := toLex (t.days, toLex (t.secs, t.nano))

/-- A year that is written with four digits. -/
def FourDigitYear (t : Timestamp) : Prop := 0 ≤ t.year ∧ t.year ≤ 9999

instance (t : Timestamp) : Decidable t.FourDigitYear := inferInstanceAs (Decidable (_ ∧ _))

/-- The first moment of a year. -/
def newYear (year : Int) : Timestamp where
  year := year
  month := 1
  day := 1
  hour := 0
  minute := 0
  second := 0
  nano := 0
  month_pos := by decide
  month_le := by decide
  day_pos := by decide
  day_le := by
    show 1 ≤ 31
    decide
  hour_lt := by decide
  minute_lt := by decide
  second_lt := by decide
  nano_lt := by decide
  leap_second := by decide

end Timestamp

/-! ## Text -/

/-- A number with leading zeros. -/
def padded (width n : Nat) : List Char := numeral 10 Nat.digitChar width n

def yearText (year : Int) : List Char :=
  if 0 ≤ year ∧ year ≤ 9999 then padded 4 year.toNat
  else
    (if year < 0 then '-' else '+') ::
      if year.natAbs ≤ 9999 then padded 4 year.natAbs else Nat.toDigits 10 year.natAbs

/-- The fraction of a second, with the fewest digits that are exact. -/
def fractionText (nano : Nat) : List Char :=
  if nano = 0 then []
  else if nano % 1000000 = 0 then '.' :: padded 3 (nano / 1000000)
  else if nano % 1000 = 0 then '.' :: padded 6 (nano / 1000)
  else '.' :: padded 9 nano

namespace Timestamp

/-- The second that is written, and the nanoseconds after it. -/
def shownSecond (t : Timestamp) : Nat × Nat :=
  if t.nano < 1000000000 then (t.second, t.nano) else (t.second + 1, t.nano - 1000000000)

/-- The characters of `to_rfc3339`. -/
def rfc3339 (t : Timestamp) : List Char :=
  yearText t.year ++ '-' :: (padded 2 t.month ++ '-' :: (padded 2 t.day ++ 'T' ::
    (padded 2 t.hour ++ ':' :: (padded 2 t.minute ++ ':' :: (padded 2 t.shownSecond.1 ++
      (fractionText t.shownSecond.2 ++ ['+', '0', '0', ':', '0', '0']))))))

def toRfc3339 (t : Timestamp) : String := String.ofList t.rfc3339

end Timestamp

/-- The bytes of a text, in UTF-8. -/
def textBytes (s : String) : List Nat :=
  (s.toList.flatMap String.utf8EncodeChar).map UInt8.toNat

/-! ## Bytes of digits -/

def codes (cs : List Char) : List Nat := cs.map Char.toNat

theorem codes_append (a b : List Char) : codes (a ++ b) = codes a ++ codes b := List.map_append

theorem codes_cons (c : Char) (cs : List Char) : codes (c :: cs) = c.toNat :: codes cs := rfl

theorem textBytes_ofList {cs : List Char} (h : ∀ c ∈ cs, c.toNat < 128) :
    textBytes (String.ofList cs) = codes cs := by
  rw [textBytes, String.toList_ofList]
  induction cs with
  | nil => rfl
  | cons c rest ih =>
    have hc := h c List.mem_cons_self
    have hsize : c.utf8Size = 1 := by
      rw [Char.utf8Size_eq_one_iff, UInt32.le_iff_toNat_le]
      exact Nat.lt_succ_iff.mp hc
    rw [List.flatMap_cons, List.map_append, String.utf8EncodeChar_eq_singleton hsize,
      ih fun d hd => h d (List.mem_cons_of_mem _ hd)]
    have hcode : c.val.toUInt8.toNat = c.toNat := by
      rw [UInt32.toNat_toUInt8]
      exact Nat.mod_eq_of_lt (Nat.lt_trans hc (by decide))
    rw [List.map_singleton, hcode]
    rfl

theorem textBytes_cons {c : Char} (h : c.toNat < 128) (cs : List Char) :
    textBytes (String.ofList (c :: cs)) = c.toNat :: textBytes (String.ofList cs) := by
  have hhead := textBytes_ofList (List.forall_mem_singleton.mpr h)
  rw [textBytes, String.toList_ofList, List.flatMap_singleton] at hhead
  rw [textBytes, textBytes, String.toList_ofList, String.toList_ofList, List.flatMap_cons,
    List.map_append, hhead]
  rfl

theorem digitChar_lt (n : Nat) : (Nat.digitChar n).toNat < 128 := by
  have hsmall : ∀ i < 16, (Nat.digitChar i).toNat < 128 := by decide
  rcases Nat.lt_or_ge n 16 with h | h
  · exact hsmall n h
  · rw [Nat.digitChar_eq_star.mpr h]
    decide

/-- The code of a digit. -/
def digitCode (n : Nat) : Nat := (Nat.digitChar n).toNat

theorem orderedDigits : OrderedDigits 10 digitCode := by
  unfold OrderedDigits
  decide

theorem codes_padded (width n : Nat) :
    codes (padded width n) = numeral 10 digitCode width n :=
  map_numeral _ _ _ _ _

theorem padded_append_lt {width n m : Nat} (hn : n < 10 ^ width) (hm : m < 10 ^ width)
    (s t : List Nat) :
    codes (padded width n) ++ s < codes (padded width m) ++ t ↔ n < m ∨ n = m ∧ s < t := by
  rw [codes_padded, codes_padded]
  exact numeral_append_lt orderedDigits hn hm s t

/-! ## The order of fractions -/

/-- The digits of nanoseconds in three groups. -/
def groups (nano : Nat) : List Nat :=
  [nano / 1000000, nano / 1000 % 1000, nano % 1000]

theorem groups_lt_iff (n m : Nat) : groups n < groups m ↔ n < m := by
  rw [groups, groups, List.cons_lt_cons_iff, List.cons_lt_cons_iff, List.cons_lt_cons_iff]
  have hirrefl : ¬([] : List Nat) < [] := List.not_lt_nil _
  simp only [hirrefl, and_false, or_false]
  omega

theorem padded_groups {nano : Nat} (h : nano < 1000000000) :
    padded 6 (nano / 1000) = padded 3 (nano / 1000000) ++ padded 3 (nano / 1000 % 1000) ∧
    padded 9 nano = padded 6 (nano / 1000) ++ padded 3 (nano % 1000) := by
  constructor
  · have hdiv : nano / 1000 / 10 ^ 3 = nano / 1000000 := by omega
    rw [← hdiv]
    exact numeral_add 10 Nat.digitChar (show nano / 1000 < 10 ^ (3 + 3) by omega)
  · exact numeral_add 10 Nat.digitChar (show nano < 10 ^ (6 + 3) by omega)

/-- A fraction is its groups without the last ones that are zero. -/
theorem fractionText_eq {nano : Nat} (h : nano < 1000000000) (hne : nano ≠ 0) :
    codes (fractionText nano) = '.'.toNat :: trimmed (numeral 10 digitCode 3) (groups nano) := by
  obtain ⟨hsix, hnine⟩ := padded_groups h
  rw [fractionText, if_neg hne, groups]
  by_cases hmilli : nano % 1000000 = 0
  · have hsecond : nano / 1000 % 1000 = 0 := by omega
    have hthird : nano % 1000 = 0 := by omega
    have hfirst : nano / 1000000 ≠ 0 := by omega
    rw [if_pos hmilli, hsecond, hthird, trimmed, if_neg (by simp [hfirst]), trimmed,
      if_pos (by simp), List.append_nil, ← codes_padded]
    rfl
  rw [if_neg hmilli]
  by_cases hmicro : nano % 1000 = 0
  · have hsecond : nano / 1000 % 1000 ≠ 0 := by omega
    rw [if_pos hmicro, hmicro, hsix, trimmed, if_neg (by simp [hsecond]), trimmed,
      if_neg (by simp [hsecond]), trimmed, if_pos (by simp), List.append_nil, ← codes_padded,
      ← codes_padded]
    show '.'.toNat :: codes (_ ++ _) = _
    rw [codes, List.map_append]
    rfl
  · rw [if_neg hmicro, hnine, hsix, trimmed, if_neg (by simp [hmicro]), trimmed,
      if_neg (by simp [hmicro]), trimmed, if_neg (by simp [hmicro]), trimmed, List.append_nil,
      ← codes_padded, ← codes_padded, ← codes_padded, ← List.append_assoc]
    show '.'.toNat :: codes (_ ++ _ ++ _) = _
    rw [codes, List.map_append, List.map_append]
    rfl

theorem fractionText_lt {n m : Nat} (hn : n < 1000000000) (hm : m < 1000000000) (s : List Nat) :
    codes (fractionText n) ++ '+'.toNat :: s < codes (fractionText m) ++ '+'.toNat :: s ↔
      n < m := by
  by_cases hzn : n = 0 <;> by_cases hzm : m = 0
  · rw [hzn, hzm]
    exact iff_of_false (lt_irrefl _) (lt_irrefl _)
  · rw [fractionText_eq hm hzm, hzn]
    exact iff_of_true (List.cons_lt_cons_iff.mpr (Or.inl (by decide))) (Nat.pos_of_ne_zero hzm)
  · rw [fractionText_eq hn hzn, hzm]
    refine iff_of_false ?_ (Nat.not_lt_zero n)
    show ¬ '.'.toNat :: _ < '+'.toNat :: s
    rw [List.cons_lt_cons_iff, not_or, not_and]
    exact ⟨by decide, fun heq => absurd heq (by decide)⟩
  · have hstop : ∀ i < 10, '+'.toNat < digitCode i := by decide
    have hgroups : ∀ k < 1000000000, ∀ g ∈ groups k, g < 10 ^ 3 := by
      intro k hk g hg
      simp only [groups, List.mem_cons, List.not_mem_nil, or_false] at hg
      omega
    have htrimmed := trimmed_append_lt orderedDigits (show 0 < 3 by decide) hstop s
      (show (groups n).length = (groups m).length from rfl) (hgroups n hn) (hgroups m hm)
    rw [fractionText_eq hn hzn, fractionText_eq hm hzm, List.cons_append, List.cons_append,
      List.cons_lt_cons_iff, htrimmed, groups_lt_iff]
    omega

/-! ## The order of dates and times -/

/-- The days of a year. -/
def yearLength (year : Int) : Int := if isLeap year then 366 else 365

theorem daysBeforeYear_succ (year : Int) :
    daysBeforeYear (year + 1) = daysBeforeYear year + yearLength year := by
  have hleap : isLeap year = true ↔ year % 4 = 0 ∧ (year % 100 ≠ 0 ∨ year % 400 = 0) :=
    decide_eq_true_iff
  rw [daysBeforeYear, daysBeforeYear, yearLength]
  split <;> rename_i h <;> rw [hleap] at h <;> omega

theorem daysBeforeYear_le {year year' : Int} (h : year < year') :
    daysBeforeYear year + yearLength year ≤ daysBeforeYear year' := by
  rw [← daysBeforeYear_succ]
  induction year', Int.add_one_le_iff.mpr h using Int.leInduction with
  | base => exact Int.le_refl _
  | succ later hlater ih =>
    have hlength : 0 ≤ yearLength later := by
      rw [yearLength]
      split <;> omega
    have hstep := daysBeforeYear_succ later
    have := ih hlater
    omega

theorem daysBeforeMonth_succ (leap : Bool) {month : Nat} (h : 1 ≤ month) :
    daysBeforeMonth leap (month + 1) = daysBeforeMonth leap month + daysIn leap month := by
  obtain ⟨before, rfl⟩ := Nat.exists_eq_add_of_le' h
  rfl

theorem daysBeforeMonth_le (leap : Bool) {month month' : Nat} (hpos : 1 ≤ month)
    (h : month < month') :
    daysBeforeMonth leap month + daysIn leap month ≤ daysBeforeMonth leap month' := by
  rw [← daysBeforeMonth_succ leap hpos]
  induction month', h using Nat.le_induction with
  | base => exact Nat.le_refl _
  | succ later hlater ih =>
    have hstep := daysBeforeMonth_succ leap (show 1 ≤ later by omega)
    omega

/-- A month and a day lie inside the year. -/
theorem dayOfYear_le (t : Timestamp) :
    daysBeforeMonth (isLeap t.year) t.month + t.day ≤ yearLength t.year := by
  have htotal : ∀ leap, daysBeforeMonth leap 13 = if leap then 366 else 365 := by decide
  have hlength : (daysBeforeMonth (isLeap t.year) 13 : Int) = yearLength t.year := by
    rw [htotal, yearLength]
    split <;> rfl
  have hmonth := daysBeforeMonth_le (isLeap t.year) t.month_pos
    (show t.month < 13 from Nat.lt_succ_of_le t.month_le)
  have hday := t.day_le
  omega

namespace Timestamp

theorem days_lt_of_year {t u : Timestamp} (h : t.year < u.year) : t.days < u.days := by
  have hyear := daysBeforeYear_le h
  have hday := dayOfYear_le t
  have hpos := u.day_pos
  rw [days, days]
  omega

theorem days_lt_of_month {t u : Timestamp} (hyear : t.year = u.year) (h : t.month < u.month) :
    t.days < u.days := by
  have hmonth := daysBeforeMonth_le (isLeap t.year) t.month_pos h
  have hday := t.day_le
  have hpos := u.day_pos
  rw [days, days, ← hyear]
  omega

/-- The number of the day keeps the order of the dates. -/
theorem days_lt_iff (t u : Timestamp) :
    t.days < u.days ↔ t.year < u.year ∨ t.year = u.year ∧
      (t.month < u.month ∨ t.month = u.month ∧ t.day < u.day) := by
  rcases Int.lt_trichotomy t.year u.year with hyear | hyear | hyear
  · exact iff_of_true (days_lt_of_year hyear) (Or.inl hyear)
  · rcases Nat.lt_trichotomy t.month u.month with hmonth | hmonth | hmonth
    · exact iff_of_true (days_lt_of_month hyear hmonth) (Or.inr ⟨hyear, Or.inl hmonth⟩)
    · rw [days, days, hyear, hmonth]
      omega
    · have hlt := days_lt_of_month hyear.symm hmonth
      omega
  · have hlt := days_lt_of_year hyear
    omega

theorem days_eq_iff (t u : Timestamp) :
    t.days = u.days ↔ t.year = u.year ∧ t.month = u.month ∧ t.day = u.day := by
  have htu := days_lt_iff t u
  have hut := days_lt_iff u t
  constructor
  · intro heq
    rw [heq] at htu hut
    omega
  · rintro ⟨hyear, hmonth, hday⟩
    rw [days, days, hyear, hmonth, hday]

theorem time_lt_iff (t u : Timestamp) :
    (t.secs < u.secs ∨ t.secs = u.secs ∧ t.nano < u.nano) ↔
      t.hour < u.hour ∨ t.hour = u.hour ∧ (t.minute < u.minute ∨ t.minute = u.minute ∧
        (t.shownSecond.1 < u.shownSecond.1 ∨
          t.shownSecond.1 = u.shownSecond.1 ∧ t.shownSecond.2 < u.shownSecond.2)) := by
  have := t.minute_lt
  have := u.minute_lt
  have := t.second_lt
  have := u.second_lt
  have := t.leap_second
  have := u.leap_second
  rw [secs, secs, shownSecond, shownSecond]
  split <;> split <;> omega

theorem instant_lt_iff (t u : Timestamp) :
    t.instant < u.instant ↔
      t.days < u.days ∨
        t.days = u.days ∧ (t.secs < u.secs ∨ t.secs = u.secs ∧ t.nano < u.nano) := by
  rw [instant, instant, Prod.Lex.toLex_lt_toLex, Prod.Lex.toLex_lt_toLex]

/-! ## The order of texts -/

theorem day_le_31 (t : Timestamp) : t.day ≤ 31 := by
  have hday := t.day_le
  have hmonth : ∀ leap, ∀ month < 13, daysIn leap month ≤ 31 := by decide
  exact hday.trans (hmonth _ _ (Nat.lt_succ_of_le t.month_le))

theorem shownSecond_lt (t : Timestamp) :
    t.shownSecond.1 < 100 ∧ t.shownSecond.2 < 1000000000 := by
  have := t.second_lt
  have := t.nano_lt
  rw [shownSecond]
  split <;> constructor <;> dsimp only <;> omega

theorem yearText_eq {t : Timestamp} (h : t.FourDigitYear) :
    yearText t.year = padded 4 t.year.toNat := if_pos h

theorem yearText_of_signed {t : Timestamp} (h : ¬t.FourDigitYear) :
    yearText t.year = (if t.year < 0 then '-' else '+') ::
      if t.year.natAbs ≤ 9999 then padded 4 t.year.natAbs else Nat.toDigits 10 t.year.natAbs :=
  if_neg h

/-- The bytes of two texts stand in the order of the instants. -/
theorem codes_rfc3339_lt_iff {t u : Timestamp} (ht : t.FourDigitYear) (hu : u.FourDigitYear) :
    codes t.rfc3339 < codes u.rfc3339 ↔ t.instant < u.instant := by
  obtain ⟨htlow, hthigh⟩ := ht
  obtain ⟨hulow, huhigh⟩ := hu
  have hyear := @padded_append_lt 4 t.year.toNat u.year.toNat (by omega) (by omega)
  have hmonth := @padded_append_lt 2 t.month u.month
    (t.month_le.trans_lt (by decide)) (u.month_le.trans_lt (by decide))
  have hday := @padded_append_lt 2 t.day u.day
    (t.day_le_31.trans_lt (by decide)) (u.day_le_31.trans_lt (by decide))
  have hhour := @padded_append_lt 2 t.hour u.hour
    (t.hour_lt.trans (by decide)) (u.hour_lt.trans (by decide))
  have hminute := @padded_append_lt 2 t.minute u.minute
    (t.minute_lt.trans (by decide)) (u.minute_lt.trans (by decide))
  have hsecond := @padded_append_lt 2 t.shownSecond.1 u.shownSecond.1
    t.shownSecond_lt.1 u.shownSecond_lt.1
  have hfraction := fractionText_lt t.shownSecond_lt.2 u.shownSecond_lt.2
    (codes ['0', '0', ':', '0', '0'])
  have hyears : t.year.toNat < u.year.toNat ↔ t.year < u.year := by omega
  have hyears' : t.year.toNat = u.year.toNat ↔ t.year = u.year := by omega
  rw [instant_lt_iff, time_lt_iff, days_lt_iff, days_eq_iff, rfc3339, rfc3339,
    yearText_eq ⟨htlow, hthigh⟩, yearText_eq ⟨hulow, huhigh⟩]
  simp only [codes_cons] at hfraction
  simp only [codes_append, codes_cons, hyear, hmonth, hday, hhour, hminute, hsecond, hfraction,
    List.cons_lt_cons_iff, lt_irrefl, false_or, true_and, hyears, hyears']
  -- A date is compared as a whole before the time of day.
  simp only [and_or_left, and_assoc, or_assoc]

theorem ascii_padded (width n : Nat) : ∀ c ∈ padded width n, c.toNat < 128 := by
  intro c hc
  obtain ⟨i, rfl, -⟩ := of_mem_numeral hc
  exact digitChar_lt i

theorem ascii_fractionText (nano : Nat) : ∀ c ∈ fractionText nano, c.toNat < 128 := by
  unfold fractionText
  split
  · exact fun c hc => absurd hc List.not_mem_nil
  · split
    · exact List.forall_mem_cons.mpr ⟨by decide, ascii_padded _ _⟩
    · split <;> exact List.forall_mem_cons.mpr ⟨by decide, ascii_padded _ _⟩

theorem ascii_rfc3339 {t : Timestamp} (h : t.FourDigitYear) :
    ∀ c ∈ t.rfc3339, c.toNat < 128 := by
  rw [rfc3339, yearText_eq h]
  simp only [List.forall_mem_append, List.forall_mem_cons]
  exact ⟨ascii_padded _ _, by decide, ascii_padded _ _, by decide, ascii_padded _ _, by decide,
    ascii_padded _ _, by decide, ascii_padded _ _, by decide, ascii_padded _ _,
    ascii_fractionText _, by simp⟩

/-- The database compares two stored texts as the instants compare. -/
theorem textBytes_lt_iff {t u : Timestamp} (ht : t.FourDigitYear) (hu : u.FourDigitYear) :
    textBytes t.toRfc3339 < textBytes u.toRfc3339 ↔ t.instant < u.instant := by
  rw [toRfc3339, toRfc3339, textBytes_ofList (ascii_rfc3339 ht),
    textBytes_ofList (ascii_rfc3339 hu), codes_rfc3339_lt_iff ht hu]

/-- The text begins with the digits of the year. -/
theorem isDigit_of_mem_take {t : Timestamp} (h : t.FourDigitYear) :
    ∀ c ∈ t.toRfc3339.toList.take 4, c.isDigit = true := by
  intro c hc
  have hyear : t.year.toNat < 10 ^ 4 := by
    have := h.2
    omega
  have hlength : (padded 4 t.year.toNat).length = 4 := length_numeral _ _ _ _
  rw [toRfc3339, String.toList_ofList, rfc3339, yearText_eq h, List.take_left' hlength] at hc
  obtain ⟨i, rfl, hi⟩ := of_mem_numeral hc
  rw [Nat.isDigit_digitChar]
  exact decide_eq_true (hi hyear)

/-- A sign stands before every digit. -/
theorem textBytes_lt_of_signed {t u : Timestamp} (ht : ¬t.FourDigitYear) (hu : u.FourDigitYear) :
    textBytes t.toRfc3339 < textBytes u.toRfc3339 := by
  have hsigned : ∃ rest, t.rfc3339 = (if t.year < 0 then '-' else '+') :: rest := by
    rw [rfc3339, yearText_of_signed ht, List.cons_append]
    exact ⟨_, rfl⟩
  obtain ⟨rest, hrest⟩ := hsigned
  cases hdigits : u.rfc3339 with
  | nil => exact absurd hdigits (by simp [rfc3339])
  | cons digit others =>
    have hdigit : digit.isDigit = true := by
      apply u.isDigit_of_mem_take hu
      rw [toRfc3339, String.toList_ofList, hdigits]
      exact List.mem_cons_self
    have hzero : 48 ≤ digit.toNat := (Char.isDigit_iff_toNat.mp hdigit).1
    have hascii : digit.toNat < 128 := ascii_rfc3339 hu digit (hdigits ▸ List.mem_cons_self)
    rw [toRfc3339, toRfc3339, hrest, hdigits, textBytes_cons (by split <;> decide),
      textBytes_cons hascii, List.cons_lt_cons_iff]
    left
    split
    · exact lt_of_lt_of_le (by decide) hzero
    · exact lt_of_lt_of_le (by decide) hzero

theorem instant_injective : Function.Injective instant := by
  intro t u heq
  have hdays : t.days = u.days := congrArg (fun i => (ofLex i).1) heq
  have hsecs : t.secs = u.secs := congrArg (fun i => (ofLex (ofLex i).2).1) heq
  have hnano : t.nano = u.nano := congrArg (fun i => (ofLex (ofLex i).2).2) heq
  obtain ⟨hyear, hmonth, hday⟩ := (days_eq_iff t u).mp hdays
  have := t.minute_lt
  have := u.minute_lt
  have := t.second_lt
  have := u.second_lt
  rw [secs, secs] at hsecs
  apply Timestamp.ext <;> omega

theorem eq_of_toRfc3339_eq {t u : Timestamp} (ht : t.FourDigitYear) (hu : u.FourDigitYear)
    (h : t.toRfc3339 = u.toRfc3339) : t = u := by
  apply instant_injective
  have htu := textBytes_lt_iff ht hu
  have hut := textBytes_lt_iff hu ht
  rw [h] at htu hut
  have hirrefl := lt_irrefl (textBytes u.toRfc3339)
  exact le_antisymm (not_lt.mp (hut.not.mp hirrefl)) (not_lt.mp (htu.not.mp hirrefl))

end Timestamp

end Xfiles.Store
