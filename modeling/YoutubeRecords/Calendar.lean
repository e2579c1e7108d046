import YoutubeRecords.PublishedStamps

namespace YoutubeRecords.Calendar

open VideoStore PublishedStamps

theorem daysInMonth_pos (year month : Nat) : 1 ≤ daysInMonth year month := by
  unfold daysInMonth
  split
  · split <;> omega
  · split <;> omega

def previous (d : Date) : Option Date :=
  if hd : 1 < d.day then
    some ⟨d.year, d.month, d.day - 1, by have h := d.valid; omega⟩
  else if hm : 1 < d.month then
    some ⟨d.year, d.month - 1, daysInMonth d.year (d.month - 1), by
      have h := d.valid
      have hp := daysInMonth_pos d.year (d.month - 1)
      omega⟩
  else if hy : 1 < d.year then
    some ⟨d.year - 1, 12, 31, by
      have h := d.valid
      refine ⟨by omega, by omega, by omega, by omega, by omega, ?_⟩
      rfl⟩
  else none

/-- `d - timedelta(days=n)`, with `none` for an `OverflowError`. -/
def minusDays : Nat → Date → Option Date
  | 0, d => some d
  | n + 1, d => (previous d).bind (minusDays n)

def daysBeforeYear (year : Nat) : Nat :=
  (year - 1) * 365 + (year - 1) / 4 - (year - 1) / 100 + (year - 1) / 400

def daysBeforeMonth (year : Nat) : Nat → Nat
  | 0 => 0
  | 1 => 0
  | month + 2 => daysBeforeMonth year (month + 1) + daysInMonth year (month + 1)

/-- `date.toordinal()`: the first of January of year 1 is day 1. -/
def toordinal (d : Date) : Nat := daysBeforeYear d.year + daysBeforeMonth d.year d.month + d.day

theorem daysBeforeMonth_succ (year : Nat) {month : Nat} (h : 1 ≤ month) :
    daysBeforeMonth year (month + 1) = daysBeforeMonth year month + daysInMonth year month := by
  obtain ⟨m, rfl⟩ := Nat.exists_eq_add_of_le' h
  rfl

def yearLength (year : Nat) : Nat := if isLeap year then 366 else 365

theorem daysBeforeMonth_thirteen (year : Nat) : daysBeforeMonth year 13 = yearLength year := by
  simp only [daysBeforeMonth, yearLength, daysInMonth]
  cases isLeap year <;> rfl

theorem succ_div_eq (n k : Nat) : (n + 1) / k = n / k + if (n + 1) % k = 0 then 1 else 0 := by
  rw [Nat.succ_div]
  simp only [Nat.dvd_iff_mod_eq_zero]

theorem daysBeforeYear_succ {year : Nat} (h : 1 ≤ year) :
    daysBeforeYear (year + 1) = daysBeforeYear year + yearLength year := by
  obtain ⟨n, rfl⟩ := Nat.exists_eq_add_of_le' h
  have hle : n / 100 ≤ n / 4 := Nat.div_le_div_left (by decide) (by decide)
  have h100 : (n + 1) % 100 = 0 → (n + 1) % 4 = 0 := by omega
  have h400 : (n + 1) % 400 = 0 → (n + 1) % 100 = 0 := by omega
  simp only [daysBeforeYear, Nat.add_sub_cancel, succ_div_eq n]
  simp only [yearLength, isLeap, decide_eq_true_eq]
  generalize n / 4 = a at *
  generalize n / 100 = b at *
  generalize n / 400 = c at *
  -- the three remainders decide the leap year and what the quotients gain
  by_cases h4 : (n + 1) % 4 = 0
  · by_cases hc : (n + 1) % 100 = 0
    · by_cases hq : (n + 1) % 400 = 0
      · simp only [h4, hc, hq, if_true, ne_eq, not_true_eq_false, or_true, and_true]
        omega
      · simp only [h4, hc, hq, if_true, if_false, ne_eq, not_true_eq_false, or_false, and_false]
        omega
    · have hq : ¬ (n + 1) % 400 = 0 := fun hq => hc (h400 hq)
      simp only [h4, hc, hq, if_true, if_false, ne_eq, not_false_eq_true, true_or, and_true]
      omega
  · have hc : ¬ (n + 1) % 100 = 0 := fun hc => h4 (h100 hc)
    have hq : ¬ (n + 1) % 400 = 0 := fun hq => hc (h400 hq)
    simp only [h4, hc, hq, if_false, false_and]
    omega

theorem toordinal_previous {d e : Date} (h : previous d = some e) : toordinal e + 1 = toordinal d := by
  have hv := d.valid
  unfold previous at h
  split at h
  · obtain rfl := Option.some.inj h
    simp only [toordinal]
    omega
  · next hd =>
    have hday : d.day = 1 := by omega
    split at h
    · next hm =>
      obtain rfl := Option.some.inj h
      have hs := daysBeforeMonth_succ d.year (show 1 ≤ d.month - 1 by omega)
      rw [Nat.sub_add_cancel (by omega)] at hs
      simp only [toordinal, hday, hs]
      omega
    · next hm =>
      have hmonth : d.month = 1 := by omega
      split at h
      · obtain rfl := Option.some.inj h
        have hs := daysBeforeYear_succ (show 1 ≤ d.year - 1 by omega)
        rw [Nat.sub_add_cancel (by omega), ← daysBeforeMonth_thirteen, daysBeforeMonth_succ _ (by omega)] at hs
        have hlast : daysInMonth (d.year - 1) 12 = 31 := rfl
        simp only [toordinal, hday, hmonth, hs, hlast, daysBeforeMonth]
        omega
      · cases h

theorem toordinal_pos (d : Date) : 1 ≤ toordinal d := by
  have h := d.valid
  unfold toordinal
  omega

theorem previous_eq_none {d : Date} (h : previous d = none) : toordinal d = 1 := by
  have hv := d.valid
  unfold previous at h
  split at h
  · cases h
  · split at h
    · cases h
    · split at h
      · cases h
      · have hy : d.year = 1 := by omega
        have hm : d.month = 1 := by omega
        have hd : d.day = 1 := by omega
        simp only [toordinal, hy, hm, hd]
        rfl

theorem daysBeforeMonth_le (year : Nat) {m n : Nat} (hm : 1 ≤ m) (h : m < n) :
    daysBeforeMonth year m + daysInMonth year m ≤ daysBeforeMonth year n := by
  induction n with
  | zero => omega
  | succ n ih =>
    rw [daysBeforeMonth_succ year (by omega)]
    by_cases hn : m < n
    · exact (ih hn).trans (Nat.le_add_right _ _)
    · obtain rfl : m = n := by omega
      exact le_rfl

theorem daysBeforeYear_le {y z : Nat} (hy : 1 ≤ y) (h : y < z) :
    daysBeforeYear y + yearLength y ≤ daysBeforeYear z := by
  induction z with
  | zero => omega
  | succ z ih =>
    rw [daysBeforeYear_succ (by omega)]
    by_cases hz : y < z
    · exact (ih hz).trans (Nat.le_add_right _ _)
    · obtain rfl : y = z := by omega
      exact le_rfl

theorem dayOfYear_le (d : Date) : daysBeforeMonth d.year d.month + d.day ≤ yearLength d.year := by
  have h := d.valid
  have hb := daysBeforeMonth_le d.year (m := d.month) (n := 13) (by omega) (by omega)
  rw [daysBeforeMonth_thirteen] at hb
  omega

/-- Days are numbered in the order of dates. -/
theorem toordinal_lt {d e : Date} (h : d.ordinal < e.ordinal) : toordinal d < toordinal e := by
  have hd := d.valid
  have he := e.valid
  have hd' := day_le d
  have he' := day_le e
  unfold Date.ordinal at h
  unfold toordinal
  by_cases hy : d.year < e.year
  · have hle := daysBeforeYear_le (by omega) hy
    have hday := dayOfYear_le d
    omega
  · have hyear : d.year = e.year := by omega
    by_cases hm : d.month < e.month
    · have hle := daysBeforeMonth_le d.year (by omega) hm
      rw [← hyear]
      omega
    · have hmonth : d.month = e.month := by omega
      rw [← hyear, ← hmonth]
      omega

theorem ordinal_le_iff (d e : Date) : d.ordinal ≤ e.ordinal ↔ toordinal d ≤ toordinal e := by
  constructor
  · intro h
    obtain hlt | heq := Nat.lt_or_eq_of_le h
    · exact (toordinal_lt hlt).le
    · rw [ordinal_inj heq]
  · intro h
    by_contra hn
    exact absurd (toordinal_lt (Nat.lt_of_not_le hn)) (Nat.not_lt.mpr h)

theorem toordinal_minusDays {n : Nat} {d e : Date} (h : minusDays n d = some e) :
    toordinal e + n = toordinal d := by
  induction n generalizing d with
  | zero => rw [Option.some.inj h, Nat.add_zero]
  | succ n ih =>
    obtain ⟨c, hc, h⟩ := Option.bind_eq_some_iff.mp h
    have hp := toordinal_previous hc
    have hm := ih h
    omega

theorem minusDays_eq_none {n : Nat} {d : Date} (h : minusDays n d = none) : toordinal d ≤ n := by
  induction n generalizing d with
  | zero => cases h
  | succ n ih =>
    cases hp : previous d with
    | none =>
      have h1 := previous_eq_none hp
      omega
    | some c =>
      rw [minusDays, hp, Option.bind_some] at h
      have hc := toordinal_previous hp
      have hn := ih h
      omega

end YoutubeRecords.Calendar
