import YoutubeRecords.VideoIngestion

namespace YoutubeRecords.PublishedStamps

open PythonBasics VideoStore VideoIngestion

def twoDigits (n : Nat) : List Char := [Nat.digitChar (n / 10), Nat.digitChar (n % 10)]

def fourDigits (n : Nat) : List Char := twoDigits (n / 100) ++ twoDigits (n % 100)

structure Stamp where
  date : Date
  hour : Nat
  minute : Nat
  second : Nat
  valid : hour < 24 ∧ minute < 60 ∧ second < 60

def Stamp.time (x : Stamp) : Nat := x.hour * 3600 + x.minute * 60 + x.second

def Stamp.moment (x : Stamp) : Nat := x.date.ordinal * 86400 + x.time

/-- What stands behind the month: `DDThh:mm:ssZ`. -/
def Stamp.rest (x : Stamp) : List Char :=
  twoDigits x.date.day ++ 'T' :: (twoDigits x.hour ++ ':' :: (twoDigits x.minute ++ ':' ::
    (twoDigits x.second ++ ['Z'])))

/-- The text `YYYY-MM-DDThh:mm:ssZ`. -/
def Stamp.text (x : Stamp) : String :=
  String.ofList (fourDigits x.date.year ++ '-' :: (twoDigits x.date.month ++ '-' :: x.rest))

section Digits

variable {n : Nat}

theorem isDigit_twoDigits (h : n < 100) : ∀ c ∈ twoDigits n, c.isDigit = true := by
  intro c hc
  obtain rfl | rfl := List.mem_pair.mp hc
  · rw [Nat.isDigit_digitChar]
    exact decide_eq_true (by omega)
  · rw [Nat.isDigit_digitChar]
    exact decide_eq_true (by omega)

theorem isDigit_fourDigits (h : n < 10000) : ∀ c ∈ fourDigits n, c.isDigit = true := by
  intro c hc
  obtain hc | hc := List.mem_append.mp hc
  · exact isDigit_twoDigits (by omega) c hc
  · exact isDigit_twoDigits (by omega) c hc

theorem ofDigitChars_twoDigits (h : n < 100) (m : Nat) : Nat.ofDigitChars 10 (twoDigits n) m = 100 * m + n := by
  rw [twoDigits, Nat.ofDigitChars_cons_digitChar_of_lt_ten (by omega),
    Nat.ofDigitChars_cons_digitChar_of_lt_ten (by omega), Nat.ofDigitChars_nil]
  omega

theorem ofDigitChars_fourDigits (h : n < 10000) : Nat.ofDigitChars 10 (fourDigits n) 0 = n := by
  rw [fourDigits, Nat.ofDigitChars_append, ofDigitChars_twoDigits (by omega), ofDigitChars_twoDigits (by omega)]
  omega

theorem intOf_twoDigits (h : n < 100) : intOf (String.ofList (twoDigits n)) = .ok (n : Int) := by
  rw [intOf, int_of_isDigit (isDigit_twoDigits h) (by simp [twoDigits]), ofDigitChars_twoDigits h, Nat.mul_zero,
    Nat.zero_add]

theorem intOf_fourDigits (h : n < 10000) : intOf (String.ofList (fourDigits n)) = .ok (n : Int) := by
  rw [intOf, int_of_isDigit (isDigit_fourDigits h) (by simp [fourDigits, twoDigits]), ofDigitChars_fourDigits h]

theorem dash_not_mem {cs : List Char} (h : ∀ c ∈ cs, c.isDigit = true) : '-' ∉ cs :=
  fun hm => absurd (h '-' hm) (by decide)

theorem splitOn_dash {cs : List Char} (h : '-' ∉ cs) (rest : List Char) :
    (cs ++ '-' :: rest).splitOn '-' = cs :: rest.splitOn '-' := by
  have hs : cs.splitOn '-' = [cs] := List.splitOn_eq_singleton h
  rw [List.splitOn] at hs ⊢
  rw [List.splitOnP_append_cons _ _ (by simp), hs]
  rfl

end Digits

theorem day_le (d : Date) : d.day ≤ 31 := by
  have hm : daysInMonth d.year d.month ≤ 31 := by
    unfold daysInMonth
    split
    · split <;> omega
    · split <;> omega
  have hd := d.valid
  omega

theorem ordinal_inj {d e : Date} (h : d.ordinal = e.ordinal) : d = e := by
  have hd := d.valid
  have he := e.valid
  have hd' := day_le d
  have he' := day_le e
  obtain ⟨y, m, k, _⟩ := d
  obtain ⟨y', m', k', _⟩ := e
  simp only [Date.ordinal] at h hd he hd' he'
  obtain rfl : y = y' := by omega
  obtain rfl : m = m' := by omega
  obtain rfl : k = k' := by omega
  rfl

namespace Stamp

variable (x y : Stamp)

theorem day_lt : x.date.day < 100 := by
  have h := day_le x.date
  omega

theorem time_lt : x.time < 86400 := by
  have h := x.valid
  unfold time
  omega

variable {x y} in
theorem moment_lt (h : y.date.ordinal < x.date.ordinal) : y.moment < x.moment := by
  have hy := y.time_lt
  unfold moment
  omega

variable {x y} in
theorem moment_le_iff (h : x.date = y.date) : y.moment ≤ x.moment ↔ ¬ x.time < y.time := by
  unfold moment
  rw [h]
  omega

theorem dash_not_mem_rest : '-' ∉ x.rest := by
  obtain ⟨hh, hm, hs⟩ := x.valid
  have hday := dash_not_mem (isDigit_twoDigits x.day_lt)
  have hhour := dash_not_mem (isDigit_twoDigits (n := x.hour) (by omega))
  have hminute := dash_not_mem (isDigit_twoDigits (n := x.minute) (by omega))
  have hsecond := dash_not_mem (isDigit_twoDigits (n := x.second) (by omega))
  simp [rest, hday, hhour, hminute, hsecond]

theorem split_text : split '-' x.text = [String.ofList (fourDigits x.date.year),
    String.ofList (twoDigits x.date.month), String.ofList x.rest] := by
  have hd := x.date.valid
  have hyear := dash_not_mem (isDigit_fourDigits (n := x.date.year) (by omega))
  have hmonth := dash_not_mem (isDigit_twoDigits (n := x.date.month) (by omega))
  rw [split, text, String.toList_ofList, splitOn_dash hyear, splitOn_dash hmonth,
    List.splitOn_eq_singleton x.dash_not_mem_rest]
  rfl

theorem makeDate_date (d : Date) : makeDate d.year d.month d.day = .ok d := by
  have hd := d.valid
  have hday := day_le d
  have hfits : (fitsInt d.year && fitsInt d.month && fitsInt d.day) = true := by
    simp only [fitsInt, Bool.and_eq_true, decide_eq_true_eq]
    omega
  rw [makeDate, hfits]
  exact dif_pos d.valid

/-- The parse keeps the date of a stamp, and only the date. -/
theorem finalDate_text : finalDate (.value x.text) = .ok x.date := by
  have hd := x.date.valid
  have hyear := intOf_fourDigits (n := x.date.year) (by omega)
  have hmonth := intOf_twoDigits (n := x.date.month) (by omega)
  have hday := intOf_twoDigits x.day_lt
  have htake : (String.ofList x.rest).toList.take 2 = twoDigits x.date.day := by
    rw [String.toList_ofList]
    rfl
  simp only [finalDate, split_text, hyear, hmonth, htake, hday]
  exact makeDate_date x.date

end Stamp

end YoutubeRecords.PublishedStamps
