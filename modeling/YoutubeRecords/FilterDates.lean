import Mathlib.Tactic.IntervalCases
import YoutubeRecords.PublishedStamps
import YoutubeRecords.TextPatterns

namespace YoutubeRecords.FilterDates

open PythonBasics TextPatterns VideoStore VideoIngestion PublishedStamps

def between (a b c : Char) : Bool := decide (a.toNat ≤ c.toNat ∧ c.toNat ≤ b.toNat)

/-- The class `\d`, which has the decimal digits of every script. -/
def anyDigit (c : Char) : Bool := (digit c).isSome

/-- `\d\d\d\d`. -/
def yearGroup : Group := [[anyDigit, anyDigit, anyDigit, anyDigit]]

/-- `1[0-2]|0[1-9]|[1-9]`. -/
def monthGroup : Group := [[between '1' '1', between '0' '2'], [between '0' '0', between '1' '9'], [between '1' '9']]

/-- `3[0-1]|[1-2]\d|0[1-9]|[1-9]| [1-9]`. -/
def dayGroup : Group :=
  [[between '3' '3', between '0' '1'], [between '1' '2', anyDigit], [between '0' '0', between '1' '9'],
    [between '1' '9'], [between ' ' ' ', between '1' '9']]

def dashGroup : Group := [[between '-' '-']]

/-- `datetime.strptime(text, '%Y-%m-%d').date()`: the format is matched at the
front of the text, and nothing may be left. -/
def strptime (text : String) : Except Exn Date :=
  match matchFirst [yearGroup, dashGroup, monthGroup, dashGroup, dayGroup] text.toList with
  | some ([y, _, m, _, d], []) => do
    let y ← intOf (String.ofList y)
    let m ← intOf (String.ofList m)
    let d ← intOf (String.ofList d)
    makeDate y m d
  | _ => .error .valueError

def YearText (t : List Char) (n : Nat) : Prop :=
  ∃ a b c d, t.mapM digit = some [a, b, c, d] ∧ n = 1000 * a + 100 * b + 10 * c + d

def MonthText (t : List Char) (n : Nat) : Prop := t = twoDigits n ∨ (n < 10 ∧ t = [Nat.digitChar n])

/-- A day with a leading zero, a leading space or neither. The second digit of
a day from 10 to 29 may be of any script. -/
def DayText (t : List Char) (n : Nat) : Prop :=
  t = twoDigits n ∨ (n < 10 ∧ (t = [Nat.digitChar n] ∨ t = [' ', Nat.digitChar n])) ∨
    (10 ≤ n ∧ n < 30 ∧ ∃ c, digit c = some (n % 10) ∧ t = [Nat.digitChar (n / 10), c])

def Spells (text : String) (d : Date) : Prop :=
  ∃ y m k, text.toList = y ++ '-' :: (m ++ '-' :: k) ∧ YearText y d.year ∧ MonthText m d.month ∧
    DayText k d.day

section Digits

variable {c : Char} {n : Nat}

theorem zeros_disjoint_spaces : ∀ z ∈ zeros, ∀ s ∈ spaces, ¬ (z ≤ s ∧ s < z + 10) := by decide +kernel

theorem digit_eq_some {v : Nat} (h : digit c = some v) :
    ∃ z ∈ zeros, z ≤ c.toNat ∧ c.toNat < z + 10 ∧ v = c.toNat - z := by
  obtain ⟨z, hz, rfl⟩ := Option.map_eq_some_iff.mp h
  have hp := List.find?_some hz
  rw [decide_eq_true_eq] at hp
  exact ⟨z, List.mem_of_find?_eq_some hz, hp.1, hp.2, rfl⟩

theorem digit_lt {v : Nat} (h : digit c = some v) : v < 10 := by
  obtain ⟨z, -, h1, h2, rfl⟩ := digit_eq_some h
  omega

theorem isSpaceChar_of_digit {v : Nat} (h : digit c = some v) : isSpaceChar c = false := by
  obtain ⟨z, hz, h1, h2, -⟩ := digit_eq_some h
  exact decide_eq_false fun hs => zeros_disjoint_spaces z hz _ hs ⟨h1, h2⟩

theorem strip_of_digits {cs : List Char} (h : ∀ c ∈ cs, isSpaceChar c = false) : strip cs = cs := by
  have hs : ∀ ds : List Char, (∀ c ∈ ds, isSpaceChar c = false) → ds.dropWhile isSpaceChar = ds := by
    intro ds hds
    cases ds with
    | nil => rfl
    | cons d ds => exact List.dropWhile_cons_of_neg (by simp [hds d List.mem_cons_self])
  rw [strip, hs cs h, hs _ fun c hc => h c (List.mem_reverse.mp hc), List.reverse_reverse]

theorem mapM_eq_cons {cs : List Char} {v : Nat} {ds : List Nat} (h : cs.mapM digit = some (v :: ds)) :
    ∃ d cs', cs = d :: cs' ∧ digit d = some v ∧ cs'.mapM digit = some ds := by
  cases cs with
  | nil => cases h
  | cons d cs =>
    rw [List.mapM_cons] at h
    obtain ⟨w, hw, h⟩ := Option.bind_eq_some_iff.mp h
    obtain ⟨ws, hws, h⟩ := Option.bind_eq_some_iff.mp h
    obtain ⟨rfl, rfl⟩ := List.cons.inj (Option.some.inj h)
    exact ⟨d, cs, rfl, hw, hws⟩

theorem mapM_eq_nil {cs : List Char} (h : cs.mapM digit = some []) : cs = [] := by
  cases cs with
  | nil => rfl
  | cons d cs =>
    rw [List.mapM_cons] at h
    obtain ⟨w, hw, h⟩ := Option.bind_eq_some_iff.mp h
    obtain ⟨ws, hws, h⟩ := Option.bind_eq_some_iff.mp h
    cases h

theorem mem_of_mapM {cs : List Char} {ds : List Nat} (h : cs.mapM digit = some ds) :
    ∀ c ∈ cs, ∃ v, digit c = some v := by
  induction cs generalizing ds with
  | nil => simp
  | cons d cs ih =>
    rw [List.mapM_cons] at h
    obtain ⟨v, hv, h⟩ := Option.bind_eq_some_iff.mp h
    obtain ⟨vs, hvs, -⟩ := Option.bind_eq_some_iff.mp h
    exact List.forall_mem_cons.mpr ⟨⟨v, hv⟩, ih hvs⟩

/-- `int` reads the decimal digits of every script. -/
theorem int_of_digits {cs : List Char} {ds : List Nat} (h : cs.mapM digit = some ds) (hne : cs ≠ []) :
    int (String.ofList cs) = some ((ds.foldl (fun n d => 10 * n + d) 0 : Nat) : Int) := by
  have hm := mem_of_mapM h
  have hno : ∀ c, digit c = none → c ∉ cs := fun c hc hcs => by
    obtain ⟨v, hv⟩ := hm c hcs
    rw [hc] at hv
    cases hv
  have hu : '_' ∉ cs := hno '_' (by decide +kernel)
  have hf : cs.filter (fun c => c ≠ '_') = cs := by
    rw [List.filter_eq_self]
    intro c hc
    exact decide_eq_true fun he => hu (he ▸ hc)
  have hd : digits cs = some (ds.foldl (fun n d => 10 * n + d) 0) := by
    unfold digits
    rw [List.splitOn_eq_singleton hu, hf, h]
    simp [hne]
  have hs : strip cs = cs := strip_of_digits fun c hc => by
    obtain ⟨v, hv⟩ := hm c hc
    exact isSpaceChar_of_digit hv
  unfold int
  rw [String.toList_ofList, hs]
  split
  · exact absurd List.mem_cons_self (hno '-' (by decide +kernel))
  · exact absurd List.mem_cons_self (hno '+' (by decide +kernel))
  · rw [hd]
    rfl

theorem digitChar_of_between {i j : Nat} (hi : i < 10) (hj : j < 10)
    (h : between (Nat.digitChar i) (Nat.digitChar j) c = true) : ∃ n, i ≤ n ∧ n ≤ j ∧ c = Nat.digitChar n := by
  have hb := of_decide_eq_true h
  rw [Nat.toNat_digitChar_of_lt_ten hi, Nat.toNat_digitChar_of_lt_ten hj] at hb
  refine ⟨c.toNat - 48, by omega, by omega, ?_⟩
  apply Char.toNat_inj.mp
  rw [Nat.toNat_digitChar_of_lt_ten (by omega)]
  omega

theorem digit_digitChar (h : n < 10) : digit (Nat.digitChar n) = some n := by
  have hd := digit_of_isDigit (c := Nat.digitChar n) (by
    rw [Nat.isDigit_digitChar]
    exact decide_eq_true h)
  rw [Nat.toNat_digitChar_of_lt_ten h] at hd
  exact hd.trans (congrArg some (Nat.add_sub_cancel_left 48 n))

theorem intOf_digitChar (h : n < 10) : intOf (String.ofList [Nat.digitChar n]) = .ok (n : Int) := by
  have hd : ∀ c ∈ [Nat.digitChar n], c.isDigit = true := by
    intro c hc
    rw [List.mem_singleton.mp hc, Nat.isDigit_digitChar]
    exact decide_eq_true h
  rw [intOf, int_of_isDigit hd (by simp), Nat.ofDigitChars_cons_digitChar_of_lt_ten h, Nat.ofDigitChars_nil]
  simp

theorem intOf_space (cs : List Char) : intOf (String.ofList (' ' :: cs)) = intOf (String.ofList cs) := by
  have hs : strip (' ' :: cs) = strip cs := by
    rw [strip, List.dropWhile_cons_of_pos (by decide)]
    rfl
  rw [intOf, int, String.toList_ofList, hs, intOf, int, String.toList_ofList]

end Digits

section Groups

variable {t : List Char} {n : Nat}

theorem fits_cons {ps : List (Char → Bool)} {g : Group} :
    Fits (ps :: g) t ↔ List.Forall₂ (fun p c => p c = true) ps t ∨ Fits g t := by
  simp [Fits]

theorem not_fits_nil : ¬ Fits [] t := by
  simp [Fits]

theorem forall₂_one {p : Char → Bool} (h : List.Forall₂ (fun p c => p c = true) [p] t) :
    ∃ c, t = [c] ∧ p c = true := by
  obtain ⟨c, u, hc, hu, rfl⟩ := List.forall₂_cons_left_iff.mp h
  obtain rfl := List.forall₂_nil_left_iff.mp hu
  exact ⟨c, rfl, hc⟩

theorem forall₂_two {p q : Char → Bool} (h : List.Forall₂ (fun p c => p c = true) [p, q] t) :
    ∃ c d, t = [c, d] ∧ p c = true ∧ q d = true := by
  obtain ⟨c, u, hc, hu, rfl⟩ := List.forall₂_cons_left_iff.mp h
  obtain ⟨d, rfl, hd⟩ := forall₂_one hu
  exact ⟨c, d, rfl, hc, hd⟩

theorem twoDigits_eq {i j : Nat} (hj : j < 10) : [Nat.digitChar i, Nat.digitChar j] = twoDigits (10 * i + j) := by
  have h1 : (10 * i + j) / 10 = i := by omega
  have h2 : (10 * i + j) % 10 = j := by omega
  rw [twoDigits, h1, h2]

theorem dash_of_fits (h : Fits dashGroup t) : t = ['-'] := by
  obtain h | h := fits_cons.mp h
  · obtain ⟨c, rfl, hc⟩ := forall₂_one h
    have hb := of_decide_eq_true hc
    rw [Char.toNat_inj.mp (Nat.le_antisymm hb.2 hb.1)]
  · exact absurd h not_fits_nil

theorem intOf_year {a b c d : Nat} (h : t.mapM digit = some [a, b, c, d]) :
    intOf (String.ofList t) = .ok ((1000 * a + 100 * b + 10 * c + d : Nat) : Int) := by
  have hne : t ≠ [] := fun he => by
    rw [he] at h
    cases h
  have hv : [a, b, c, d].foldl (fun n d => 10 * n + d) 0 = 1000 * a + 100 * b + 10 * c + d := by
    simp only [List.foldl_cons, List.foldl_nil]
    omega
  rw [intOf, int_of_digits h hne, hv]

theorem year_of_fits (h : Fits yearGroup t) : ∃ n, YearText t n ∧ intOf (String.ofList t) = .ok (n : Int) := by
  obtain h | h := fits_cons.mp h
  · obtain ⟨a, u, ha, hu, rfl⟩ := List.forall₂_cons_left_iff.mp h
    obtain ⟨b, v, hb, hv, rfl⟩ := List.forall₂_cons_left_iff.mp hu
    obtain ⟨c, d, rfl, hc, hd⟩ := forall₂_two hv
    obtain ⟨a', ha⟩ := Option.isSome_iff_exists.mp ha
    obtain ⟨b', hb⟩ := Option.isSome_iff_exists.mp hb
    obtain ⟨c', hc⟩ := Option.isSome_iff_exists.mp hc
    obtain ⟨d', hd⟩ := Option.isSome_iff_exists.mp hd
    have hm : [a, b, c, d].mapM digit = some [a', b', c', d'] := by
      simp [List.mapM_cons, ha, hb, hc, hd]
    exact ⟨_, ⟨a', b', c', d', hm, rfl⟩, intOf_year hm⟩
  · exact absurd h not_fits_nil

theorem month_of_fits (h : Fits monthGroup t) : ∃ n, MonthText t n ∧ intOf (String.ofList t) = .ok (n : Int) := by
  obtain h | h := fits_cons.mp h
  · obtain ⟨c, d, rfl, hc, hd⟩ := forall₂_two h
    obtain ⟨i, h1, h2, rfl⟩ := digitChar_of_between (i := 1) (j := 1) (by decide) (by decide) hc
    obtain ⟨j, -, hj, rfl⟩ := digitChar_of_between (i := 0) (j := 2) (by decide) (by decide) hd
    rw [twoDigits_eq (by omega)]
    exact ⟨10 * i + j, .inl rfl, intOf_twoDigits (by omega)⟩
  obtain h | h := fits_cons.mp h
  · obtain ⟨c, d, rfl, hc, hd⟩ := forall₂_two h
    obtain ⟨i, h1, h2, rfl⟩ := digitChar_of_between (i := 0) (j := 0) (by decide) (by decide) hc
    obtain ⟨j, -, hj, rfl⟩ := digitChar_of_between (i := 1) (j := 9) (by decide) (by decide) hd
    rw [twoDigits_eq (by omega)]
    exact ⟨10 * i + j, .inl rfl, intOf_twoDigits (by omega)⟩
  obtain h | h := fits_cons.mp h
  · obtain ⟨c, rfl, hc⟩ := forall₂_one h
    obtain ⟨j, -, hj, rfl⟩ := digitChar_of_between (i := 1) (j := 9) (by decide) (by decide) hc
    exact ⟨j, .inr ⟨by omega, rfl⟩, intOf_digitChar (by omega)⟩
  · exact absurd h not_fits_nil

theorem day_of_fits (h : Fits dayGroup t) : ∃ n, DayText t n ∧ intOf (String.ofList t) = .ok (n : Int) := by
  obtain h | h := fits_cons.mp h
  · obtain ⟨c, d, rfl, hc, hd⟩ := forall₂_two h
    obtain ⟨i, h1, h2, rfl⟩ := digitChar_of_between (i := 3) (j := 3) (by decide) (by decide) hc
    obtain ⟨j, -, hj, rfl⟩ := digitChar_of_between (i := 0) (j := 1) (by decide) (by decide) hd
    rw [twoDigits_eq (by omega)]
    exact ⟨10 * i + j, .inl rfl, intOf_twoDigits (by omega)⟩
  obtain h | h := fits_cons.mp h
  · obtain ⟨c, d, rfl, hc, hd⟩ := forall₂_two h
    obtain ⟨i, h1, h2, rfl⟩ := digitChar_of_between (i := 1) (j := 2) (by decide) (by decide) hc
    obtain ⟨v, hv⟩ := Option.isSome_iff_exists.mp hd
    have hlt := digit_lt hv
    have hm : [Nat.digitChar i, d].mapM digit = some [i, v] := by
      simp [List.mapM_cons, digit_digitChar (n := i) (by omega), hv]
    refine ⟨10 * i + v, .inr (.inr ⟨by omega, by omega, d, ?_, ?_⟩), ?_⟩
    · rw [hv]
      congr 1
      omega
    · congr 2
      omega
    · rw [intOf, int_of_digits hm (by simp)]
      simp
  obtain h | h := fits_cons.mp h
  · obtain ⟨c, d, rfl, hc, hd⟩ := forall₂_two h
    obtain ⟨i, h1, h2, rfl⟩ := digitChar_of_between (i := 0) (j := 0) (by decide) (by decide) hc
    obtain ⟨j, -, hj, rfl⟩ := digitChar_of_between (i := 1) (j := 9) (by decide) (by decide) hd
    rw [twoDigits_eq (by omega)]
    exact ⟨10 * i + j, .inl rfl, intOf_twoDigits (by omega)⟩
  obtain h | h := fits_cons.mp h
  · obtain ⟨c, rfl, hc⟩ := forall₂_one h
    obtain ⟨j, -, hj, rfl⟩ := digitChar_of_between (i := 1) (j := 9) (by decide) (by decide) hc
    exact ⟨j, .inr (.inl ⟨by omega, .inl rfl⟩), intOf_digitChar (by omega)⟩
  obtain h | h := fits_cons.mp h
  · obtain ⟨c, d, rfl, hc, hd⟩ := forall₂_two h
    have hb := of_decide_eq_true hc
    obtain rfl : c = ' ' := Char.toNat_inj.mp (Nat.le_antisymm hb.2 hb.1)
    obtain ⟨j, -, hj, rfl⟩ := digitChar_of_between (i := 1) (j := 9) (by decide) (by decide) hd
    exact ⟨j, .inr (.inl ⟨by omega, .inr rfl⟩), (intOf_space _).trans (intOf_digitChar (by omega))⟩
  · exact absurd h not_fits_nil

/-- The first way to match a month in front of a dash takes all of it. -/
theorem head_ways_month (hm : MonthText t n) (h : 1 ≤ n ∧ n ≤ 12) (rest : List Char) :
    (ways monthGroup (t ++ '-' :: rest)).head? = some (t, '-' :: rest) := by
  obtain ⟨h1, h2⟩ := h
  obtain rfl | ⟨h10, rfl⟩ := hm
  · interval_cases n <;> rfl
  · interval_cases n <;> rfl

theorem head_ways_day (hd : DayText t n) (h : 1 ≤ n ∧ n ≤ 31) : (ways dayGroup t).head? = some (t, []) := by
  obtain ⟨h1, h2⟩ := h
  obtain rfl | ⟨h10, rfl | rfl⟩ | ⟨h10, h30, c, hc, rfl⟩ := hd
  · interval_cases n <;> rfl
  · interval_cases n <;> rfl
  · interval_cases n <;> rfl
  · have hn : n / 10 = 1 ∨ n / 10 = 2 := by omega
    have ha : anyDigit c = true := by rw [anyDigit, hc, Option.isSome_some]
    obtain hn | hn := hn
    · rw [hn]
      simp [ways, dayGroup, matchClasses, ha, show between '3' '3' (Nat.digitChar 1) = false from rfl,
        show between '1' '2' (Nat.digitChar 1) = true from rfl]
    · rw [hn]
      simp [ways, dayGroup, matchClasses, ha, show between '3' '3' (Nat.digitChar 2) = false from rfl,
        show between '1' '2' (Nat.digitChar 2) = true from rfl]

theorem head_ways_year (hy : YearText t n) (rest : List Char) :
    (ways yearGroup (t ++ rest)).head? = some (t, rest) := by
  obtain ⟨a, b, c, d, hm, -⟩ := hy
  obtain ⟨e, t, rfl, ha, hm⟩ := mapM_eq_cons hm
  obtain ⟨f, t, rfl, hb, hm⟩ := mapM_eq_cons hm
  obtain ⟨g, t, rfl, hc, hm⟩ := mapM_eq_cons hm
  obtain ⟨i, t, rfl, hd, hm⟩ := mapM_eq_cons hm
  obtain rfl := mapM_eq_nil hm
  simp [ways, yearGroup, matchClasses, anyDigit, ha, hb, hc, hd]

/-- What the first three groups and the dashes have read is what the text
spells, so nothing is left behind the day. -/
theorem matchFirst_spelled {y m k : List Char} {year month day : Nat} (hy : YearText y year)
    (hm : MonthText m month) (hmonth : 1 ≤ month ∧ month ≤ 12) (hk : DayText k day)
    (hday : 1 ≤ day ∧ day ≤ 31) :
    matchFirst [yearGroup, dashGroup, monthGroup, dashGroup, dayGroup] (y ++ '-' :: (m ++ '-' :: k)) =
      some ([y, ['-'], m, ['-'], k], []) := by
  apply matchFirst_cons (head_ways_year hy _)
  apply matchFirst_cons (show (ways dashGroup ('-' :: (m ++ '-' :: k))).head? = some (['-'], m ++ '-' :: k) from rfl)
  apply matchFirst_cons (head_ways_month hm hmonth _)
  apply matchFirst_cons (show (ways dashGroup ('-' :: k)).head? = some (['-'], k) from rfl)
  apply matchFirst_cons (head_ways_day hk hday)
  rfl

theorem intOf_month (hm : MonthText t n) (h : n ≤ 12) : intOf (String.ofList t) = .ok (n : Int) := by
  obtain rfl | ⟨h10, rfl⟩ := hm
  · exact intOf_twoDigits (by omega)
  · exact intOf_digitChar h10

theorem intOf_day (hd : DayText t n) (h : n ≤ 31) : intOf (String.ofList t) = .ok (n : Int) := by
  obtain rfl | ⟨h10, rfl | rfl⟩ | ⟨h10, h30, c, hc, rfl⟩ := hd
  · exact intOf_twoDigits (by omega)
  · exact intOf_digitChar h10
  · exact (intOf_space _).trans (intOf_digitChar h10)
  · have hm : [Nat.digitChar (n / 10), c].mapM digit = some [n / 10, n % 10] := by
      simp [List.mapM_cons, digit_digitChar (n := n / 10) (by omega), hc]
    have hv : [n / 10, n % 10].foldl (fun n d => 10 * n + d) 0 = n := by
      simp only [List.foldl_cons, List.foldl_nil]
      omega
    rw [intOf, int_of_digits hm (by simp), hv]

end Groups

theorem makeDate_eq_ok {y m k : Nat} {d : Date} (h : makeDate y m k = .ok d) :
    d.year = y ∧ d.month = m ∧ d.day = k := by
  unfold makeDate at h
  split at h
  · cases h
  · split at h
    · obtain rfl := Except.ok.inj h
      exact ⟨rfl, rfl, rfl⟩
    · cases h

theorem spells_of_strptime {text : String} {d : Date} (h : strptime text = .ok d) : Spells text d := by
  unfold strptime at h
  split at h
  · next y a m b k hf =>
    obtain ⟨l, hl⟩ := List.head?_eq_some_iff.mp hf
    obtain ⟨htext, hfits⟩ := fits_of_mem_waysAll (hl ▸ List.mem_cons_self)
    obtain ⟨hy, hfits⟩ := List.forall₂_cons.mp hfits
    obtain ⟨ha, hfits⟩ := List.forall₂_cons.mp hfits
    obtain ⟨hm, hfits⟩ := List.forall₂_cons.mp hfits
    obtain ⟨hb, hfits⟩ := List.forall₂_cons.mp hfits
    obtain ⟨hk, -⟩ := List.forall₂_cons.mp hfits
    obtain ⟨year, hyear, hyi⟩ := year_of_fits hy
    obtain ⟨month, hmonth, hmi⟩ := month_of_fits hm
    obtain ⟨day, hday, hki⟩ := day_of_fits hk
    rw [hyi, hmi, hki] at h
    obtain ⟨rfl, rfl, rfl⟩ := makeDate_eq_ok h
    refine ⟨y, m, k, ?_, hyear, hmonth, hday⟩
    rw [htext, dash_of_fits ha, dash_of_fits hb]
    simp
  · cases h

theorem strptime_of_spells {text : String} {d : Date} (h : Spells text d) : strptime text = .ok d := by
  obtain ⟨y, m, k, htext, hy, hm, hk⟩ := h
  have hv := d.valid
  have hday := day_le d
  have hf := matchFirst_spelled hy hm ⟨hv.2.2.1, hv.2.2.2.1⟩ hk ⟨hv.2.2.2.2.1, hday⟩
  obtain ⟨a, b, c, e, hdigits, hyear⟩ := hy
  have hy' := intOf_year hdigits
  rw [← hyear] at hy'
  simp only [strptime, htext, hf, hy', intOf_month hm hv.2.2.2.1, intOf_day hk hday]
  exact Stamp.makeDate_date d

/-- A text is accepted exactly if it spells a date of the calendar. -/
theorem strptime_eq_ok {text : String} {d : Date} : strptime text = .ok d ↔ Spells text d :=
  ⟨spells_of_strptime, strptime_of_spells⟩

end YoutubeRecords.FilterDates
