import Mathlib.Data.List.Basic

namespace YoutubeRecords.PythonBasics

/-- The values a JSON request body can hold. A number is a decimal
`mantissa * 10 ^ (-exponent)`. -/
inductive Json where
  | null
  | bool (b : Bool)
  | num (mantissa : Int) (exponent : Nat)
  | str (s : String)
  | arr (items : List Json)
  | obj (fields : List (String × Json))

def Json.truthy : Json → Bool
  | .null => false
  | .bool b => b
  | .num m _ => decide (m ≠ 0)
  | .str s => decide (s ≠ "")
  | .arr items => !items.isEmpty
  | .obj fields => !fields.isEmpty

inductive JwtError where
  | expiredSignature
  | decodeError
  | typeError
  deriving DecidableEq

/-- The exceptions that end a request or a task. `drawsSpent` stands for a
loop that goes on drawing after the last draw of the recorded ones, `stopped`
for a worker or a connection that is gone. -/
inductive Exn where
  | authenticationFailed (detail : String)
  | jwt (e : JwtError)
  | typeError
  | attributeError
  | valueError
  | overflowError
  | indexError
  | nameError
  | keyError (key : String)
  | validationError
  | requestError
  | drawsSpent
  | stopped
  deriving DecidableEq

theorem bind_eq_ok {α β : Type} {x : Except Exn α} {f : α → Except Exn β} {b : β} :
    (x >>= f) = .ok b ↔ ∃ a, x = .ok a ∧ f a = .ok b := by
  cases x with
  | error e => simp [bind, Except.bind]
  | ok a => simp [bind, Except.bind]

theorem map_eq_ok {α β : Type} {x : Except Exn α} {f : α → β} {b : β} :
    x.map f = .ok b ↔ ∃ a, x = .ok a ∧ f a = b := by
  cases x with
  | error e => simp [Except.map]
  | ok a => simp [Except.map]

theorem isOk_map {α β : Type} (x : Except Exn α) (f : α → β) : (x.map f).isOk = x.isOk := by
  cases x with
  | error e => rfl
  | ok a => rfl

def spaces : List Nat :=
  [0x9, 0xa, 0xb, 0xc, 0xd, 0x1c, 0x1d, 0x1e, 0x1f, 0x20, 0x85, 0xa0, 0x1680, 0x2000, 0x2001, 0x2002,
    0x2003, 0x2004, 0x2005, 0x2006, 0x2007, 0x2008, 0x2009, 0x200a, 0x2028, 0x2029, 0x202f, 0x205f, 0x3000]

def isSpaceChar (c : Char) : Bool := decide (c.toNat ∈ spaces)

/-- `str.isspace`: not empty, and nothing but whitespace. -/
def isspace (s : String) : Bool := !s.toList.isEmpty && s.toList.all isSpaceChar

/-- `str.split` with a separator of one character. -/
def split (sep : Char) (s : String) : List String := (s.toList.splitOn sep).map String.ofList

/-- The zeros of the Unicode decimal digit blocks. -/
def zeros : List Nat :=
  [0x30, 0x660, 0x6f0, 0x7c0, 0x966, 0x9e6, 0xa66, 0xae6, 0xb66, 0xbe6, 0xc66, 0xce6, 0xd66, 0xde6,
    0xe50, 0xed0, 0xf20, 0x1040, 0x1090, 0x17e0, 0x1810, 0x1946, 0x19d0, 0x1a80, 0x1a90, 0x1b50,
    0x1bb0, 0x1c40, 0x1c50, 0xa620, 0xa8d0, 0xa900, 0xa9d0, 0xa9f0, 0xaa50, 0xabf0, 0xff10, 0x104a0,
    0x10d30, 0x11066, 0x110f0, 0x11136, 0x111d0, 0x112f0, 0x11450, 0x114d0, 0x11650, 0x116c0,
    0x11730, 0x118e0, 0x11950, 0x11c50, 0x11d50, 0x11da0, 0x16a60, 0x16ac0, 0x16b50, 0x1d7ce,
    0x1d7d8, 0x1d7e2, 0x1d7ec, 0x1d7f6, 0x1e140, 0x1e2f0, 0x1e950, 0x1fbf0]

def digit (c : Char) : Option Nat :=
  (zeros.find? (fun z => decide (z ≤ c.toNat ∧ c.toNat < z + 10))).map (fun z => c.toNat - z)

/-- Decimal digits, with single underscores allowed between them. -/
def digits (cs : List Char) : Option Nat :=
  if (cs.splitOn '_').all (fun g => !g.isEmpty) then
    ((cs.filter (fun c => c ≠ '_')).mapM digit).map (fun ds => ds.foldl (fun n d => 10 * n + d) 0)
  else none

def strip (cs : List Char) : List Char :=
  ((cs.dropWhile isSpaceChar).reverse.dropWhile isSpaceChar).reverse

/-- `int(s)`, with `none` for a `ValueError`. -/
def int (s : String) : Option Int :=
  match strip s.toList with
  | '-' :: cs => (digits cs).map (fun n => -(n : Int))
  | '+' :: cs => (digits cs).map (fun n => (n : Int))
  | cs => (digits cs).map (fun n => (n : Int))

example : int " 1_0 " = some 10 ∧ int "-7" = some (-7) ∧ int "1__0" = none ∧ int "" = none := by decide

theorem digit_of_isDigit {c : Char} (h : c.isDigit = true) : digit c = some (c.toNat - '0'.toNat) := by
  obtain ⟨h1, h2⟩ := Char.isDigit_iff_toNat.mp h
  have hz : (decide (0x30 ≤ c.toNat ∧ c.toNat < 0x30 + 10)) = true := decide_eq_true ⟨h1, Nat.lt_succ_of_le h2⟩
  have hf : zeros.find? (fun z => decide (z ≤ c.toNat ∧ c.toNat < z + 10)) = some 0x30 :=
    List.find?_cons_of_pos hz
  rw [digit, hf]
  rfl

theorem isSpaceChar_of_isDigit {c : Char} (h : c.isDigit = true) : isSpaceChar c = false := by
  obtain ⟨h1, h2⟩ := Char.isDigit_iff_toNat.mp h
  apply decide_eq_false
  simp only [spaces, List.mem_cons, List.not_mem_nil, or_false]
  change 48 ≤ c.toNat at h1
  change c.toNat ≤ 57 at h2
  omega

theorem strip_of_isDigit {cs : List Char} (h : ∀ c ∈ cs, c.isDigit = true) : strip cs = cs := by
  have hs : ∀ ds : List Char, (∀ c ∈ ds, c.isDigit = true) → ds.dropWhile isSpaceChar = ds := by
    intro ds hds
    cases ds with
    | nil => rfl
    | cons c ds =>
      exact List.dropWhile_cons_of_neg (by simp [isSpaceChar_of_isDigit (hds c List.mem_cons_self)])
  have hr : ∀ c ∈ cs.reverse, c.isDigit = true := fun c hc => h c (List.mem_reverse.mp hc)
  rw [strip, hs cs h, hs _ hr, List.reverse_reverse]

theorem mapM_digit {cs : List Char} (h : ∀ c ∈ cs, c.isDigit = true) :
    cs.mapM digit = some (cs.map (fun c => c.toNat - '0'.toNat)) := by
  induction cs with
  | nil => rfl
  | cons c cs ih =>
    rw [List.mapM_cons, digit_of_isDigit (h c List.mem_cons_self), ih fun d hd => h d (List.mem_cons_of_mem c hd)]
    rfl

theorem digits_of_isDigit {cs : List Char} (h : ∀ c ∈ cs, c.isDigit = true) (hne : cs ≠ []) :
    digits cs = some (Nat.ofDigitChars 10 cs 0) := by
  have hu : '_' ∉ cs := fun hm => absurd (h '_' hm) (by decide)
  have hf : cs.filter (fun c => c ≠ '_') = cs := by
    rw [List.filter_eq_self]
    intro c hc
    exact decide_eq_true fun he => hu (he ▸ hc)
  unfold digits
  rw [List.splitOn_eq_singleton hu, hf, mapM_digit h]
  simp only [List.all_cons, List.all_nil, Bool.and_true]
  rw [if_pos (by simp [hne])]
  simp only [Option.map_some, List.foldl_map]
  rw [← Nat.ofDigitChars_eq_foldl]

theorem int_of_isDigit {cs : List Char} (h : ∀ c ∈ cs, c.isDigit = true) (hne : cs ≠ []) :
    int (String.ofList cs) = some (Nat.ofDigitChars 10 cs 0 : Int) := by
  unfold int
  rw [String.toList_ofList, strip_of_isDigit h]
  split
  · exact absurd (h '-' List.mem_cons_self) (by decide)
  · exact absurd (h '+' List.mem_cons_self) (by decide)
  · rw [digits_of_isDigit h hne]
    rfl

theorem int_toString (n : Nat) : int (toString (n : Int)) = some (n : Int) := by
  have hd : ∀ c ∈ Nat.toDigits 10 n, c.isDigit = true := fun c hc =>
    Nat.isDigit_of_mem_toDigits (by decide) (by decide) hc
  have ht : toString (n : Int) = String.ofList (Nat.toDigits 10 n) := by
    rw [← String.toList_inj, String.toList_ofList]
    exact Nat.toList_repr
  rw [ht, int_of_isDigit hd Nat.toDigits_ne_nil, Nat.ofDigitChars_ten_toDigits]

end YoutubeRecords.PythonBasics
