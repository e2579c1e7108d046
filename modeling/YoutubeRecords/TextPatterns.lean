import Mathlib.Data.List.Forall2

namespace YoutubeRecords.TextPatterns

/-- A group of a regular expression: alternatives, each a sequence of
character classes. -/
abbrev Group := List (List (Char → Bool))

def matchClasses : List (Char → Bool) → List Char → Option (List Char × List Char)
  | [], cs => some ([], cs)
  | p :: ps, c :: cs => if p c then (matchClasses ps cs).map (fun x => (c :: x.1, x.2)) else none
  | _ :: _, [] => none

def ways (g : Group) (cs : List Char) : List (List Char × List Char) := g.filterMap (matchClasses · cs)

/-- All matches of groups one after another, in the order in which a
backtracking matcher finds them. -/
def waysAll : List Group → List Char → List (List (List Char) × List Char)
  | [], cs => [([], cs)]
  | g :: gs, cs => (ways g cs).flatMap (fun x => (waysAll gs x.2).map (fun y => (x.1 :: y.1, y.2)))

/-- The match that `re.match` reports. -/
def matchFirst (gs : List Group) (cs : List Char) : Option (List (List Char) × List Char) :=
  (waysAll gs cs).head?

def Fits (g : Group) (t : List Char) : Prop := ∃ ps ∈ g, List.Forall₂ (fun p c => p c = true) ps t

theorem matchClasses_eq_some {ps : List (Char → Bool)} {cs t rest : List Char} :
    matchClasses ps cs = some (t, rest) ↔ cs = t ++ rest ∧ List.Forall₂ (fun p c => p c = true) ps t := by
  induction ps generalizing cs t with
  | nil =>
    simp only [matchClasses, Option.some.injEq, Prod.mk.injEq, List.forall₂_nil_left_iff]
    constructor
    · rintro ⟨rfl, rfl⟩
      exact ⟨rfl, rfl⟩
    · rintro ⟨rfl, rfl⟩
      exact ⟨rfl, rfl⟩
  | cons p ps ih =>
    cases cs with
    | nil =>
      simp only [matchClasses, reduceCtorEq, List.nil_eq, List.append_eq_nil_iff, false_iff]
      rintro ⟨⟨rfl, rfl⟩, h⟩
      cases h
    | cons c cs =>
      by_cases hp : p c = true
      · simp only [matchClasses, hp, if_true, Option.map_eq_some_iff, Prod.exists, Prod.mk.injEq]
        constructor
        · rintro ⟨u, _, h, rfl, rfl⟩
          obtain ⟨rfl, hu⟩ := ih.mp h
          exact ⟨rfl, .cons hp hu⟩
        · rintro ⟨hcs, h⟩
          obtain ⟨d, u, hd, hu, rfl⟩ := List.forall₂_cons_left_iff.mp h
          obtain ⟨rfl, rfl⟩ := List.cons.inj hcs
          exact ⟨u, rest, ih.mpr ⟨rfl, hu⟩, rfl, rfl⟩
      · simp only [matchClasses, hp, if_false, reduceCtorEq, false_iff, Bool.false_eq_true]
        rintro ⟨hcs, h⟩
        obtain ⟨d, u, hd, hu, rfl⟩ := List.forall₂_cons_left_iff.mp h
        obtain ⟨rfl, rfl⟩ := List.cons.inj hcs
        exact hp hd

theorem mem_ways {g : Group} {cs t rest : List Char} : (t, rest) ∈ ways g cs ↔ cs = t ++ rest ∧ Fits g t := by
  simp only [ways, List.mem_filterMap, matchClasses_eq_some, Fits]
  constructor
  · rintro ⟨ps, hps, rfl, h⟩
    exact ⟨rfl, ps, hps, h⟩
  · rintro ⟨rfl, ps, hps, h⟩
    exact ⟨ps, hps, rfl, h⟩

/-- Each match cuts the text into parts that fit the groups. -/
theorem fits_of_mem_waysAll {gs : List Group} {cs rest : List Char} {ts : List (List Char)}
    (h : (ts, rest) ∈ waysAll gs cs) : cs = ts.flatten ++ rest ∧ List.Forall₂ Fits gs ts := by
  induction gs generalizing cs ts with
  | nil =>
    obtain ⟨rfl, rfl⟩ := Prod.mk.inj (List.mem_singleton.mp h)
    exact ⟨rfl, .nil⟩
  | cons g gs ih =>
    obtain ⟨⟨t, cs'⟩, ht, h⟩ := List.mem_flatMap.mp h
    obtain ⟨⟨us, rest'⟩, hu, he⟩ := List.mem_map.mp h
    obtain ⟨rfl, rfl⟩ := Prod.mk.inj he
    obtain ⟨rfl, hg⟩ := mem_ways.mp ht
    obtain ⟨rfl, hgs⟩ := ih hu
    exact ⟨by simp, .cons hg hgs⟩

/-- A first way that goes on to the end is the one that is reported. -/
theorem matchFirst_cons {g : Group} {gs : List Group} {cs t cs' rest : List Char} {ts : List (List Char)}
    (hw : (ways g cs).head? = some (t, cs')) (h : matchFirst gs cs' = some (ts, rest)) :
    matchFirst (g :: gs) cs = some (t :: ts, rest) := by
  obtain ⟨l, hl⟩ := List.head?_eq_some_iff.mp hw
  obtain ⟨m, hm⟩ := List.head?_eq_some_iff.mp h
  simp [matchFirst, waysAll, hl, hm]

end YoutubeRecords.TextPatterns
