import YoutubeRecords.SavedVideos

namespace YoutubeRecords.SavedPaging

open CommandProgram PythonBasics Documents OrderedDict VideoStore VideoIngestion SearchViews QueryUniqueness

def pageRequest (query user : String) (offset limit : Int) : SearchRequest :=
  ⟨some query, some user, some (toString offset), some (toString limit)⟩

def getPage (env : Env) (query user : String) (answer : Api × Nat) (s : Store) (offset limit : Int) :
    Except Exn SearchResponse × Store :=
  run (exec env) (searchingView.get answer.1 answer.2 (pageRequest query user offset limit)) s

/-- Follow the links from a page to the last one; `answers k` is for the
request number `k`. -/
def walk (env : Env) (query user : String) (answers : Nat → Api × Nat) :
    Nat → Nat → Store → Int → Int → Option (List PageVideo)
  | 0, _, _, _, _ => none
  | fuel + 1, k, s, offset, limit =>
    match getPage env query user (answers k) s offset limit with
    | (.ok (.page .noMoreVideos videos), _) => some videos
    | (.ok (.page (.next offset' limit') videos), t) =>
      (walk env query user answers fuel (k + 1) t offset' limit').map (fun pages => videos ++ pages)
    | _ => none

/-- The walk ends, its pages are the given videos from the newest to the
oldest, and no video comes twice. -/
def Lossless (env : Env) (answers : Nat → Api × Nat) (s : Store) (query user : String) (limit : Nat)
    (videos : List Video) : Prop :=
  ∃ fuel pages, walk env query user answers fuel 0 s 0 limit = some pages ∧
    pages = (videos.insertionSort newerFirst).map .saved ∧ pages.Nodup

def rows (s : Store) (query user : String) : List Video := (s.unwound query user).insertionSort newerFirst

section Pages

variable {env : Env} {s : Store} {query user : String} {answer : Api × Nat} {offset limit : Nat}

theorem get_pageRequest (api : Api) (now : Nat) (hq : query ≠ "") :
    searchingView.get api now (pageRequest query user offset limit) =
      searchVideos api now query user offset limit := by
  have hn : ¬ ((limit : Int) < 0 ∨ (offset : Int) < 0) := by omega
  simp only [searchingView.get, pageRequest, intOf, Option.getD_some, int_toString, if_neg hn,
    Option.filter_some, hq, ne_eq, not_false_eq_true, decide_true, if_true, Int.toNat_natCast]

theorem getPage_eq (hq : query ≠ "") : getPage env query user answer s offset limit =
    run (exec env) (answerPage answer.1 answer.2 query user offset limit
      (((rows s query user).drop offset).take (limit + 1))) s := by
  rw [getPage, get_pageRequest answer.1 answer.2 hq]
  rfl

theorem getPage_next (hq : query ≠ "") (h : offset + limit < (rows s query user).length) :
    getPage env query user answer s offset limit =
      (.ok (.page (.next (offset + limit) limit)
        ((((rows s query user).drop offset).take limit).map .saved)), s) := by
  rw [getPage_eq hq]
  have hl : (((rows s query user).drop offset).take (limit + 1)).length = limit + 1 := by
    rw [List.length_take, List.length_drop]
    omega
  have ht : (((rows s query user).drop offset).take (limit + 1)).take limit =
      ((rows s query user).drop offset).take limit := by
    rw [List.take_take, Nat.min_eq_left (Nat.le_succ limit)]
  generalize ((rows s query user).drop offset).take (limit + 1) = videos at hl ht
  have he : videos.isEmpty = false := by
    cases videos with
    | nil => simp at hl
    | cons => rfl
  simp only [answerPage, he, Bool.false_eq_true, if_false, hl, if_true, ht]
  rw [if_neg (by omega)]
  rfl

theorem getPage_last (hq : query ≠ "") (hl : 0 < limit) (h : offset + limit = (rows s query user).length) :
    getPage env query user answer s offset limit =
      (.ok (.page .noMoreVideos (((rows s query user).drop offset).map .saved)), s) := by
  rw [getPage_eq hq]
  have hd : ((rows s query user).drop offset).length = limit := by
    rw [List.length_drop]
    omega
  generalize (rows s query user).drop offset = videos at hd
  rw [List.take_of_length_le (by omega)]
  have he : videos.isEmpty = false := by
    cases videos with
    | nil => simp at hd; omega
    | cons => rfl
  simp only [answerPage, he, Bool.false_eq_true, if_false, hd]
  rw [if_neg (by omega), if_neg (by omega), List.take_of_length_le (by omega)]
  rfl

/-- A short page is replaced by the records of a new fetch. -/
theorem getPage_short (hq : query ≠ "") (hr : offset < (rows s query user).length)
    (h : (rows s query user).length < offset + limit) :
    (∃ e t, getPage env query user answer s offset limit = (.error e, t)) ∨
    ∃ (records : Dict Value) (t : Store), getPage env query user answer s offset limit =
      (.ok (.page .noMoreVideos (records.items.map (fun x => .fetched x.2))), t) := by
  rw [getPage_eq hq]
  have hd : ((rows s query user).drop offset).length < limit := by
    rw [List.length_drop]
    omega
  have he : ((rows s query user).drop offset).isEmpty = false := by
    rw [← Bool.not_eq_true, List.isEmpty_iff, List.drop_eq_nil_iff]
    omega
  generalize (rows s query user).drop offset = videos at hd he
  rw [List.take_of_length_le (by omega)]
  simp only [answerPage, he, Bool.false_eq_true, if_false, gt_iff_lt, hd, if_true]
  rw [if_neg (by omega)]
  obtain ⟨result, t, hf⟩ : ∃ result t,
      run (exec env) (fetchYoutubeData answer.1 user (.num limit 0) query answer.2) s = (result, t) := ⟨_, _, rfl⟩
  cases result with
  | error e => exact .inl ⟨e, t, run_bind_error _ hf⟩
  | ok records => exact .inr ⟨records, t, run_bind_ok _ hf⟩

theorem getPage_empty_query : getPage env "" user answer s offset limit =
    (.ok (.message 400 "error" "query not specified"), s) := by
  have hn : ¬ ((limit : Int) < 0 ∨ (offset : Int) < 0) := by omega
  have hg : searchingView.get answer.1 answer.2 (pageRequest "" user offset limit) =
      .ret (.message 400 "error" "query not specified") := by
    simp only [searchingView.get, pageRequest, intOf, Option.getD_some, int_toString, if_neg hn]
    rfl
  rw [getPage, hg]
  rfl

theorem map_saved_split : ((rows s query user).drop offset).map PageVideo.saved =
    (((rows s query user).drop offset).take limit).map .saved ++
      ((rows s query user).drop (offset + limit)).map .saved := by
  rw [← List.map_append, ← List.drop_drop, List.take_append_drop]

end Pages

section Walks

variable {env : Env} {s : Store} {query user : String} {answers : Nat → Api × Nat} {limit : Nat}

/-- Full pages to the end give all the rows that are left. -/
theorem walk_of_full (hq : query ≠ "") (hl : 0 < limit) (n k offset : Nat)
    (h : (rows s query user).length = offset + (n + 1) * limit) :
    walk env query user answers (n + 1) k s offset limit =
      some (((rows s query user).drop offset).map .saved) := by
  induction n generalizing k offset with
  | zero =>
    have hlast : offset + limit = (rows s query user).length := by omega
    rw [walk, getPage_last hq hl hlast]
  | succ n ih =>
    have hs : (n + 1 + 1) * limit = (n + 1) * limit + limit := Nat.succ_mul (n + 1) limit
    have hp : 0 < (n + 1) * limit := Nat.mul_pos (Nat.succ_pos n) hl
    have hnext : offset + limit < (rows s query user).length := by omega
    have hn := ih (k + 1) (offset + limit) (by omega)
    rw [Int.natCast_add] at hn
    rw [walk, getPage_next hq hnext]
    simp only [hn, Option.map_some]
    rw [← map_saved_split]

/-- A walk that gives the rows that are left has met no short page. -/
theorem dvd_of_walk (hq : query ≠ "") (fuel k offset : Nat) (hr : offset < (rows s query user).length)
    (h : walk env query user answers fuel k s offset limit =
      some (((rows s query user).drop offset).map .saved)) :
    limit ∣ (rows s query user).length - offset := by
  induction fuel generalizing k offset with
  | zero => cases h
  | succ fuel ih =>
    rw [walk] at h
    obtain hlt | heq | hgt := Nat.lt_trichotomy (offset + limit) (rows s query user).length
    · rw [getPage_next hq hlt] at h
      obtain ⟨pages, hp, happ⟩ := Option.map_eq_some_iff.mp h
      rw [map_saved_split] at happ
      obtain rfl := List.append_cancel_left happ
      rw [← Int.natCast_add] at hp
      obtain ⟨m, hm⟩ := ih (k + 1) (offset + limit) hlt hp
      exact ⟨m + 1, by rw [Nat.mul_succ]; omega⟩
    · exact ⟨1, by omega⟩
    · exfalso
      obtain ⟨e, t, hrun⟩ | ⟨records, t, hrun⟩ := getPage_short hq hr hgt
      · rw [hrun] at h
        cases h
      · rw [hrun] at h
        obtain ⟨v, hv⟩ : ∃ v, v ∈ (rows s query user).drop offset := by
          apply List.exists_mem_of_ne_nil
          rw [ne_eq, List.drop_eq_nil_iff]
          omega
        have hm : PageVideo.saved v ∈ records.items.map (fun x => PageVideo.fetched x.2) := by
          rw [Option.some.inj h]
          exact List.mem_map_of_mem hv
        obtain ⟨x, -, hx⟩ := List.mem_map.mp hm
        cases hx

theorem nodup_saved {videos : List Video} (h : (videos.map Video.video_id).Nodup) :
    ((videos.insertionSort newerFirst).map PageVideo.saved).Nodup := by
  have hv : videos.Nodup := List.Nodup.of_map _ h
  have hs : (videos.insertionSort newerFirst).Nodup := (List.perm_insertionSort newerFirst videos).nodup_iff.mpr hv
  exact hs.map fun a b hab => PageVideo.saved.inj hab

theorem rows_of_one {doc : QueryDoc} (hdoc : matching s.queryModel (isFor query user) = [doc]) :
    rows s query user = doc.videos.insertionSort newerFirst := by
  simp only [rows, Store.unwound, hdoc, List.flatMap_cons, List.flatMap_nil, List.append_nil]

theorem dvd_of_lossless {doc : QueryDoc} (hdoc : matching s.queryModel (isFor query user) = [doc])
    (hm : 1 ≤ doc.videos.length) (h : Lossless env answers s query user limit doc.videos) :
    query ≠ "" ∧ limit ∣ doc.videos.length := by
  obtain ⟨fuel, pages, hw, rfl, -⟩ := h
  have hq : query ≠ "" := by
    rintro rfl
    cases fuel with
    | zero => cases hw
    | succ fuel =>
      rw [walk, ← Int.natCast_zero, getPage_empty_query] at hw
      cases hw
  have hlen : (rows s query user).length = doc.videos.length := by
    rw [rows_of_one hdoc, List.length_insertionSort]
  have hpos : 0 < (rows s query user).length := by omega
  have hd := dvd_of_walk hq fuel 0 0 hpos (by rw [List.drop_zero, rows_of_one hdoc]; exact hw)
  rw [Nat.sub_zero, hlen] at hd
  exact ⟨hq, hd⟩

end Walks

theorem walk_lossless_iff (env : Env) (answers : Nat → Api × Nat) {s : Store} {query user : String}
    {doc : QueryDoc} {limit : Nat} (hdoc : matching s.queryModel (isFor query user) = [doc])
    (hm : 1 ≤ doc.videos.length) (hids : (doc.videos.map Video.video_id).Nodup) (hl : 1 ≤ limit) :
    Lossless env answers s query user limit doc.videos ↔ query ≠ "" ∧ limit ∣ doc.videos.length := by
  constructor
  · exact dvd_of_lossless hdoc hm
  · rintro ⟨hq, n, hn⟩
    cases n with
    | zero => omega
    | succ n =>
      have hfull : (rows s query user).length = 0 + (n + 1) * limit := by
        rw [rows_of_one hdoc, List.length_insertionSort, hn, Nat.mul_comm, Nat.zero_add]
      have hw : walk env query user answers (n + 1) 0 s 0 limit = _ := walk_of_full hq hl n 0 0 hfull
      rw [List.drop_zero, rows_of_one hdoc] at hw
      exact ⟨n + 1, _, hw, rfl, nodup_saved hids⟩

section ThreeVideos

def threeVideos : Api where
  search _ _ := .ok (some [⟨some "abcdefghijk", .value "2021-05-01T10:00:00Z", .value "part one", .null⟩,
    ⟨some "bcdefghijkl", .value "2021-05-02T10:00:00Z", .value "part two", .null⟩,
    ⟨some "cdefghijklm", .value "2021-05-03T10:00:00Z", .value "part three", .null⟩])
  videos _ := .ok (some [⟨some "abcdefghijk", .null⟩, ⟨some "bcdefghijkl", .null⟩, ⟨some "cdefghijklm", .null⟩])

def answers : Nat → Api × Nat := fun k => (threeVideos, k)

def afterThree : Store := (getPage acceptAll "celery videos" "user@example.com" (answers 0) Store.empty 0 5).2

def part (id title : String) (day : Nat) (h : 1 ≤ day ∧ day ≤ 31) : Video :=
  ⟨id, ⟨2021, 5, day, by decide, by decide, by decide, by decide, h.1, h.2⟩, title, "celery videos", noUrl⟩

def threeParts : QueryDoc :=
  ⟨"user@example.com", "celery videos", [part "abcdefghijk" "part one" 1 (by decide),
    part "bcdefghijkl" "part two" 2 (by decide), part "cdefghijklm" "part three" 3 (by decide)], 0⟩

theorem matching_afterThree :
    matching afterThree.queryModel (isFor "celery videos" "user@example.com") = [threeParts] := by
  decide +kernel

theorem three_videos_page_by_page :
    Lossless acceptAll answers afterThree "celery videos" "user@example.com" 1 threeParts.videos :=
  (walk_lossless_iff acceptAll answers matching_afterThree (by decide) (by decide) (by decide)).mpr
    ⟨by decide, by decide⟩

theorem short_page_refetched : ¬ ∀ (env : Env) (answers : Nat → Api × Nat) (s : Store) (query user : String)
    (doc : QueryDoc) (limit : Nat), matching s.queryModel (isFor query user) = [doc] →
    1 ≤ doc.videos.length → (doc.videos.map Video.video_id).Nodup → 1 ≤ limit →
    Lossless env answers s query user limit doc.videos := by
  intro hall
  have h := hall acceptAll answers afterThree "celery videos" "user@example.com" threeParts 2
    matching_afterThree (by decide) (by decide) (by decide)
  have hd := (dvd_of_lossless matching_afterThree (by decide) h).2
  exact absurd hd (by decide)

end ThreeVideos

end YoutubeRecords.SavedPaging
