import YoutubeRecords.SessionPromises

namespace YoutubeRecords.TokenVerification

open ProgramPool PythonBasics AccountStore AccountViews SessionPromises

/-- Verification succeeds only for tokens that were made before, with the same
secret, and gives back their payload. -/
def Sound : History → Prop
  | [] => True
  | x :: h => Sound h ∧ ∀ token secret payload, x = ⟨.decode token secret, .ok payload⟩ →
      ∃ s, secret = some s ∧ ⟨.encode payload s, token⟩ ∈ h

/-- HS256 on the calls of a run: verification is sound, and it succeeds for
every token that was made, with the secret it was made with, until it expires. -/
structure Hs256 (env : Env) (h : History) : Prop where
  sound : Sound h
  complete : ∀ payload secret token, ⟨.encode payload secret, token⟩ ∈ h → token ≠ "" ∧
    ∀ now, now < payload.exp → env.decode now token (some secret) = .ok payload

theorem Sound.suffix {h h' : History} (hs : Sound h) (hh : h' <:+ h) : Sound h' := by
  induction h with
  | nil => rwa [List.suffix_nil.mp hh]
  | cons x h ih =>
    obtain rfl | hh := List.suffix_cons_iff.mp hh
    · exact hs
    · exact ih hs.1 hh

theorem Hs256.suffix {env : Env} {h h' : History} (hh : Hs256 env h) (hs : h' <:+ h) : Hs256 env h' :=
  ⟨hh.sound.suffix hs, fun payload secret token hm => hh.complete payload secret token (hs.subset hm)⟩

theorem Sound.of_mem {h : History} (hs : Sound h) {token : String} {secret : Option String} {payload : Payload}
    (hm : ⟨.decode token secret, .ok payload⟩ ∈ h) :
    ∃ s, secret = some s ∧ ⟨.encode payload s, token⟩ ∈ h := by
  induction h with
  | nil => cases hm
  | cons x h ih =>
    obtain hx | hm := List.mem_cons.mp hm
    · obtain ⟨s, hsec, he⟩ := hs.2 token secret payload hx.symm
      exact ⟨s, hsec, List.mem_cons_of_mem x he⟩
    · obtain ⟨s, hsec, he⟩ := ih hs.1 hm
      exact ⟨s, hsec, List.mem_cons_of_mem x he⟩

section Recorded

variable {tokens : List (Payload × String × String)} {digests : List (String × String)}

def Sound.check : History → Bool
  | [] => true
  | x :: h => Sound.check h && match x with
    | ⟨.decode token (some secret), .ok payload⟩ => h.any fun y => match y with
      | ⟨.encode payload' secret', token'⟩ => decide (payload' = payload ∧ secret' = secret ∧ token' = token)
      | _ => false
    | ⟨.decode _ none, .ok _⟩ => false
    | _ => true

theorem sound_of_check {h : History} (hc : Sound.check h = true) : Sound h := by
  induction h with
  | nil => trivial
  | cons x h ih =>
    simp only [Sound.check, Bool.and_eq_true] at hc
    refine ⟨ih hc.1, fun token secret payload hx => ?_⟩
    have hd := hc.2
    rw [hx] at hd
    cases secret with
    | none => cases hd
    | some s =>
      obtain ⟨y, hy, hm⟩ := List.any_eq_true.mp hd
      refine ⟨s, rfl, ?_⟩
      split at hm
      · obtain ⟨rfl, rfl, rfl⟩ := of_decide_eq_true hm
        exact hy
      · cases hm

def isRecorded (tokens : List (Payload × String × String)) : Call Cmd Answer → Bool
  | ⟨.encode payload secret, token⟩ => decide (token ≠ "") &&
      decide ((tokens.find? (fun r => decide (r.2.2 = token ∧ r.2.1 = secret))).map Prod.fst = some payload)
  | _ => true

theorem hs256_recorded {h : History} (hs : Sound.check h = true) (hr : h.all (isRecorded tokens) = true) :
    Hs256 (.recorded tokens digests) h := by
  refine ⟨sound_of_check hs, fun payload secret token hm => ?_⟩
  have hx := List.all_eq_true.mp hr _ hm
  simp only [isRecorded, Bool.and_eq_true, decide_eq_true_eq] at hx
  refine ⟨hx.1, fun now hnow => ?_⟩
  obtain ⟨r, hf, rfl⟩ := Option.map_eq_some_iff.mp hx.2
  have hle : ¬ r.1.exp < now := by omega
  simp only [Env.recorded, hf, if_neg hle]

end Recorded

end YoutubeRecords.TokenVerification
