import YoutubeRecords.KeyedList

namespace YoutubeRecords.OrderedDict

/-- A dictionary that remembers the order in which its keys came. -/
structure Dict (V : Type) where
  items : List (String × V)
  nodup : (items.map Prod.fst).Nodup

variable {V W : Type}

def empty : Dict V := ⟨[], by simp⟩

def keys (d : Dict V) : List String := d.items.map Prod.fst

def get (d : Dict V) (k : String) : Option V := (KeyedList.lookup Prod.fst k d.items).map Prod.snd

/-- `d[k] = v`: a key that is there keeps its place. -/
def set (d : Dict V) (k : String) (v : V) : Dict V :=
  ⟨KeyedList.upsert Prod.fst (k, v) d.items, KeyedList.nodup_upsert d.nodup⟩

def pop (d : Dict V) (k : String) : Dict V :=
  ⟨d.items.filter (fun x => decide (x.1 ≠ k)),
    List.Nodup.sublist (List.Sublist.map _ List.filter_sublist) d.nodup⟩

variable {d : Dict V} {k l : String} {v w : V}

theorem ext {d e : Dict V} (h : d.items = e.items) : d = e := by
  cases d
  cases e
  congr

theorem get_set_self : get (set d k v) k = some v := by
  have h := KeyedList.lookup_upsert_self Prod.fst (k, v) d.items
  rw [get, set, h, Option.map_some]

theorem get_set_of_ne (h : k ≠ l) : get (set d k v) l = get d l := by
  rw [get, get, set, KeyedList.lookup_upsert_of_ne h]

theorem keys_set : keys (set d k v) = if k ∈ keys d then keys d else keys d ++ [k] :=
  KeyedList.map_key_upsert Prod.fst (k, v) d.items

theorem items_set_of_not_mem (h : k ∉ keys d) : (set d k v).items = d.items ++ [(k, v)] :=
  KeyedList.upsert_of_not_mem h

/-- A search through the keys does not see whether an old key was set again. -/
theorem find_keys_set (p : String → Bool) : (keys (set d k v)).find? p = (keys d ++ [k]).find? p := by
  rw [keys_set]
  split
  · next hm =>
    rw [List.find?_append]
    cases hf : (keys d).find? p with
    | some l => rfl
    | none =>
      have hk := List.find?_eq_none.mp hf k hm
      simp [hk]
  · rfl

theorem get_eq_some : get d k = some v ↔ (k, v) ∈ d.items := by
  constructor
  · intro h
    obtain ⟨⟨l, w⟩, hx, rfl⟩ := Option.map_eq_some_iff.mp h
    obtain rfl : l = k := KeyedList.key_of_lookup hx
    exact KeyedList.mem_of_lookup hx
  · intro h
    rw [get, KeyedList.lookup_of_mem d.nodup h, Option.map_some]

theorem nodup_keys (d : Dict V) : (keys d).Nodup := d.nodup

theorem mem_keys : k ∈ keys d ↔ ∃ v, get d k = some v := by
  constructor
  · intro h
    obtain ⟨⟨l, v⟩, hx, rfl⟩ := List.mem_map.mp h
    exact ⟨v, get_eq_some.mpr hx⟩
  · rintro ⟨v, hv⟩
    exact List.mem_map_of_mem (get_eq_some.mp hv)

end YoutubeRecords.OrderedDict
