import Mathlib.Data.List.Nodup

/-!
# JSON documents

JSON values with their objects as lists of entries, and dictionaries as entries with
distinct keys, which keep the place of a key when its value is replaced.
-/

namespace Documents

/-- A JSON value; `ν` holds the numbers that are no integers. -/
inductive Json (ν : Type)
  | null
  | bool (b : Bool)
  | int (n : Int)
  | float (x : ν)
  | str (s : String)
  | arr (items : List (Json ν))
  | obj (entries : List (String × Json ν))

/-- What objects consist of. -/
abbrev Fields (ν : Type) := List (String × Json ν)

/-- The entries of an object. -/
def Json.entries? {ν : Type} : Json ν → Option (Fields ν)
  | .obj entries => some entries
  | _ => none

mutual

/-- The objects in the value have distinct keys, as dictionaries do. -/
def Json.Distinct {ν : Type} : Json ν → Prop
  | .arr items => DistinctItems items
  | .obj entries => (entries.map Prod.fst).Nodup ∧ DistinctEntries entries
  | _ => True

/-- So do those in each item. -/
def DistinctItems {ν : Type} : List (Json ν) → Prop
  | [] => True
  | a :: as => a.Distinct ∧ DistinctItems as

/-- So do those in the value of each entry. -/
def DistinctEntries {ν : Type} : List (String × Json ν) → Prop
  | [] => True
  | e :: es => DistinctEntry e ∧ DistinctEntries es

/-- So do those in the value of the entry. -/
def DistinctEntry {ν : Type} : String × Json ν → Prop
  | (_, value) => value.Distinct

end

namespace Fields

variable {ν : Type}

/-- The keys of entries. -/
def keys (l : Fields ν) : List String := l.map Prod.fst

/-- The value of a key. -/
def get? (l : Fields ν) (key : String) : Option (Json ν) :=
  (l.find? fun e => e.1 = key).map Prod.snd

/-- Set the value of a key. -/
def put : Fields ν → String × Json ν → Fields ν
  | [], e => [e]
  | x :: l, e => if x.1 = e.1 then e :: l else x :: put l e

/-- Set the values of some keys, in order. -/
def update (l new : Fields ν) : Fields ν := new.foldl put l

theorem get?_cons (key : String) (e : String × Json ν) (l : Fields ν) :
    get? (e :: l) key = if e.1 = key then some e.2 else get? l key := by
  rw [get?, List.find?_cons]
  by_cases h : e.1 = key
  · simp [h]
  · simp [h, get?]

variable {l : Fields ν} {e : String × Json ν}

theorem get?_of_mem (h : (keys l).Nodup) (he : e ∈ l) :
    get? l e.1 = some e.2 := by
  induction l with
  | nil => cases he
  | cons x l ih =>
    have hl := List.nodup_cons.mp h
    rw [get?_cons]
    cases he with
    | head => rw [if_pos rfl]
    | tail _ he =>
      rw [if_neg fun hx => hl.1 (List.mem_map.mpr ⟨e, he, hx.symm⟩)]
      exact ih hl.2 he

theorem mem_keys_put {k : String} :
    k ∈ keys (put l e) ↔ k = e.1 ∨ k ∈ keys l := by
  induction l with
  | nil => simp [put, keys]
  | cons x l ih =>
    by_cases hx : x.1 = e.1
    · rw [put, if_pos hx]
      simp [keys, hx]
    · rw [put, if_neg hx]
      change k ∈ x.1 :: keys (put l e) ↔ k = e.1 ∨ k ∈ x.1 :: keys l
      rw [List.mem_cons, ih, List.mem_cons]
      exact or_left_comm

theorem nodup_put (h : (keys l).Nodup) (e : String × Json ν) :
    (keys (put l e)).Nodup := by
  induction l with
  | nil => exact List.nodup_singleton _
  | cons x l ih =>
    have hl := List.nodup_cons.mp h
    by_cases hx : x.1 = e.1
    · rw [put, if_pos hx]
      change (e.1 :: keys l).Nodup
      rw [← hx]
      exact h
    · rw [put, if_neg hx]
      refine List.nodup_cons.mpr ⟨?_, ih hl.2⟩
      change x.1 ∉ keys (put l e)
      rw [mem_keys_put]
      exact fun hmem => hmem.elim hx hl.1

theorem nodup_update (h : (keys l).Nodup) (new : Fields ν) :
    (keys (update l new)).Nodup := by
  induction new generalizing l with
  | nil => exact h
  | cons e new ih => exact ih (nodup_put h e)

theorem put_new (h : e.1 ∉ keys l) :
    put l e = l ++ [e] := by
  induction l with
  | nil => rfl
  | cons x l ih =>
    rw [keys, List.map_cons, List.mem_cons, not_or] at h
    rw [put, if_neg (Ne.symm h.1), ih h.2]
    rfl

theorem update_new {l new : Fields ν} (hnodup : (keys new).Nodup)
    (h : ∀ k ∈ keys new, k ∉ keys l) : update l new = l ++ new := by
  induction new generalizing l with
  | nil => exact (List.append_nil l).symm
  | cons e new ih =>
    have hnew := List.nodup_cons.mp hnodup
    have hput := put_new (h e.1 List.mem_cons_self)
    change update (put l e) new = _
    rw [ih hnew.2, hput, List.append_assoc]
    · rfl
    · intro k hk
      rw [hput, keys, List.map_append, List.mem_append, not_or]
      refine ⟨h k (List.mem_cons_of_mem _ hk), ?_⟩
      rintro hmem
      rw [List.map_singleton, List.mem_singleton] at hmem
      exact hnew.1 (hmem ▸ hk)

theorem mem_keys_filter {p : String → Bool} {k : String} :
    k ∈ keys (l.filter fun e => p e.1) ↔ k ∈ keys l ∧ p k = true := by
  rw [keys, keys, List.mem_map, List.mem_map]
  constructor
  · rintro ⟨e, he, rfl⟩
    exact ⟨⟨e, (List.mem_filter.mp he).1, rfl⟩, (List.mem_filter.mp he).2⟩
  · rintro ⟨⟨e, he, rfl⟩, hp⟩
    exact ⟨e, List.mem_filter.mpr ⟨he, hp⟩, rfl⟩

end Fields

end Documents
