/-! # Entry lists

    Lists of keys with values, read from the front: the first entry with a key is
    the one that counts. Writing replaces the value of a key that is there and
    puts a new key at the end.
-/

namespace SsaFlow

namespace Entries

variable {κ α : Type} [DecidableEq κ]

/-- The value of the first entry with key `k`. -/
def lookup (k : κ) : List (κ × α) → Option α
  | [] => none
  | (k', v) :: rest => if k' = k then some v else lookup k rest

/-- Write `v` under `k`: in place if `k` is there, else at the end. -/
def put (k : κ) (v : α) : List (κ × α) → List (κ × α)
  | [] => [(k, v)]
  | (k', v') :: rest => if k' = k then (k, v) :: rest else (k', v') :: put k v rest

/-- Writing adds the key at the end, if it is new. -/
theorem keys_put (k : κ) (v : α) (l : List (κ × α)) :
    (put k v l).map Prod.fst =
      if k ∈ l.map Prod.fst then l.map Prod.fst else l.map Prod.fst ++ [k] := by
  induction l with
  | nil => simp [put]
  | cons e rest ih =>
    obtain ⟨k', v'⟩ := e
    by_cases h : k' = k
    · simp [put, h]
    · have h' : ¬ k = k' := fun e => h e.symm
      by_cases hm : k ∈ rest.map Prod.fst
      · simp only [put, if_neg h, List.map_cons, ih, if_pos hm]
        simp [List.mem_cons, hm]
      · simp only [put, if_neg h, List.map_cons, ih, if_neg hm]
        simp [List.mem_cons, h', hm]

theorem nodup_put (k : κ) (v : α) {l : List (κ × α)} (h : (l.map Prod.fst).Nodup) :
    ((put k v l).map Prod.fst).Nodup := by
  rw [keys_put]
  split
  · exact h
  · rename_i hk
    refine List.nodup_append.mpr ⟨h, by simp, ?_⟩
    intro a ha b hb hab
    have hbk : b = k := by simpa using hb
    exact hk (by rw [← hbk, ← hab]; exact ha)

/-- After writing under `k`, reading `k` gives the new value and reading any
    other key gives what it gave before. -/
theorem lookup_put (k : κ) (v : α) (l : List (κ × α)) (j : κ) :
    lookup j (put k v l) = if j = k then some v else lookup j l := by
  induction l with
  | nil =>
    by_cases h : j = k
    · simp [put, lookup, h]
    · have h' : ¬ k = j := fun e => h e.symm
      simp [put, lookup, h, h']
  | cons e rest ih =>
    obtain ⟨k', v'⟩ := e
    by_cases hk : k' = k
    · by_cases h : j = k
      · simp [put, lookup, hk, h]
      · have h' : ¬ k = j := fun e => h e.symm
        simp [put, lookup, hk, h, h']
    · by_cases hj : k' = j
      · have hjk : ¬ j = k := fun e => hk (hj.trans e)
        simp [put, lookup, hj, hjk]
      · simp [put, lookup, hk, hj, ih]

/-- The entries of all keys but `k`. -/
def drop (k : κ) (l : List (κ × α)) : List (κ × α) := l.filter fun e => e.1 ≠ k

/-- The entries with the value under `k` replaced by its image. -/
def adjust (k : κ) (change : α → α) (l : List (κ × α)) : List (κ × α) :=
  l.map fun e => if e.1 = k then (e.1, change e.2) else e

/-- Dropping a key keeps the order of the others. -/
theorem nodup_drop (k : κ) {l : List (κ × α)} (h : (l.map Prod.fst).Nodup) :
    ((drop k l).map Prod.fst).Nodup :=
  List.Nodup.sublist (List.filter_sublist.map _) h

/-- Changing a value changes no key. -/
theorem keys_adjust (k : κ) (change : α → α) (l : List (κ × α)) :
    (adjust k change l).map Prod.fst = l.map Prod.fst := by
  unfold adjust
  rw [List.map_map]
  refine List.map_congr_left ?_
  intro e _
  by_cases hk : e.1 = k <;> simp [hk]

theorem lookup_isSome_iff (k : κ) (l : List (κ × α)) :
    (lookup k l).isSome = true ↔ k ∈ l.map Prod.fst := by
  induction l with
  | nil => simp [lookup]
  | cons e rest ih =>
    obtain ⟨k', v⟩ := e
    by_cases h : k' = k
    · simp [lookup, h]
    · have h' : ¬ k = k' := fun e => h e.symm
      simp only [lookup, if_neg h, ih, List.map_cons, List.mem_cons, h', false_or]

theorem mem_of_lookup {k : κ} {v : α} {l : List (κ × α)} (h : lookup k l = some v) :
    (k, v) ∈ l := by
  induction l with
  | nil => simp [lookup] at h
  | cons e rest ih =>
    obtain ⟨k', v'⟩ := e
    by_cases hk : k' = k
    · simp [lookup, hk] at h
      simp [hk, h]
    · simp [lookup, hk] at h
      exact List.mem_cons_of_mem _ (ih h)

theorem lookup_of_mem {k : κ} {v : α} {l : List (κ × α)} (h : (l.map Prod.fst).Nodup)
    (hm : (k, v) ∈ l) : lookup k l = some v := by
  induction l with
  | nil => cases hm
  | cons e rest ih =>
    obtain ⟨k', v'⟩ := e
    simp only [List.map_cons, List.nodup_cons] at h
    rcases List.mem_cons.mp hm with he | hrest
    · cases he
      simp [lookup]
    · have hk : ¬ k' = k := fun e => h.1 (e ▸ List.mem_map.mpr ⟨(k, v), hrest, rfl⟩)
      simp only [lookup, if_neg hk]
      exact ih h.2 hrest

/-- Dropping a key takes its value away and no other. -/
theorem lookup_drop (k : κ) (l : List (κ × α)) (j : κ) :
    lookup j (drop k l) = if j = k then none else lookup j l := by
  unfold drop
  induction l with
  | nil => simp [lookup]
  | cons e rest ih =>
    obtain ⟨k', v⟩ := e
    by_cases hk : k' = k
    · rw [List.filter_cons_of_neg (by simp [hk]), ih]
      by_cases hj : j = k
      · simp [hj]
      · have hj' : ¬ k' = j := fun e => hj (e.symm.trans hk)
        simp [lookup, hj, hj']
    · rw [List.filter_cons_of_pos (by simp [hk])]
      by_cases hj : k' = j
      · have hjk : ¬ j = k := fun e => hk (hj.trans e)
        simp [lookup, hj, hjk]
      · simp only [lookup, if_neg hj, ih]

/-- Changing the value of a key changes it and no other. -/
theorem lookup_adjust (k : κ) (change : α → α) (l : List (κ × α)) (j : κ) :
    lookup j (adjust k change l) =
      if j = k then (lookup j l).map change else lookup j l := by
  unfold adjust
  induction l with
  | nil => simp [lookup]
  | cons e rest ih =>
    obtain ⟨k', v⟩ := e
    by_cases hk : k' = k <;> by_cases hj : k' = j
    · have hjk : j = k := hj.symm.trans hk
      simp [lookup, hk, hjk]
    · have hjk : ¬ j = k := fun e => hj (hk.trans e.symm)
      have hkj : ¬ k = j := fun e => hjk e.symm
      simp only [List.map_cons, hk, if_true, lookup, if_neg hkj, ih]
    · have hjk : ¬ j = k := fun e => hk (hj.trans e)
      simp [lookup, hj, hjk]
    · simp only [List.map_cons, if_neg hk, lookup, if_neg hj, ih]

end Entries

end SsaFlow
