import Mathlib.Tactic

set_option autoImplicit false

/-! # Insertion-ordered dictionaries

A dictionary whose keys are iterated in the order of their first insertion: writing an
existing key keeps its place, a new key goes to the end, and a key that was removed and
written again goes to the end. The keys are distinct by construction (`Dict.nodup`), so an
entry is the same thing as a lookup (`mem_entries_iff`).
-/

namespace Lib

universe u v

/-- A dictionary as the list of its entries in insertion order, with distinct keys. -/
structure Dict (κ : Type u) (ν : Type v) where
  entries : List (κ × ν)
  nodup : (entries.map Prod.fst).Nodup
  deriving DecidableEq

namespace Dict

variable {κ : Type u} {ν : Type v}

/-- The keys, in insertion order. -/
def keys (d : Dict κ ν) : List κ := d.entries.map Prod.fst

/-- The values, in the order of their keys. -/
def values (d : Dict κ ν) : List ν := d.entries.map Prod.snd

/-- The dictionary without entries. -/
def empty : Dict κ ν := ⟨[], List.nodup_nil⟩

@[ext] theorem ext {d e : Dict κ ν} (h : d.entries = e.entries) : d = e := by
  cases d; cases e; simp_all

@[simp] theorem entries_empty : (empty : Dict κ ν).entries = [] := rfl

@[simp] theorem keys_empty : (empty : Dict κ ν).keys = [] := rfl

section Ops

variable [DecidableEq κ]

/-- The value of the first entry with key `k`. -/
def lookup (k : κ) : List (κ × ν) → Option ν
  | [] => none
  | (k', v) :: l => if k' = k then some v else lookup k l

/-- Overwrite the entry of `k` in place, or append one. -/
def write (k : κ) (v : ν) : List (κ × ν) → List (κ × ν)
  | [] => [(k, v)]
  | (k', v') :: l => if k' = k then (k, v) :: l else (k', v') :: write k v l

/-- Drop the entries of `k`. -/
def remove (k : κ) : List (κ × ν) → List (κ × ν)
  | [] => []
  | (k', v') :: l => if k' = k then remove k l else (k', v') :: remove k l

theorem mem_keys_write (k j : κ) (v : ν) (l : List (κ × ν)) :
    j ∈ (write k v l).map Prod.fst ↔ j = k ∨ j ∈ l.map Prod.fst := by
  induction l with
  | nil => simp [write]
  | cons e l ih =>
      obtain ⟨k', v'⟩ := e
      by_cases h : k' = k
      · simp [write, h]
      · simp only [write, if_neg h, List.map_cons, List.mem_cons, ih]
        tauto

theorem nodup_write (k : κ) (v : ν) (l : List (κ × ν)) (h : (l.map Prod.fst).Nodup) :
    ((write k v l).map Prod.fst).Nodup := by
  induction l with
  | nil => simp [write]
  | cons e l ih =>
      obtain ⟨k', v'⟩ := e
      rw [List.map_cons, List.nodup_cons] at h
      by_cases hk : k' = k
      · subst hk
        simpa [write] using h
      · simp only [write, if_neg hk, List.map_cons, List.nodup_cons, mem_keys_write]
        exact ⟨fun hm => hm.elim hk h.1, ih h.2⟩

theorem mem_keys_remove (k j : κ) (l : List (κ × ν)) :
    j ∈ (remove k l).map Prod.fst ↔ j ≠ k ∧ j ∈ l.map Prod.fst := by
  induction l with
  | nil => simp [remove]
  | cons e l ih =>
      obtain ⟨k', v'⟩ := e
      by_cases hk : k' = k
      · subst hk
        simp only [remove, if_true, ih, List.map_cons, List.mem_cons]
        tauto
      · simp only [remove, if_neg hk, List.map_cons, List.mem_cons, ih]
        constructor
        · rintro (h | h)
          · exact ⟨h ▸ hk, Or.inl h⟩
          · exact ⟨h.1, Or.inr h.2⟩
        · rintro ⟨h1, h2⟩
          exact h2.imp id (fun h => ⟨h1, h⟩)

theorem nodup_remove (k : κ) (l : List (κ × ν)) (h : (l.map Prod.fst).Nodup) :
    ((remove k l).map Prod.fst).Nodup := by
  induction l with
  | nil => exact List.nodup_nil
  | cons e l ih =>
      obtain ⟨k', v'⟩ := e
      rw [List.map_cons, List.nodup_cons] at h
      by_cases hk : k' = k
      · simpa only [remove, if_pos hk] using ih h.2
      · simp only [remove, if_neg hk, List.map_cons, List.nodup_cons, mem_keys_remove]
        exact ⟨fun hm => h.1 hm.2, ih h.2⟩

/-- `d[k]`, when there is such an entry. -/
def get? (d : Dict κ ν) (k : κ) : Option ν := lookup k d.entries

/-- `d[k] = v`. -/
def set (d : Dict κ ν) (k : κ) (v : ν) : Dict κ ν :=
  ⟨write k v d.entries, nodup_write k v d.entries d.nodup⟩

/-- `d.pop(k, None)`. -/
def erase (d : Dict κ ν) (k : κ) : Dict κ ν :=
  ⟨remove k d.entries, nodup_remove k d.entries d.nodup⟩

/-- `d.setdefault(k, v)`. -/
def setDefault (d : Dict κ ν) (k : κ) (v : ν) : Dict κ ν :=
  if (d.get? k).isSome then d else d.set k v

/-- Whether `k` is a key. -/
def contains (d : Dict κ ν) (k : κ) : Bool := (d.get? k).isSome

/-! ## Lookups -/

@[simp] theorem get?_empty (k : κ) : (empty : Dict κ ν).get? k = none := rfl

theorem lookup_write (k j : κ) (v : ν) (l : List (κ × ν)) :
    lookup j (write k v l) = if k = j then some v else lookup j l := by
  induction l with
  | nil => simp [write, lookup]
  | cons e l ih =>
      obtain ⟨k', v'⟩ := e
      by_cases hk : k' = k
      · subst hk
        by_cases hj : k' = j <;> simp [write, lookup, hj]
      · by_cases hj : k' = j
        · subst hj
          simp [write, lookup, hk, Ne.symm hk]
        · simp [write, lookup, hk, hj, ih]

theorem get?_set (d : Dict κ ν) (k j : κ) (v : ν) :
    (d.set k v).get? j = if k = j then some v else d.get? j :=
  lookup_write k j v d.entries

@[simp] theorem get?_set_self (d : Dict κ ν) (k : κ) (v : ν) : (d.set k v).get? k = some v := by
  rw [get?_set, if_pos rfl]

theorem get?_set_ne (d : Dict κ ν) {k j : κ} (v : ν) (h : k ≠ j) :
    (d.set k v).get? j = d.get? j := by
  rw [get?_set, if_neg h]

theorem lookup_remove (k j : κ) (l : List (κ × ν)) :
    lookup j (remove k l) = if k = j then none else lookup j l := by
  induction l with
  | nil => simp [remove, lookup]
  | cons e l ih =>
      obtain ⟨k', v'⟩ := e
      by_cases hk : k' = k
      · subst hk
        simp only [remove, lookup, if_true, ih]
        by_cases hj : k' = j <;> simp [hj]
      · by_cases hj : k' = j
        · subst hj
          simp [remove, lookup, hk, Ne.symm hk]
        · simp [remove, lookup, hk, hj, ih]

theorem get?_erase (d : Dict κ ν) (k j : κ) :
    (d.erase k).get? j = if k = j then none else d.get? j :=
  lookup_remove k j d.entries

@[simp] theorem get?_erase_self (d : Dict κ ν) (k : κ) : (d.erase k).get? k = none := by
  rw [get?_erase, if_pos rfl]

theorem get?_erase_ne (d : Dict κ ν) {k j : κ} (h : k ≠ j) :
    (d.erase k).get? j = d.get? j := by
  rw [get?_erase, if_neg h]

theorem get?_setDefault (d : Dict κ ν) (k j : κ) (v : ν) :
    (d.setDefault k v).get? j
      = if k = j then some ((d.get? k).getD v) else d.get? j := by
  unfold setDefault
  cases h : d.get? k with
  | none => simp [get?_set]
  | some w =>
      by_cases hj : k = j
      · subst hj; simp [h]
      · simp [hj]

/-! ## Entries and keys -/

theorem mem_of_lookup {k : κ} {v : ν} {l : List (κ × ν)} (h : lookup k l = some v) :
    (k, v) ∈ l := by
  induction l with
  | nil => simp [lookup] at h
  | cons e l ih =>
      obtain ⟨k', v'⟩ := e
      by_cases hk : k' = k
      · subst hk
        simp only [lookup, if_true, Option.some.injEq] at h
        simp [h]
      · simp only [lookup, if_neg hk] at h
        exact List.mem_cons_of_mem _ (ih h)

theorem lookup_of_mem {k : κ} {v : ν} {l : List (κ × ν)} (hn : (l.map Prod.fst).Nodup)
    (h : (k, v) ∈ l) : lookup k l = some v := by
  induction l with
  | nil => cases h
  | cons e l ih =>
      obtain ⟨k', v'⟩ := e
      rw [List.map_cons, List.nodup_cons] at hn
      rcases List.mem_cons.mp h with he | hm
      · cases he; simp [lookup]
      · have hk : k' ≠ k := fun hk => hn.1 (List.mem_map.mpr ⟨(k, v), hm, hk.symm⟩)
        simp only [lookup, if_neg hk]
        exact ih hn.2 hm

theorem mem_entries_iff (d : Dict κ ν) (k : κ) (v : ν) :
    (k, v) ∈ d.entries ↔ d.get? k = some v :=
  ⟨lookup_of_mem d.nodup, mem_of_lookup⟩

theorem mem_values_iff (d : Dict κ ν) (v : ν) : v ∈ d.values ↔ ∃ k, d.get? k = some v := by
  simp only [values, List.mem_map, Prod.exists, exists_eq_right, mem_entries_iff]

theorem mem_keys_iff (d : Dict κ ν) (k : κ) : k ∈ d.keys ↔ ∃ v, d.get? k = some v := by
  simp only [keys, List.mem_map, Prod.exists, exists_and_right, exists_eq_right, mem_entries_iff]

theorem mem_keys_iff_ne_none (d : Dict κ ν) (k : κ) : k ∈ d.keys ↔ d.get? k ≠ none := by
  rw [mem_keys_iff, Option.ne_none_iff_exists']

theorem mem_keys_set (d : Dict κ ν) (k j : κ) (v : ν) :
    j ∈ (d.set k v).keys ↔ j = k ∨ j ∈ d.keys :=
  mem_keys_write k j v d.entries

omit [DecidableEq κ] in
theorem nodup_keys (d : Dict κ ν) : d.keys.Nodup := d.nodup

/-- Writing values under different keys of their own one after the other. -/
theorem get?_foldl_set (f : ν → κ) (vs : List ν) (h : (vs.map f).Nodup) (d : Dict κ ν) (k : κ) :
    (vs.foldl (fun d v => d.set (f v) v) d).get? k
      = (vs.find? (fun v => f v = k)).or (d.get? k) := by
  induction vs generalizing d with
  | nil => rfl
  | cons v vs ih =>
      rw [List.map_cons, List.nodup_cons] at h
      rw [List.foldl_cons, ih h.2, get?_set]
      by_cases hk : f v = k
      · have hnone : vs.find? (fun v => f v = k) = none := by
          refine List.find?_eq_none.mpr fun v' hv' => ?_
          rw [decide_eq_true_eq]
          rintro rfl
          exact h.1 (hk ▸ List.mem_map_of_mem hv')
        rw [hnone, if_pos hk, List.find?_cons_of_pos (by simpa using hk)]
        rfl
      · rw [if_neg hk, List.find?_cons_of_neg (by simpa using hk)]

/-- Values written under keys of their own: what is found is one of them under its key, and every
key finds one. -/
theorem foldl_set_spec (f : ν → κ) (vs : List ν) :
    (∀ k v, (vs.foldl (fun d v => d.set (f v) v) empty).get? k = some v → v ∈ vs ∧ f v = k) ∧
      ∀ v ∈ vs, ∃ w, (vs.foldl (fun d v => d.set (f v) v) empty).get? (f v) = some w := by
  induction vs using List.reverseRecOn with
  | nil => exact ⟨fun k v h => by simp [get?_empty] at h, fun v h => by cases h⟩
  | append_singleton vs x ih =>
      simp only [List.foldl_append, List.foldl_cons, List.foldl_nil, get?_set]
      constructor
      · intro k v h
        split_ifs at h with hx
        · obtain rfl := Option.some.inj h
          exact ⟨by simp, hx⟩
        · exact ⟨List.mem_append_left _ (ih.1 k v h).1, (ih.1 k v h).2⟩
      · intro v hv
        by_cases hx : f x = f v
        · exact ⟨x, if_pos hx⟩
        · rw [if_neg hx]
          rcases List.mem_append.mp hv with hv | hv
          · exact ih.2 v hv
          · exact absurd (by rw [List.mem_singleton.mp hv]) hx

/-- The last value under a key is the one that is found. -/
theorem last_of_foldl_set (f : ν → κ) {vs : List ν} {k : κ} {v : ν}
    (h : (vs.foldl (fun d v => d.set (f v) v) empty).get? k = some v) :
    ∃ before after, vs = before ++ v :: after ∧ ∀ w ∈ after, f w ≠ k := by
  induction vs using List.reverseRecOn with
  | nil => simp [get?_empty] at h
  | append_singleton vs x ih =>
      rw [List.foldl_append, List.foldl_cons, List.foldl_nil, get?_set] at h
      split at h
      · obtain rfl := Option.some.inj h
        exact ⟨vs, [], rfl, by simp⟩
      next hx =>
        obtain ⟨before, after, rfl, hafter⟩ := ih h
        refine ⟨before, after ++ [x], by simp, ?_⟩
        intro w hw
        rcases List.mem_append.mp hw with hw | hw
        · exact hafter w hw
        · rw [List.mem_singleton.mp hw]
          exact hx

/-- A dictionary whose values know their keys is built again from its values. -/
theorem get?_foldl_values (f : ν → κ) {d : Dict κ ν} (h : ∀ k v, d.get? k = some v → f v = k)
    (k : κ) : (d.values.foldl (fun d v => d.set (f v) v) empty).get? k = d.get? k := by
  have hkeys : d.values.map f = d.keys := by
    unfold values keys
    rw [List.map_map]
    refine List.map_congr_left fun e he => ?_
    exact h e.1 e.2 ((mem_entries_iff d e.1 e.2).mp he)
  rw [get?_foldl_set f _ (hkeys ▸ d.nodup_keys), get?_empty, Option.or_none]
  cases hk : d.get? k with
  | none =>
      refine List.find?_eq_none.mpr fun v hv => ?_
      obtain ⟨j, hj⟩ := (mem_values_iff d v).mp hv
      rw [decide_eq_true_eq, h j v hj]
      rintro rfl
      rw [hk] at hj
      cases hj
  | some v =>
      have hv : v ∈ d.values := (mem_values_iff d v).mpr ⟨k, hk⟩
      cases hfind : d.values.find? (fun v => f v = k) with
      | none =>
          have := List.find?_eq_none.mp hfind v hv
          exact absurd (decide_eq_true (h k v hk)) this
      | some w =>
          -- The value that was found has the same key.
          have hw : f w = k := by simpa using List.find?_some hfind
          obtain ⟨j, hj⟩ := (mem_values_iff d w).mp (List.mem_of_find?_eq_some hfind)
          rw [← hj, ← h j w hj, hw, hk]

/-- A new key goes to the end of the iteration order. -/
theorem entries_set_of_none (d : Dict κ ν) (k : κ) (v : ν) (h : d.get? k = none) :
    (d.set k v).entries = d.entries ++ [(k, v)] := by
  show write k v d.entries = d.entries ++ [(k, v)]
  have key : ∀ l : List (κ × ν), lookup k l = none → write k v l = l ++ [(k, v)] := by
    intro l
    induction l with
    | nil => intro _; rfl
    | cons e l ih =>
        obtain ⟨k', v'⟩ := e
        intro hl
        by_cases hk : k' = k
        · simp [lookup, hk] at hl
        · simp only [lookup, if_neg hk] at hl
          simp [write, hk, ih hl]
  exact key d.entries h

/-- A write adds at most one entry. -/
theorem length_entries_set (d : Dict κ ν) (k : κ) (v : ν) :
    (d.set k v).entries.length ≤ d.entries.length + 1 := by
  have hwrite : ∀ l : List (κ × ν), (write k v l).length ≤ l.length + 1 := by
    intro l
    induction l with
    | nil => exact le_rfl
    | cons e l ih =>
        simp only [write]
        split_ifs
        · simp
        · simpa using ih
  exact hwrite d.entries

/-! ## Sums over the entries -/

variable {M : Type*} [AddCommGroup M]

/-- The sum of `f` over the entries. -/
def sumBy (f : κ → ν → M) (d : Dict κ ν) : M := (d.entries.map (fun e => f e.1 e.2)).sum

/-- What the entry of `k` contributes to `sumBy f`. -/
def share (f : κ → ν → M) (d : Dict κ ν) (k : κ) : M :=
  match d.get? k with
  | none => 0
  | some v => f k v

omit [DecidableEq κ] in
@[simp] theorem sumBy_empty (f : κ → ν → M) : sumBy f (empty : Dict κ ν) = 0 := rfl

/-- A sum over the entries, as a sum over any finite set of keys that holds theirs. -/
theorem sumBy_eq_sum_share (f : κ → ν → M) (d : Dict κ ν) {K : Finset κ}
    (h : ∀ k ∈ d.keys, k ∈ K) : sumBy f d = ∑ k ∈ K, share f d k := by
  have hentries : sumBy f d = (d.keys.map (share f d)).sum := by
    unfold sumBy Dict.keys
    rw [List.map_map]
    congr 1
    refine List.map_congr_left fun e he => ?_
    have hget : d.get? e.1 = some e.2 := (mem_entries_iff d e.1 e.2).mp he
    simp [share, hget]
  rw [hentries, ← List.sum_toFinset _ d.nodup_keys]
  refine Finset.sum_subset (fun k hk => h k (List.mem_toFinset.mp hk)) fun k _ hk => ?_
  have hnone : d.get? k = none := by
    by_contra hne
    exact hk (List.mem_toFinset.mpr ((mem_keys_iff_ne_none d k).mpr hne))
  simp [share, hnone]

omit [DecidableEq κ] in
theorem sumBy_add (f g : κ → ν → M) (d : Dict κ ν) :
    sumBy (fun k v => f k v + g k v) d = sumBy f d + sumBy g d := List.sum_map_add

/-- Two dictionaries whose entries contribute the same under every key have the same sum. -/
theorem sumBy_eq_of_share {μ : Type*} {f : κ → ν → M} {g : κ → μ → M} {d : Dict κ ν} {d' : Dict κ μ}
    (h : ∀ k, share f d k = share g d' k) : sumBy f d = sumBy g d' := by
  let K := (d.keys ++ d'.keys).toFinset
  rw [sumBy_eq_sum_share f d (K := K) fun k hk => by simp [K, hk],
    sumBy_eq_sum_share g d' (K := K) fun k hk => by simp [K, hk]]
  exact Finset.sum_congr rfl fun k _ => h k

theorem sum_write (f : κ → ν → M) (k : κ) (v : ν) (l : List (κ × ν)) :
    ((write k v l).map (fun e => f e.1 e.2)).sum
      = (l.map (fun e => f e.1 e.2)).sum
        - (match lookup k l with
            | none => 0
            | some w => f k w) + f k v := by
  induction l with
  | nil => simp [write, lookup]
  | cons e l ih =>
      obtain ⟨k', v'⟩ := e
      by_cases hk : k' = k
      · subst hk
        simp only [write, lookup, if_true, List.map_cons, List.sum_cons]
        abel
      · simp only [write, lookup, if_neg hk, List.map_cons, List.sum_cons, ih]
        abel

theorem sumBy_set (f : κ → ν → M) (d : Dict κ ν) (k : κ) (v : ν) :
    sumBy f (d.set k v) = sumBy f d - share f d k + f k v :=
  sum_write f k v d.entries

theorem remove_eq_self {k : κ} {l : List (κ × ν)} (h : k ∉ l.map Prod.fst) : remove k l = l := by
  induction l with
  | nil => rfl
  | cons e l ih =>
      obtain ⟨k', v'⟩ := e
      rw [List.map_cons, List.mem_cons, not_or] at h
      simp [remove, Ne.symm h.1, ih h.2]

/-- Erasing a key changes nothing exactly if it is not there. -/
theorem erase_eq_self_iff (d : Dict κ ν) (k : κ) : d.erase k = d ↔ d.get? k = none := by
  constructor
  · intro h
    rw [← h, get?_erase_self]
  · intro h
    exact ext (remove_eq_self fun hk => (d.mem_keys_iff_ne_none k).mp hk h)

theorem sum_remove (f : κ → ν → M) (k : κ) (l : List (κ × ν)) (hn : (l.map Prod.fst).Nodup) :
    ((remove k l).map (fun e => f e.1 e.2)).sum
      = (l.map (fun e => f e.1 e.2)).sum
        - (match lookup k l with
            | none => 0
            | some w => f k w) := by
  induction l with
  | nil => simp [remove, lookup]
  | cons e l ih =>
      obtain ⟨k', v'⟩ := e
      rw [List.map_cons, List.nodup_cons] at hn
      by_cases hk : k' = k
      · subst hk
        simp [remove, lookup, remove_eq_self hn.1]
      · simp only [remove, lookup, if_neg hk, List.map_cons, List.sum_cons, ih hn.2]
        abel

theorem sumBy_erase (f : κ → ν → M) (d : Dict κ ν) (k : κ) :
    sumBy f (d.erase k) = sumBy f d - share f d k :=
  sum_remove f k d.entries d.nodup

end Ops

end Dict

end Lib
