import BoundedCache.Dict
import BoundedCache.Entry
import Mathlib.Data.List.Nodup
import Mathlib.Data.List.Perm.Subperm

/-! # Tables that lead from keys to the slots of their entries -/
namespace BoundedCache

namespace Dict
variable {K V W : Type} [DecidableEq K]

/-- A list that names every key once is as long as the map counts. -/
theorem size_eq_length {d : Dict K V} {ks : List K} (nodup : ks.Nodup)
    (mem_iff : ∀ k, k ∈ ks ↔ (d.get? k).isSome) : d.size = ks.length := by
  have hperm : d.keys.Perm ks :=
    (List.perm_ext_iff_of_nodup d.nodup nodup).2 fun k => by rw [mem_iff, ← mem_keys_iff]; rfl
  rw [← hperm.length_eq, keys, List.length_map, size]

/-- Different keys of a map are all there are, if there are as many of them as the map counts. -/
theorem mem_iff_of_length_eq {d : Dict K V} {ks : List K} (nodup : ks.Nodup)
    (mapped : ∀ k ∈ ks, (d.get? k).isSome) (length_eq : ks.length = d.size) (k : K) :
    k ∈ ks ↔ (d.get? k).isSome := by
  have hsub : ks ⊆ d.keys := fun j hj => (d.mem_keys_iff j).2 (mapped j hj)
  have hle : d.keys.length ≤ ks.length :=
    Nat.le_of_eq (by rw [length_eq, keys, List.length_map, size])
  rw [((List.subperm_of_subset nodup hsub).perm_of_length_le hle).mem_iff, mem_keys_iff]

theorem size_congr {d : Dict K V} {d' : Dict K W}
    (same : ∀ k, (d.get? k).isSome = (d'.get? k).isSome) : d.size = d'.size := by
  have hsize := size_eq_length (d := d) d'.nodup fun k => by rw [same, ← mem_keys_iff]; rfl
  rw [hsize, List.length_map, size]

theorem isEmpty_iff (d : Dict K V) : d.isEmpty = true ↔ ∀ k, d.get? k = none := by
  obtain ⟨entries, nodup⟩ := d
  cases entries with
  | nil => simp [isEmpty, get?]
  | cons e rest =>
    simp only [isEmpty, List.isEmpty_cons, Bool.false_eq_true, false_iff, not_forall]
    exact ⟨e.1, by simp [get?]⟩

/-- Where a key leads does not depend on the order of the entries. -/
theorem get?_eq_of_perm {d d' : Dict K V} (h : d'.entries.Perm d.entries) (k : K) :
    d'.get? k = d.get? k := by
  apply Option.ext
  intro v
  rw [get?_eq_some_iff, get?_eq_some_iff, h.mem_iff]

/-- The part of a map that passes a test. -/
def filter (d : Dict K V) (p : K → V → Bool) : Dict K V where
  entries := d.entries.filter fun e => p e.1 e.2
  nodup := d.nodup.sublist (List.filter_sublist.map _)

theorem get?_filter_eq_some_iff {d : Dict K V} {p : K → V → Bool} {k : K} {v : V} :
    (d.filter p).get? k = some v ↔ d.get? k = some v ∧ p k v = true := by
  rw [get?_eq_some_iff, get?_eq_some_iff]
  exact List.mem_filter

omit [DecidableEq K] in
/-- What passes a test and what fails it is all there is. -/
theorem countP_add_size_filter (d : Dict K V) (p : K → V → Bool) :
    (d.entries.countP fun e => p e.1 e.2) + (d.filter fun k v => !p k v).size = d.size := by
  have hsplit := List.length_eq_length_filter_add (l := d.entries) fun e => p e.1 e.2
  rw [List.countP_eq_length_filter]
  exact hsplit.symm

end Dict

variable {K V : Type} [DecidableEq K]

/-- The table leads to exactly the slots with an entry, to each from the key of its entry. -/
def Tracks (table : Dict K Nat) (entryAt : Nat → Option (Entry K V)) : Prop :=
  ∀ k i, table.get? k = some i ↔ (entryAt i).map Entry.key = some k

namespace Tracks
variable {table : Dict K Nat} {f g : Nat → Option (Entry K V)} {i j : Nat} {a b : Entry K V} {k : K}

theorem get?_key (h : Tracks table f) (hi : f i = some a) : table.get? a.key = some i := by
  rw [h, hi]
  rfl

theorem any_get?_key (h : Tracks table f) (hi : f i = some a) (p : Nat → Bool) :
    (table.get? a.key).any p = p i := by
  rw [h.get?_key hi, Option.any_some]

theorem exists_entry (h : Tracks table f) (hk : table.get? k = some i) :
    ∃ a, f i = some a ∧ a.key = k := by
  rw [h] at hk
  exact Option.map_eq_some_iff.1 hk

theorem eq_none (h : Tracks table f) (hk : table.get? k = none) (hi : f i = some a) :
    a.key ≠ k := by
  rintro rfl
  simp [h.get?_key hi] at hk

theorem inj (h : Tracks table f) (hi : f i = some a) (hj : f j = some b) (hk : a.key = b.key) :
    i = j := by
  have hget := h.get?_key hi
  rw [hk, h.get?_key hj] at hget
  exact (Option.some.inj hget).symm

theorem key_eq_iff (h : Tracks table f) (hk : table.get? k = some i) (hj : f j = some a) :
    a.key = k ↔ j = i := by
  constructor
  · rintro rfl
    exact Option.some.inj ((h.get?_key hj).symm.trans hk)
  · rintro rfl
    obtain ⟨b, hb, rfl⟩ := h.exists_entry hk
    cases hj.symm.trans hb
    rfl

/-- Without the entries in some slots, the table leads to the slots that are left. -/
theorem get?_of_gone {table' : Dict K Nat} (h : Tracks table f) (h' : Tracks table' g)
    {gone : Nat → Bool} (left : ∀ j, g j = if gone j then none else f j) (k : K) :
    table'.get? k = (table.get? k).filter fun i => !gone i := by
  apply Option.ext
  intro i
  rw [h' k i, left, Option.filter_eq_some_iff, h k i]
  cases gone i <;> simp

theorem congr (h : Tracks table f) (same : ∀ i, (g i).map Entry.key = (f i).map Entry.key) :
    Tracks table g := by
  intro k i
  rw [same, h]

theorem erase (h : Tracks table f) (hi : f i = some a)
    (gone : ∀ j, g j = if i = j then none else f j) : Tracks (table.erase a.key) g := by
  intro k j
  rw [Dict.get?_erase, gone]
  by_cases hij : i = j
  · subst hij
    rw [if_pos rfl]
    split
    · simp
    · rename_i hk
      simp [h k i, hi, hk]
  · rw [if_neg hij, ← h k j]
    split
    · rename_i hk
      subst hk
      simpa [h.get?_key hi] using hij
    · rfl

theorem insert (h : Tracks table f) (hi : f i = none) (hk : table.get? a.key = none)
    (new : ∀ j, g j = if i = j then some a else f j) : Tracks (table.insert a.key i) g := by
  intro k j
  rw [Dict.get?_insert, new]
  by_cases hij : i = j
  · subst hij
    simp only [if_true, Option.map_some, Option.some.injEq]
    split
    · rename_i hak
      simp [hak]
    · rename_i hak
      simp [h k i, hi, hak]
  · rw [if_neg hij, ← h k j]
    split
    · rename_i hak
      subst hak
      simp [hk, hij]
    · rfl

variable {is : List Nat}

/-- Slots whose keys the table leads back to hold entries under different keys. -/
theorem nodup_keys_of_get? (get? : ∀ k i, (f i).map Entry.key = some k → table.get? k = some i)
    (nodup : is.Nodup) : (is.filterMap fun i => (f i).map Entry.key).Nodup := by
  apply nodup.filterMap
  intro i j k hi hj
  exact Option.some.inj ((get? k i hi).symm.trans (get? k j hj))

theorem nodup_keys (h : Tracks table f) (nodup : is.Nodup) :
    (is.filterMap fun i => (f i).map Entry.key).Nodup :=
  nodup_keys_of_get? (fun k i => (h k i).2) nodup

omit [DecidableEq K] in
theorem length_keys (mem_iff : ∀ i, i ∈ is ↔ (f i).isSome) :
    (is.filterMap fun i => (f i).map Entry.key).length = is.length := by
  rw [List.length_filterMap_eq_countP, List.countP_eq_length]
  intro i hi
  simpa using (mem_iff i).1 hi

/-- The table counts the slots with an entry. -/
theorem size_eq_length (h : Tracks table f) (nodup : is.Nodup)
    (mem_iff : ∀ i, i ∈ is ↔ (f i).isSome) : table.size = is.length := by
  rw [Dict.size_eq_length (h.nodup_keys nodup), length_keys mem_iff]
  intro k
  rw [List.mem_filterMap, Option.isSome_iff_exists]
  apply exists_congr
  intro i
  rw [h k i, and_iff_right_iff_imp]
  intro hk
  obtain ⟨a, ha, -⟩ := Option.map_eq_some_iff.1 hk
  exact (mem_iff i).2 (by simp [ha])

/-- A table that leads to every entry, and has no more keys than there are entries, leads nowhere
else. -/
theorem of_size_eq (tracked : ∀ i a, f i = some a → table.get? a.key = some i) (nodup : is.Nodup)
    (mem_iff : ∀ i, i ∈ is ↔ (f i).isSome) (size_eq : table.size = is.length) :
    Tracks table f := by
  have hkey : ∀ k i, (f i).map Entry.key = some k → table.get? k = some i := by
    intro k i hi
    obtain ⟨a, ha, rfl⟩ := Option.map_eq_some_iff.1 hi
    exact tracked i a ha
  have hmapped : ∀ k ∈ is.filterMap fun i => (f i).map Entry.key, (table.get? k).isSome := by
    intro k hk
    obtain ⟨i, -, hi⟩ := List.mem_filterMap.1 hk
    rw [hkey k i hi]
    rfl
  have hlength := (length_keys mem_iff).trans size_eq.symm
  intro k i
  refine ⟨fun hk => ?_, hkey k i⟩
  have hmem := (Dict.mem_iff_of_length_eq (nodup_keys_of_get? hkey nodup) hmapped hlength k).2
    (by rw [hk]; rfl)
  obtain ⟨j, -, hj⟩ := List.mem_filterMap.1 hmem
  cases hk.symm.trans (hkey k j hj)
  exact hj

/-- Looking through the entries for a key finds what the table leads to. -/
theorem find?_eq (h : Tracks table f) (mem_iff : ∀ i, i ∈ is ↔ (f i).isSome) (k : K) :
    (is.filterMap f).find? (fun a => decide (a.key = k)) = (table.get? k).bind f := by
  cases hk : table.get? k with
  | none =>
    rw [Option.bind_none, List.find?_eq_none]
    intro a ha
    obtain ⟨i, -, hi⟩ := List.mem_filterMap.1 ha
    simpa using h.eq_none hk hi
  | some i =>
    obtain ⟨a, hi, rfl⟩ := h.exists_entry hk
    rw [Option.bind_some, hi]
    have hmem : a ∈ is.filterMap f :=
      List.mem_filterMap.2 ⟨i, (mem_iff i).2 (by simp [hi]), hi⟩
    cases hfind : (is.filterMap f).find? fun b => decide (b.key = a.key) with
    | none => simpa using List.find?_eq_none.1 hfind a hmem
    | some b =>
      obtain ⟨j, -, hj⟩ := List.mem_filterMap.1 (List.mem_of_find?_eq_some hfind)
      have hkey : b.key = a.key := by simpa using List.find?_some hfind
      rw [← hi, ← hj, h.inj hj hi hkey]

end Tracks
end BoundedCache
