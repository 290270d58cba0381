/-! # Finite maps as entries with distinct keys -/
namespace BoundedCache

structure Dict (K V : Type) where
  entries : List (K × V)
  nodup : (entries.map Prod.fst).Nodup

namespace Dict
variable {K V : Type}

def empty : Dict K V := ⟨[], List.nodup_nil⟩

def size (d : Dict K V) : Nat := d.entries.length

def isEmpty (d : Dict K V) : Bool := d.entries.isEmpty

def keys (d : Dict K V) : List K := d.entries.map Prod.fst

variable [DecidableEq K]

def get? (d : Dict K V) (k : K) : Option V :=
  (d.entries.find? fun e => decide (e.1 = k)).map Prod.snd

def contains (d : Dict K V) (k : K) : Bool := (d.get? k).isSome

def erase (d : Dict K V) (k : K) : Dict K V where
  entries := d.entries.filter fun e => decide (e.1 ≠ k)
  nodup := d.nodup.sublist (List.filter_sublist.map _)

theorem not_mem_keys_erase (d : Dict K V) (k : K) : k ∉ (d.erase k).keys := by
  simp [keys, erase]

def insert (d : Dict K V) (k : K) (v : V) : Dict K V where
  entries := (k, v) :: (d.erase k).entries
  nodup := List.nodup_cons.2 ⟨d.not_mem_keys_erase k, (d.erase k).nodup⟩

/-- Changes the value under a key, if there is one. -/
def modify (d : Dict K V) (k : K) (f : V → V) : Dict K V where
  entries := d.entries.map fun e => if e.1 = k then (e.1, f e.2) else e
  nodup := by
    have : (d.entries.map fun e => if e.1 = k then (e.1, f e.2) else e).map Prod.fst =
        d.entries.map Prod.fst := by
      rw [List.map_map]
      exact List.map_congr_left fun e _ => by simp only [Function.comp]; split <;> rfl
    rw [this]
    exact d.nodup

@[simp] theorem get?_empty (k : K) : (empty : Dict K V).get? k = none := rfl

theorem get?_erase (d : Dict K V) (k j : K) :
    (d.erase k).get? j = if k = j then none else d.get? j := by
  simp only [get?, erase, List.find?_filter]
  split
  · rename_i h
    subst h
    simp [List.find?_eq_none]
  · rename_i h
    congr 2
    funext e
    by_cases he : e.1 = j
    · simp [he, Ne.symm h]
    · simp [he]

theorem get?_insert (d : Dict K V) (k j : K) (v : V) :
    (d.insert k v).get? j = if k = j then some v else d.get? j := by
  by_cases h : k = j
  · simp [get?, insert, h]
  · have := get?_erase d k j
    simp only [get?, h, if_false] at this
    simp [get?, insert, h, this]

theorem get?_modify (d : Dict K V) (k j : K) (f : V → V) :
    (d.modify k f).get? j = if k = j then (d.get? j).map f else d.get? j := by
  obtain ⟨entries, nodup⟩ := d
  simp only [get?, modify]
  clear nodup
  induction entries with
  | nil => simp
  | cons e rest ih =>
    by_cases hk : e.1 = k <;> by_cases hj : e.1 = j <;> simp_all [eq_comm]

theorem get?_eq_some_iff (d : Dict K V) (k : K) (v : V) :
    d.get? k = some v ↔ (k, v) ∈ d.entries := by
  obtain ⟨entries, nodup⟩ := d
  simp only [get?]
  induction entries with
  | nil => simp
  | cons e rest ih =>
    obtain ⟨j, w⟩ := e
    simp only [List.map_cons, List.nodup_cons] at nodup
    by_cases hj : j = k
    · subst hj
      have : (j, v) ∉ rest := fun h => nodup.1 (List.mem_map_of_mem h)
      simp [this, eq_comm]
    · simp [hj, Ne.symm hj, ih nodup.2]

theorem mem_keys_iff (d : Dict K V) (k : K) : k ∈ d.keys ↔ (d.get? k).isSome = true := by
  simp [keys, get?]

end Dict
end BoundedCache
