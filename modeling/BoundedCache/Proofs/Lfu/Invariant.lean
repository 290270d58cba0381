import BoundedCache.Lfu.Basic
import BoundedCache.Proofs.Lfu.Ranked

/-! # What every operation on a least frequently used engine keeps -/
namespace BoundedCache.Lfu
open Ranking
variable {K V : Type} {r : Ranking K V} {i : Nat} {a : Entry K V}

/-! ## The entries of a ranking -/

namespace Ranking

theorem entryAt?_setValue (r : Ranking K V) (i : Nat) (v : V) (j : Nat) :
    (r.setValue i v).entryAt? j =
      if i = j then (r.entryAt? j).map fun a => { a with value := v } else r.entryAt? j := by
  simp only [entryAt?, setValue, modifyNode, Slab.get?_modify]
  split
  · rw [Option.map_map, Option.map_map]
    rfl
  · rfl

theorem entryAt?_touch (r : Ranking K V) (i j : Nat) : (r.touch i).entryAt? j = r.entryAt? j :=
  (alike_touch r i).view_eq j

theorem entryAt?_remove (r : Ranking K V) (i j : Nat) :
    (r.remove i).2.entryAt? j = if i = j then none else r.entryAt? j := by
  have halike := (alike_unlink linkless_entry r i).view_eq j
  simp only [remove, entryAt?, Slab.get?_remove]
  split
  · rfl
  · exact halike

theorem fst_remove (r : Ranking K V) (i : Nat) : (r.remove i).1 = r.entryAt? i := by
  simp only [remove, Slab.fst_remove]
  exact (alike_unlink linkless_entry r i).view_eq i

theorem wellFormed_remove (h : r.nodes.WellFormed) (i : Nat) : (r.remove i).2.nodes.WellFormed :=
  ((alike_unlink linkless_entry r i).wellFormed h).remove i

@[simp] theorem slotCount_remove (r : Ranking K V) (i : Nat) :
    (r.remove i).2.nodes.slotCount = r.nodes.slotCount := by
  simp only [remove, Slab.slotCount_remove]
  exact (alike_unlink linkless_entry r i).slotCount

theorem size_remove (h : r.nodes.WellFormed) (hi : r.entryAt? i = some a) :
    (r.remove i).2.nodes.size + 1 = r.nodes.size := by
  have halike := alike_unlink linkless_entry r i
  have hview := halike.view_eq i
  rw [show (r.nodes.get? i).map Node.entry = some a from hi, Option.map_eq_some_iff] at hview
  obtain ⟨node, hnode, -⟩ := hview
  rw [← halike.size]
  exact (halike.wellFormed h).size_remove hnode

theorem alike_insert (r : Ranking K V) (a : Entry K V) :
    Slab.Alike Node.entry (r.nodes.insert { entry := a, freq := 1 }).2 (r.insert a).2.nodes := by
  simp only [Ranking.insert]
  refine Slab.Alike.trans ?_ (alike_pushBack ..)
  rw [nodes_linkBucket]
  exact Slab.Alike.refl ..

theorem fst_insert (r : Ranking K V) (a : Entry K V) : (r.insert a).1 = r.nodes.nextSlot :=
  Slab.fst_insert ..

theorem entryAt?_insert (h : r.nodes.WellFormed) (a : Entry K V) (j : Nat) :
    (r.insert a).2.entryAt? j = if r.nodes.nextSlot = j then some a else r.entryAt? j := by
  have halike := (alike_insert r a).view_eq j
  rw [h.get?_insert] at halike
  rw [entryAt?, halike]
  split <;> rfl

end Ranking

/-! ## What the table has no part in -/

variable {capacity f : Nat} {slots : Nat → List Nat}

/-- The ranking files exactly the occupied slots, and there are not too many. -/
structure Ranking.Intact (r : Ranking K V) (capacity : Nat) (slots : Nat → List Nat) : Prop where
  wellFormed : r.nodes.WellFormed
  ranked : Ranked r slots
  mem_iff : ∀ i, (∃ f, i ∈ slots f) ↔ (r.entryAt? i).isSome
  size_le : r.nodes.size ≤ capacity
  slotCount_le : r.nodes.slotCount ≤ capacity

namespace Ranking.Intact

theorem exists_freq (h : Intact r capacity slots) (hi : r.entryAt? i = some a) : ∃ f, i ∈ slots f :=
  (h.mem_iff i).2 (by simp [hi])

theorem exists_entry (h : Intact r capacity slots) (hi : i ∈ slots f) :
    ∃ a, r.entryAt? i = some a :=
  Option.isSome_iff_exists.1 ((h.mem_iff i).1 ⟨f, hi⟩)

theorem empty (capacity : Nat) : Intact (Ranking.empty : Ranking K V) capacity fun _ => [] where
  wellFormed := Slab.wellFormed_empty
  ranked := ranked_empty
  mem_iff i := by simp [Ranking.entryAt?, Ranking.empty, Slab.get?, Slab.empty]
  size_le := Nat.zero_le _
  slotCount_le := Nat.zero_le _

theorem remove (h : Intact r capacity slots) (hi : r.entryAt? i = some a) :
    Intact (r.remove i).2 capacity (dropped slots i) := by
  obtain ⟨f, hf⟩ := h.exists_freq hi
  refine ⟨wellFormed_remove h.wellFormed i, h.ranked.remove hf, fun j => ?_, ?_, ?_⟩
  · simp only [entryAt?_remove, mem_dropped]
    by_cases hij : i = j
    · simp [hij]
    · rw [if_neg hij, ← h.mem_iff]
      simp [Ne.symm hij]
  · have hsize := size_remove h.wellFormed hi
    exact Nat.le_trans (Nat.le_of_lt (by omega)) h.size_le
  · rw [slotCount_remove]
    exact h.slotCount_le

theorem insert (h : Intact r capacity slots) (room : r.nodes.size < capacity) (a : Entry K V) :
    Intact (r.insert a).2 capacity (appended slots 1 r.nodes.nextSlot) := by
  have halike := alike_insert r a
  refine ⟨halike.wellFormed (h.wellFormed.insert _), h.ranked.insert h.wellFormed a, fun j => ?_,
    ?_, ?_⟩
  · simp only [entryAt?_insert h.wellFormed, mem_appended]
    by_cases hj : r.nodes.nextSlot = j
    · simp [hj]
    · rw [if_neg hj, ← h.mem_iff]
      simp [Ne.symm hj]
  · rw [halike.size, Slab.size_insert]
    exact room
  · rw [halike.slotCount]
    exact h.wellFormed.slotCount_insert_le h.slotCount_le room _

/-- A use moves a slot to the next frequency. -/
theorem touch (h : Intact r capacity slots) (hi : i ∈ slots f) :
    Intact (r.touch i) capacity (appended (dropped slots i) (f + 1) i) := by
  have halike := alike_touch r i
  refine ⟨halike.wellFormed h.wellFormed, h.ranked.touch hi, fun j => ?_, ?_, ?_⟩
  · simp only [entryAt?_touch, mem_appended, mem_dropped, ← h.mem_iff]
    by_cases hj : j = i
    · subst hj
      simp [show ∃ g, j ∈ slots g from ⟨f, hi⟩]
    · simp [hj]
  · exact Nat.le_trans (Nat.le_of_eq halike.size) h.size_le
  · exact Nat.le_trans (Nat.le_of_eq halike.slotCount) h.slotCount_le

theorem setValue (h : Intact r capacity slots) (i : Nat) (v : V) :
    Intact (r.setValue i v) capacity slots where
  wellFormed := h.wellFormed.modify ..
  ranked := h.ranked.setValue i v
  mem_iff j := by
    rw [h.mem_iff, entryAt?_setValue]
    split <;> simp
  size_le := by
    simp only [Ranking.setValue, modifyNode, Slab.size_modify]
    exact h.size_le
  slotCount_le := by
    simp only [Ranking.setValue, modifyNode, Slab.slotCount_modify]
    exact h.slotCount_le

end Ranking.Intact

/-! ## The invariant -/

variable [DecidableEq K] {e : Lfu K V} {k : K}

/-- The ranking files exactly the occupied slots, the table leads to them, and there are not too
many. -/
structure Inv (e : Lfu K V) (slots : Nat → List Nat) : Prop where
  wellFormed : e.ranking.nodes.WellFormed
  ranked : Ranked e.ranking slots
  mem_iff : ∀ i, (∃ f, i ∈ slots f) ↔ (e.ranking.entryAt? i).isSome
  tracks : Tracks e.table e.ranking.entryAt?
  size_le : e.size ≤ e.capacity
  slotCount_le : e.ranking.nodes.slotCount ≤ e.capacity

/-- The engine without the entry in a slot. -/
def without (e : Lfu K V) (i : Nat) (a : Entry K V) : Lfu K V :=
  { e with ranking := (e.ranking.remove i).2, table := e.table.erase a.key }

/-- The engine with a new entry of frequency one. -/
def withNew (e : Lfu K V) (a : Entry K V) : Lfu K V :=
  { e with
    ranking := (e.ranking.insert a).2
    table := e.table.insert a.key e.ranking.nodes.nextSlot }

theorem Ranking.Intact.inv (h : Intact e.ranking e.capacity slots)
    (tracks : Tracks e.table e.ranking.entryAt?) : Inv e slots :=
  ⟨h.wellFormed, h.ranked, h.mem_iff, tracks, h.size_le, h.slotCount_le⟩

namespace Inv

theorem intact (h : Inv e slots) : Intact e.ranking e.capacity slots :=
  ⟨h.wellFormed, h.ranked, h.mem_iff, h.size_le, h.slotCount_le⟩

theorem exists_freq (h : Inv e slots) (hi : e.ranking.entryAt? i = some a) : ∃ f, i ∈ slots f :=
  h.intact.exists_freq hi

theorem exists_entry (h : Inv e slots) (hi : i ∈ slots f) : ∃ a, e.ranking.entryAt? i = some a :=
  h.intact.exists_entry hi

theorem table_size_eq (h : Inv e slots) : e.table.size = e.size := by
  rw [h.tracks.size_eq_length e.ranking.nodes.nodup_held, h.wellFormed.length_held, size]
  intro i
  rw [Slab.mem_held, Ranking.entryAt?, Option.isSome_map]

theorem new (capacity : Nat) : Inv (new capacity : Lfu K V) fun _ => [] := by
  refine (Intact.empty capacity).inv fun k i => ?_
  simp [Lfu.new, Ranking.entryAt?, Ranking.empty, Slab.get?, Slab.empty]

theorem size_without (h : Inv e slots) (hi : e.ranking.entryAt? i = some a) :
    (e.without i a).size + 1 = e.size := size_remove h.wellFormed hi

theorem without (h : Inv e slots) (hi : e.ranking.entryAt? i = some a) :
    Inv (e.without i a) (dropped slots i) :=
  (h.intact.remove hi).inv (h.tracks.erase hi (e.ranking.entryAt?_remove i))

theorem withNew (h : Inv e slots) (hk : e.table.get? a.key = none) (room : e.size < e.capacity) :
    Inv (e.withNew a) (appended slots 1 e.ranking.nodes.nextSlot) := by
  have hnone : e.ranking.entryAt? e.ranking.nodes.nextSlot = none := by
    rw [Ranking.entryAt?, h.wellFormed.get?_nextSlot]
    rfl
  exact (h.intact.insert room a).inv (h.tracks.insert hnone hk (entryAt?_insert h.wellFormed a))

/-- A use moves a slot to the next frequency. -/
theorem touch (h : Inv e slots) (hi : i ∈ slots f) :
    Inv { e with ranking := e.ranking.touch i } (appended (dropped slots i) (f + 1) i) := by
  refine (h.intact.touch hi).inv (h.tracks.congr fun j => ?_)
  rw [entryAt?_touch]

theorem setValue (h : Inv e slots) (i : Nat) (v : V) :
    Inv { e with ranking := e.ranking.setValue i v } slots := by
  refine (h.intact.setValue i v).inv (h.tracks.congr fun j => ?_)
  rw [entryAt?_setValue]
  split <;> simp [Function.comp_def]

end Inv
end BoundedCache.Lfu
