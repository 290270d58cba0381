import BoundedCache.Proofs.Lfu.Kept
import BoundedCache.Proofs.Lfu.Verdict

/-! # No change of the table can break the ranking

A slot that the table leads to may be vacant, or hold the entry of another key. What an operation does
to it there leaves the buckets and their chain in order all the same, so the table is all that can be
wrong afterwards.
-/
namespace BoundedCache.Lfu
open Ranking

namespace Ranking
variable {K V : Type} {r : Ranking K V} {capacity i : Nat} {slots : Nat → List Nat}

theorem touch_of_vacant (hi : r.entryAt? i = none) : r.touch i = r := by
  rw [touch, Option.map_eq_none_iff.1 hi]

theorem remove_of_vacant (hi : r.entryAt? i = none) : r.remove i = (none, r) := by
  have hvacant : r.nodes.get? i = none := Option.map_eq_none_iff.1 hi
  have hunlink : r.unlink i = r := by rw [unlink, hvacant]
  rw [remove, hunlink, Slab.remove_of_vacant hvacant]
  rfl

namespace Intact

theorem exists_touch (h : Intact r capacity slots) (i : Nat) :
    ∃ slots', Intact (r.touch i) capacity slots' := by
  cases hi : r.entryAt? i with
  | none =>
    rw [touch_of_vacant hi]
    exact ⟨slots, h⟩
  | some a =>
    obtain ⟨f, hf⟩ := h.exists_freq hi
    exact ⟨_, h.touch hf⟩

theorem exists_remove (h : Intact r capacity slots) (i : Nat) :
    ∃ slots', Intact (r.remove i).2 capacity slots' := by
  cases hi : r.entryAt? i with
  | none =>
    rw [remove_of_vacant hi]
    exact ⟨slots, h⟩
  | some a => exact ⟨_, h.remove hi⟩

end Intact
end Ranking

variable {K V : Type} {e : Lfu K V} {capacity : Nat}

/-- An engine of a capacity with an intact ranking, whatever its table is. -/
structure Standing (capacity : Nat) (e : Lfu K V) : Prop where
  capacity_eq : e.capacity = capacity
  intact : ∃ slots, Intact e.ranking capacity slots

namespace Standing

theorem new (capacity : Nat) : Standing capacity (new capacity : Lfu K V) :=
  ⟨rfl, _, Intact.empty capacity⟩

theorem setTable (h : Standing capacity e) (table : Dict K Nat) :
    Standing capacity { e with table } :=
  ⟨h.capacity_eq, h.intact⟩

theorem touch (h : Standing capacity e) (i : Nat) :
    Standing capacity { e with ranking := e.ranking.touch i } := by
  obtain ⟨slots, hintact⟩ := h.intact
  exact ⟨h.capacity_eq, hintact.exists_touch i⟩

theorem setValue (h : Standing capacity e) (i : Nat) (v : V) :
    Standing capacity { e with ranking := e.ranking.setValue i v } := by
  obtain ⟨slots, hintact⟩ := h.intact
  exact ⟨h.capacity_eq, _, hintact.setValue i v⟩

end Standing

variable [DecidableEq K]

namespace Standing

theorem without (h : Standing capacity e) (i : Nat) (a : Entry K V) :
    Standing capacity (e.without i a) := by
  obtain ⟨slots, hintact⟩ := h.intact
  exact ⟨h.capacity_eq, hintact.exists_remove i⟩

theorem detach (h : Standing capacity e) (i : Nat) : Standing capacity (e.detach i).2 := by
  cases hi : e.ranking.entryAt? i with
  | none =>
    rw [Lfu.detach, remove_of_vacant hi]
    exact h
  | some a =>
    rw [detach_eq hi]
    exact h.without i a

/-- Room is made even if no key leads to the entry that goes. -/
theorem size_roomy_lt (h : Standing capacity e) (hc : e.capacity ≠ 0) : (roomy e).size < capacity := by
  obtain ⟨rfl, slots, hintact⟩ := h
  rcases hintact.roomy_cases hc with ⟨hlt, heq⟩ | ⟨-, i, a, -, hi, heq⟩
  · rwa [heq]
  · have hsize : (e.without i a).size + 1 = e.size := size_remove hintact.wellFormed hi
    have hle : e.size ≤ e.capacity := hintact.size_le
    rw [heq]
    omega

theorem withNew (h : Standing capacity e) (room : e.size < capacity) (a : Entry K V) :
    Standing capacity (e.withNew a) := by
  obtain ⟨slots, hintact⟩ := h.intact
  exact ⟨h.capacity_eq, _, hintact.insert room a⟩

theorem kept (capacity : Nat) : Kept (Standing capacity : Lfu K V → Prop) (Standing capacity) where
  detach h i := h.detach i
  setValue h i v := h.setValue i v
  weaken h := h
  touch h i := h.touch i
  store h hroomy hc a := hroomy.withNew (h.size_roomy_lt hc) a
  clear {e} h := h.capacity_eq ▸ new e.capacity

theorem applyAll (h : Standing capacity e) (events : List (Event K V)) :
    ∃ e', (Engine.lfu e).applyAll events = .lfu e' ∧ Standing capacity e' :=
  Kept.applyAll (P := fun _ => Standing capacity) (fun _ => kept capacity)
    (fun h table => h.setTable table) h events

end Standing

/-- Whatever is done to the table between the requests, the ranking stays in order: the buckets are
chained upwards from the lowest frequency, there and back, none of them is empty, each files the slots
of its frequency, none twice and all that are occupied, and these are no more than the capacity. The
check finds no fault exactly if the table still leads to the slots of the keys. -/
theorem applyAll_intact (capacity : Nat) (events : List (Event K V)) :
    ∃ e fs slots, (Engine.new .lfu capacity : Engine K V).applyAll events = .lfu e ∧
      Chained e.ranking fs ∧ (∀ f, f ∈ fs ↔ slots f ≠ []) ∧ Filed e.ranking slots ∧
      (∀ f g i, i ∈ slots f → i ∈ slots g → f = g) ∧
      (∀ i, (∃ f, i ∈ slots f) ↔ (e.ranking.entryAt? i).isSome) ∧ e.size ≤ capacity ∧
      (e.check = .ok () ↔ Tracks e.table e.ranking.entryAt?) := by
  have hstart : Standing capacity (new capacity : Lfu K V) := .new capacity
  obtain ⟨e, he, rfl, slots, h⟩ := hstart.applyAll events
  obtain ⟨fs, hchained, hmem⟩ := h.ranked.chained
  refine ⟨e, fs, slots, he, hchained, hmem, h.ranked.filed, fun _ _ _ => h.ranked.filed.unique,
    h.mem_iff, h.size_le, ?_⟩
  have counted := h.wellFormed.size_eq
  rw [check_eq_ok_iff counted]
  constructor
  · rintro ⟨fs, slots, hchecked⟩
    exact hchecked.tracks counted
  · intro htracks
    obtain ⟨fs, hchecked⟩ := (h.inv htracks).checked
    exact ⟨fs, slots, hchecked⟩

/-- A removal through a key that was led to the slot of another one. -/
example :
    let events : List (Event Nat Nat) :=
      [.request (.put 1 10 (.ofSecs 5) .origin), .bind 2 0, .request (.remove 2)]
    ((Engine.new .lfu 2).applyAll events).check = .error (.lfu (.tableCount 1 0)) := by
  rfl

end BoundedCache.Lfu
