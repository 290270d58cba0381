import BoundedCache.Proofs.Engine.Changes
import Mathlib.Data.List.Infix

/-! # Slots are used again, and an entry never leaves its slot

An entry takes a vacant slot before a new one, and room is made before it is taken. So there are as
many slots as were ever needed at one time, and none that holds an entry is given to another key.
-/
namespace BoundedCache.Engine
variable {K V : Type} [DecidableEq K] {e e' : Engine K V} {r : Request K V} {a : Entry K V}
  {i : Nat} {k : K}

/-- The most entries that the engine has held at one time since it was last cleared, given how many
these were before the requests. -/
def peak (e : Engine K V) (most : Nat) : List (Request K V) → Nat
  | [] => most
  | .clear :: rest => e.clear.peak 0 rest
  | r :: rest => (e.step r).2.peak (max most (e.step r).2.size) rest

/-- The slot of a key, and when and for how long its entry was stored. -/
def home? (e : Engine K V) (k : K) : Option (Nat × Instant × Duration) :=
  (e.table.get? k).bind fun i => (e.entryAt? i).map fun a => (i, a.createdAt, a.ttl)

namespace Sound

theorem slotCount_le_capacity (h : e.Sound) : e.slotCount ≤ e.capacity + e.firstSlot := by
  cases e with
  | lru e =>
    obtain ⟨is, h⟩ := h
    exact h.slotCount_le
  | lfu e =>
    obtain ⟨slots, h⟩ := h
    exact h.slotCount_le

theorem size_withNew (h : e.Sound) (hk : e.table.get? a.key = none) (room : e.size < e.capacity) :
    (e.withNew a).size = e.size + 1 := by
  cases e with
  | lru e =>
    obtain ⟨is, h⟩ := h
    have hsize := (h.withNew hk (h.size_eq ▸ room)).size_eq
    rw [List.length_cons, ← h.size_eq] at hsize
    exact hsize
  | lfu e => exact (Lfu.Ranking.alike_insert e.ranking a).size.trans (Slab.size_insert ..)

/-- There is a new slot for the new entry only if all slots are taken. -/
theorem slotCount_withNew_eq (h : e.Sound) (hk : e.table.get? a.key = none)
    (room : e.size < e.capacity) :
    (e.withNew a).slotCount = max e.slotCount ((e.withNew a).firstSlot + (e.withNew a).size) := by
  have hold := h.firstSlot_add_size_le
  have hnew := (h.withNew hk room).firstSlot_add_size_le
  have hsize := h.size_withNew hk room
  have hcount := h.slotCount_withNew a
  have hle : (e.withNew a).slotCount ≤ max (e.slotCount - e.firstSlot) (e.size + 1) + e.firstSlot :=
    h.slotCount_withNew_le (by omega) (by omega) a
  rw [firstSlot_withNew] at hnew ⊢
  omega

end Sound

/-- There are new slots only when more entries are held than ever before. -/
theorem Change.slotCount_eq (hchange : Change e r e') (h : e.Sound) (hr : r ≠ .clear) :
    e'.slotCount = max e.slotCount (e'.firstSlot + e'.size) := by
  have hle := (hchange.sound h).firstSlot_add_size_le
  cases hchange with
  | cleared asked => exact absurd asked hr
  | swept left => rw [← left.slotCount_eq, Nat.max_eq_left hle]
  | @used i _ held =>
    have hcount := e.slotCount_used i
    rw [← hcount, Nat.max_eq_left hle, hcount]
  | @overwritten i _ held v =>
    have hcount := e.slotCount_overwritten i v
    rw [← hcount, Nat.max_eq_left hle, hcount]
  | added asked left fresh room =>
    rw [left.sound.slotCount_withNew_eq (left.table_eq_none h fresh) room, left.slotCount_eq]

/-! ## Runs -/

theorem firstSlot_step (e : Engine K V) (r : Request K V) : (e.step r).2.firstSlot = e.firstSlot := by
  cases e <;> cases r <;> rfl

theorem firstSlot_run (e : Engine K V) (requests : List (Request K V)) :
    (e.run requests).2.firstSlot = e.firstSlot := by
  induction requests generalizing e with
  | nil => rfl
  | cons r rest ih =>
    rw [run_cons]
    exact (ih _).trans (e.firstSlot_step r)

theorem peak_cons {r : Request K V} (hr : r ≠ .clear) (e : Engine K V) (most : Nat)
    (rest : List (Request K V)) :
    e.peak most (r :: rest) = (e.step r).2.peak (max most (e.step r).2.size) rest := by
  rw [peak]
  exact hr

namespace Sound

theorem slotCount_run (h : e.Sound) {most : Nat} (hmost : e.slotCount = e.firstSlot + most)
    (requests : List (Request K V)) :
    (e.run requests).2.slotCount = e.firstSlot + e.peak most requests := by
  induction requests generalizing e most with
  | nil => exact hmost
  | cons r rest ih =>
    rw [run_cons]
    have hsound : (e.step r).2.Sound := h.sound_step r
    have hfirst := e.firstSlot_step r
    by_cases hr : r = .clear
    · subst hr
      have hcleared : e.clear.slotCount = e.clear.firstSlot + 0 := by
        rw [clear_eq, slotCount_new, Nat.add_zero]
      rw [peak, ← hfirst]
      exact ih hsound hcleared
    · have hgrown := (h.change_step r).slotCount_eq h hr
      rw [peak_cons hr, ← hfirst]
      apply ih hsound
      omega

theorem home?_eq (h : e.Sound) (hi : e.entryAt? i = some a) :
    e.home? a.key = some (i, a.createdAt, a.ttl) := by
  rw [home?, h.tracks.get?_key hi, Option.bind_some, hi, Option.map_some]

theorem exists_of_contains (h : e.Sound) (hk : e.contains k = true) :
    ∃ i a, e.entryAt? i = some a ∧ a.key = k := by
  rw [contains_eq_isSome, Option.isSome_iff_exists] at hk
  obtain ⟨i, hget⟩ := hk
  exact ⟨i, h.tracks.exists_entry hget⟩

/-- A key that is tracked before and after a request is where it was. -/
theorem home?_step (h : e.Sound) (r : Request K V) (hk : e.contains k = true)
    (hk' : (e.step r).2.contains k = true) : (e.step r).2.home? k = e.home? k := by
  have hsound : (e.step r).2.Sound := h.sound_step r
  obtain ⟨i, b, hb, rfl⟩ := hsound.exists_of_contains hk'
  obtain ⟨a, ha, hab⟩ := (h.change_step r).stays hb hk
  rw [hsound.home?_eq hb, hab]
  exact (h.home?_eq ha).symm

theorem home?_run (h : e.Sound) (requests : List (Request K V))
    (stays : ∀ done, done <+: requests → (e.run done).2.contains k = true) :
    (e.run requests).2.home? k = e.home? k := by
  induction requests generalizing e with
  | nil => rfl
  | cons r rest ih =>
    have hsound : (e.step r).2.Sound := h.sound_step r
    have hstart := stays [] List.nil_prefix
    have hstep := stays [r] ⟨rest, rfl⟩
    rw [run_cons]
    refine (ih hsound fun done hdone => ?_).trans (h.home?_step r hstart hstep)
    exact stays (r :: done) ((List.prefix_cons_inj r).2 hdone)

theorem exists_home (h : e.Sound) (hk : e.contains k = true) : ∃ home, e.home? k = some home := by
  obtain ⟨i, a, ha, rfl⟩ := h.exists_of_contains hk
  exact ⟨_, h.home?_eq ha⟩

end Sound

/-- After every run there are as many slots for entries as entries were held at one time since the
last clear, so no more than the capacity. A key that stays tracked from a moment of the run on is in
the slot where it was then, stored at the same time and for as long. -/
theorem run_slots (policy : Policy) (capacity : Nat) (requests : List (Request K V)) :
    let start : Engine K V := new policy capacity
    let e := (start.run requests).2
    e.slotCount = start.firstSlot + start.peak 0 requests ∧
      e.slotCount ≤ start.firstSlot + capacity ∧
      ∀ k before after, requests = before ++ after →
        (∀ done, done <+: after → (start.run (before ++ done)).2.contains k = true) →
        ∃ home, (start.run before).2.home? k = some home ∧ e.home? k = some home := by
  intro start e
  have h : start.Sound := .new policy capacity
  obtain ⟨hsound, hkind⟩ := h.sound_run requests
  have hcapacity : e.capacity = start.capacity := congrArg Prod.snd hkind
  have hcount : e.slotCount = start.firstSlot + start.peak 0 requests :=
    h.slotCount_run (slotCount_new policy capacity) requests
  refine ⟨hcount, ?_, ?_⟩
  · have hle : e.slotCount ≤ e.capacity + e.firstSlot := hsound.slotCount_le_capacity
    rw [hcapacity, capacity_new, start.firstSlot_run requests, Nat.add_comm] at hle
    exact hle
  · rintro k before after rfl hstays
    have hbefore : (start.run before).2.Sound := (h.sound_run before).1
    have htracked : ∀ done, done <+: after →
        ((start.run before).2.run done).2.contains k = true := by
      intro done hdone
      rw [← congrArg Prod.snd (start.run_append before done)]
      exact hstays done hdone
    obtain ⟨home, hhome⟩ := hbefore.exists_home (htracked [] List.nil_prefix)
    refine ⟨home, hhome, ?_⟩
    have hrun := hbefore.home?_run after htracked
    rw [← hhome, ← hrun]
    exact congrArg (fun run => run.2.home? k) (start.run_append before after)

/-- Three entries that are cleared, and then a slot that a second key takes over while the key in
another slot is written to. -/
theorem run_slots_cleared :
    let before : List (Request Nat Nat) :=
      [.put 4 40 .zero .origin, .put 5 50 .zero .origin, .put 6 60 .zero .origin, .clear,
        .put 1 10 (.ofSecs 5) .origin, .put 2 20 (.ofSecs 5) .origin]
    let after : List (Request Nat Nat) :=
      [.remove 1, .put 3 30 (.ofSecs 9) (.ofMillis 3000), .put 2 21 (.ofSecs 9) (.ofMillis 4000)]
    let start : Engine Nat Nat := new .lru 3
    let e := (start.run (before ++ after)).2
    (∀ done, done <+: after → (start.run (before ++ done)).2.contains 2 = true) ∧
      e.slotCount = 2 + start.peak 0 (before ++ after) ∧ e.slotCount ≤ 2 + 3 ∧
      ∃ home, (start.run before).2.home? 2 = some home ∧ e.home? 2 = some home := by
  intro before after start e
  have htracked : ∀ done ∈ after.inits, (start.run (before ++ done)).2.contains 2 = true := by decide
  have hstays : ∀ done, done <+: after → (start.run (before ++ done)).2.contains 2 = true :=
    fun done hdone => htracked done ((List.mem_inits done after).2 hdone)
  obtain ⟨hcount, hle, hhome⟩ := run_slots .lru 3 (before ++ after)
  exact ⟨hstays, hcount, hle, hhome 2 before after rfl hstays⟩

end BoundedCache.Engine
