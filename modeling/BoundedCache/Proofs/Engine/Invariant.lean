import BoundedCache.Engine.Run
import BoundedCache.Proofs.Lfu.Operations
import BoundedCache.Proofs.Lru.Operations

/-! # What is true of a sound engine, whatever its policy -/
namespace BoundedCache

namespace Engine
variable {K V : Type} [DecidableEq K] {e e' e'' : Engine K V} {i : Nat} {k : K} {a : Entry K V}

/-- The entry under a key. -/
def find? (e : Engine K V) (k : K) : Option (Entry K V) := (e.table.get? k).bind e.entryAt?

/-- The links, the table and the sizes of an engine agree. -/
def Sound : Engine K V → Prop
  | lru e => ∃ is, Lru.Inv e is
  | lfu e => ∃ slots, Lfu.Inv e slots

namespace Sound

theorem new (policy : Policy) (capacity : Nat) : (new policy capacity : Engine K V).Sound := by
  cases policy with
  | lru => exact ⟨_, Lru.Inv.new capacity⟩
  | lfu => exact ⟨_, Lfu.Inv.new capacity⟩

theorem tracks (h : e.Sound) : Tracks e.table e.entryAt? := by
  cases e with
  | lru e =>
    obtain ⟨is, h⟩ := h
    exact h.tracks
  | lfu e =>
    obtain ⟨slots, h⟩ := h
    exact h.tracks

theorem size_le (h : e.Sound) : e.size ≤ e.capacity := by
  cases e with
  | lru e =>
    obtain ⟨is, h⟩ := h
    exact Nat.le_trans (Nat.le_of_eq h.size_eq) h.length_le
  | lfu e =>
    obtain ⟨slots, h⟩ := h
    exact h.size_le

theorem table_size_eq (h : e.Sound) : e.table.size = e.size := by
  cases e with
  | lru e =>
    obtain ⟨is, h⟩ := h
    exact h.table_size_eq.trans h.size_eq.symm
  | lfu e =>
    obtain ⟨slots, h⟩ := h
    exact h.table_size_eq

theorem slotCount_le (h : e.Sound) : e.slotCount ≤ e.capacity + Lru.sentinels := by
  cases e with
  | lru e =>
    obtain ⟨is, h⟩ := h
    exact h.slotCount_le
  | lfu e =>
    obtain ⟨slots, h⟩ := h
    exact Nat.le_add_right_of_le h.slotCount_le

end Sound

omit [DecidableEq K] in
theorem slotCount_new_le (policy : Policy) (capacity : Nat) :
    (new policy capacity : Engine K V).slotCount ≤ Lru.sentinels := by
  cases policy with
  | lru => exact Nat.le_refl _
  | lfu => exact Nat.zero_le _

omit [DecidableEq K] in
theorem policy_new (policy : Policy) (capacity : Nat) :
    (new policy capacity : Engine K V).policy = policy := by
  cases policy <;> rfl

omit [DecidableEq K] in
theorem capacity_new (policy : Policy) (capacity : Nat) :
    (new policy capacity : Engine K V).capacity = capacity := by
  cases policy <;> rfl

omit [DecidableEq K] in
theorem clear_eq (e : Engine K V) : e.clear = new e.policy e.capacity := by
  cases e <;> rfl

omit [DecidableEq K] in
theorem table_new (policy : Policy) (capacity : Nat) :
    (new policy capacity : Engine K V).table = .empty := by
  cases policy <;> rfl

theorem entryAt?_new (policy : Policy) (capacity i : Nat) :
    (new policy capacity : Engine K V).entryAt? i = none := by
  cases hi : (new policy capacity : Engine K V).entryAt? i with
  | none => rfl
  | some a =>
    have hkey := (Sound.new policy capacity).tracks.get?_key hi
    rw [table_new, Dict.get?_empty] at hkey
    cases hkey

theorem exists_slot (hk : e.find? k = some a) :
    ∃ i, e.table.get? k = some i ∧ e.entryAt? i = some a :=
  Option.bind_eq_some_iff.1 hk

/-! ## What reads, removals and the table tell of a key -/

/-- The engine without the entry in a slot. -/
def without (e : Engine K V) (i : Nat) (a : Entry K V) : Engine K V :=
  match e with
  | lru e => lru (e.without i a)
  | lfu e => lfu (e.without i a)

/-- The engine after one more use of the entry in a slot. -/
def used (e : Engine K V) (i : Nat) : Engine K V :=
  match e with
  | lru e => lru { e with queue := e.queue.moveToFront i }
  | lfu e => lfu { e with ranking := e.ranking.touch i }

theorem entryAt?_without (e : Engine K V) (i : Nat) (a : Entry K V) (j : Nat) :
    (e.without i a).entryAt? j = if i = j then none else e.entryAt? j := by
  cases e with
  | lru e => exact Lru.entryAt?_without e i a j
  | lfu e => exact e.ranking.entryAt?_remove i j

omit [DecidableEq K] in
theorem entryAt?_used (e : Engine K V) (i j : Nat) : (e.used i).entryAt? j = e.entryAt? j := by
  cases e with
  | lru e => exact (Lru.Queue.SameContents.moveToFront e.queue i).entryAt? j
  | lfu e => exact e.ranking.entryAt?_touch i j

/-- What no operation changes. -/
def kind (e : Engine K V) : Policy × Nat := (e.policy, e.capacity)

theorem kind_without (e : Engine K V) (i : Nat) (a : Entry K V) : (e.without i a).kind = e.kind := by
  cases e <;> rfl

omit [DecidableEq K] in
theorem kind_used (e : Engine K V) (i : Nat) : (e.used i).kind = e.kind := by
  cases e <;> rfl

theorem get_absent (hk : e.table.get? k = none) (now : Instant) :
    e.get k now = (.error .absent, e) := by
  cases e with
  | lru e => exact congrArg (Prod.map id lru) (Lru.Inv.get_absent hk)
  | lfu e => exact congrArg (Prod.map id lfu) (Lfu.get_absent hk)

theorem remove_absent (hk : e.table.get? k = none) : e.remove k = (none, e) := by
  cases e with
  | lru e => exact congrArg (Prod.map id lru) (Lru.Inv.remove_absent hk)
  | lfu e => exact congrArg (Prod.map id lfu) (Lfu.remove_absent hk)

namespace Sound

theorem contains_eq (h : e.Sound) (k : K) : e.contains k = (e.find? k).isSome := by
  rw [contains_eq_isSome, find?]
  cases hk : e.table.get? k with
  | none => rfl
  | some i =>
    obtain ⟨a, ha, -⟩ := h.tracks.exists_entry hk
    rw [Option.bind_some, ha]
    rfl

theorem table_eq_none (h : e.Sound) (hk : e.find? k = none) : e.table.get? k = none := by
  cases htable : e.table.get? k with
  | none => rfl
  | some i =>
    obtain ⟨a, ha, -⟩ := h.tracks.exists_entry htable
    rw [find?, htable, Option.bind_some, ha] at hk
    cases hk

theorem get_of_slot (h : e.Sound) (hk : e.table.get? k = some i) (hi : e.entryAt? i = some a)
    (now : Instant) :
    e.get k now =
      if a.isExpired now then (.error .expired, e.without i a) else (.ok a.value, e.used i) := by
  cases e with
  | lru e =>
    obtain ⟨is, h⟩ := h
    cases hx : a.isExpired now with
    | true => exact congrArg (Prod.map id lru) (h.get_expired hk hi hx)
    | false => exact congrArg (Prod.map id lru) (Lru.Inv.get_live hk hi hx)
  | lfu e =>
    cases hx : a.isExpired now with
    | true => exact congrArg (Prod.map id lfu) (Lfu.get_expired hk hi hx)
    | false => exact congrArg (Prod.map id lfu) (Lfu.get_live hk hi hx)

theorem remove_of_slot (h : e.Sound) (hk : e.table.get? k = some i) (hi : e.entryAt? i = some a) :
    e.remove k = (some a.value, e.without i a) := by
  cases e with
  | lru e =>
    obtain ⟨is, h⟩ := h
    exact congrArg (Prod.map id lru) (h.remove_tracked hk hi)
  | lfu e => exact congrArg (Prod.map id lfu) (Lfu.remove_tracked hk hi)

theorem get_untracked (h : e.Sound) (hk : e.find? k = none) (now : Instant) :
    (e.get k now).1 = .error .absent := by
  rw [get_absent (h.table_eq_none hk)]

theorem get_tracked (h : e.Sound) (hk : e.find? k = some a) (now : Instant) :
    (e.get k now).1 = if a.isExpired now then .error .expired else .ok a.value := by
  obtain ⟨i, htable, hi⟩ := exists_slot hk
  rw [h.get_of_slot htable hi]
  split <;> rfl

theorem remove_eq (h : e.Sound) (k : K) : (e.remove k).1 = (e.find? k).map Entry.value := by
  cases hk : e.find? k with
  | none =>
    rw [remove_absent (h.table_eq_none hk)]
    rfl
  | some a =>
    obtain ⟨i, htable, hi⟩ := exists_slot hk
    rw [h.remove_of_slot htable hi]
    rfl

end Sound

/-! ## Sweeps -/

omit [DecidableEq K] in
theorem lt_slotCount {i : Nat} (hi : e.entryAt? i = some a) : i < e.slotCount := by
  cases e with
  | lru e => exact Lru.Inv.lt_slotCount hi
  | lfu e => exact Lfu.lt_slotCount hi

/-- The next batch goes on from where this one stopped, if that is not the end of the slots. -/
theorem next?_sweep_stop (e : Engine K V) (cursor budget : Nat) (now : Instant) :
    (e.sweep cursor budget now).1.next? =
      if Sweep.stop cursor budget e.slotCount < e.slotCount then
        some (Sweep.stop cursor budget e.slotCount) else none := by
  cases e <;> rfl

/-- The next batch goes on from where the budget of this one ended, if a slot is there. -/
theorem next?_sweep (fits : e.slotCount ≤ Word.max) (cursor budget : Nat) (now : Instant) :
    (e.sweep cursor budget now).1.next? =
      if cursor + budget < e.slotCount then some (cursor + budget) else none := by
  have hstop : Sweep.stop cursor budget e.slotCount = min (cursor + budget) e.slotCount := by
    rw [Sweep.stop, Word.saturatingAdd]
    omega
  rw [next?_sweep_stop, hstop]
  by_cases hlt : cursor + budget < e.slotCount
  · rw [Nat.min_eq_left (Nat.le_of_lt hlt)]
  · rw [Nat.min_eq_right (Nat.le_of_not_lt hlt), if_neg (Nat.lt_irrefl _), if_neg hlt]

/-- An engine without the entries in some slots. -/
structure Swept (e : Engine K V) (gone : Nat → Bool) (e' : Engine K V) : Prop where
  sound : e'.Sound
  entryAt?_eq : ∀ j, e'.entryAt? j = if gone j then none else e.entryAt? j
  capacity_eq : e'.capacity = e.capacity
  slotCount_eq : e'.slotCount = e.slotCount

namespace Swept
variable {gone gone' : Nat → Bool}

theorem refl (h : e.Sound) : Swept e (fun _ => false) e := ⟨h, fun _ => rfl, rfl, rfl⟩

theorem trans (hswept : Swept e gone e') (hswept' : Swept e' gone' e'') :
    Swept e (fun i => gone i || gone' i) e'' where
  sound := hswept'.sound
  entryAt?_eq j := by
    rw [hswept'.entryAt?_eq, hswept.entryAt?_eq]
    cases gone j <;> simp
  capacity_eq := hswept'.capacity_eq.trans hswept.capacity_eq
  slotCount_eq := hswept'.slotCount_eq.trans hswept.slotCount_eq

/-- The table leads to the slots that are left. -/
theorem table_eq (hswept : Swept e gone e') (h : e.Sound) (k : K) :
    e'.table.get? k = (e.table.get? k).filter fun i => !gone i :=
  h.tracks.get?_of_gone hswept.sound.tracks hswept.entryAt?_eq k

theorem table_eq_none (hswept : Swept e gone e') (h : e.Sound) (hk : e.table.get? k = none) :
    e'.table.get? k = none := by
  rw [hswept.table_eq h, hk, Option.filter_none]

/-- What is left was there before. -/
theorem entryAt?_of_eq_some (hswept : Swept e gone e') (hi : e'.entryAt? i = some a) :
    e.entryAt? i = some a := by
  rw [hswept.entryAt?_eq] at hi
  split at hi
  · cases hi
  · exact hi

end Swept

/-- An entry stays under its key unless its slot is swept. -/
theorem Swept.find?_eq {gone : Nat → Bool} (h : e.Sound) (hswept : Swept e gone e')
    (hk : e.find? k = some a) (left : ∀ i, e.entryAt? i = some a → gone i = false) :
    e'.find? k = some a := by
  obtain ⟨i, htable, hi⟩ := exists_slot hk
  have hi' : e'.entryAt? i = some a := by
    rw [hswept.entryAt?_eq, left i hi]
    exact hi
  have hkey : a.key = k := (h.tracks.key_eq_iff htable hi).2 rfl
  rw [find?, ← hkey, hswept.sound.tracks.get?_key hi', Option.bind_some, hi']

namespace Sound

/-- A batch removes the expired entries in the slots from its cursor on that its budget covers. -/
theorem sweep (h : e.Sound) (cursor budget : Nat) (now : Instant) :
    Swept e (Sweep.doomed e.entryAt? now (Sweep.covers cursor budget))
      (e.sweep cursor budget now).2 := by
  cases e with
  | lru e =>
    obtain ⟨is, h⟩ := h
    have hswept := h.sweep cursor budget now
    exact ⟨⟨_, hswept.inv⟩, hswept.entryAt?_eq, hswept.capacity_eq, hswept.slotCount_eq⟩
  | lfu e =>
    obtain ⟨slots, h⟩ := h
    have hswept := h.sweep cursor budget now
    exact ⟨⟨_, hswept.inv⟩, hswept.entryAt?_eq, hswept.capacity_eq, hswept.slotCount_eq⟩

/-- A batch counts the entries that it removes. -/
theorem removed_add_size_sweep (h : e.Sound) (cursor budget : Nat) (now : Instant) :
    (e.sweep cursor budget now).1.removed + (e.sweep cursor budget now).2.size = e.size := by
  cases e with
  | lru e =>
    obtain ⟨is, h⟩ := h
    exact (h.sweep cursor budget now).size_eq
  | lfu e =>
    obtain ⟨slots, h⟩ := h
    exact (h.sweep cursor budget now).size_eq

/-- A pass over an arena that words can count removes every expired entry. -/
theorem purge (h : e.Sound) (hcount : e.slotCount ≤ Word.max) (now : Instant) :
    Swept e (Sweep.doomed e.entryAt? now fun _ => true) (e.purge now).2 := by
  cases e with
  | lru e =>
    obtain ⟨is, h⟩ := h
    have hswept := h.purge hcount now
    exact ⟨⟨_, hswept.inv⟩, hswept.entryAt?_eq, hswept.capacity_eq, hswept.slotCount_eq⟩
  | lfu e =>
    obtain ⟨slots, h⟩ := h
    have hswept := h.purge hcount now
    exact ⟨⟨_, hswept.inv⟩, hswept.entryAt?_eq, hswept.capacity_eq, hswept.slotCount_eq⟩

theorem live_of_purge (h : e.Sound) (hcount : e.slotCount ≤ Word.max) {now : Instant} {i : Nat}
    (hi : (e.purge now).2.entryAt? i = some a) : a.isExpired now = false := by
  rw [(h.purge hcount now).entryAt?_eq] at hi
  split at hi
  · cases hi
  · rename_i hstays
    simpa [Sweep.doomed, hi] using hstays

end Sound
end Engine
end BoundedCache
