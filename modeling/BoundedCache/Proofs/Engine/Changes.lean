import BoundedCache.Proofs.Engine.Storage
import BoundedCache.Proofs.Expiry
import BoundedCache.Proofs.Requests

/-! # What a request can make of an engine

Whatever the policy, a request drops some entries, uses or changes one, or stores one after it has
made room. What an entry's slot and life are is never changed.
-/
namespace BoundedCache

namespace Engine
variable {K V : Type} [DecidableEq K] {e e' : Engine K V} {a b : Entry K V} {i : Nat} {k : K}
  {r : Request K V} {P : Nat → Instant → Duration → Prop}

/-- What an engine can be after a request: all entries are gone or some, one is used or changed, or
there is a new one after some are gone. -/
inductive Change (e : Engine K V) (r : Request K V) : Engine K V → Prop
  | cleared (asked : r = .clear) : Change e r e.clear
  | swept {gone : Nat → Bool} {e' : Engine K V} (left : Swept e gone e') : Change e r e'
  | used {i : Nat} {a : Entry K V} (held : e.entryAt? i = some a) : Change e r (e.used i)
  | overwritten {i : Nat} {a : Entry K V} (held : e.entryAt? i = some a) (v : V) :
      Change e r (e.overwritten i v)
  | added {gone : Nat → Bool} {e' : Engine K V} {a : Entry K V} (asked : r = a.store)
      (left : Swept e gone e') (fresh : e.table.get? a.key = none) (room : e'.size < e'.capacity) :
      Change e r (e'.withNew a)

namespace Sound

/-- A clear leaves no slot but the first ones. -/
theorem slotCount_clear_le (h : e.Sound) : e.clear.slotCount ≤ e.slotCount := by
  have hfirst := h.firstSlot_add_size_le
  rw [clear_eq, slotCount_new, firstSlot_new]
  omega

theorem exists_swept_sweepAll (h : e.Sound) (budget : Nat) (now : Instant) :
    ∃ gone, Swept e gone (e.sweepAll budget now).2 := by
  rw [sweepAll_eq_pass]
  refine Sweep.pass_induction _ (motive := fun e' => ∃ gone, Swept e gone e') ?_ _ _ ⟨_, .refl h⟩
  rintro cursor e' ⟨gone, hswept⟩
  exact ⟨_, hswept.trans (hswept.sound.sweep cursor budget now)⟩

theorem exists_swept_purge (h : e.Sound) (now : Instant) : ∃ gone, Swept e gone (e.purge now).2 := by
  have hpurge : e.purge now = e.sweepAll Word.max now := by cases e <;> rfl
  rw [hpurge]
  exact h.exists_swept_sweepAll Word.max now

theorem change_get (h : e.Sound) (k : K) (now : Instant) : Change e r (e.get k now).2 := by
  cases hk : e.table.get? k with
  | none =>
    rw [get_absent hk]
    exact .swept (.refl h)
  | some i =>
    obtain ⟨a, ha, -⟩ := h.tracks.exists_entry hk
    rw [h.get_of_slot hk ha]
    split
    · exact .swept (h.swept_without ha)
    · exact .used ha

theorem change_put (h : e.Sound) (k : K) (v : V) (ttl : Duration) (now : Instant) :
    Change e (.put k v ttl now) (e.put k v ttl now) := by
  by_cases hc : e.capacity = 0
  · rw [put_zero hc]
    exact .swept (.refl h)
  · cases hk : e.table.get? k with
    | some i =>
      obtain ⟨a, ha, -⟩ := h.tracks.exists_entry hk
      rw [put_of_slot hk hc]
      exact .overwritten ha v
    | none =>
      obtain ⟨gone, hswept⟩ := h.exists_swept_withRoom hc
      rw [put_of_absent hk hc]
      exact .added rfl hswept hk (hswept.capacity_eq ▸ h.size_withRoom_lt hc)

theorem change_remove (h : e.Sound) (k : K) : Change e r (e.remove k).2 := by
  cases hk : e.table.get? k with
  | none =>
    rw [remove_absent hk]
    exact .swept (.refl h)
  | some i =>
    obtain ⟨a, ha, -⟩ := h.tracks.exists_entry hk
    rw [h.remove_of_slot hk ha]
    exact .swept (h.swept_without ha)

theorem change_step (h : e.Sound) (r : Request K V) : Change e r (e.step r).2 := by
  cases r with
  | get k now => exact h.change_get k now
  | put k v ttl now => exact h.change_put k v ttl now
  | remove k => exact h.change_remove k
  | contains k => exact .swept (.refl h)
  | size => exact .swept (.refl h)
  | clear => exact .cleared rfl
  | sweep cursor budget now => exact .swept (h.sweep cursor budget now)
  | purge now =>
    obtain ⟨gone, hswept⟩ := h.exists_swept_purge now
    exact .swept hswept

end Sound

namespace Change

theorem sound (hchange : Change e r e') (h : e.Sound) : e'.Sound := by
  cases hchange with
  | cleared asked =>
    rw [clear_eq]
    exact .new ..
  | swept left => exact left.sound
  | used held => exact h.used held
  | overwritten held v => exact h.overwritten held v
  | added asked left fresh room => exact left.sound.withNew (left.table_eq_none h fresh) room

theorem capacity_eq (hchange : Change e r e') : e'.capacity = e.capacity := by
  cases hchange with
  | cleared asked => rw [clear_eq, capacity_new]
  | swept left => exact left.capacity_eq
  | used held => exact congrArg Prod.snd (e.kind_used _)
  | overwritten held v => exact congrArg Prod.snd (e.kind_overwritten _ v)
  | added asked left fresh room => exact (congrArg Prod.snd (kind_withNew ..)).trans left.capacity_eq

/-- A request takes one new slot at the most. -/
theorem slotCount_le (hchange : Change e r e') (h : e.Sound) : e'.slotCount ≤ e.slotCount + 1 := by
  cases hchange with
  | cleared asked => exact Nat.le_succ_of_le h.slotCount_clear_le
  | swept left => exact Nat.le_succ_of_le (Nat.le_of_eq left.slotCount_eq)
  | used held => exact Nat.le_succ_of_le (Nat.le_of_eq (e.slotCount_used _))
  | overwritten held v => exact Nat.le_succ_of_le (Nat.le_of_eq (e.slotCount_overwritten _ v))
  | added asked left fresh room =>
    have hnext := left.sound.nextSlot_le
    have hcount := left.slotCount_eq
    rw [left.sound.slotCount_withNew]
    omega

/-- What is stored under a key from before was stored in the same slot, at the same time and for as
long. -/
theorem stays (hchange : Change e r e') (hi : e'.entryAt? i = some b)
    (hk : e.contains b.key = true) : ∃ a, e.entryAt? i = some a ∧ b = { a with value := b.value } := by
  cases hchange with
  | cleared asked =>
    rw [clear_eq, entryAt?_new] at hi
    cases hi
  | swept left => exact ⟨b, left.entryAt?_of_eq_some hi, rfl⟩
  | used held =>
    rw [entryAt?_used] at hi
    exact ⟨b, hi, rfl⟩
  | overwritten held v =>
    rw [entryAt?_overwritten] at hi
    split at hi
    · obtain ⟨a, ha, rfl⟩ := Option.map_eq_some_iff.1 hi
      exact ⟨a, ha, rfl⟩
    · exact ⟨b, hi, rfl⟩
  | added asked left fresh room =>
    rw [left.sound.entryAt?_withNew] at hi
    split at hi
    · cases hi
      rw [contains_eq_isSome, fresh] at hk
      cases hk
    · exact ⟨b, left.entryAt?_of_eq_some hi, rfl⟩

/-- Every request but a write leaves the lives of the entries as they were, and a write starts one
life at the most. -/
theorem lives (hchange : Change e r e') (hl : Lives P e.entryAt?)
    (new : ∀ k v ttl now, r = .put k v ttl now → ∀ i, P i now ttl) : Lives P e'.entryAt? := by
  cases hchange with
  | cleared asked =>
    intro i a hi
    rw [clear_eq, entryAt?_new] at hi
    cases hi
  | swept left => exact hl.erase left.entryAt?_eq
  | used held => exact hl.congr (e.entryAt?_used _)
  | overwritten held v => exact hl.setValue (e.entryAt?_overwritten _ v)
  | added asked left fresh room =>
    exact (hl.erase left.entryAt?_eq).insert (left.sound.entryAt?_withNew _) (new _ _ _ _ asked _)

end Change

theorem policy_step (e : Engine K V) (r : Request K V) : (e.step r).2.policy = e.policy := by
  cases e <;> cases r <;> rfl

namespace Sound

theorem sound_step (h : e.Sound) (r : Request K V) : (e.step r).2.Sound := (h.change_step r).sound h

theorem sound_run (h : e.Sound) (requests : List (Request K V)) :
    (e.run requests).2.Sound ∧ (e.run requests).2.kind = e.kind := by
  induction requests generalizing e with
  | nil => exact ⟨h, rfl⟩
  | cons r rest ih =>
    obtain ⟨hsound, hkind⟩ := ih (h.sound_step r)
    have hstep : (e.step r).2.kind = e.kind :=
      Prod.ext (e.policy_step r) (h.change_step r).capacity_eq
    exact ⟨hsound, hkind.trans hstep⟩

theorem lives_step (h : e.Sound) (hl : Lives P e.entryAt?) (r : Request K V)
    (new : ∀ k v ttl now, r = .put k v ttl now → ∀ i, P i now ttl) :
    Lives P (e.step r).2.entryAt? :=
  (h.change_step r).lives hl new

theorem lives_run (h : e.Sound) (hl : Lives P e.entryAt?) (requests : List (Request K V))
    (new : ∀ r ∈ requests, ∀ k v ttl now, r = .put k v ttl now → ∀ i, P i now ttl) :
    Lives P (e.run requests).2.entryAt? := by
  induction requests generalizing e with
  | nil => exact hl
  | cons r rest ih =>
    exact ih (h.sound_step r) (h.lives_step hl r (new r List.mem_cons_self))
      fun r' hr' => new r' (List.mem_cons_of_mem _ hr')

end Sound
end Engine

/-- Every run from the start leaves a sound engine. -/
theorem Lru.run_sound {K V : Type} [DecidableEq K] (capacity : Nat)
    (requests : List (Request K V)) :
    ∃ e is, ((Engine.new .lru capacity : Engine K V).run requests).2 = .lru e ∧
      e.capacity = capacity ∧ Lru.Inv e is := by
  have hstart : (Engine.new .lru capacity : Engine K V).Sound := .new .lru capacity
  obtain ⟨hsound, hkind⟩ := hstart.sound_run requests
  cases hrun : ((Engine.new .lru capacity : Engine K V).run requests).2 with
  | lru e =>
    rw [hrun] at hsound hkind
    obtain ⟨is, h⟩ := hsound
    exact ⟨e, is, rfl, congrArg Prod.snd hkind, h⟩
  | lfu e =>
    rw [hrun] at hkind
    cases congrArg Prod.fst hkind

theorem Lfu.run_sound {K V : Type} [DecidableEq K] (capacity : Nat)
    (requests : List (Request K V)) :
    ∃ e slots, ((Engine.new .lfu capacity : Engine K V).run requests).2 = .lfu e ∧
      e.capacity = capacity ∧ Lfu.Inv e slots := by
  have hstart : (Engine.new .lfu capacity : Engine K V).Sound := .new .lfu capacity
  obtain ⟨hsound, hkind⟩ := hstart.sound_run requests
  cases hrun : ((Engine.new .lfu capacity : Engine K V).run requests).2 with
  | lru e =>
    rw [hrun] at hkind
    cases congrArg Prod.fst hkind
  | lfu e =>
    rw [hrun] at hsound hkind
    obtain ⟨slots, h⟩ := hsound
    exact ⟨e, slots, rfl, congrArg Prod.snd hkind, h⟩

end BoundedCache
