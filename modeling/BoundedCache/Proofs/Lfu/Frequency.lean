import BoundedCache.Proofs.Engine.Soundness
import BoundedCache.Proofs.Lfu.Mirror

/-! # The least frequently used engine keeps a tally of uses -/
namespace BoundedCache.Lfu
variable {K V : Type} [DecidableEq K] {e : Lfu K V} {m : Frequency K V}
  {slots : Nat → List Nat} {seqOf : Nat → Nat}

namespace Mirrors

/-- One request: the same answer, and the tally goes on mirroring the engine. -/
theorem step (h : Mirrors e m slots seqOf) (hcount : e.ranking.nodes.slotCount ≤ Word.max)
    (r : Request K V) :
    ((Engine.lfu e).step r).1.withoutCursor = (m.step e.table r).1 ∧
      ∃ e' slots' seqOf', ((Engine.lfu e).step r).2 = .lfu e' ∧
        Mirrors e' (m.step e.table r).2 slots' seqOf' := by
  cases r with
  | get k now =>
    obtain ⟨hanswer, slots', seqOf', hmirrors⟩ := h.get k now
    exact ⟨congrArg Answer.read hanswer, _, slots', seqOf', rfl, hmirrors⟩
  | put k v ttl now =>
    obtain ⟨slots', seqOf', hmirrors⟩ := h.put k v ttl now
    exact ⟨rfl, _, slots', seqOf', rfl, hmirrors⟩
  | remove k =>
    obtain ⟨hanswer, slots', hmirrors⟩ := h.remove k
    exact ⟨congrArg Answer.removed hanswer, _, slots', seqOf, rfl, hmirrors⟩
  | contains k =>
    exact ⟨congrArg Answer.found (h.contains_eq k).symm, _, slots, seqOf, rfl, h⟩
  | size => exact ⟨congrArg Answer.count h.size_eq.symm, _, slots, seqOf, rfl, h⟩
  | clear => exact ⟨rfl, _, _, seqOf, rfl, h.cleared⟩
  | sweep cursor budget now =>
    obtain ⟨hanswer, slots', hmirrors⟩ := h.swept cursor budget now
    exact ⟨congrArg Answer.count hanswer, _, slots', seqOf, rfl, hmirrors⟩
  | purge now =>
    obtain ⟨hanswer, slots', hmirrors⟩ := h.purged hcount now
    exact ⟨congrArg Answer.count hanswer, _, slots', seqOf, rfl, hmirrors⟩

/-! ## What the tally tells of the engine -/

theorem freq?_eq (h : Mirrors e m slots seqOf) (k : K) :
    e.freq? k = (m.uses.get? k).map Use.freq := by
  rw [freq?]
  cases hk : e.table.get? k with
  | none =>
    rw [h.uses_none hk]
    rfl
  | some i =>
    obtain ⟨a, ha, -⟩ := h.inv.tracks.exists_entry hk
    obtain ⟨f, hf⟩ := h.inv.exists_freq ha
    rw [h.uses_some hk ha hf]
    exact h.inv.ranked.filed.freq_eq f i hf

theorem entry?_eq (h : Mirrors e m slots seqOf) (k : K) :
    (e.table.get? k).bind e.ranking.entryAt? = (m.uses.get? k).map Use.entry := by
  cases hk : e.table.get? k with
  | none =>
    rw [h.uses_none hk]
    rfl
  | some i =>
    obtain ⟨a, ha, -⟩ := h.inv.tracks.exists_entry hk
    obtain ⟨f, hf⟩ := h.inv.exists_freq ha
    rw [h.uses_some hk ha hf]
    exact ha

/-- The key that would go first is the same. -/
theorem victim_eq (h : Mirrors e m slots seqOf) :
    (e.ranking.first?.bind e.ranking.entryAt?).map Entry.key = m.first? := by
  rw [h.inv.ranked.first?_eq]
  cases hhead : (slots e.ranking.minFreq).head? with
  | some i =>
    obtain ⟨a, ha⟩ := h.inv.exists_entry (List.mem_of_mem_head? hhead)
    rw [h.first?_eq hhead ha, Option.bind_some, ha]
    rfl
  | none =>
    rw [List.head?_eq_none_iff] at hhead
    have hnil : m.uses.entries = [] := by
      rw [List.eq_nil_iff_forall_not_mem]
      rintro ⟨k, u⟩ hu
      obtain ⟨i, -, -, hf, -⟩ := h.exists_slot ((Dict.get?_eq_some_iff ..).2 hu)
      exact h.inv.ranked.slots_minFreq (List.ne_nil_of_mem hf) hhead
    rw [Frequency.first?, hnil]
    rfl

theorem minFreq?_eq (h : Mirrors e m slots seqOf) :
    e.minFreq? = (m.uses.entries.map fun u => u.2.freq).min? := by
  have hmem : ∀ f, f ∈ m.uses.entries.map (fun u => u.2.freq) ↔ slots f ≠ [] := by
    intro f
    rw [List.mem_map]
    constructor
    · rintro ⟨⟨k, u⟩, hu, rfl⟩
      obtain ⟨i, -, -, hf, -⟩ := h.exists_slot ((Dict.get?_eq_some_iff ..).2 hu)
      exact List.ne_nil_of_mem hf
    · intro hf
      obtain ⟨i, hi⟩ := List.exists_mem_of_ne_nil _ hf
      obtain ⟨a, ha⟩ := h.inv.exists_entry hi
      have hu := h.uses_some (h.inv.tracks.get?_key ha) ha hi
      exact ⟨(a.key, _), (Dict.get?_eq_some_iff ..).1 hu, rfl⟩
  have hsize := h.size_eq
  unfold minFreq? isEmpty
  cases hentries : m.uses.entries with
  | nil =>
    have hzero : e.size = 0 := by rw [← hsize, Dict.size, hentries]; rfl
    rw [if_pos (by simp [hzero])]
    rfl
  | cons u rest =>
    have hpos : e.size ≠ 0 := by
      rw [← hsize, Dict.size, hentries]
      simp
    have hused := (hmem u.2.freq).1 (by simp [hentries])
    rw [if_neg (by simpa using hpos), ← hentries, eq_comm, List.min?_eq_some_iff]
    exact ⟨(hmem _).2 (h.inv.ranked.slots_minFreq hused),
      fun g hg => h.inv.ranked.minFreq_le ((hmem g).1 hg)⟩

end Mirrors

/-- The tally mirrors the engine, whose slots words can count for so many requests to come. -/
def MirrorsFor (n : Nat) (engine : Engine K V) (m : Frequency K V) : Prop :=
  ∃ e slots seqOf, engine = .lfu e ∧ Mirrors e m slots seqOf ∧
    min e.capacity (e.ranking.nodes.slotCount + n) ≤ Word.max

theorem MirrorsFor.step {n : Nat} {engine : Engine K V} (h : MirrorsFor (n + 1) engine m)
    (r : Request K V) :
    (engine.step r).1.withoutCursor = (m.step engine.table r).1 ∧
      MirrorsFor n (engine.step r).2 (m.step engine.table r).2 := by
  obtain ⟨e, slots, seqOf, rfl, hmirrors, hfits⟩ := h
  have hle := hmirrors.inv.slotCount_le
  have hsound : (Engine.lfu e).Sound := ⟨slots, hmirrors.inv⟩
  obtain ⟨hanswer, e', slots', seqOf', he', hmirrors'⟩ := hmirrors.step (by omega) r
  refine ⟨hanswer, e', slots', seqOf', he', hmirrors', ?_⟩
  have hsteady := hsound.steady_step r
  rw [he'] at hsteady
  have hcapacity : e'.capacity = e.capacity := hsteady.capacity_eq
  have hcount : e'.ranking.nodes.slotCount ≤ e.ranking.nodes.slotCount + 1 := hsteady.slotCount_le
  omega

/-- Over every run that words can count, the engine answers as a plain tally of uses does, holds the
same entries with the same frequencies, and would drop the same key next. Every capacity that is a
word meets the condition. -/
theorem run_eq_frequency (capacity : Nat) (requests : List (Request K V))
    (fits : min capacity requests.length ≤ Word.max) :
    let engine : Engine K V := .new .lfu capacity
    let model := Reference.run Frequency.step { capacity } (Reference.observed engine requests)
    (engine.run requests).1.map Answer.withoutCursor = model.1 ∧
      ∃ e, (engine.run requests).2 = .lfu e ∧
        (∀ k, (e.table.get? k).bind e.ranking.entryAt? = (model.2.uses.get? k).map Use.entry) ∧
        (∀ k, e.freq? k = (model.2.uses.get? k).map Use.freq) ∧
        e.minFreq? = (model.2.uses.entries.map fun u => u.2.freq).min? ∧
        (e.ranking.first?.bind e.ranking.entryAt?).map Entry.key = model.2.first? ∧
        e.size = model.2.uses.size := by
  intro engine model
  have hstart : MirrorsFor requests.length engine { capacity } := by
    refine ⟨_, _, _, rfl, Mirrors.new capacity, ?_⟩
    have hcount : (new capacity : Lfu K V).ranking.nodes.slotCount = 0 := rfl
    have hcapacity : (new capacity : Lfu K V).capacity = capacity := rfl
    rw [hcount, hcapacity, Nat.zero_add]
    exact fits
  obtain ⟨hanswers, e, slots, seqOf, he, hmirrors, -⟩ :=
    Reference.run_agrees (fun n _ _ r h => MirrorsFor.step h r) requests hstart
  exact ⟨hanswers, e, he, hmirrors.entry?_eq, hmirrors.freq?_eq, hmirrors.minFreq?_eq,
    hmirrors.victim_eq, hmirrors.size_eq.symm⟩

/-- A full engine of two, with a read between the writes and a pass at the end. -/
theorem run_eq_frequency_two :
    let requests : List (Request Nat Nat) :=
      [.put 1 10 (.ofSecs 5) .origin, .put 2 20 (.ofSecs 5) .origin, .get 1 (.ofMillis 3000),
        .put 3 30 (.ofSecs 5) (.ofMillis 4000), .purge (.ofMillis 5000)]
    let engine : Engine Nat Nat := .new .lfu 2
    let model := Reference.run Frequency.step { capacity := 2 } (Reference.observed engine requests)
    min 2 requests.length ≤ Word.max ∧
    (engine.run requests).1.map Answer.withoutCursor = model.1 ∧
      ∃ e, (engine.run requests).2 = .lfu e ∧
        (∀ k, (e.table.get? k).bind e.ranking.entryAt? = (model.2.uses.get? k).map Use.entry) ∧
        (∀ k, e.freq? k = (model.2.uses.get? k).map Use.freq) ∧
        e.minFreq? = (model.2.uses.entries.map fun u => u.2.freq).min? ∧
        (e.ranking.first?.bind e.ranking.entryAt?).map Entry.key = model.2.first? ∧
        e.size = model.2.uses.size :=
  ⟨by decide, run_eq_frequency 2 _ (by decide)⟩

end BoundedCache.Lfu
