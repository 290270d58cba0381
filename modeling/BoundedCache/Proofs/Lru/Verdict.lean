import BoundedCache.Proofs.Lru.Check

/-! # What the check of a recency queue tells, whatever its links are

Links may dangle, run in a circle or into a sentinel. The walk of the check comes to an end all the
same, and only a queue that is in order passes.
-/
namespace BoundedCache.Lru
open Queue Links
variable {K V : Type} [DecidableEq K] {e : Lru K V} {seen is : List Nat} {i next last final : Nat}

/-! ## The parts of the check -/

/-- Looks at the slot that a walk has come to, and tells which one follows. -/
def inspect (e : Lru K V) (seen : List Nat) (last i : Nat) : Except Fault Nat := do
  require (i ∉ seen) (.cycle i)
  let some node := e.queue.get? i | .error (.danglingLink i)
  require (node.prev = last) (.brokenBackLink i)
  let some entry := node.content | .error (.sentinelInside i)
  require (e.table.get? entry.key = some i) (.tableDisagrees i)
  return node.next

/-- Compares the slots that a walk has met, and the last of them, with the rest of the engine. -/
def conclude (e : Lru K V) (walked : Except Fault (List Nat × Nat)) : Except Fault Unit := do
  let (slots, last) ← walked
  let some final := e.queue.prev? tail | .error .tailMissing
  require (final = last) .tailMismatch
  require (slots.length = e.size) (.linkedCount slots.length e.size)
  require (e.table.size = e.size) (.tableCount e.table.size e.size)
  let back ← e.backward (e.size + 1) final
  require (back.reverse = slots) .directionsDiffer
  require (e.size ≤ e.capacity) (.overCapacity e.size e.capacity)

theorem inspect_eq_ok_iff :
    e.inspect seen last i = .ok next ↔
      i ∉ seen ∧ ∃ node a, e.queue.get? i = some node ∧ node.prev = last ∧ node.content = some a ∧
        e.table.get? a.key = some i ∧ node.next = next := by
  rw [inspect, require_bind_eq_ok_iff]
  refine and_congr_right fun _ => ?_
  cases e.queue.get? i with
  | none => simp
  | some node =>
    simp only [require_bind_eq_ok_iff]
    cases hcontent : node.content with
    | none => simp [hcontent]
    | some a =>
      simp only [require_bind_eq_ok_iff]
      simp [hcontent, pure, Except.pure]

theorem forward_succ (e : Lru K V) (fuel : Nat) (seen : List Nat) (last i : Nat) :
    e.forward (fuel + 1) seen last i =
      if i = tail then .ok ([], last)
      else e.inspect seen last i >>= fun next =>
        (e.forward fuel (i :: seen) i next).map fun walked => (i :: walked.1, walked.2) := by
  rw [forward, inspect]
  split
  · rfl
  unfold require
  split
  · cases e.queue.get? i with
    | none => rfl
    | some node =>
      simp only [ok_bind]
      split
      · cases node.content with
        | none => rfl
        | some a =>
          simp only [ok_bind]
          split
          · rfl
          · rfl
      · rfl
  · rfl

theorem check_eq_conclude (e : Lru K V) :
    e.check = match e.queue.next? head with
      | none => .error .headMissing
      | some first => e.conclude (e.forward (e.queue.slotCount + 1) [] head first) := by
  rw [check]
  cases e.queue.next? head <;> rfl

/-! ## The walk comes to an end -/

/-- The walk of the check with no limit to its length, if it ends. -/
inductive Roams (e : Lru K V) : List Nat → Nat → Nat → Except Fault (List Nat × Nat) → Prop
  | stop (seen : List Nat) (last : Nat) : Roams e seen last tail (.ok ([], last))
  | fault {seen : List Nat} {last i : Nat} {fault : Fault} (inner : i ≠ tail)
      (found : e.inspect seen last i = .error fault) : Roams e seen last i (.error fault)
  | step {seen : List Nat} {last i next : Nat} {walked : Except Fault (List Nat × Nat)}
      (inner : i ≠ tail) (found : e.inspect seen last i = .ok next)
      (rest : Roams e (i :: seen) i next walked) :
      Roams e seen last i (walked.map fun walked => (i :: walked.1, walked.2))

/-- The check with a walk that has no limit, if it ends. -/
def Concludes (e : Lru K V) (verdict : Except Fault Unit) : Prop :=
  match e.queue.next? head with
  | none => verdict = .error .headMissing
  | some first => ∃ walked, Roams e [] head first walked ∧ verdict = e.conclude walked

/-- Every step of a walk meets one more occupied slot, so it takes no more steps than there are
slots. -/
theorem roams_iff (nodup : seen.Nodup) (occupied : ∀ j ∈ seen, (e.queue.get? j).isSome)
    {fuel : Nat} (hfuel : e.queue.slotCount < fuel + seen.length)
    {walked : Except Fault (List Nat × Nat)} :
    Roams e seen last i walked ↔ walked = e.forward fuel seen last i := by
  induction fuel generalizing seen last i walked with
  | zero =>
    -- The walk has not come this far: it has met more slots than there are.
    have hle := Slab.length_le_slotCount nodup occupied
    omega
  | succ fuel ih =>
    have hrest : ∀ next walked, i ≠ tail → e.inspect seen last i = .ok next →
        (Roams e (i :: seen) i next walked ↔ walked = e.forward fuel (i :: seen) i next) := by
      intro next walked _ hfound
      obtain ⟨hseen, node, a, hnode, -⟩ := inspect_eq_ok_iff.1 hfound
      have hoccupied : ∀ j ∈ i :: seen, (e.queue.get? j).isSome :=
        List.forall_mem_cons.2 ⟨by rw [hnode]; rfl, occupied⟩
      exact ih (List.nodup_cons.2 ⟨hseen, nodup⟩) hoccupied (by rw [List.length_cons]; omega)
    rw [forward_succ]
    constructor
    · intro h
      cases h with
      | stop => rw [if_pos rfl]
      | fault inner found =>
        rw [if_neg inner, found]
        rfl
      | step inner found rest =>
        rw [if_neg inner, found, ok_bind, (hrest _ _ inner found).1 rest]
    · rintro rfl
      split
      · rename_i hi
        exact hi ▸ .stop seen last
      · rename_i inner
        cases found : e.inspect seen last i with
        | error fault => exact .fault inner found
        | ok next => exact .step inner found ((hrest next _ inner found).2 rfl)

theorem concludes_iff (e : Lru K V) (verdict : Except Fault Unit) :
    e.Concludes verdict ↔ verdict = e.check := by
  rw [Concludes, check_eq_conclude]
  cases e.queue.next? head with
  | none => rfl
  | some first =>
    simp only [roams_iff List.nodup_nil (fun _ h => absurd h List.not_mem_nil)
      (Nat.lt_succ_self e.queue.slotCount), exists_eq_left]

/-! ## What a walk without a fault has met -/

/-- From a slot on the links lead through others to the tail, and each of these leads back to the
one before it and holds an entry that the table knows. -/
structure Walked (e : Lru K V) (seen : List Nat) (last i : Nat) (is : List Nat) (final : Nat) :
    Prop where
  start : i = is.head?.getD tail
  final_eq : final = is.getLast?.getD last
  nodup : is.Nodup
  fresh : ∀ j ∈ is, j ∉ seen
  node : ∀ xs j ys, is = xs ++ j :: ys → ∃ node a, e.queue.get? j = some node ∧
    node.prev = xs.getLast?.getD last ∧ node.next = ys.head?.getD tail ∧ node.content = some a ∧
    e.table.get? a.key = some j

theorem walked_nil (e : Lru K V) (seen : List Nat) (last : Nat) : Walked e seen last tail [] last where
  start := rfl
  final_eq := rfl
  nodup := List.nodup_nil
  fresh _ hj := absurd hj List.not_mem_nil
  node xs j ys h := by simp at h

theorem Walked.cons (h : Walked e (i :: seen) i next is final)
    (hinspect : e.inspect seen last i = .ok next) : Walked e seen last i (i :: is) final where
  start := rfl
  final_eq := by rw [List.getLast?_cons, Option.getD_some, h.final_eq]
  nodup := List.nodup_cons.2 ⟨fun hmem => h.fresh i hmem List.mem_cons_self, h.nodup⟩
  fresh := by
    obtain ⟨hseen, -⟩ := inspect_eq_ok_iff.1 hinspect
    refine List.forall_mem_cons.2 ⟨hseen, fun j hj hmem => ?_⟩
    exact h.fresh j hj (List.mem_cons_of_mem _ hmem)
  node := by
    obtain ⟨-, node, a, hnode, hprev, hcontent, hkey, hnext⟩ := inspect_eq_ok_iff.1 hinspect
    refine forall_splits_cons.2 ⟨⟨node, a, hnode, hprev, hnext.trans h.start, hcontent, hkey⟩, ?_⟩
    intro xs j ys hsplit
    rw [List.getLast?_cons, Option.getD_some]
    exact h.node xs j ys hsplit

theorem walked_of_forward {fuel : Nat} (h : e.forward fuel seen last i = .ok (is, final)) :
    Walked e seen last i is final := by
  induction fuel generalizing seen last i is with
  | zero =>
    rw [forward] at h
    split at h
    · rename_i hi
      cases h
      exact hi ▸ walked_nil e seen _
    · cases h
  | succ fuel ih =>
    rw [forward_succ] at h
    split at h
    · rename_i hi
      cases h
      exact hi ▸ walked_nil e seen _
    · obtain ⟨next, hinspect, hrest⟩ := bind_eq_ok_iff.1 h
      cases hforward : e.forward fuel (i :: seen) i next with
      | error fault =>
        rw [hforward] at hrest
        cases hrest
      | ok walked =>
        rw [hforward] at hrest
        cases hrest
        exact (ih hforward).cons hinspect

namespace Walked
variable {first : Nat}

theorem exists_entry (h : Walked e seen last i is final) {j : Nat} (hj : j ∈ is) :
    ∃ a, entryAt? e.queue j = some a ∧ e.table.get? a.key = some j := by
  obtain ⟨xs, ys, rfl⟩ := List.append_of_mem hj
  obtain ⟨node, a, hnode, -, -, hcontent, hkey⟩ := h.node xs j ys rfl
  exact ⟨a, by rw [entryAt?, hnode, Option.bind_some, hcontent], hkey⟩

/-- A walk from the head that ends where the tail leads back to has met all of the queue. -/
theorem linked (h : Walked e [] head first is final) (hfirst : e.queue.next? head = some first)
    (hfinal : e.queue.prev? tail = some final)
    (sentinel : ∀ j, j < sentinels → entryAt? e.queue j = none) : Linked e.queue is where
  nodup := h.nodup
  inner j hj := by
    obtain ⟨a, ha, -⟩ := h.exists_entry hj
    refine Nat.le_of_not_lt fun hlt => ?_
    rw [sentinel j hlt] at ha
    cases ha
  next := by
    refine leads_of_splits h.nodup ?_ fun xs j ys hsplit => ?_
    · exact hfirst.trans (congrArg some h.start)
    · obtain ⟨node, a, hnode, -, hnext, -⟩ := h.node xs j ys hsplit
      rw [forwards, Option.getD_some, next?, hnode, Option.map_some, hnext]
  prev := by
    refine leads_reverse_of_splits h.nodup ?_ fun xs j ys hsplit => ?_
    · exact hfinal.trans (congrArg some h.final_eq)
    · obtain ⟨node, a, hnode, hprev, -⟩ := h.node xs j ys hsplit
      rw [backwards, Option.getD_some, prev?, hnode, Option.map_some, hprev]

end Walked

/-! ## The verdict -/

/-- A queue that passes is in order, if its sentinels hold no entries. -/
theorem exists_checked (h : e.check = .ok ())
    (sentinel : ∀ j, j < sentinels → entryAt? e.queue j = none) : ∃ is, Checked e is := by
  rw [check_eq_conclude] at h
  cases hfirst : e.queue.next? head with
  | none =>
    rw [hfirst] at h
    cases h
  | some first =>
    simp only [hfirst, conclude, bind_eq_ok_iff] at h
    obtain ⟨⟨is, last⟩, hforward, h⟩ := h
    have hwalked := walked_of_forward hforward
    cases hfinal : e.queue.prev? tail with
    | none =>
      rw [hfinal] at h
      cases h
    | some final =>
      simp only [hfinal, require_bind_eq_ok_iff] at h
      obtain ⟨rfl, hlength, htable, hback⟩ := h
      obtain ⟨back, -, hback⟩ := bind_eq_ok_iff.1 hback
      obtain ⟨-, hcapacity⟩ := require_bind_eq_ok_iff.1 hback
      exact ⟨is, hwalked.linked hfirst hfinal sentinel, fun _ => hwalked.exists_entry, hlength,
        htable, require_eq_ok_iff.1 hcapacity⟩

namespace Checked

/-- The sizes leave no slot with an entry out of the queue. -/
theorem mem_iff (h : Checked e is) (counted : e.queue.size = e.queue.occupied)
    (sentinel : ∀ j, j < sentinels → (e.queue.get? j).isSome ∧ entryAt? e.queue j = none)
    (entries : ∀ j, sentinels ≤ j → (e.queue.get? j).isSome → (entryAt? e.queue j).isSome)
    (j : Nat) : j ∈ is ↔ (entryAt? e.queue j).isSome := by
  have hhead : (e.queue.get? head).isSome := (sentinel head (by decide)).1
  have htail : (e.queue.get? tail).isSome := (sentinel tail (by decide)).1
  have houter : ∀ k, k < sentinels → k ∉ is := fun k hk hmem =>
    Nat.not_lt.2 (h.linked.inner k hmem) hk
  have hnodup : (head :: tail :: is).Nodup := by
    rw [List.nodup_cons, List.nodup_cons, List.mem_cons, not_or]
    exact ⟨⟨by decide, houter head (by decide)⟩, houter tail (by decide), h.linked.nodup⟩
  have hoccupied : ∀ k ∈ head :: tail :: is, (e.queue.get? k).isSome :=
    List.forall_mem_cons.2 ⟨hhead, List.forall_mem_cons.2 ⟨htail, fun _ => h.linked.isSome_get?⟩⟩
  have hlength : (head :: tail :: is).length = e.queue.size := by
    have hle := Slab.length_le_occupied hnodup hoccupied
    have hsize := h.length_eq
    simp only [List.length_cons, size, length, sentinels] at hle hsize ⊢
    omega
  have hmem := Slab.mem_iff_of_length_eq counted hnodup hoccupied hlength j
  rcases Nat.lt_or_ge j sentinels with hlt | hge
  · rw [(sentinel j hlt).2]
    simpa using houter j hlt
  · have hne : j ≠ head ∧ j ≠ tail := by
      simp only [sentinels, head, tail] at hge ⊢
      omega
    rw [List.mem_cons, List.mem_cons, or_iff_right hne.1, or_iff_right hne.2] at hmem
    refine ⟨fun hj => entries j hge (hmem.1 hj), fun hj => hmem.2 ?_⟩
    rw [entryAt?] at hj
    exact Option.isSome_of_isSome_bind hj

theorem tracks (h : Checked e is) (mem_iff : ∀ j, j ∈ is ↔ (entryAt? e.queue j).isSome) :
    Tracks e.table (entryAt? e.queue) := by
  refine .of_size_eq (fun j a ha => ?_) h.linked.nodup mem_iff ?_
  · obtain ⟨b, hb, hkey⟩ := h.tracked j ((mem_iff j).2 (by rw [ha]; rfl))
    cases ha.symm.trans hb
    exact hkey
  · rw [h.table_size_eq, h.length_eq]

end Checked

/-- The check of any engine comes to an end, whatever its links, its table and its capacity are. It
finds no fault exactly if the links run from the head through some slots with entries to the tail and
back, each slot once, the table leads to them from their keys, and they, the keys and the entries are
equally many and no more than the capacity. Then these are all the slots with entries, and the table
leads nowhere else. -/
theorem check_eq_ok_iff_linked (counted : e.queue.size = e.queue.occupied)
    (sentinel : ∀ i, i < sentinels → (e.queue.get? i).isSome ∧ entryAt? e.queue i = none)
    (entries : ∀ i, sentinels ≤ i → (e.queue.get? i).isSome → (entryAt? e.queue i).isSome) :
    (∀ verdict, e.Concludes verdict ↔ verdict = e.check) ∧
      (e.check = .ok () ↔ ∃ is, Checked e is) ∧
      ∀ is, Checked e is →
        (∀ i, i ∈ is ↔ (entryAt? e.queue i).isSome) ∧ Tracks e.table (entryAt? e.queue) := by
  refine ⟨e.concludes_iff, ⟨fun h => ?_, fun ⟨_, h⟩ => h.check_eq⟩, fun is h => ?_⟩
  · exact exists_checked h fun i hi => (sentinel i hi).2
  · have hmem := h.mem_iff counted sentinel entries
    exact ⟨hmem, h.tracks hmem⟩

/-- Two entries, the last of which leads back to the first. -/
def circling : Lru Nat Nat where
  queue :=
    { slots := #[some ⟨none, head, 2⟩, some ⟨none, 3, tail⟩,
        some ⟨some ⟨1, 10, .origin, .ofSecs 60⟩, head, 3⟩,
        some ⟨some ⟨2, 20, .origin, .ofSecs 60⟩, 2, 2⟩]
      size := 4 }
  table := ⟨[(1, 2), (2, 3)], by decide⟩
  capacity := 2

theorem check_eq_ok_iff_linked_circling :
    circling.queue.size = circling.queue.occupied ∧
      (∀ i, i < sentinels →
        (circling.queue.get? i).isSome ∧ entryAt? circling.queue i = none) ∧
      (∀ i, sentinels ≤ i → (circling.queue.get? i).isSome →
        (entryAt? circling.queue i).isSome) ∧
      circling.Concludes (.error (.cycle 2)) ∧ ¬∃ is, Checked circling is := by
  have counted : circling.queue.size = circling.queue.occupied := rfl
  have sentinel : ∀ i, i < sentinels →
      (circling.queue.get? i).isSome ∧ entryAt? circling.queue i = none := by
    intro i hi
    match i, hi with
    | 0, _ => exact ⟨rfl, rfl⟩
    | 1, _ => exact ⟨rfl, rfl⟩
  have entries : ∀ i, sentinels ≤ i → (circling.queue.get? i).isSome →
      (entryAt? circling.queue i).isSome := by
    intro i hi hsome
    match i, hi with
    | 2, _ => rfl
    | 3, _ => rfl
    | i + 4, _ => simp [circling, Slab.get?] at hsome
  have hcheck : circling.check = .error (.cycle 2) := rfl
  obtain ⟨hends, hiff, -⟩ := check_eq_ok_iff_linked counted sentinel entries
  refine ⟨counted, sentinel, entries, (hends _).2 hcheck.symm, fun h => ?_⟩
  rw [← hiff, hcheck] at h
  cases h

end BoundedCache.Lru
