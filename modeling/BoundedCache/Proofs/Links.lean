import Mathlib.Data.List.Nodup

/-! # Links that lead through a list

A doubly linked list is two families of links that lead through the same elements, one of them
backwards. Both start and end at `none`.
-/
namespace BoundedCache.Links
variable {α β : Type} [DecidableEq α]

/-- What follows an element of a list; the first element follows `none`. -/
def after : List α → Option α → Option α
  | xs, none => xs.head?
  | [], some _ => none
  | x :: xs, some a => if x = a then xs.head? else after xs (some a)

@[simp] theorem after_none (xs : List α) : after xs none = xs.head? := by
  cases xs <;> rfl

theorem after_append {xs : List α} {a : α} (h : a ∉ xs) (ys : List α) :
    after (xs ++ ys) (some a) = after ys (some a) := by
  induction xs with
  | nil => rfl
  | cons x xs ih =>
    obtain ⟨hx, hxs⟩ := not_or.1 (mt List.mem_cons.2 h)
    rw [List.cons_append, after, if_neg (Ne.symm hx), ih hxs]

theorem after_append_cons {xs : List α} {a : α} (h : a ∉ xs) (ys : List α) :
    after (xs ++ a :: ys) (some a) = ys.head? := by
  rw [after_append h, after, if_pos rfl]

/-- An element of a list without repetition is followed by what stands after it. -/
theorem after_middle {xs ys : List α} {i : α} (h : (xs ++ i :: ys).Nodup) :
    after (xs ++ i :: ys) (some i) = ys.head? :=
  after_append_cons (fun hmem => (List.nodup_append.1 h).2.2 i hmem i (by simp) rfl) ys

theorem after_reverse_middle {xs ys : List α} {i : α} (h : (xs ++ i :: ys).Nodup) :
    after (xs ++ i :: ys).reverse (some i) = xs.getLast? := by
  have hrev : (xs ++ i :: ys).reverse = ys.reverse ++ i :: xs.reverse := by simp
  rw [hrev, after_middle (hrev ▸ List.nodup_reverse.2 h), List.head?_reverse]

/-- A new element changes what follows its neighbour and nothing else. -/
theorem after_insert {xs ys : List α} {i : α} (h : (xs ++ i :: ys).Nodup) (o : Option α) :
    after (xs ++ i :: ys) o =
      if o = xs.getLast? then some i else if o = some i then ys.head? else after (xs ++ ys) o := by
  induction xs with
  | nil =>
    cases o with
    | none => rfl
    | some a => simp [after, eq_comm]
  | cons x xs ih =>
    obtain ⟨hx, hxs⟩ := List.nodup_cons.1 h
    cases o with
    | none => simp [List.getLast?_cons]
    | some a =>
      rw [List.cons_append, after, List.cons_append, after]
      by_cases hxa : x = a
      · subst hxa
        have hxi : x ≠ i := fun e => hx (by simp [e])
        cases xs with
        | nil => simp
        | cons y xs =>
          have hlast : some x ≠ (y :: xs).getLast? := by
            intro e
            exact hx (List.mem_append_left _ (List.mem_of_getLast? e.symm))
          rw [List.getLast?_cons_cons, if_neg hlast]
          simp [hxi]
      · rw [if_neg hxa, if_neg hxa, ih hxs]
        cases xs with
        | nil => simp [Ne.symm hxa]
        | cons y xs => simp

theorem after_getLast? {xs ys : List α} (h : (xs ++ ys).Nodup) :
    after (xs ++ ys) xs.getLast? = ys.head? := by
  rcases List.eq_nil_or_concat xs with rfl | ⟨xs, a, rfl⟩
  · simp
  · have ha : a ∉ xs := by
      intro hmem
      simp only [List.concat_eq_append, List.nodup_append] at h
      exact h.1.2.2 a hmem a (by simp) rfl
    simpa [List.append_assoc] using after_append_cons ha ys

theorem filter_ne_of_notMem {xs : List α} {i : α} (h : i ∉ xs) : xs.filter (· ≠ i) = xs := by
  rw [List.filter_eq_self]
  intro a ha
  have hai : a ≠ i := fun e => h (e ▸ ha)
  simpa using hai

theorem filter_ne (xs ys : List α) {i : α} (h : (xs ++ i :: ys).Nodup) :
    (xs ++ i :: ys).filter (· ≠ i) = xs ++ ys := by
  obtain ⟨hi, -⟩ := List.nodup_cons.1 (List.nodup_middle.1 h)
  rw [List.filter_append, List.filter_cons_of_neg (by simp), ← List.filter_append,
    filter_ne_of_notMem hi]

omit [DecidableEq α] in
/-- A list is split at its first element or at one of the others. -/
theorem forall_splits_cons {p : List α → α → List α → Prop} {x : α} {xs : List α} :
    (∀ as a bs, x :: xs = as ++ a :: bs → p as a bs) ↔
      p [] x xs ∧ ∀ as a bs, xs = as ++ a :: bs → p (x :: as) a bs := by
  refine ⟨fun h => ⟨h [] x xs rfl, fun as a bs hsplit => h (x :: as) a bs (by rw [hsplit]; rfl)⟩,
    fun ⟨hfirst, hothers⟩ as a bs hsplit => ?_⟩
  rcases List.cons_eq_append_iff.1 hsplit with ⟨rfl, hcons⟩ | ⟨as, rfl, hrest⟩
  · obtain ⟨rfl, rfl⟩ := List.cons.inj hcons
    exact hfirst
  · exact hothers as a bs hrest

/-- The links go from each element, and from `none`, to the one that follows. -/
def Leads (link : Option α → Option β) (code : Option α → β) (xs : List α) : Prop :=
  ∀ o : Option α, (∀ a ∈ o, a ∈ xs) → link o = some (code (after xs o))

variable {link link' : Option α → Option β} {code : Option α → β} {xs ys : List α} {i : α}

theorem Leads.start (h : Leads link code xs) : link none = some (code xs.head?) := by
  simpa using h none (by simp)

theorem Leads.congr (h : Leads link code xs) (same : ∀ o, (∀ a ∈ o, a ∈ xs) → link' o = link o) :
    Leads link' code xs := by
  intro o ho
  rw [same o ho, h o ho]

theorem leads_nil (start : link none = some (code none)) : Leads link code [] := by
  intro o ho
  cases o with
  | none => exact start
  | some a => exact absurd (ho a rfl) List.not_mem_nil

/-- Links that go from each element to its neighbour lead through all of them. -/
theorem leads_of_splits (nodup : xs.Nodup) (start : link none = some (code xs.head?))
    (inner : ∀ as a bs, xs = as ++ a :: bs → link (some a) = some (code bs.head?)) :
    Leads link code xs := by
  intro o ho
  cases o with
  | none => rw [start, after_none]
  | some a =>
    obtain ⟨as, bs, rfl⟩ := List.append_of_mem (ho a rfl)
    rw [inner as a bs rfl, after_middle nodup]

theorem leads_reverse_of_splits (nodup : xs.Nodup) (start : link none = some (code xs.getLast?))
    (inner : ∀ as a bs, xs = as ++ a :: bs → link (some a) = some (code as.getLast?)) :
    Leads link code xs.reverse := by
  intro o ho
  cases o with
  | none => rw [start, after_none, List.head?_reverse]
  | some a =>
    obtain ⟨as, bs, rfl⟩ := List.append_of_mem (List.mem_reverse.1 (ho a rfl))
    rw [inner as a bs rfl, after_reverse_middle nodup]

/-- Two links make room for a new element. -/
theorem Leads.insert (h : Leads link code (xs ++ ys)) (nodup : (xs ++ i :: ys).Nodup)
    (into : link' xs.getLast? = some (code (some i))) (out : link' (some i) = some (code ys.head?))
    (same : ∀ o, (∀ a ∈ o, a ∈ xs ++ ys) → o ≠ xs.getLast? → link' o = link o) :
    Leads link' code (xs ++ i :: ys) := by
  intro o ho
  rw [after_insert nodup]
  by_cases hlast : o = xs.getLast?
  · rw [if_pos hlast, hlast, into]
  · by_cases hi : o = some i
    · rw [if_neg hlast, if_pos hi, hi, out]
    · have hold : ∀ a ∈ o, a ∈ xs ++ ys := by
        intro a ha
        have hai : a ≠ i := fun e => hi (e ▸ ha)
        simpa [hai] using ho a ha
      rw [if_neg hlast, if_neg hi, same o hold hlast, h o hold]

/-- One link closes the gap that an element leaves. -/
theorem Leads.erase (h : Leads link code (xs ++ i :: ys)) (nodup : (xs ++ i :: ys).Nodup)
    (bridge : link' xs.getLast? = some (code ys.head?))
    (same : ∀ o, (∀ a ∈ o, a ∈ xs ++ ys) → o ≠ xs.getLast? → link' o = link o) :
    Leads link' code (xs ++ ys) := by
  obtain ⟨hi, hxy⟩ := List.nodup_cons.1 (List.nodup_middle.1 nodup)
  intro o ho
  by_cases hlast : o = xs.getLast?
  · rw [hlast, bridge, after_getLast? hxy]
  · have hoi : o ≠ some i := fun e => hi (ho i e)
    rw [same o ho hlast, h o, after_insert nodup, if_neg hlast, if_neg hoi]
    intro a ha
    rcases List.mem_append.1 (ho a ha) with hx | hy
    · exact List.mem_append_left _ hx
    · exact List.mem_append_right _ (List.mem_cons_of_mem _ hy)

/-! The same for the links that lead backwards. -/

theorem Leads.insert_reverse (h : Leads link code (xs ++ ys).reverse)
    (nodup : (xs ++ i :: ys).Nodup) (into : link' ys.head? = some (code (some i)))
    (out : link' (some i) = some (code xs.getLast?))
    (same : ∀ o, (∀ a ∈ o, a ∈ xs ++ ys) → o ≠ ys.head? → link' o = link o) :
    Leads link' code (xs ++ i :: ys).reverse := by
  have hrev : (xs ++ i :: ys).reverse = ys.reverse ++ i :: xs.reverse := by simp
  rw [List.reverse_append] at h
  rw [hrev]
  apply h.insert (hrev ▸ List.nodup_reverse.2 nodup)
  · rwa [List.getLast?_reverse]
  · rwa [List.head?_reverse]
  · intro o ho hne
    rw [List.getLast?_reverse] at hne
    exact same o (fun a ha => by simpa [or_comm] using ho a ha) hne

theorem Leads.erase_reverse (h : Leads link code (xs ++ i :: ys).reverse)
    (nodup : (xs ++ i :: ys).Nodup) (bridge : link' ys.head? = some (code xs.getLast?))
    (same : ∀ o, (∀ a ∈ o, a ∈ xs ++ ys) → o ≠ ys.head? → link' o = link o) :
    Leads link' code (xs ++ ys).reverse := by
  have hrev : (xs ++ i :: ys).reverse = ys.reverse ++ i :: xs.reverse := by simp
  rw [hrev] at h
  rw [List.reverse_append]
  apply h.erase (hrev ▸ List.nodup_reverse.2 nodup)
  · rwa [List.getLast?_reverse, List.head?_reverse]
  · intro o ho hne
    rw [List.getLast?_reverse] at hne
    exact same o (fun a ha => by simpa [or_comm] using ho a ha) hne

omit [DecidableEq α] in
/-- A value that stands for `none` tells it from every other element. -/
theorem getD_inj {o p : Option α} {d : α} (ho : ∀ a ∈ o, a ≠ d) (hp : ∀ a ∈ p, a ≠ d) :
    o.getD d = p.getD d ↔ o = p := by
  cases o with
  | none => cases p with
    | none => simp
    | some b => simpa using (hp b rfl).symm
  | some a => cases p with
    | none => simpa using ho a rfl
    | some b => simp

end BoundedCache.Links
