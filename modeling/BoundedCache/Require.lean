/-! # Conditions that stop a check at the first one that fails -/
namespace BoundedCache

/-- Goes on if the condition holds and stops with the fault if not. -/
def require {ε : Type} (condition : Prop) [Decidable condition] (fault : ε) : Except ε Unit :=
  if condition then .ok () else .error fault

theorem require_eq_ok_iff {ε : Type} {condition : Prop} [Decidable condition] {fault : ε} :
    require condition fault = .ok () ↔ condition := by
  unfold require; split <;> simp_all

theorem require_of {ε : Type} {condition : Prop} [Decidable condition] (h : condition) (fault : ε) :
    require condition fault = .ok () := require_eq_ok_iff.2 h

theorem require_bind_of_not {ε α : Type} {condition : Prop} [Decidable condition] (h : ¬condition)
    (fault : ε) (next : Unit → Except ε α) : (require condition fault >>= next) = .error fault := by
  rw [require, if_neg h]
  rfl

theorem require_bind_eq_ok_iff {ε α : Type} {condition : Prop} [Decidable condition] {fault : ε}
    {next : Unit → Except ε α} {a : α} :
    (require condition fault >>= next) = .ok a ↔ condition ∧ next () = .ok a := by
  unfold require
  split
  · rename_i h
    exact (and_iff_right h).symm
  · rename_i h
    exact ⟨fun hok => (nomatch hok), fun hok => absurd hok.1 h⟩

theorem bind_eq_ok_iff {ε α β : Type} {x : Except ε α} {next : α → Except ε β} {b : β} :
    (x >>= next) = .ok b ↔ ∃ a, x = .ok a ∧ next a = .ok b := by
  cases x with
  | error fault => exact ⟨fun h => (nomatch h), fun ⟨_, h, _⟩ => nomatch h⟩
  | ok a => exact ⟨fun h => ⟨a, rfl, h⟩, fun ⟨_, ha, h⟩ => by cases ha; exact h⟩

theorem ok_bind {ε α β : Type} (a : α) (next : α → Except ε β) :
    (Except.ok a >>= next) = next a := rfl

end BoundedCache
