import BoundedCache.Time

/-! # Cache entries, their expiry, and why a read misses -/
namespace BoundedCache

/-- Why a read gives no value: the key is not tracked, or its entry had expired. -/
inductive MissReason
  | absent | expired
deriving DecidableEq

def MissReason.label : MissReason → String
  | absent => "absent"
  | expired => "expired"

/-- A stored value with the key it is stored under; its time to live runs from its creation. -/
structure Entry (K V : Type) where
  key : K
  value : V
  createdAt : Instant
  ttl : Duration
deriving DecidableEq

namespace Entry
variable {K V : Type}

/-- The end of the time to live; none if the clock ends first, and then the entry never expires. -/
def expiresAt? (entry : Entry K V) : Option Instant := entry.createdAt.add? entry.ttl

/-- An entry is expired from its expiry instant on. -/
def isExpired (entry : Entry K V) (now : Instant) : Bool :=
  match entry.expiresAt? with
  | some expiry => decide (expiry ≤ now)
  | none => false

theorem isExpired_iff {entry : Entry K V} {now : Instant} :
    entry.isExpired now = true ↔ ∃ expiry, entry.expiresAt? = some expiry ∧ expiry ≤ now := by
  unfold isExpired
  split <;> simp_all

end Entry
end BoundedCache
