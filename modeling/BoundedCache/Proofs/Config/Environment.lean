import BoundedCache.Config.Environment
import BoundedCache.Proofs.Numeral

/-! # What configurations are read from environment variables -/
namespace BoundedCache.Config
attribute [ext] Config

variable {α : Type} {default a : α} {read? : String → Option α} {bytes? : Option ByteArray}
  {bytes : ByteArray}

/-! ## One variable -/

/-- What a variable stands for: what its bytes mean if they mean anything, and else the default. -/
def StandsFor (means : ByteArray → α → Prop) (default : α) (bytes? : Option ByteArray) (a : α) :
    Prop :=
  (∃ bytes ∈ bytes?, means bytes a) ∨ a = default ∧ ¬ ∃ b, ∃ bytes ∈ bytes?, means bytes b

theorem fromUTF8?_eq_some_iff {text : String} :
    String.fromUTF8? bytes = some text ↔ text.toByteArray = bytes := by
  rw [String.fromUTF8?]
  constructor
  · intro h
    split at h
    · cases h
      rfl
    · cases h
  · rintro rfl
    rw [dif_pos text.isValidUTF8]
    rfl

theorem readOr_eq_iff {means : ByteArray → α → Prop}
    (spec : ∀ bytes a, means bytes a ↔
      ∃ text : String, text.toByteArray = bytes ∧ read? text = some a) :
    readOr default read? bytes? = a ↔ StandsFor means default bytes? a := by
  have hread : ∀ a, (∃ bytes ∈ bytes?, means bytes a) ↔
      (bytes?.bind String.fromUTF8?).bind read? = some a := by
    intro a
    simp only [Option.bind_eq_some_iff, fromUTF8?_eq_some_iff, spec, Option.mem_def]
    constructor
    · rintro ⟨bytes, hbytes, text, htext, hread⟩
      exact ⟨text, ⟨bytes, hbytes, htext⟩, hread⟩
    · rintro ⟨text, ⟨bytes, hbytes, htext⟩, hread⟩
      exact ⟨bytes, hbytes, text, htext, hread⟩
  simp only [readOr, StandsFor, hread]
  cases (bytes?.bind String.fromUTF8?).bind read? with
  | none => simp [eq_comm]
  | some b => simp

/-! ## Policies and numbers -/

/-- The bytes of a text that is read as a policy's name. -/
def Names (bytes : ByteArray) (policy : Policy) : Prop :=
  ∃ text : String, text.toByteArray = bytes ∧ Policy.parse text = .ok policy

/-- The bytes of a numeral for a word. -/
def Counts (bytes : ByteArray) (n : UInt64) : Prop := Numeral.Denotes bytes n.toNat

theorem names_iff (bytes : ByteArray) (policy : Policy) :
    Names bytes policy ↔
      ∃ text : String, text.toByteArray = bytes ∧ (Policy.parse text).toOption = some policy := by
  refine exists_congr fun text => and_congr_right fun _ => ?_
  cases Policy.parse text <;> simp [Except.toOption]

theorem counts_iff (bytes : ByteArray) (n : UInt64) :
    Counts bytes n ↔ ∃ text : String, text.toByteArray = bytes ∧ Numeral.word? text = some n := by
  simp only [Numeral.word?_eq_some_iff_denotes]
  constructor
  · intro h
    obtain ⟨text, rfl⟩ := h.exists_text
    exact ⟨text, rfl, h⟩
  · rintro ⟨text, rfl, h⟩
    exact h

theorem policy_ofEnvironment_eq_iff (env : Environment) (policy : Policy) :
    (ofEnvironment env).policy = policy ↔ StandsFor Names .lru (env .policy) policy :=
  readOr_eq_iff names_iff

theorem capacity_ofEnvironment_eq_iff (env : Environment) (n : UInt64) :
    (ofEnvironment env).capacity = n ↔ StandsFor Counts 1000 (env .capacity) n :=
  readOr_eq_iff counts_iff

theorem sweepIntervalSecs_ofEnvironment_eq_iff (env : Environment) (n : UInt64) :
    (ofEnvironment env).sweepIntervalSecs = n ↔ StandsFor Counts 1 (env .sweepInterval) n :=
  readOr_eq_iff counts_iff

theorem sweepBatch_ofEnvironment_eq_iff (env : Environment) (n : UInt64) :
    (ofEnvironment env).sweepBatch = n ↔ StandsFor Counts 256 (env .sweepBatch) n :=
  readOr_eq_iff counts_iff

/-! ## Writing and reading -/

/-- The variables that a configuration is read from again: its policy's name and its numbers in
decimal. -/
def environment (c : Config) : Environment
  | .policy => some c.policy.name.toUTF8
  | .capacity => some (toString c.capacity.toNat).toUTF8
  | .sweepInterval => some (toString c.sweepIntervalSecs.toNat).toUTF8
  | .sweepBatch => some (toString c.sweepBatch.toNat).toUTF8

theorem standsFor_of_means {means : ByteArray → α → Prop} (h : means bytes a) :
    StandsFor means default (some bytes) a := .inl ⟨bytes, rfl, h⟩

theorem names_name (policy : Policy) : Names policy.name.toUTF8 policy := by
  refine ⟨policy.name, rfl, ?_⟩
  cases policy <;> decide

theorem counts_toString (n : UInt64) : Counts (toString n.toNat).toUTF8 n := by
  refine Numeral.word?_eq_some_iff_denotes.1 (Numeral.word?_eq_some_iff.2 ?_)
  refine ⟨[], Nat.toDigits 10 n.toNat, ?_, .inl rfl, Nat.toDigits_ne_nil,
    fun c => Numeral.isDigit_of_mem_toDigits, Numeral.value_toDigits n.toNat⟩
  rw [Nat.toString_eq_ofList_toDigits, String.toList_ofList, List.nil_append]

theorem ofEnvironment_environment (c : Config) : ofEnvironment c.environment = c := by
  apply Config.ext
  · exact (policy_ofEnvironment_eq_iff _ _).2 (standsFor_of_means (names_name c.policy))
  · exact (capacity_ofEnvironment_eq_iff _ _).2 (standsFor_of_means (counts_toString c.capacity))
  · exact (sweepIntervalSecs_ofEnvironment_eq_iff _ _).2
      (standsFor_of_means (counts_toString c.sweepIntervalSecs))
  · exact (sweepBatch_ofEnvironment_eq_iff _ _).2
      (standsFor_of_means (counts_toString c.sweepBatch))

/-- Each field is what its own variable stands for, whatever the others hold: a number is read from a
numeral that fits in a word and from nothing else, and all else is the default. So a configuration that
is written to the variables is read from them again. -/
theorem ofEnvironment_exact (env : Environment) (c : Config) :
    ((∀ policy, (ofEnvironment env).policy = policy ↔ StandsFor Names .lru (env .policy) policy) ∧
      (∀ n, (ofEnvironment env).capacity = n ↔ StandsFor Counts 1000 (env .capacity) n) ∧
      (∀ n, (ofEnvironment env).sweepIntervalSecs = n ↔
        StandsFor Counts 1 (env .sweepInterval) n) ∧
      ∀ n, (ofEnvironment env).sweepBatch = n ↔ StandsFor Counts 256 (env .sweepBatch) n) ∧
    (∀ other : Environment,
      (other .policy = env .policy → (ofEnvironment other).policy = (ofEnvironment env).policy) ∧
      (other .capacity = env .capacity →
        (ofEnvironment other).capacity = (ofEnvironment env).capacity) ∧
      (other .sweepInterval = env .sweepInterval →
        (ofEnvironment other).sweepIntervalSecs = (ofEnvironment env).sweepIntervalSecs) ∧
      (other .sweepBatch = env .sweepBatch →
        (ofEnvironment other).sweepBatch = (ofEnvironment env).sweepBatch)) ∧
    ofEnvironment c.environment = c := by
  refine ⟨⟨policy_ofEnvironment_eq_iff env, capacity_ofEnvironment_eq_iff env,
    sweepIntervalSecs_ofEnvironment_eq_iff env, sweepBatch_ofEnvironment_eq_iff env⟩,
    fun other => ⟨fun h => ?_, fun h => ?_, fun h => ?_, fun h => ?_⟩, ofEnvironment_environment c⟩
  · rw [policy_ofEnvironment_eq_iff, h, ← policy_ofEnvironment_eq_iff]
  · rw [capacity_ofEnvironment_eq_iff, h, ← capacity_ofEnvironment_eq_iff]
  · rw [sweepIntervalSecs_ofEnvironment_eq_iff, h, ← sweepIntervalSecs_ofEnvironment_eq_iff]
  · rw [sweepBatch_ofEnvironment_eq_iff, h, ← sweepBatch_ofEnvironment_eq_iff]

/-- A sign and zeros in front, the first number that is too large, bytes that are no text, and a
variable that is not set. -/
theorem ofEnvironment_exact_mixed :
    let env : Environment := fun
      | .policy => none
      | .capacity => some ['+'.toUInt8, '0'.toUInt8, '4'.toUInt8, '2'.toUInt8].toByteArray
      | .sweepInterval => some "18446744073709551616".toUTF8
      | .sweepBatch => some [255].toByteArray
    (ofEnvironment env).policy = .lru ∧ (ofEnvironment env).capacity = 42 ∧
      (ofEnvironment env).sweepIntervalSecs = 1 ∧ (ofEnvironment env).sweepBatch = 256 ∧
      ofEnvironment (environment { capacity := 18446744073709551615 }) =
        { capacity := 18446744073709551615 } := by
  intro env
  obtain ⟨⟨hpolicy, hcapacity, hinterval, hbatch⟩, -, hread⟩ :=
    ofEnvironment_exact env { capacity := 18446744073709551615 }
  refine ⟨(hpolicy .lru).2 ?_, (hcapacity 42).2 ?_, ?_, ?_, hread⟩
  · refine .inr ⟨rfl, ?_⟩
    rintro ⟨_, _, h, -⟩
    cases h
  · refine .inl ⟨_, rfl, ['+'.toUInt8], ['0'.toUInt8, '4'.toUInt8, '2'.toUInt8],
      ⟨.inr rfl, List.cons_ne_nil _ _, fun b hb => ?_⟩, rfl, rfl⟩
    simp only [List.mem_cons, List.not_mem_nil, or_false] at hb
    rcases hb with rfl | rfl | rfl <;> decide
  · decide +kernel
  · decide +kernel

end BoundedCache.Config
