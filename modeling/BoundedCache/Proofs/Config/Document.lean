import BoundedCache.Config.Document
import BoundedCache.Proofs.Json.Tokens

/-! # Documents that are written compactly are read back -/
namespace BoundedCache.Config
open Json (Token tokens_of_scan tokens_last)

theorem Field.ofName?_name (field : Field) : Field.ofName? field.name = some field := by
  cases field <;> decide

/-- A field with a value for it. -/
inductive Member
  | policy (policy : Policy)
  | capacity (n : UInt64)
  | sweepInterval (n : UInt64)
  | sweepBatch (n : UInt64)
deriving DecidableEq

namespace Member

def field : Member → Field
  | policy _ => .policy
  | capacity _ => .capacity
  | sweepInterval _ => .sweepInterval
  | sweepBatch _ => .sweepBatch

/-- The value as it is written. -/
def value : Member → String
  | policy p => "\"" ++ p.name ++ "\""
  | capacity n | sweepInterval n | sweepBatch n => toString n.toNat

def text (m : Member) : String := "\"" ++ m.field.name ++ "\":" ++ m.value

/-- Gives the field its value. -/
def set (c : Config) : Member → Config
  | policy p => { c with policy := p }
  | capacity n => { c with capacity := n }
  | sweepInterval n => { c with sweepIntervalSecs := n }
  | sweepBatch n => { c with sweepBatch := n }

end Member

/-- All fields in their order. -/
def members (c : Config) : List Member :=
  [.policy c.policy, .capacity c.capacity, .sweepInterval c.sweepIntervalSecs,
    .sweepBatch c.sweepBatch]

/-- The compact object with these members. -/
def object (members : List Member) : String :=
  "\x7b" ++ ",".intercalate (members.map Member.text) ++ "\x7d"

/-- The compact array with the values of these members. -/
def array (members : List Member) : String :=
  "[" ++ ",".intercalate (members.map Member.value) ++ "]"

theorem render_eq (c : Config) : c.render = object c.members := by
  have hcommas : ∀ p q r s : String,
      ",".intercalate [p, q, r, s] = p ++ "," ++ q ++ "," ++ r ++ "," ++ s := fun _ _ _ _ => rfl
  unfold render
  simp only [object, members, List.map_cons, List.map_nil, hcommas, Member.text, Member.value,
    Member.field, Field.name]
  apply String.ext
  simp

/-! ## Tokens -/

namespace Member

/-- The token of the value. -/
def token : Member → Json.Token
  | policy p => .string (some p.name)
  | capacity n | sweepInterval n | sweepBatch n => .number (.word n)

/-- The tokens of the member. -/
def tokens (m : Member) : List Json.Token := [.string (some m.field.name), .colon, m.token]

open Json

theorem plain_policy (policy : Policy) : Plain policy.name.toList := by
  cases policy <;> simp [Plain, Policy.name]

theorem plain_field (field : Field) : Plain field.name.toList := by
  cases field <;> simp [Plain, Field.name]

theorem tokens_value (m : Member) {rest : List Char} (hrest : Ends rest) :
    Json.tokens (m.value.toList ++ rest) = [m.token] ++ Json.tokens rest := by
  cases m with
  | policy p => simpa [value, token] using tokens_string (plain_policy p) rest
  | capacity n => exact tokens_word n hrest
  | sweepInterval n => exact tokens_word n hrest
  | sweepBatch n => exact tokens_word n hrest

theorem tokens_text (m : Member) {rest : List Char} (hrest : Ends rest) :
    Json.tokens (m.text.toList ++ rest) = m.tokens ++ Json.tokens rest := by
  have h := tokens_string (plain_field m.field) (':' :: (m.value.toList ++ rest))
  have hcolon : Json.tokens (':' :: (m.value.toList ++ rest)) =
      .colon :: Json.tokens (m.value.toList ++ rest) := tokens_of_scan rfl rfl (Nat.le_refl _)
  rw [hcolon, tokens_value m hrest] at h
  simpa [text, tokens] using h

end Member

/-! ## Reading the tokens -/

namespace Fields

/-- The fields with one more value. -/
def put (fields : Fields) : Member → Fields
  | .policy p => { fields with policy? := some p }
  | .capacity n => { fields with capacity? := some n }
  | .sweepInterval n => { fields with sweepInterval? := some n }
  | .sweepBatch n => { fields with sweepBatch? := some n }

theorem has_put (fields : Fields) (m : Member) (f : Field) :
    (fields.put m).has f = (fields.has f || decide (m.field = f)) := by
  cases m <;> cases f <;> simp [put, has, Member.field]

theorem toConfig_put (fields : Fields) (m : Member) :
    (fields.put m).toConfig = Member.set fields.toConfig m := by
  cases m <;> rfl

theorem toConfig_foldl_put (fields : Fields) (ms : List Member) :
    (ms.foldl put fields).toConfig = ms.foldl Member.set fields.toConfig :=
  (List.foldl_hom toConfig fun fields m => (toConfig_put fields m).symm).symm

end Fields

variable {fields : Fields} {m : Member} {ms : List Member}

theorem readField_token (fields : Fields) (m : Member) (rest : List Token) :
    readField fields m.field (m.token :: rest) = .ok (fields.put m, rest) := by
  cases m with
  | policy p =>
    have hvariant : variant p.name = .ok p := by rw [variant, Policy.ofName?_name]
    simp only [Member.field, Member.token, readField, readPolicy, hvariant, ok_bind]
    rfl
  | capacity n => rfl
  | sweepInterval n => rfl
  | sweepBatch n => rfl

theorem readMember_tokens (fresh : fields.has m.field = false) (rest : List Token) :
    readMember fields (m.tokens ++ rest) = .ok (fields.put m, rest) := by
  rw [Member.tokens, List.cons_append, readMember]
  simp only [Field.ofName?_name, require_of fresh, ok_bind]
  exact readField_token fields m rest

/-- Members with different fields, none of which was read before, are all read. -/
theorem readMembers_tokens (fresh : ∀ m' ∈ m :: ms, fields.has m'.field = false)
    (nodup : ((m :: ms).map Member.field).Nodup) (rest : List Token) :
    readMembers fields
        (m.tokens ++ (ms.flatMap fun m => .comma :: m.tokens) ++ .closeBrace :: rest) =
      .ok ((m :: ms).foldl Fields.put fields, rest) := by
  induction ms generalizing fields m with
  | nil =>
    rw [readMembers, List.append_assoc, readMember_tokens (fresh m List.mem_cons_self)]
    rfl
  | cons m' ms ih =>
    obtain ⟨hm, hms⟩ := List.nodup_cons.1 nodup
    have hfresh : ∀ m'' ∈ m' :: ms, (fields.put m).has m''.field = false := by
      intro m'' hmem
      have hne : m.field ≠ m''.field := fun h => hm (h ▸ List.mem_map_of_mem hmem)
      rw [Fields.has_put, fresh m'' (List.mem_cons_of_mem _ hmem), decide_eq_false hne,
        Bool.false_or]
    have hrest := ih hfresh hms
    rw [readMembers, List.append_assoc, readMember_tokens (fresh m List.mem_cons_self)]
    simp only [List.flatMap_cons, List.cons_append]
    rw [if_pos (by simp [Member.tokens]), hrest]
    rfl

theorem readElements_tokens (fields : Fields) (ms : List Member) (more : List Field)
    (rest : List Token) :
    readElements fields (ms.map Member.field ++ more)
        ((ms.flatMap fun m => [.comma, m.token]) ++ .closeBracket :: rest) =
      .ok (ms.foldl Fields.put fields, rest) := by
  induction ms generalizing fields with
  | nil => cases more <;> rfl
  | cons m ms ih =>
    simp only [List.map_cons, List.cons_append, List.flatMap_cons, List.nil_append, readElements,
      readField_token, ok_bind, List.foldl_cons]
    exact ih (fields.put m)

theorem readArray_token (p : Policy) (ts : List Token) :
    readArray ((Member.policy p).token :: ts) =
      readElements (({} : Fields).put (.policy p)) [.capacity, .sweepInterval, .sweepBatch] ts := by
  have hread : readField {} .policy ((Member.policy p).token :: ts) =
      .ok (({} : Fields).put (.policy p), ts) := readField_token {} (.policy p) ts
  rw [readArray, hread, ok_bind]
  exact fun _ h => nomatch h

/-! ## Reading whole documents -/

theorem tokens_object (m : Member) (ms : List Member) :
    Json.tokens (object (m :: ms)).toList =
      .openBrace :: (m.tokens ++ (ms.flatMap fun m => .comma :: m.tokens) ++ [.closeBrace]) := by
  have hitems := Json.tokens_intercalate (fun m _ => Member.tokens_text m) m ms
    (Json.ends_cons (c := '\x7d') (by decide) [])
  rw [tokens_last rfl rfl] at hitems
  rw [object, String.toList_append, String.toList_append, List.append_assoc]
  exact (tokens_of_scan rfl rfl (Nat.le_refl _)).trans (congrArg (_ :: ·) hitems)

theorem tokens_array (m : Member) (ms : List Member) :
    Json.tokens (array (m :: ms)).toList =
      .openBracket :: m.token :: ((ms.flatMap fun m => [.comma, m.token]) ++ [.closeBracket]) := by
  have hitems := Json.tokens_intercalate (fun m _ => Member.tokens_value m) m ms
    (Json.ends_cons (c := ']') (by decide) [])
  rw [tokens_last rfl rfl] at hitems
  rw [array, String.toList_append, String.toList_append, List.append_assoc]
  exact (tokens_of_scan rfl rfl (Nat.le_refl _)).trans (congrArg (_ :: ·) hitems)

theorem ofDocument_object (ms : List Member) (nodup : (ms.map Member.field).Nodup) :
    ofDocument (object ms) = .ok (ms.foldl Member.set {}) := by
  cases ms with
  | nil =>
    have htokens : Json.tokens (object []).toList = [.openBrace, .closeBrace] :=
      (tokens_of_scan rfl rfl (Nat.le_refl _)).trans
        (congrArg (_ :: ·) (tokens_last rfl rfl))
    rw [ofDocument, htokens]
    rfl
  | cons m ms =>
    have hfresh : ∀ m' ∈ m :: ms, ({} : Fields).has m'.field = false := fun m' _ => by
      cases m' <;> rfl
    have htop : readTop (.openBrace ::
        (m.tokens ++ (ms.flatMap fun m => .comma :: m.tokens) ++ [.closeBrace])) =
          .ok ((m :: ms).foldl Fields.put {}, []) := readMembers_tokens hfresh nodup []
    rw [ofDocument, tokens_object, htop, ok_bind]
    exact congrArg Except.ok (Fields.toConfig_foldl_put {} (m :: ms))

/-- The values of an array belong to the first fields. -/
theorem ofDocument_array (ms : List Member) {more : List Field}
    (hfields : ms.map Member.field ++ more = Field.all) :
    ofDocument (array ms) = .ok (ms.foldl Member.set {}) := by
  cases ms with
  | nil =>
    have htokens : Json.tokens (array []).toList = [.openBracket, .closeBracket] :=
      (tokens_of_scan rfl rfl (Nat.le_refl _)).trans
        (congrArg (_ :: ·) (tokens_last rfl rfl))
    rw [ofDocument, htokens]
    rfl
  | cons m ms =>
    obtain ⟨hfirst, hrest⟩ := List.cons.inj hfields
    cases m with
    | policy p =>
      have hread := readElements_tokens (({} : Fields).put (.policy p)) ms more []
      have hmore : ms.map Member.field ++ more = [.capacity, .sweepInterval, .sweepBatch] := hrest
      rw [hmore] at hread
      rw [ofDocument, tokens_array, readTop, readArray_token, hread, ok_bind]
      exact congrArg Except.ok (Fields.toConfig_foldl_put {} (.policy p :: ms))
    | _ => cases hfirst

/-- A compact object with some of the fields, each of them once and in any order, gives these their
values and leaves the others at their defaults. An array with the values of the first fields reads as
the object with these fields, and what is rendered reads back as the configuration that it was. -/
theorem ofDocument_compact :
    (∀ ms : List Member, (ms.map Member.field).Nodup →
      ofDocument (object ms) = .ok (ms.foldl Member.set {})) ∧
    (∀ (c : Config) (n : Nat),
      ofDocument (array (c.members.take n)) = ofDocument (object (c.members.take n))) ∧
    ∀ c : Config, ofDocument c.render = .ok c := by
  have hall : ∀ c : Config, c.members.map Member.field = Field.all := fun _ => rfl
  have hnodup : Field.all.Nodup := by decide
  refine ⟨ofDocument_object, fun c n => ?_, fun c => ?_⟩
  · have hfields : (c.members.take n).map Member.field ++ Field.all.drop n = Field.all := by
      rw [List.map_take, hall, List.take_append_drop]
    rw [← hfields] at hnodup
    rw [ofDocument_array _ hfields, ofDocument_object _ (List.nodup_append.1 hnodup).1]
  · rw [render_eq, ofDocument_object c.members hnodup]
    rfl

/-- Two fields, not in their order, one of them with the largest word. -/
theorem ofDocument_compact_two :
    let ms : List Member := [.sweepBatch 18446744073709551615, .policy .lfu]
    (ms.map Member.field).Nodup ∧
      object ms = "\x7b\"sweep_batch\":18446744073709551615,\"policy\":\"lfu\"\x7d" ∧
      ofDocument (object ms) = .ok { policy := .lfu, sweepBatch := 18446744073709551615 } := by
  intro ms
  have hnodup : (ms.map Member.field).Nodup := by decide
  have hobject : object ms = "\x7b\"sweep_batch\":18446744073709551615,\"policy\":\"lfu\"\x7d" := by
    decide
  exact ⟨hnodup, hobject, ofDocument_compact.1 ms hnodup⟩

end BoundedCache.Config
