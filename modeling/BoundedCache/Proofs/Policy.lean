import BoundedCache.Error
import Mathlib.Data.List.Forall2
import Mathlib.Data.List.TakeWhile

/-! # Names of policies, up to the case of letters and the white space around them -/
namespace BoundedCache

namespace Text
variable {cs ds before after : List Char} {c d : Char}

/-! ## White space at the ends of a text -/

def Blank (cs : List Char) : Prop := ∀ c ∈ cs, isBlank c = true

instance (cs : List Char) : Decidable (Blank cs) :=
  decidable_of_iff (cs.all isBlank = true) List.all_eq_true

/-- What stands between white space, and has none at its own ends. -/
structure Trimmed (cs core : List Char) : Prop where
  between : ∃ before after, Blank before ∧ Blank after ∧ cs = before ++ core ++ after
  head : ∀ c ∈ core.head?, isBlank c = false
  last : ∀ c ∈ core.getLast?, isBlank c = false

theorem Blank.reverse (h : Blank cs) : Blank cs.reverse := fun c hc => h c (List.mem_reverse.1 hc)

theorem blank_takeWhile (cs : List Char) : Blank (cs.takeWhile isBlank) :=
  fun _ hc => List.mem_takeWhile_imp hc

theorem isBlank_of_mem_head?_dropWhile (cs : List Char) (h : c ∈ (cs.dropWhile isBlank).head?) :
    isBlank c = false := by
  have hhead := List.head?_dropWhile_not isBlank cs
  rw [Option.mem_def.1 h] at hhead
  exact hhead

theorem trim_append_left (h : Blank before) (cs : List Char) : trim (before ++ cs) = trim cs := by
  rw [trim, List.dropWhile_append_of_pos h, trim]

theorem trim_append_right (cs : List Char) (h : Blank after) : trim (cs ++ after) = trim cs := by
  rw [trim, trim, List.dropWhile_append]
  split
  · -- Nothing but white space stands before, so all of it goes from the left.
    rename_i hnil
    rw [List.isEmpty_iff.1 hnil, List.dropWhile_eq_nil_iff.2 h]
  · rw [List.reverse_append, List.dropWhile_append_of_pos h.reverse]

theorem trim_between (hbefore : Blank before) (cs : List Char) (hafter : Blank after) :
    trim (before ++ cs ++ after) = trim cs := by
  rw [trim_append_right _ hafter, trim_append_left hbefore]

theorem trimmed_trim (cs : List Char) : Trimmed cs (trim cs) := by
  have hleft := List.takeWhile_append_dropWhile (p := isBlank) (l := cs)
  have hright : trim cs ++ ((cs.dropWhile isBlank).reverse.takeWhile isBlank).reverse =
      cs.dropWhile isBlank := by
    rw [trim, ← List.reverse_append, List.takeWhile_append_dropWhile, List.reverse_reverse]
  refine ⟨⟨_, _, blank_takeWhile cs, (blank_takeWhile (cs.dropWhile isBlank).reverse).reverse, ?_⟩,
    fun c hc => ?_, fun c hc => ?_⟩
  · rw [List.append_assoc, hright, hleft]
  · refine isBlank_of_mem_head?_dropWhile cs ?_
    rw [← hright, List.head?_append, Option.mem_def.1 hc]
    rfl
  · rw [trim, List.getLast?_reverse] at hc
    exact isBlank_of_mem_head?_dropWhile _ hc

theorem trim_trim (cs : List Char) : trim (trim cs) = trim cs := by
  obtain ⟨before, after, hbefore, hafter, hcs⟩ := (trimmed_trim cs).between
  conv_rhs => rw [hcs, trim_between hbefore _ hafter]

/-! ## The case of letters -/

/-- The same character, or the same letter of ASCII in the other case. -/
def SameLetter (c d : Char) : Prop :=
  c = d ∨ c.isAlpha ∧ d.isAlpha ∧ (c.toNat + 32 = d.toNat ∨ d.toNat + 32 = c.toNat)

/-- Texts that differ in nothing but the case of letters of ASCII. -/
def CaseVariant (cs ds : List Char) : Prop := List.Forall₂ SameLetter cs ds

theorem isUpper_iff (c : Char) : c.isUpper = true ↔ 65 ≤ c.toNat ∧ c.toNat ≤ 90 := decide_eq_true_iff

theorem isLower_iff (c : Char) : c.isLower = true ↔ 97 ≤ c.toNat ∧ c.toNat ≤ 122 :=
  Bool.and_eq_true_iff.trans (and_congr decide_eq_true_iff decide_eq_true_iff)

theorem isAlpha_iff (c : Char) :
    c.isAlpha = true ↔ (65 ≤ c.toNat ∧ c.toNat ≤ 90) ∨ (97 ≤ c.toNat ∧ c.toNat ≤ 122) := by
  rw [← isUpper_iff, ← isLower_iff]
  exact Bool.or_eq_true_iff

theorem toNat_toLower (c : Char) :
    c.toLower.toNat = if c.isUpper then c.toNat + 32 else c.toNat := by
  unfold Char.toLower
  split
  · rename_i h
    have hupper : c.isUpper = true := decide_eq_true h
    have hle : c.val.toNat ≤ 90 := ((isUpper_iff c).1 hupper).2
    rw [if_pos hupper]
    exact (UInt32.toNat_add c.val 32).trans (Nat.mod_eq_of_lt (Nat.lt_of_le_of_lt
      (Nat.add_le_add_right hle 32) (by decide)))
  · rename_i h
    have hlower : ¬ c.isUpper = true := fun hupper => h (of_decide_eq_true hupper)
    rw [if_neg hlower]

theorem sameLetter_iff : SameLetter c d ↔ c.toLower = d.toLower := by
  simp only [SameLetter, isAlpha_iff, ← Char.toNat_inj, toNat_toLower, isUpper_iff]
  split <;> split <;> omega

theorem caseVariant_iff : CaseVariant cs ds ↔ cs.map Char.toLower = ds.map Char.toLower := by
  have hsame : SameLetter = fun c d => c.toLower = d.toLower := by
    funext c d
    exact propext sameLetter_iff
  rw [CaseVariant, hsame, ← List.forall₂_eq_eq_eq, List.forall₂_map_left_iff,
    List.forall₂_map_right_iff]

theorem isUpper_toLower (c : Char) : c.toLower.isUpper = false := by
  rw [← Bool.not_eq_true, isUpper_iff, toNat_toLower]
  simp only [isUpper_iff]
  split <;> omega

theorem toLower_toLower (c : Char) : c.toLower.toLower = c.toLower := by
  rw [← Char.toNat_inj, toNat_toLower, isUpper_toLower, if_neg Bool.false_ne_true]

/-- No letter of ASCII is white space. -/
theorem isBlank_toLower (c : Char) : isBlank c.toLower = isBlank c := by
  rw [Bool.eq_iff_iff]
  simp only [isBlank, blankRanges, toNat_toLower, isUpper_iff, List.any_cons, List.any_nil,
    Bool.or_eq_true, Bool.and_eq_true, decide_eq_true_eq, Bool.false_eq_true, or_false]
  split <;> omega

theorem trim_map_toLower (cs : List Char) : trim (cs.map Char.toLower) = (trim cs).map Char.toLower := by
  have hblank : isBlank ∘ Char.toLower = isBlank := funext isBlank_toLower
  rw [trim, List.dropWhile_map, hblank, ← List.map_reverse, List.dropWhile_map, hblank,
    ← List.map_reverse, trim]

end Text

namespace Policy
open Text
variable {text : String} {policy : Policy} {fault : UnsupportedPolicy}

theorem toList_normalize (text : String) :
    (normalize text).toList = (trim text.toList).map Char.toLower := String.toList_ofList

theorem normalize_congr {text text' : String}
    (h : (trim text.toList).map Char.toLower = (trim text'.toList).map Char.toLower) :
    normalize text = normalize text' := by
  rw [normalize, h, normalize]

theorem normalize_normalize (text : String) : normalize (normalize text) = normalize text := by
  refine normalize_congr ?_
  rw [toList_normalize, trim_map_toLower, trim_trim, List.map_map]
  exact List.map_congr_left fun c _ => toLower_toLower c

theorem normalize_variant {before variant after : String} (hbefore : Blank before.toList)
    (hvariant : CaseVariant text.toList variant.toList) (hafter : Blank after.toList) :
    normalize (before ++ variant ++ after) = normalize text := by
  refine normalize_congr ?_
  rw [String.toList_append, String.toList_append, trim_between hbefore _ hafter,
    ← trim_map_toLower, ← caseVariant_iff.1 hvariant, trim_map_toLower]

theorem parse_congr {text text' : String} (h : normalize text = normalize text') :
    parse text = parse text' := by
  rw [parse, h, parse]

theorem parse_eq_ok_iff : parse text = .ok policy ↔ normalize text = policy.name := by
  rw [parse, ← ofName?_eq_some_iff]
  cases ofName? (normalize text) <;> simp

theorem name_of_parse_eq_error (h : parse text = .error fault) : fault.name = normalize text := by
  rw [parse] at h
  cases hname : ofName? (normalize text) with
  | some policy =>
    rw [hname] at h
    cases h
  | none =>
    rw [hname] at h
    cases h
    rfl

theorem map_toLower_name (policy : Policy) :
    policy.name.toList.map Char.toLower = policy.name.toList := by
  cases policy <;> decide

theorem parse_eq_ok_iff_caseVariant :
    parse text = .ok policy ↔ CaseVariant (trim text.toList) policy.name.toList := by
  rw [parse_eq_ok_iff, caseVariant_iff, map_toLower_name, ← toList_normalize, String.toList_inj]

theorem message_unsupported (fault : UnsupportedPolicy) :
    (CacheError.invalid (.unsupportedPolicy fault)).message =
      "Invalid configuration: unsupported eviction policy '" ++ fault.name ++ "'" := by
  unfold CacheError.message ConfigFault.message UnsupportedPolicy.message
  simp only [toString, ← String.toList_inj, String.toList_append]
  simp

/-- The case of letters of ASCII and the white space around a text make no difference to how it is
read, the message of an error included. What is left between the white space is a policy's name in any
case, or is quoted in lower case by an error; read again, the quoted name gives the same error. -/
theorem parse_folded (text : String) :
    (∀ before variant after : String, Blank before.toList → CaseVariant text.toList variant.toList →
      Blank after.toList → parse (before ++ variant ++ after) = parse text) ∧
      ∃ core, Trimmed text.toList core ∧
        (∀ policy, parse text = .ok policy ↔ CaseVariant core policy.name.toList) ∧
        ∀ fault, parse text = .error fault →
          (CaseVariant core fault.name.toList ∧ ∀ c ∈ fault.name.toList, c.isUpper = false) ∧
          (CacheError.invalid (.unsupportedPolicy fault)).message =
            "Invalid configuration: unsupported eviction policy '" ++ fault.name ++ "'" ∧
          parse fault.name = .error fault := by
  refine ⟨fun before variant after hbefore hvariant hafter =>
    parse_congr (normalize_variant hbefore hvariant hafter), trim text.toList, trimmed_trim _,
    fun policy => parse_eq_ok_iff_caseVariant, fun fault hfault => ?_⟩
  have hname := name_of_parse_eq_error hfault
  have hquoted : fault.name.toList = (trim text.toList).map Char.toLower := by
    rw [hname, toList_normalize]
  refine ⟨⟨?_, fun c hc => ?_⟩, ?_, ?_⟩
  · rw [caseVariant_iff, hquoted, List.map_map]
    exact List.map_congr_left fun c _ => (toLower_toLower c).symm
  · rw [hquoted] at hc
    obtain ⟨d, -, rfl⟩ := List.mem_map.1 hc
    exact isUpper_toLower d
  · exact message_unsupported fault
  · rw [hname, parse_congr (normalize_normalize text), hfault]

/-- A name in mixed case between a tab and a wide space, and a name that is no policy's. -/
theorem parse_folded_mixed :
    parse ("\t" ++ "LfU" ++ "\u3000") = parse "lfu" ∧ parse "lfu" = .ok .lfu ∧
      parse " Lf U " = .error ⟨"lf u"⟩ ∧ parse "lf u" = .error ⟨"lf u"⟩ := by
  obtain ⟨hfolded, core, htrimmed, hok, -⟩ := parse_folded "lfu"
  obtain ⟨-, core', htrimmed', -, herror⟩ := parse_folded " Lf U "
  have hfault : parse " Lf U " = .error ⟨"lf u"⟩ := by decide
  refine ⟨hfolded "\t" "LfU" "\u3000" (by decide) ?_ (by decide), by decide, hfault,
    (herror _ hfault).2.2⟩
  exact caseVariant_iff.2 (by decide)

end Policy
end BoundedCache
