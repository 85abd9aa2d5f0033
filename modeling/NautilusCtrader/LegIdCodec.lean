import Mathlib.Computability.RegularExpressions
import NautilusCtrader.LegIds

/-!
# Reading a leg's venue order id back

`parse_leg_venue_order_id` reads exactly what `leg_venue_order_id` writes: a number has one spelling
without a sign or a leading zero, and a generation is written from the second on. The texts it reads
are those the pattern `_LEG_ID` matches whole, by its groups (`legIdPattern_reads`).
-/

namespace NautilusCtrader

/-! ## Numbers -/

/-- A digit is the one written for its value. -/
theorem digitChar_of_isDigit {c : Char} (h : c.isDigit = true) :
    c.toNat - 48 < 10 ∧ Nat.digitChar (c.toNat - 48) = c := by
  have hrange : 48 ≤ c.toNat ∧ c.toNat ≤ 57 := by
    rw [Char.isDigit, Bool.and_eq_true, decide_eq_true_eq, decide_eq_true_eq] at h
    exact h
  have hlt : c.toNat - 48 < 10 := by omega
  refine ⟨hlt, Char.toNat_inj.mp ?_⟩
  rw [Nat.toNat_digitChar_of_lt_ten hlt]
  omega

/-- Digits without a leading zero are the ones written for their number. -/
theorem toDigits_ofDigitChars {text : List Char} (hne : text ≠ [])
    (hdigits : ∀ c ∈ text, c.isDigit = true) (hhead : text.head? ≠ some '0') :
    0 < Nat.ofDigitChars 10 text 0 ∧ Nat.toDigits 10 (Nat.ofDigitChars 10 text 0) = text := by
  induction text using List.reverseRecOn with
  | nil => exact absurd rfl hne
  | append_singleton init last ih =>
    obtain ⟨hlt, hlast⟩ := digitChar_of_isDigit (hdigits last (by simp))
    have hzero : '0'.toNat = 48 := rfl
    rw [Nat.ofDigitChars_append, Nat.ofDigitChars_cons, Nat.ofDigitChars_nil, hzero]
    cases init with
    | nil =>
      rw [Nat.ofDigitChars_nil, Nat.mul_zero, Nat.zero_add, Nat.toDigits_of_lt_base hlt, hlast]
      refine ⟨Nat.pos_of_ne_zero fun hnone => hhead ?_, rfl⟩
      rw [hnone] at hlast
      rw [← hlast]
      rfl
    | cons first rest =>
      obtain ⟨hpos, hinit⟩ := ih (List.cons_ne_nil _ _)
        (fun c hc => hdigits c (List.mem_append_left _ hc)) hhead
      refine ⟨by omega, ?_⟩
      rw [← Nat.toDigits_append_toDigits (by omega) hpos hlt, hinit, Nat.toDigits_of_lt_base hlt, hlast]

/-- A positive number is written without a leading zero. -/
theorem head?_toDigits {n : ℕ} (h : 0 < n) : (Nat.toDigits 10 n).head? ≠ some '0' := by
  induction n using Nat.strong_induction_on with
  | _ n ih =>
    rcases Nat.lt_or_ge n 10 with hlt | hge
    · rw [Nat.toDigits_of_lt_base hlt]
      intro hzero
      have hvalue := congrArg Char.toNat (Option.some.inj hzero)
      rw [Nat.toNat_digitChar_of_lt_ten hlt] at hvalue
      have : '0'.toNat = 48 := rfl
      omega
    · rw [Nat.toDigits_of_base_le (by omega) hge, List.head?_append_of_ne_nil _ Nat.toDigits_ne_nil]
      exact ih (n / 10) (by omega) (by omega)

/-- A text is read as a number just if it is how a positive number is written. -/
theorem plainNumber_eq_some {text : List Char} {n : ℕ} :
    plainNumber text = some n ↔ 0 < n ∧ text = n.repr.toList := by
  unfold plainNumber
  rw [Nat.toList_repr]
  constructor
  · intro h
    split at h
    · rename_i hplain
      obtain ⟨hne, hall, hhead⟩ := hplain
      obtain ⟨hpos, hdigits⟩ := toDigits_ofDigitChars hne (List.all_eq_true.mp hall) hhead
      cases h
      exact ⟨hpos, hdigits.symm⟩
    · cases h
  · rintro ⟨hpos, rfl⟩
    have hall : (Nat.toDigits 10 n).all Char.isDigit = true :=
      List.all_eq_true.mpr fun c hc => Nat.isDigit_of_mem_toDigits (by omega) (by omega) hc
    rw [if_pos ⟨Nat.toDigits_ne_nil, hall, head?_toDigits hpos⟩, Nat.ofDigitChars_ten_toDigits]

/-- A level is read just from its own value. -/
theorem levelOf_eq_some {text : List Char} {level : Level} :
    levelOf text = some level ↔ text = level.value.toList := by
  unfold levelOf
  constructor
  · intro h
    split at h
    · cases h
      assumption
    · split at h
      · cases h
        assumption
      · cases h
  · rintro rfl
    cases level <;> rfl

/-! ## The codec -/

/-- A level's value has no dash. -/
theorem dash_notMem_value (level : Level) : '-' ∉ level.value.toList := by
  cases level <;> decide

/-- The id of an entry's leg, with the entry's number as a natural one. -/
theorem toList_legVenueOrderId_natCast (entry : ℕ) (level : Level) (generation : ℕ+) :
    (legVenueOrderId entry level generation).toList =
      entry.repr.toList ++ '-' :: legIdTail level generation :=
  toList_legVenueOrderId entry level generation

/-- What is read of a leg's id. -/
theorem parse_legVenueOrderId {entry : ℕ} (h : 0 < entry) (level : Level) (generation : ℕ+) :
    parseLegVenueOrderId (legVenueOrderId entry level generation) =
      some ((entry : ℤ), level, generation) := by
  have hentry := plainNumber_eq_some.mpr ⟨h, rfl⟩
  have hlevel := levelOf_eq_some.mpr (rfl : level.value.toList = _)
  have hsplit := List.splitOn_append_cons_self_of_not_mem (dash_notMem_repr entry)
    (legIdTail level generation)
  rw [← toList_legVenueOrderId_natCast] at hsplit
  unfold parseLegVenueOrderId
  by_cases hfirst : generation = firstGeneration
  · have htail : legIdTail level generation = level.value.toList := by
      rw [legIdTail, if_pos hfirst, List.append_nil]
    rw [hsplit, htail, List.splitOn_eq_singleton (dash_notMem_value level)]
    dsimp only
    rw [hentry, hlevel, hfirst]
    rfl
  · have htail : legIdTail level generation =
        level.value.toList ++ '-' :: (generation : ℕ).repr.toList := by
      rw [legIdTail, if_neg hfirst]
    have hlater : 2 ≤ (generation : ℕ) := by
      have hpos := generation.pos
      have hne : (generation : ℕ) ≠ 1 := fun hone => hfirst (PNat.eq hone)
      omega
    rw [hsplit, htail, List.splitOn_append_cons_self_of_not_mem (dash_notMem_value level),
      List.splitOn_eq_singleton (dash_notMem_repr _)]
    dsimp only
    rw [hentry, hlevel, plainNumber_eq_some.mpr ⟨generation.pos, rfl⟩]
    dsimp only
    rw [dif_pos hlater]
    rfl

/-- What is read as a leg's id is that leg's. -/
theorem eq_legVenueOrderId_of_parse {text : String} {entry : ℤ} {level : Level} {generation : ℕ+}
    (h : parseLegVenueOrderId text = some (entry, level, generation)) :
    1 ≤ entry ∧ text = legVenueOrderId entry level generation := by
  have htext : ['-'].intercalate (text.toList.splitOn '-') = text.toList := List.intercalate_splitOn '-'
  unfold parseLegVenueOrderId at h
  split at h
  · rename_i entryText levelText hsplit
    rw [hsplit, List.intercalate_cons_cons, List.intercalate_singleton] at htext
    split at h
    · rename_i n l hentry hlevel
      obtain ⟨hpos, rfl⟩ := plainNumber_eq_some.mp hentry
      obtain rfl := levelOf_eq_some.mp hlevel
      cases h
      refine ⟨by omega, String.toList_injective ?_⟩
      rw [← htext, toList_legVenueOrderId_natCast]
      simp [legIdTail, firstGeneration]
    · cases h
  · rename_i entryText levelText generationText hsplit
    rw [hsplit, List.intercalate_cons_cons, List.intercalate_cons_cons,
      List.intercalate_singleton] at htext
    split at h
    · rename_i n l g hentry hlevel hgeneration
      obtain ⟨hpos, rfl⟩ := plainNumber_eq_some.mp hentry
      obtain rfl := levelOf_eq_some.mp hlevel
      obtain ⟨-, rfl⟩ := plainNumber_eq_some.mp hgeneration
      split at h
      · rename_i hlater
        have hfound := Option.some.inj h
        obtain rfl : (n : ℤ) = entry := congrArg Prod.fst hfound
        obtain rfl : l = level := congrArg (fun found => found.2.1) hfound
        have hvalue : (generation : ℕ) = g := congrArg (fun found => found.2.2.val) hfound.symm
        have hne : ¬ generation = firstGeneration := by
          rintro rfl
          exact absurd hvalue.symm (by simp only [firstGeneration, PNat.one_coe]; omega)
        refine ⟨by omega, String.toList_injective ?_⟩
        rw [← htext, toList_legVenueOrderId_natCast, legIdTail, if_neg hne, hvalue]
        simp
      · cases h
    · cases h
  · cases h

/-- A text is read as a leg's id just if it is exactly the id of that leg, whose entry's id is at
least 1. -/
theorem parseLegVenueOrderId_eq_some {text : String} {entry : ℤ} {level : Level} {generation : ℕ+} :
    parseLegVenueOrderId text = some (entry, level, generation) ↔
      1 ≤ entry ∧ text = legVenueOrderId entry level generation := by
  constructor
  · exact eq_legVenueOrderId_of_parse
  · rintro ⟨hentry, rfl⟩
    obtain ⟨n, rfl⟩ := Int.eq_ofNat_of_zero_le (by omega : 0 ≤ entry)
    exact parse_legVenueOrderId (by omega) level generation

/-! ## The pattern

`_LEG_ID` as the source has it. A text it matches whole falls into the groups in one way only, as none
of them takes a dash. -/

/-- A class of characters. -/
def oneOf (chars : List Char) : RegularExpression Char :=
  chars.foldr (fun c rest => .char c + rest) 0

/-- `[0-9]`. -/
def decimalDigits : List Char := ['0', '1', '2', '3', '4', '5', '6', '7', '8', '9']

/-- `[1-9]`. -/
def leadingDigits : List Char := decimalDigits.drop 1

/-- `[2-9]`. -/
def laterDigits : List Char := decimalDigits.drop 2

/-- The pattern of a number: `[1-9][0-9]*`. -/
def numberPattern : RegularExpression Char := oneOf leadingDigits * (oneOf decimalDigits).star

/-- The pattern of a generation that is written: `[2-9]|[1-9][0-9]+`. -/
def generationPattern : RegularExpression Char :=
  oneOf laterDigits + oneOf leadingDigits * (oneOf decimalDigits * (oneOf decimalDigits).star)

/-- The pattern of a level: `SL|TP`. -/
def levelPattern : RegularExpression Char := .char 'S' * .char 'L' + .char 'T' * .char 'P'

/-- `_LEG_ID`. -/
def legIdPattern : RegularExpression Char :=
  numberPattern * .char '-' * levelPattern * (1 + .char '-' * generationPattern)

/-- A class matches its characters one at a time. -/
theorem mem_oneOf {chars text : List Char} :
    text ∈ (oneOf chars).matches' ↔ ∃ c ∈ chars, text = [c] := by
  induction chars with
  | nil =>
    constructor
    · intro h
      exact absurd h (Language.notMem_zero _)
    · rintro ⟨c, hc, -⟩
      exact absurd hc List.not_mem_nil
  | cons first rest ih =>
    rw [oneOf, List.foldr_cons, RegularExpression.matches'_add, Language.mem_add, ← oneOf, ih]
    simp only [RegularExpression.matches'_char, List.mem_cons, exists_eq_or_imp]
    rfl

/-- Any number of characters of a class. -/
theorem mem_star_oneOf {chars text : List Char} :
    text ∈ (oneOf chars).star.matches' ↔ ∀ c ∈ text, c ∈ chars := by
  rw [RegularExpression.matches'_star, Language.mem_kstar]
  constructor
  · rintro ⟨parts, rfl, hparts⟩ c hc
    obtain ⟨part, hpart, hcpart⟩ := List.mem_flatten.mp hc
    obtain ⟨c', hc', rfl⟩ := mem_oneOf.mp (hparts part hpart)
    rwa [List.mem_singleton.mp hcpart]
  · intro h
    refine ⟨text.map fun c => [c], ?_, ?_⟩
    · rw [← List.flatMap_def, List.flatMap_singleton']
    · intro part hpart
      obtain ⟨c, hc, rfl⟩ := List.mem_map.mp hpart
      exact mem_oneOf.mpr ⟨c, h c hc, rfl⟩

/-- The decimal digits are the ASCII ones. -/
theorem mem_decimalDigits {c : Char} : c ∈ decimalDigits ↔ c.isDigit = true := by
  constructor
  · intro h
    have hall : decimalDigits.all Char.isDigit = true := by decide
    exact List.all_eq_true.mp hall c h
  · intro h
    have hall : ∀ k < 10, Nat.digitChar k ∈ decimalDigits := by decide
    obtain ⟨hlt, hchar⟩ := digitChar_of_isDigit h
    rw [← hchar]
    exact hall _ hlt

/-- A leading digit is not zero. -/
theorem mem_leadingDigits {c : Char} : c ∈ leadingDigits ↔ c.isDigit = true ∧ c ≠ '0' := by
  have hnodup : '0' ∉ leadingDigits := by decide
  have hcons : decimalDigits = '0' :: leadingDigits := rfl
  rw [← mem_decimalDigits, hcons, List.mem_cons]
  constructor
  · intro h
    exact ⟨.inr h, fun hzero => hnodup (hzero ▸ h)⟩
  · rintro ⟨rfl | h, hne⟩
    · exact absurd rfl hne
    · exact h

/-- A number's first digit and the others. -/
theorem plainNumber_cons {first : Char} {rest : List Char} :
    (∃ n, plainNumber (first :: rest) = some n) ↔
      first ∈ leadingDigits ∧ ∀ c ∈ rest, c ∈ decimalDigits := by
  unfold plainNumber
  simp only [mem_leadingDigits, mem_decimalDigits]
  constructor
  · rintro ⟨n, h⟩
    split at h
    · rename_i hplain
      obtain ⟨-, hall, hhead⟩ := hplain
      rw [List.all_cons, Bool.and_eq_true, List.all_eq_true] at hall
      exact ⟨⟨hall.1, fun hzero => hhead (by rw [hzero]; rfl)⟩, hall.2⟩
    · cases h
  · rintro ⟨⟨hfirst, hne⟩, hrest⟩
    refine ⟨_, if_pos ⟨List.cons_ne_nil _ _, ?_, fun hzero => hne (Option.some.inj hzero)⟩⟩
    rw [List.all_cons, Bool.and_eq_true, List.all_eq_true]
    exact ⟨hfirst, hrest⟩

/-- The pattern of a number matches what is read as one. -/
theorem mem_numberPattern {text : List Char} :
    text ∈ numberPattern.matches' ↔ ∃ n, plainNumber text = some n := by
  rw [numberPattern, RegularExpression.matches'_mul, Language.mem_mul]
  constructor
  · rintro ⟨_, hfirst, rest, hrest, rfl⟩
    obtain ⟨first, hmem, rfl⟩ := mem_oneOf.mp hfirst
    exact plainNumber_cons.mpr ⟨hmem, mem_star_oneOf.mp hrest⟩
  · intro h
    cases text with
    | nil => exact absurd h (by rintro ⟨n, hn⟩; cases hn)
    | cons first rest =>
      obtain ⟨hfirst, hrest⟩ := plainNumber_cons.mp h
      exact ⟨[first], mem_oneOf.mpr ⟨first, hfirst, rfl⟩, rest, mem_star_oneOf.mpr hrest, rfl⟩

/-- The pattern of a generation matches what is read as one from the second on. -/
theorem mem_generationPattern {text : List Char} :
    text ∈ generationPattern.matches' ↔ ∃ g, plainNumber text = some g ∧ 2 ≤ g := by
  rw [generationPattern, RegularExpression.matches'_add, Language.mem_add,
    RegularExpression.matches'_mul, Language.mem_mul]
  constructor
  · rintro (hone | ⟨_, hfirst, others, hothers, rfl⟩)
    · obtain ⟨c, hc, rfl⟩ := mem_oneOf.mp hone
      have hall : (laterDigits.all fun c => (plainNumber [c]).any (2 ≤ ·)) = true := by decide
      obtain ⟨g, hg, hlater⟩ := Option.any_eq_true _ _ |>.mp (List.all_eq_true.mp hall c hc)
      exact ⟨g, hg, by simpa using hlater⟩
    · rw [RegularExpression.matches'_mul, Language.mem_mul] at hothers
      obtain ⟨_, hnext, rest, hrest, rfl⟩ := hothers
      obtain ⟨first, hleading, rfl⟩ := mem_oneOf.mp hfirst
      obtain ⟨second, hsecond, rfl⟩ := mem_oneOf.mp hnext
      obtain ⟨g, hg⟩ := plainNumber_cons.mpr ⟨hleading, List.forall_mem_cons.mpr
        ⟨hsecond, mem_star_oneOf.mp hrest⟩⟩
      refine ⟨g, hg, ?_⟩
      obtain ⟨hpos, htext⟩ := plainNumber_eq_some.mp hg
      by_contra hsmall
      obtain rfl : g = 1 := by omega
      cases htext
  · rintro ⟨g, hg, hlater⟩
    cases text with
    | nil => cases hg
    | cons first rest =>
      obtain ⟨hfirst, hrest⟩ := plainNumber_cons.mp ⟨g, hg⟩
      cases rest with
      | nil =>
        refine .inl (mem_oneOf.mpr ⟨first, ?_, rfl⟩)
        have hcons : leadingDigits = '1' :: laterDigits := rfl
        rw [hcons, List.mem_cons] at hfirst
        rcases hfirst with rfl | hfirst
        · obtain rfl : 1 = g := Option.some.inj hg
          omega
        · exact hfirst
      | cons second rest =>
        obtain ⟨hsecond, hrest⟩ := List.forall_mem_cons.mp hrest
        refine .inr ⟨[first], mem_oneOf.mpr ⟨first, hfirst, rfl⟩, second :: rest, ?_, rfl⟩
        rw [RegularExpression.matches'_mul, Language.mem_mul]
        exact ⟨[second], mem_oneOf.mpr ⟨second, hsecond, rfl⟩, rest, mem_star_oneOf.mpr hrest, rfl⟩

/-- The pattern of a level matches the two values. -/
theorem mem_levelPattern {text : List Char} :
    text ∈ levelPattern.matches' ↔ ∃ level : Level, text = level.value.toList := by
  rw [levelPattern, RegularExpression.matches'_add, Language.mem_add, RegularExpression.matches'_mul,
    RegularExpression.matches'_mul, Language.mem_mul, Language.mem_mul]
  constructor
  · rintro (⟨_, rfl, _, rfl, rfl⟩ | ⟨_, rfl, _, rfl, rfl⟩)
    · exact ⟨.stopLoss, rfl⟩
    · exact ⟨.takeProfit, rfl⟩
  · rintro ⟨level, rfl⟩
    cases level with
    | stopLoss => exact .inl ⟨['S'], rfl, ['L'], rfl, rfl⟩
    | takeProfit => exact .inr ⟨['T'], rfl, ['P'], rfl, rfl⟩

/-- What may follow the level in a leg's id. -/
theorem mem_suffixPattern {text : List Char} :
    text ∈ (1 + .char '-' * generationPattern : RegularExpression Char).matches' ↔
      ∃ generation : ℕ+, text =
        if generation = firstGeneration then [] else '-' :: (generation : ℕ).repr.toList := by
  rw [RegularExpression.matches'_add, Language.mem_add, RegularExpression.matches'_mul,
    Language.mem_mul]
  constructor
  · rintro (hnone | ⟨_, rfl, rest, hrest, rfl⟩)
    · exact ⟨firstGeneration, by rw [if_pos rfl]; exact hnone⟩
    · obtain ⟨g, hg, hlater⟩ := mem_generationPattern.mp hrest
      obtain ⟨hpos, rfl⟩ := plainNumber_eq_some.mp hg
      refine ⟨⟨g, hpos⟩, ?_⟩
      rw [if_neg]
      · rfl
      · intro hfirst
        have hone : g = 1 := congrArg PNat.val hfirst
        omega
  · rintro ⟨generation, rfl⟩
    split
    · exact .inl rfl
    · rename_i hfirst
      have hne : (generation : ℕ) ≠ 1 := fun hone => hfirst (PNat.eq hone)
      have hpos := generation.pos
      exact .inr ⟨['-'], rfl, _, mem_generationPattern.mpr
        ⟨generation, plainNumber_eq_some.mpr ⟨hpos, rfl⟩, by omega⟩, rfl⟩

/-- Whatever groups a match of `_LEG_ID` falls into, they are what is read of the text. -/
theorem parse_of_groups {text : String} {number level suffix : List Char}
    (hnumber : number ∈ numberPattern.matches') (hlevel : level ∈ levelPattern.matches')
    (hsuffix : suffix ∈ (1 + .char '-' * generationPattern : RegularExpression Char).matches')
    (htext : text.toList = number ++ '-' :: (level ++ suffix)) :
    ∃ (entry : ℕ) (l : Level) (generation : ℕ+), plainNumber number = some entry ∧
      level = l.value.toList ∧
      suffix = (if generation = firstGeneration then [] else '-' :: (generation : ℕ).repr.toList) ∧
      parseLegVenueOrderId text = some ((entry : ℤ), l, generation) := by
  obtain ⟨entry, hentry⟩ := mem_numberPattern.mp hnumber
  obtain ⟨hpos, rfl⟩ := plainNumber_eq_some.mp hentry
  obtain ⟨l, rfl⟩ := mem_levelPattern.mp hlevel
  obtain ⟨generation, rfl⟩ := mem_suffixPattern.mp hsuffix
  have hid : text = legVenueOrderId entry l generation := by
    refine String.toList_injective ?_
    rw [htext, toList_legVenueOrderId_natCast, legIdTail]
  refine ⟨entry, l, generation, hentry, rfl, rfl, ?_⟩
  rw [hid]
  exact parse_legVenueOrderId hpos l generation

/-- The texts `_LEG_ID` matches whole are the ids of legs. -/
theorem mem_legIdPattern {text : String} :
    text.toList ∈ legIdPattern.matches' ↔ (parseLegVenueOrderId text).isSome = true := by
  rw [legIdPattern, RegularExpression.matches'_mul, RegularExpression.matches'_mul,
    RegularExpression.matches'_mul, Language.mem_mul]
  constructor
  · rintro ⟨_, ⟨_, ⟨number, hnumber, _, rfl, rfl⟩, level, hlevel, rfl⟩, suffix, hsuffix, htext⟩
    have hgroups : text.toList = number ++ '-' :: (level ++ suffix) := by
      rw [← htext]
      simp
    obtain ⟨entry, l, generation, -, -, -, hread⟩ :=
      parse_of_groups hnumber hlevel hsuffix hgroups
    rw [hread]
    rfl
  · intro h
    obtain ⟨⟨entry, level, generation⟩, hfound⟩ := Option.isSome_iff_exists.mp h
    obtain ⟨hentry, rfl⟩ := eq_legVenueOrderId_of_parse hfound
    obtain ⟨n, rfl⟩ := Int.eq_ofNat_of_zero_le (by omega : 0 ≤ entry)
    have hnumber := mem_numberPattern.mpr ⟨n, plainNumber_eq_some.mpr ⟨by omega, rfl⟩⟩
    refine ⟨_, ⟨_, ⟨_, hnumber, ['-'], rfl, rfl⟩, _, mem_levelPattern.mpr ⟨level, rfl⟩, rfl⟩, _,
      mem_suffixPattern.mpr ⟨generation, rfl⟩, ?_⟩
    show _ = (legVenueOrderId (n : ℤ) level generation).toList
    rw [toList_legVenueOrderId_natCast, legIdTail]
    simp

/-- **`_LEG_ID` and the ids of legs.** The pattern matches a text whole just if it is the id of a leg,
and the groups of any match are the digits of its entry, its level and the digits of its generation. -/
theorem legIdPattern_reads (text : String) :
    (text.toList ∈ legIdPattern.matches' ↔
        ∃ (entry : ℤ) (level : Level) (generation : ℕ+),
          1 ≤ entry ∧ text = legVenueOrderId entry level generation) ∧
      ∀ number ∈ numberPattern.matches', ∀ level ∈ levelPattern.matches',
        ∀ suffix ∈ (1 + .char '-' * generationPattern : RegularExpression Char).matches',
          text.toList = number ++ '-' :: (level ++ suffix) →
          ∃ (entry : ℕ) (l : Level) (generation : ℕ+), plainNumber number = some entry ∧
            level = l.value.toList ∧
            suffix = (if generation = firstGeneration then []
              else '-' :: (generation : ℕ).repr.toList) ∧
            text = legVenueOrderId entry l generation := by
  refine ⟨?_, ?_⟩
  · rw [mem_legIdPattern]
    constructor
    · intro h
      obtain ⟨⟨entry, level, generation⟩, hread⟩ := Option.isSome_iff_exists.mp h
      exact ⟨entry, level, generation, eq_legVenueOrderId_of_parse hread⟩
    · rintro ⟨entry, level, generation, hentry, rfl⟩
      obtain ⟨n, rfl⟩ := Int.eq_ofNat_of_zero_le (by omega : 0 ≤ entry)
      have hpos : 0 < n := by omega
      have hread := parse_legVenueOrderId hpos level generation
      exact Option.isSome_iff_exists.mpr ⟨_, hread⟩
  · intro number hnumber level hlevel suffix hsuffix htext
    obtain ⟨entry, l, generation, hentry, hl, hgeneration, hread⟩ :=
      parse_of_groups hnumber hlevel hsuffix htext
    exact ⟨entry, l, generation, hentry, hl, hgeneration, (eq_legVenueOrderId_of_parse hread).2⟩

/-- The second stop-loss leg of entry 5. -/
theorem legIdPattern_reads_secondStop :
    ∃ (entry : ℕ) (l : Level) (generation : ℕ+), plainNumber ['5'] = some entry ∧
      ['S', 'L'] = l.value.toList ∧
      ['-', '2'] = (if generation = firstGeneration then []
        else '-' :: (generation : ℕ).repr.toList) ∧
      "5-SL-2" = legVenueOrderId entry l generation := by
  have hnumber : ['5'] ∈ numberPattern.matches' := mem_numberPattern.mpr ⟨5, by decide⟩
  have hlevel : ['S', 'L'] ∈ levelPattern.matches' := mem_levelPattern.mpr ⟨.stopLoss, by decide⟩
  have hsuffix : ['-', '2'] ∈
      (1 + .char '-' * generationPattern : RegularExpression Char).matches' :=
    mem_suffixPattern.mpr ⟨2, by decide⟩
  exact (legIdPattern_reads "5-SL-2").2 _ hnumber _ hlevel _ hsuffix (by decide)

end NautilusCtrader
