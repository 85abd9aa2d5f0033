import NautilusCtrader.Common.Raising
import NautilusCtrader.OrderRecord
import NautilusCtrader.VenueRecords

/-!
# Writing the records, and that reading undoes it

`encode_label` and `encode_comment` raise on an id that is not recordable and on a text that does not
fit its field. `parse_comment` calls the latter on what it has read, so it is written here with that
raise; the rest of the model uses the reading it comes to, `parseComment`.
-/

namespace NautilusCtrader

open Common

namespace OrderRecord

/-- Why an id or a text cannot be written. -/
inductive RecordError
  | notRecordable
  | recordTooLong (field : String) (length limit : ℕ)
deriving DecidableEq, Repr

/-- The text of the `ValueError`. -/
def RecordError.message : RecordError → String
  | notRecordable =>
    "a client order id must be non-empty printable ASCII with no space or '|'"
  | recordTooLong field length limit =>
    s!"{field} record is {length} characters, the limit is {limit}"

/-- `_require_recordable`. -/
def requireRecordable (orderId : String) : Except RecordError String :=
  if isRecordable orderId.toList then .ok orderId else .error .notRecordable

/-- `_fit`. -/
def fit (text : List Char) (limit : ℕ) (field : String) : Except RecordError String :=
  if text.length > limit then .error (.recordTooLong field text.length limit)
  else .ok (String.ofList text)

def clientOrderIdMax : ℕ := 50

/-- `check_client_order_id`. -/
def checkClientOrderId (entryId : String) : Except RecordError String := do
  let entryId ← requireRecordable entryId
  fit entryId.toList clientOrderIdMax "clientOrderId"

/-- The `label` the adapter writes on an entry. -/
def encodeLabel (entryId : String) : Except RecordError String := do
  let entryId ← requireRecordable entryId
  fit (labelPrefix.toList ++ entryId.toList) labelMax "label"

/-- The field of a leg that is there, once its id is found recordable. -/
def encodeField (key : String) (leg : Option String) : Except RecordError (List (List Char)) :=
  match leg with
  | none => .ok []
  | some orderId => do
    let orderId ← requireRecordable orderId
    return [(key ++ "=" ++ orderId).toList]

/-- The `comment` the adapter writes on an entry whose protective legs are `legs`. -/
def encodeComment (legs : LegIds) : Except RecordError String := do
  let stopLoss ← encodeField stopLossKey legs.stopLoss
  let takeProfit ← encodeField takeProfitKey legs.takeProfit
  fit ([fieldSeparator].intercalate (marker.toList :: (stopLoss ++ takeProfit))) commentMax "comment"

/-- `parse_comment`, with the raise of its last step. -/
def readComment (comment : String) : Except RecordError (Option LegIds) :=
  let text := comment.toList
  if text.length > commentMax then .ok none
  else
    match text.splitOn fieldSeparator with
    | [] => .ok none
    | first :: fields =>
      if first ≠ marker.toList then .ok none
      else
        match parseFields ⟨none, none⟩ fields with
        | none => .ok none
        | some legs => do
          let written ← encodeComment legs
          return if written = comment then some legs else none

/-! ## What the writers accept -/

/-- Whether a leg that is there has an id that can be written. -/
def LegIds.Recordable (legs : LegIds) : Prop :=
  (∀ orderId ∈ legs.stopLoss, isRecordable orderId.toList) ∧
    ∀ orderId ∈ legs.takeProfit, isRecordable orderId.toList

/-- An id is accepted just if it is recordable. -/
theorem requireRecordable_eq_ok {orderId found : String} :
    requireRecordable orderId = .ok found ↔ isRecordable orderId.toList ∧ found = orderId := by
  unfold requireRecordable
  split
  · rename_i h
    rw [Except.ok.injEq]
    exact ⟨fun heq => ⟨h, heq.symm⟩, fun heq => heq.2.symm⟩
  · rename_i h
    exact ⟨nofun, fun heq => absurd heq.1 h⟩

/-- A text fits just if it is not too long. -/
theorem fit_eq_ok {text : List Char} {limit : ℕ} {field found : String} :
    fit text limit field = .ok found ↔ text.length ≤ limit ∧ found.toList = text := by
  unfold fit
  split
  · exact ⟨nofun, fun h => by omega⟩
  · rename_i h
    rw [Except.ok.injEq]
    constructor
    · intro heq
      exact ⟨by omega, by rw [← heq, String.toList_ofList]⟩
    · intro heq
      rw [← heq.2, String.ofList_toList]

/-- A label is the prefix and a recordable id, if they fit. -/
theorem encodeLabel_eq_ok {entryId label : String} :
    encodeLabel entryId = .ok label ↔ isRecordable entryId.toList ∧
      label.toList = labelPrefix.toList ++ entryId.toList ∧ label.toList.length ≤ labelMax := by
  unfold encodeLabel
  simp only [bind_eq_ok, requireRecordable_eq_ok, fit_eq_ok]
  constructor
  · rintro ⟨_, ⟨hrecordable, rfl⟩, hlength, htext⟩
    exact ⟨hrecordable, htext, htext ▸ hlength⟩
  · rintro ⟨hrecordable, htext, hlength⟩
    exact ⟨entryId, ⟨hrecordable, rfl⟩, htext ▸ hlength, htext⟩

/-- A leg's field is written just if its id is recordable. -/
theorem encodeField_eq_ok {key : String} {leg : Option String} {fields : List (List Char)} :
    encodeField key leg = .ok fields ↔
      (∀ orderId ∈ leg, isRecordable orderId.toList) ∧ fields = commentField key leg := by
  unfold encodeField commentField
  cases leg with
  | none =>
    rw [Except.ok.injEq]
    exact ⟨fun heq => ⟨nofun, heq.symm⟩, fun heq => heq.2.symm⟩
  | some orderId =>
    simp only [bind_eq_ok, requireRecordable_eq_ok, pure_eq_ok, Option.mem_some_iff, forall_eq']
    constructor
    · rintro ⟨_, ⟨hrecordable, rfl⟩, rfl⟩
      exact ⟨hrecordable, rfl⟩
    · rintro ⟨hrecordable, rfl⟩
      exact ⟨orderId, ⟨hrecordable, rfl⟩, rfl⟩

/-- A comment is the text of recordable legs, if it fits. -/
theorem encodeComment_eq_ok {legs : LegIds} {comment : String} :
    encodeComment legs = .ok comment ↔
      legs.Recordable ∧ comment.toList = commentText legs ∧ comment.toList.length ≤ commentMax := by
  unfold encodeComment LegIds.Recordable commentText
  simp only [bind_eq_ok, encodeField_eq_ok, fit_eq_ok]
  constructor
  · rintro ⟨_, ⟨hstop, rfl⟩, _, ⟨htarget, rfl⟩, hlength, htext⟩
    exact ⟨⟨hstop, htarget⟩, htext, htext ▸ hlength⟩
  · rintro ⟨⟨hstop, htarget⟩, htext, hlength⟩
    exact ⟨_, ⟨hstop, rfl⟩, _, ⟨htarget, rfl⟩, htext ▸ hlength, htext⟩

/-! ## Reading a label -/

/-- A label is read as an entry id just if it is what is written for that id. -/
theorem parseLabel_eq_some {label entryId : String} :
    parseLabel label = some entryId ↔ encodeLabel entryId = .ok label := by
  rw [encodeLabel_eq_ok]
  unfold parseLabel
  dsimp only
  constructor
  · intro h
    split at h
    · exact nomatch h
    rename_i hfits
    rw [Bool.or_eq_true, not_or, decide_eq_true_eq, Bool.not_eq_true', Bool.not_eq_false,
      List.isPrefixOf_iff_prefix] at hfits
    obtain ⟨hlength, rest, htext⟩ := hfits
    rw [← htext, List.drop_left] at h
    split at h
    · rename_i hrecordable
      cases h
      rw [String.toList_ofList]
      exact ⟨hrecordable, htext.symm, by omega⟩
    · exact nomatch h
  · rintro ⟨hrecordable, htext, hlength⟩
    rw [if_neg, htext, List.drop_left, if_pos hrecordable, String.ofList_toList]
    rw [Bool.or_eq_true, not_or, decide_eq_true_eq, Bool.not_eq_true', Bool.not_eq_false,
      List.isPrefixOf_iff_prefix]
    exact ⟨by omega, entryId.toList, htext.symm⟩

/-! ## Reading a comment's fields -/

/-- The key of a leg's field. -/
def legKey : Level → String
  | .stopLoss => stopLossKey
  | .takeProfit => takeProfitKey

/-- The legs read so far, with one more field's id. -/
def LegIds.found (legs : LegIds) (level : Level) (orderId : List Char) : LegIds :=
  match level with
  | .stopLoss => { legs with stopLoss := some (String.ofList orderId) }
  | .takeProfit => { legs with takeProfit := some (String.ofList orderId) }

/-- A leg's field as characters. -/
def fieldText (level : Level) (orderId : List Char) : List Char :=
  (legKey level).toList ++ '=' :: orderId

/-- A leg's key has no equals sign. -/
theorem legKey_noSeparator (level : Level) :
    ∀ c ∈ (legKey level).toList, decide (c ≠ '=') = true := by
  refine List.all_eq_true.mp ?_
  cases level <;> decide

/-- A field's key comes before its equals sign. -/
theorem takeWhile_fieldText (level : Level) (orderId : List Char) :
    (fieldText level orderId).takeWhile (· ≠ '=') = (legKey level).toList := by
  rw [fieldText, List.takeWhile_append_of_pos (legKey_noSeparator level)]
  simp

/-- Its id comes after. -/
theorem dropWhile_fieldText (level : Level) (orderId : List Char) :
    ((fieldText level orderId).dropWhile (· ≠ '=')).drop 1 = orderId := by
  rw [fieldText, List.dropWhile_append_of_pos (legKey_noSeparator level)]
  simp

/-- `partition` at a separator that is there. -/
theorem split_at_separator {item : List Char} (h : '=' ∈ item) :
    item = item.takeWhile (· ≠ '=') ++ '=' :: (item.dropWhile (· ≠ '=')).drop 1 := by
  induction item with
  | nil => exact absurd h List.not_mem_nil
  | cons c rest ih =>
    by_cases hc : c = '='
    · subst hc
      simp
    · have hrest : '=' ∈ rest := (List.mem_cons.mp h).resolve_left (Ne.symm hc)
      have hpos : decide (c ≠ '=') = true := decide_eq_true hc
      rw [List.takeWhile_cons, List.dropWhile_cons, hpos, if_pos rfl, if_pos rfl, List.cons_append,
        ← ih hrest]

/-- One written field is read as its leg's id. -/
theorem parseFields_fieldText {found : LegIds} {level : Level} {orderId : List Char}
    {rest : List (List Char)} (h : isRecordable orderId) :
    parseFields found (fieldText level orderId :: rest) =
      parseFields (found.found level orderId) rest := by
  have hcontains : (fieldText level orderId).contains '=' = true := by simp [fieldText]
  rw [parseFields, takeWhile_fieldText, dropWhile_fieldText, hcontains, h]
  cases level with
  | stopLoss => rfl
  | takeProfit =>
    have hne : ¬ (legKey .takeProfit).toList = stopLossKey.toList := by decide
    have heq : (legKey .takeProfit).toList = takeProfitKey.toList := rfl
    rw [if_neg (by decide), if_neg hne, if_pos heq]
    rfl

/-- A field that is read is a written one. -/
theorem parseFields_cons {found legs : LegIds} {item : List Char} {rest : List (List Char)}
    (h : parseFields found (item :: rest) = some legs) :
    ∃ level orderId, item = fieldText level orderId ∧ isRecordable orderId ∧
      parseFields (found.found level orderId) rest = some legs := by
  rw [parseFields] at h
  split at h
  · exact nomatch h
  rename_i hfield
  rw [Bool.or_eq_true, not_or, Bool.not_eq_true', Bool.not_eq_false, Bool.not_eq_true',
    Bool.not_eq_false] at hfield
  obtain ⟨hcontains, hrecordable⟩ := hfield
  have hitem := split_at_separator (List.contains_iff_mem.mp hcontains)
  split at h
  · rename_i hkey
    rw [hkey] at hitem
    exact ⟨.stopLoss, _, hitem, hrecordable, h⟩
  split at h
  · rename_i hkey
    rw [hkey] at hitem
    exact ⟨.takeProfit, _, hitem, hrecordable, h⟩
  · exact nomatch h

/-! ## What reading leaves fits again

Every id read is recordable, and the legs found take no more room than the fields they were read from:
so the re-encoding at the end of `parse_comment` never raises. -/

/-- What a list of fields takes in a comment, each behind its separator. -/
def room (fields : List (List Char)) : ℕ := (fields.map fun field => field.length + 1).sum

/-- The fields written for `legs`. -/
def LegIds.fields (legs : LegIds) : List (List Char) :=
  commentField stopLossKey legs.stopLoss ++ commentField takeProfitKey legs.takeProfit

/-- Joined fields take the room of each. -/
theorem length_intercalate (first : List Char) (fields : List (List Char)) :
    ([fieldSeparator].intercalate (first :: fields)).length = first.length + room fields := by
  induction fields generalizing first with
  | nil => simp [room]
  | cons field fields ih =>
    rw [List.intercalate_cons_cons, List.length_append, List.length_append, ih]
    simp only [room, List.map_cons, List.sum_cons, List.length_singleton]
    omega

/-- A leg's field takes its id's length and its key. -/
theorem room_commentField (level : Level) (leg : Option String) :
    room (commentField (legKey level) leg) =
      (leg.map fun orderId => orderId.toList.length + 4).getD 0 := by
  cases leg with
  | none => rfl
  | some orderId =>
    have hkey : (legKey level).toList.length = 2 := by cases level <;> rfl
    simp only [commentField, room, List.map_cons, List.map_nil, List.sum_cons, List.sum_nil,
      String.toList_append, List.length_append, hkey, Option.map_some, Option.getD_some]
    have hsign : "=".toList.length = 1 := rfl
    omega

/-- So does its text. -/
theorem room_fieldText (level : Level) (orderId : List Char) :
    (fieldText level orderId).length + 1 = orderId.length + 4 := by
  have hkey : (legKey level).toList.length = 2 := by cases level <;> rfl
  rw [fieldText, List.length_append, List.length_cons, hkey]
  omega

/-- The fields of two legs take the room of each. -/
theorem room_fields (legs : LegIds) :
    room legs.fields = room (commentField (legKey .stopLoss) legs.stopLoss) +
      room (commentField (legKey .takeProfit) legs.takeProfit) := by
  simp only [LegIds.fields, room, List.map_append, List.sum_append, legKey]

/-- Taking one more field adds at most its own room. -/
theorem room_found (legs : LegIds) (level : Level) (orderId : List Char) :
    room (legs.found level orderId).fields ≤ room legs.fields + (orderId.length + 4) := by
  simp only [room_fields, room_commentField]
  cases level with
  | stopLoss =>
    simp only [LegIds.found, Option.map_some, Option.getD_some, String.toList_ofList]
    omega
  | takeProfit =>
    simp only [LegIds.found, Option.map_some, Option.getD_some, String.toList_ofList]
    omega

/-- A recordable id that is found keeps the legs recordable. -/
theorem LegIds.Recordable.found {legs : LegIds} (h : legs.Recordable) (level : Level)
    {orderId : List Char} (hid : isRecordable orderId) : (legs.found level orderId).Recordable := by
  have hnew : ∀ text ∈ some (String.ofList orderId), isRecordable text.toList := by
    intro text htext
    rw [← Option.mem_some_iff.mp htext, String.toList_ofList]
    exact hid
  cases level with
  | stopLoss => exact ⟨hnew, h.2⟩
  | takeProfit => exact ⟨h.1, hnew⟩

/-- What is parsed is recordable, and takes no more room than it was read from. -/
theorem parseFields_fits {found legs : LegIds} {fields : List (List Char)}
    (hfound : found.Recordable) (h : parseFields found fields = some legs) :
    legs.Recordable ∧ room legs.fields ≤ room found.fields + room fields := by
  induction fields generalizing found with
  | nil =>
    cases h
    exact ⟨hfound, by omega⟩
  | cons item rest ih =>
    obtain ⟨level, orderId, hitem, hrecordable, hrest⟩ := parseFields_cons h
    obtain ⟨hlegs, hroom⟩ := ih (hfound.found level hrecordable) hrest
    have hone := room_found found level orderId
    have htext := room_fieldText level orderId
    refine ⟨hlegs, ?_⟩
    have hcons : room (item :: rest) = (item.length + 1) + room rest := rfl
    rw [hcons, hitem]
    omega

/-! ## Reading a comment -/

/-- A comment's text is the marker and the fields. -/
theorem commentText_eq (legs : LegIds) :
    commentText legs = [fieldSeparator].intercalate (marker.toList :: legs.fields) := rfl

/-- It is as long as the marker and their room. -/
theorem length_commentText (legs : LegIds) :
    (commentText legs).length = marker.toList.length + room legs.fields := by
  rw [commentText_eq, length_intercalate]

/-- The legs' fields are read back as the legs. -/
theorem parseFields_fields {legs : LegIds} (h : legs.Recordable) :
    parseFields ⟨none, none⟩ legs.fields = some legs := by
  obtain ⟨stopLoss, takeProfit⟩ := legs
  have htext (level : Level) (orderId : String) :
      (legKey level ++ "=" ++ orderId).toList = fieldText level orderId.toList := by
    simp [fieldText, String.toList_append]
  have hstop : ∀ rest, parseFields ⟨none, none⟩ (commentField stopLossKey stopLoss ++ rest) =
      parseFields ⟨stopLoss, none⟩ rest := by
    intro rest
    cases stopLoss with
    | none => rfl
    | some orderId =>
      have hfield := htext .stopLoss orderId
      have hid : isRecordable orderId.toList = true := h.1 orderId rfl
      rw [commentField, List.singleton_append]
      rw [show (stopLossKey ++ "=" ++ orderId).toList = _ from hfield, parseFields_fieldText hid]
      simp only [LegIds.found, String.ofList_toList]
  have htarget : parseFields ⟨stopLoss, none⟩ (commentField takeProfitKey takeProfit) =
      some ⟨stopLoss, takeProfit⟩ := by
    cases takeProfit with
    | none => rfl
    | some orderId =>
      have hfield := htext .takeProfit orderId
      have hid : isRecordable orderId.toList = true := h.2 orderId rfl
      rw [commentField, show (takeProfitKey ++ "=" ++ orderId).toList = _ from hfield,
        parseFields_fieldText hid]
      simp only [LegIds.found, String.ofList_toList]
      rfl
  rw [LegIds.fields, hstop, htarget]

/-- No field of recordable legs holds the separator between fields. -/
theorem separator_not_mem {legs : LegIds} (h : legs.Recordable) :
    ∀ text ∈ marker.toList :: legs.fields, fieldSeparator ∉ text := by
  have hfield (level : Level) (leg : Option String)
      (hleg : ∀ orderId ∈ leg, isRecordable orderId.toList) :
      ∀ text ∈ commentField (legKey level) leg, fieldSeparator ∉ text := by
    intro text htext
    cases leg with
    | none => exact absurd htext List.not_mem_nil
    | some orderId =>
      have hid : isRecordable orderId.toList = true := hleg orderId rfl
      rw [isRecordable, Bool.and_eq_true, List.all_eq_true] at hid
      rw [commentField, List.mem_singleton] at htext
      subst htext
      simp only [String.toList_append, List.mem_append, not_or]
      refine ⟨⟨?_, by decide⟩, fun hmem => ?_⟩
      · cases level <;> decide
      · have hall := hid.2 fieldSeparator hmem
        simp at hall
  intro text htext
  rw [List.mem_cons, LegIds.fields, List.mem_append] at htext
  rcases htext with rfl | hstop | htarget
  · decide
  · exact hfield .stopLoss legs.stopLoss h.1 text hstop
  · exact hfield .takeProfit legs.takeProfit h.2 text htarget

/-- The fields of a text start with what stands before its first separator. -/
theorem intercalate_fields {comment : String} {first : List Char} {fields : List (List Char)}
    (h : comment.toList.splitOn fieldSeparator = first :: fields) :
    comment.toList = [fieldSeparator].intercalate (first :: fields) := by
  rw [← h, List.intercalate_splitOn]

/-- What `parse_comment` comes to when it returns: it never raises. -/
theorem readComment_eq (comment : String) : readComment comment = .ok (parseComment comment) := by
  unfold readComment parseComment
  dsimp only
  split
  · rfl
  rename_i hlength
  cases hsplit : comment.toList.splitOn fieldSeparator with
  | nil => rfl
  | cons first fields =>
    dsimp only
    split
    · rfl
    rename_i hfirst
    cases hparse : parseFields ⟨none, none⟩ fields with
    | none => rfl
    | some legs =>
      dsimp only
      have hnone : (⟨none, none⟩ : LegIds).Recordable := ⟨nofun, nofun⟩
      obtain ⟨hrecordable, hroom⟩ := parseFields_fits hnone hparse
      have hmarker : first = marker.toList := not_not.mp hfirst
      have htotal : comment.toList.length = marker.toList.length + room fields := by
        rw [intercalate_fields hsplit, length_intercalate, hmarker]
      have hempty : room (LegIds.fields ⟨none, none⟩) = 0 := rfl
      have hfits : (commentText legs).length ≤ commentMax := by
        rw [length_commentText]
        omega
      have hwritten : encodeComment legs = .ok (String.ofList (commentText legs)) := by
        rw [encodeComment_eq_ok, String.toList_ofList]
        exact ⟨hrecordable, rfl, hfits⟩
      rw [hwritten]
      have hsame : (String.ofList (commentText legs) = comment) ↔
          commentText legs = comment.toList := by
        rw [← String.toList_inj, String.toList_ofList]
      exact congrArg Except.ok (if_congr hsame rfl rfl)

/-- A comment is read as legs just if it is what is written for them. -/
theorem parseComment_eq_some {comment : String} {legs : LegIds} :
    parseComment comment = some legs ↔ encodeComment legs = .ok comment := by
  rw [encodeComment_eq_ok]
  unfold parseComment
  dsimp only
  constructor
  · intro h
    split at h
    · exact nomatch h
    rename_i hlength
    cases hsplit : comment.toList.splitOn fieldSeparator with
    | nil => simp only [hsplit, reduceCtorEq] at h
    | cons first fields =>
      simp only [hsplit] at h
      split at h
      · exact nomatch h
      cases hparse : parseFields ⟨none, none⟩ fields with
      | none => simp only [hparse, reduceCtorEq] at h
      | some read =>
        simp only [hparse] at h
        split at h
        · rename_i htext
          cases h
          have hnone : (⟨none, none⟩ : LegIds).Recordable := ⟨nofun, nofun⟩
          have hfits := parseFields_fits hnone hparse
          exact ⟨hfits.1, htext.symm, by omega⟩
        · exact nomatch h
  · rintro ⟨hrecordable, htext, hlength⟩
    have hsplit : comment.toList.splitOn fieldSeparator = marker.toList :: legs.fields := by
      rw [htext, commentText_eq, List.splitOn_intercalate _ (separator_not_mem hrecordable)
        (List.cons_ne_nil _ _)]
    rw [if_neg (by omega), hsplit]
    dsimp only
    rw [if_neg (not_not.mpr rfl), parseFields_fields hrecordable]
    dsimp only
    rw [if_pos htext.symm]

/-! ## Both formats are exact -/

/-- Labels are coded exactly. -/
theorem exact_label : ExactCodec encodeLabel fun label => .ok (parseLabel label) where
  returns label := ⟨parseLabel label, rfl⟩
  exact entryId label := by
    rw [Except.ok.injEq]
    exact parseLabel_eq_some

/-- So are comments. -/
theorem exact_comment : ExactCodec encodeComment readComment where
  returns comment := ⟨parseComment comment, readComment_eq comment⟩
  exact legs comment := by
    rw [readComment_eq, Except.ok.injEq]
    exact parseComment_eq_some

/-- Every text is read without a raise, as the record it is the encoding of and as foreign if it is
none's; so no two entry ids, and no two pairs of legs, are written alike. -/
theorem records_exact :
    (∀ label entryId, parseLabel label = some entryId ↔ encodeLabel entryId = .ok label) ∧
      (∀ label, parseLabel label = none ↔ ∀ entryId, encodeLabel entryId ≠ .ok label) ∧
      (∀ label entryId entryId', encodeLabel entryId = .ok label →
        encodeLabel entryId' = .ok label → entryId = entryId') ∧
      (∀ comment, ∃ found, readComment comment = .ok found) ∧
      (∀ comment legs, readComment comment = .ok (some legs) ↔ encodeComment legs = .ok comment) ∧
      (∀ comment, readComment comment = .ok none ↔ ∀ legs, encodeComment legs ≠ .ok comment) ∧
      ∀ comment legs legs', encodeComment legs = .ok comment → encodeComment legs' = .ok comment →
        legs = legs' := by
  refine ⟨?_, ?_, ?_, exact_comment.returns, ?_, exact_comment.foreign_iff, ?_⟩
  · intro label entryId
    exact parseLabel_eq_some
  · intro label
    rw [← exact_label.foreign_iff, Except.ok.injEq]
  · intro label entryId entryId' h h'
    exact exact_label.injective h h'
  · intro comment legs
    exact exact_comment.exact legs comment
  · intro comment legs legs' h h'
    exact exact_comment.injective h h'

end OrderRecord

end NautilusCtrader
