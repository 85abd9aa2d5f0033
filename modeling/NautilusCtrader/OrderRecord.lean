import Mathlib.Data.List.Basic
import Mathlib.Order.Basic

/-!
# The adapter's own records in an order's `label` and `comment`

`label` holds a marker and the entry's client order id, `comment` the ids of the protective legs.
Anyone may write these fields, so only a text that is exactly a record is read as one.
-/

namespace NautilusCtrader

namespace OrderRecord

/-- The format's name and version in one token. -/
def marker : String := "ntca1"

def labelMax : ℕ := 100

def commentMax : ℕ := 512

def labelPrefix : String := marker ++ ":"

def fieldSeparator : Char := '|'

def stopLossKey : String := "sl"

def takeProfitKey : String := "tp"

/-- The client order ids of a position's protective legs; either may be absent. -/
structure LegIds where
  stopLoss : Option String
  takeProfit : Option String
deriving DecidableEq, Repr

/-- Non-empty printable ASCII without a space or the field separator. -/
def isRecordable (orderId : List Char) : Bool :=
  orderId ≠ [] && orderId.all (fun c => '!' ≤ c && c ≤ '~' && c ≠ fieldSeparator)

/-- The entry's client order id, or `none` if `label` is not a record written here. -/
def parseLabel (label : String) : Option String :=
  let text := label.toList
  if text.length > labelMax || !labelPrefix.toList.isPrefixOf text then none
  else
    let entryId := text.drop labelPrefix.toList.length
    if isRecordable entryId then some (String.ofList entryId) else none

/-- `key=id`, for a leg that is there. -/
def commentField (key : String) : Option String → List (List Char)
  | none => []
  | some orderId => [(key ++ "=" ++ orderId).toList]

/-- The text `encode_comment` joins for `legs`, before its length is checked. -/
def commentText (legs : LegIds) : List Char :=
  [fieldSeparator].intercalate
    (marker.toList :: (commentField stopLossKey legs.stopLoss ++
      commentField takeProfitKey legs.takeProfit))

/-- Read the fields behind the marker, a later field of a key standing for an earlier one. -/
def parseFields (found : LegIds) : List (List Char) → Option LegIds
  | [] => some found
  | item :: rest =>
    let key := item.takeWhile (· ≠ '=')
    let orderId := (item.dropWhile (· ≠ '=')).drop 1
    if !item.contains '=' || !isRecordable orderId then none
    else if key = stopLossKey.toList then
      parseFields { found with stopLoss := some (String.ofList orderId) } rest
    else if key = takeProfitKey.toList then
      parseFields { found with takeProfit := some (String.ofList orderId) } rest
    else none

/-- The legs' client order ids, or `none` if `comment` is not a record written here. -/
def parseComment (comment : String) : Option LegIds :=
  let text := comment.toList
  if text.length > commentMax then none
  else
    match text.splitOn fieldSeparator with
    | [] => none
    | first :: fields =>
      if first ≠ marker.toList then none
      else
        match parseFields ⟨none, none⟩ fields with
        | none => none
        -- Only the exact text `encode_comment` writes counts, so a reordered record is foreign.
        | some legs => if commentText legs = text then some legs else none

example : parseLabel "ntca1:O-1" = some "O-1" := by decide +kernel

example : parseComment "ntca1|sl=O-2|tp=O-3" = some ⟨some "O-2", some "O-3"⟩ := by decide +kernel

example : parseComment "ntca1|tp=O-3|sl=O-2" = none := by decide +kernel

end OrderRecord

end NautilusCtrader
