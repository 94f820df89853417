import CodeParts.Toml.Scalar

/-!
# Tables that stand for dates

A date reads as a table that holds its text under the reserved key, and a document may
write such a table itself. So a table whose first key is the reserved one stands for a
date: its text must be a date or time, and the keys after the first are not looked at.
-/

namespace CodeParts.Toml

/-- The whole text is a date, a time or both. -/
def isDateText (text : String) : Bool := dateTime? text.toList == some []

/-- The date of a table with this value under the reserved key. -/
def dateOf? : Json → Option Json
  | .string text => if isDateText text then some (dateObject text) else none
  | _ => none

mutual

/-- The value with each table that begins with the reserved key read as a date. -/
def withDates? : Json → Option Json
  | .object ((k, v) :: fields) =>
      if k = dateKey then dateOf? v
      else do some (.object ((k, ← withDates? v) :: (← fieldsWithDates? fields)))
  | .array items => (itemsWithDates? items).map .array
  | v => some v

/-- The items of an array, each with its dates. -/
def itemsWithDates? : List Json → Option (List Json)
  | [] => some []
  | v :: vs => do some ((← withDates? v) :: (← itemsWithDates? vs))

/-- The fields of a table, each with its dates. -/
def fieldsWithDates? : List (String × Json) → Option (List (String × Json))
  | [] => some []
  | (k, v) :: fields => do some ((k, ← withDates? v) :: (← fieldsWithDates? fields))

end

end CodeParts.Toml
