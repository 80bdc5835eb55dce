/-!
# Fields of a text

`fields` splits a text at every separator and `splitLast` at the last one.  Of `fields` the one fact
that matters is `fields_append`: a separator between two texts splits just there.
-/

namespace SeviriImagery.Text

/-- The fields of a text that stand between separators; one more than there are separators. -/
def fields (separator : Char) : List Char → List (List Char)
  | [] => [[]]
  | c :: rest =>
      if c = separator then [] :: fields separator rest
      else
        match fields separator rest with
        | first :: others => (c :: first) :: others
        | [] => [[c]]

/-- What stands before the last separator and what stands behind it. -/
def splitLast (separator : Char) : List Char → Option (List Char × List Char)
  | [] => none
  | c :: rest =>
      match splitLast separator rest with
      | some (before, behind) => some (c :: before, behind)
      | none => if c = separator then some ([], rest) else none

/-- Even an empty text has a field, an empty one. -/
theorem fields_ne_nil (separator : Char) (text : List Char) : fields separator text ≠ [] := by
  cases text with
  | nil => simp [fields]
  | cons c rest =>
      unfold fields
      split
      · simp
      · split <;> simp

/-- A separator between two texts splits just there. -/
theorem fields_append (separator : Char) (a b : List Char) :
    fields separator (a ++ separator :: b) = fields separator a ++ fields separator b := by
  induction a with
  | nil => simp [fields]
  | cons c rest ih =>
      by_cases hc : c = separator
      · simp [fields, hc, ih]
      · obtain ⟨first, others, hsplit⟩ := List.exists_cons_of_ne_nil (fields_ne_nil separator rest)
        simp [fields, hc, ih, hsplit]

end SeviriImagery.Text
