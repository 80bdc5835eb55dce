/-!
# Similar words

How similar two words are is measured by the letters that they share.  A letter of the one is
matched with the first free letter of the other that is the same and not much further on or back.
The measure is the mean of three shares: that of the matched letters in each word, and that of the
matched letters which come in the same order in both, two letters out of order counting as one.  It
is 1 for equal words and 0 for words with no letter in common.

`similar` finds the names that a misspelt word may have been meant for.
-/

namespace SeviriImagery.Text

/-- How far apart the places of two matching letters may be, in words of two lengths. -/
def matchReach (a b : Nat) : Nat := max a b / 2 - 1

/-- The places in `b` matched with the letters of a word from its place `start` on, latest first;
those in `taken` are not free any more. -/
def matchedPlaces (b : List Char) (reach : Nat) : (a : List Char) → (start : Nat) →
    (taken : List Nat) → List Nat
  | [], _, taken => taken
  | c :: rest, start, taken =>
      let places := List.range' (start - reach) (min b.length (start + reach + 1) - (start - reach))
      let taken := match places.find? fun j => b[j]? == some c && !taken.contains j with
        | some j => j :: taken
        | none => taken
      matchedPlaces b reach rest (start + 1) taken

/-- How similar two words are, from 0 to 1. -/
def similarity (a b : List Char) : Float :=
  let places := (matchedPlaces b (matchReach a.length b.length) a 0 []).reverse
  let matched := places.map fun j => b[j]?
  let ordered := (places.mergeSort (· ≤ ·)).map fun j => b[j]?
  let moved := ((matched.zip ordered).filter fun p => p.1 != p.2).length / 2
  let share := fun (part whole : Nat) => Float.ofNat part / Float.ofNat whole
  let count := places.length
  if a.isEmpty && b.isEmpty then 1
  else if count = 0 then 0
  else (share count a.length + share count b.length + share (count - moved) count) / 3

/-- The measure above which two words are similar. -/
def similarityThreshold : Float := 0.7

/-- The candidates whose names are similar to a word, the most similar one last. -/
def similar {α : Type} (name : α → String) (word : String) (candidates : List α) : List α :=
  let scored := candidates.map fun c => (similarity word.toList (name c).toList, c)
  ((scored.filter fun s => similarityThreshold < s.1).mergeSort fun s t => s.1 ≤ t.1).map (·.2)

end SeviriImagery.Text
