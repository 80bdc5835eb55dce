import SeviriImagery.FileTree.Search
import SeviriImagery.Proofs.Outcome
import SeviriImagery.Proofs.Path

/-!
# Letters in a pattern

Whether a pattern can be read depends on the characters in it that mean something, and not on the
letters between them.  So a search goes wrong with a pattern just if it does with the same pattern in
other letters (`FileTree.isOk_search_of_map`).
-/

namespace SeviriImagery

namespace Wildcard

/-- A change of characters that keeps those that mean something in a pattern apart from the others. -/
def KeepsMeaning (f : Char → Char) : Prop :=
  ∀ d ∈ ['?', '*', '[', ']', '!', '/'], ∀ c, f c = d ↔ c = d

namespace KeepsMeaning

variable {f : Char → Char}

theorem apply_eq (hf : KeepsMeaning f) {d : Char} (hd : d ∈ ['?', '*', '[', ']', '!', '/']) :
    f d = d := (hf d hd d).mpr rfl

theorem apply_ne (hf : KeepsMeaning f) {c d : Char} (hd : d ∈ ['?', '*', '[', ']', '!', '/'])
    (hc : c ≠ d) : f c ≠ d := fun hsame => hc ((hf d hd c).mp hsame)

/-- What stands up to a character that means something, and what behind it, is changed apart. -/
theorem splitBracket_map (hf : KeepsMeaning f) (text : List Char) :
    splitBracket (text.map f) =
      (splitBracket text).map fun parts => (parts.1.map f, parts.2.map f) := by
  have hclose : ((fun c => decide (c ≠ ']')) ∘ f) = fun c => decide (c ≠ ']') := by
    funext c
    rw [Function.comp_apply, decide_eq_decide, Ne, Ne, hf ']' (by decide)]
  rw [splitBracket, splitBracket, List.dropWhile_map, List.takeWhile_map, hclose]
  cases text.dropWhile fun c => decide (c ≠ ']') <;> rfl

/-- A class of characters ends at the same place. -/
theorem bracket_map (hf : KeepsMeaning f) (text : List Char) :
    (bracket (text.map f)).map Prod.snd = (bracket text).map fun parts => parts.2.map f := by
  have hnot : f '!' = '!' := hf.apply_eq (by decide)
  cases text with
  | nil => rfl
  | cons c rest =>
      by_cases hc : c = '!'
      · subst hc
        cases rest with
        | nil => simp [hnot, bracket]
        | cons d rest =>
            rw [List.map_cons, List.map_cons, hnot, bracket, bracket, hf.splitBracket_map]
            cases splitBracket rest <;> rfl
      · have hother : f c ≠ '!' := hf.apply_ne (by decide) hc
        rw [List.map_cons, bracket.eq_3 _ _ (by simp [hother]) (by simp [hother]),
          bracket.eq_3 _ _ (by simp [hc]) (by simp [hc]), hf.splitBracket_map]
        cases splitBracket rest <;> rfl

/-- Other characters in their places leave a pattern as readable as it is. -/
theorem isOk_parseFrom (hf : KeepsMeaning f) (fuel position : Nat) (before : Option Char)
    (text : List Char) :
    (parseFrom fuel position (before.map f) (text.map f)).isOk =
      (parseFrom fuel position before text).isOk := by
  induction fuel generalizing position before text with
  | zero => rfl
  | succ fuel ih =>
      cases text with
      | nil => rfl
      | cons c rest =>
          rw [List.map_cons]
          by_cases hany : c = '?'
          · subst hany
            have hnext := ih (position + 1) (some '?') rest
            rw [Option.map_some, hf.apply_eq (d := '?') (by decide)] at hnext
            rw [hf.apply_eq (d := '?') (by decide), parseFrom, parseFrom, Outcome.isOk_bind_pure,
              Outcome.isOk_bind_pure, hnext]
          by_cases hstar : c = '*'
          · subst hstar
            have hdrop : (rest.map f).dropWhile (fun c => decide (c = '*')) =
                (rest.dropWhile fun c => decide (c = '*')).map f := by
              have hsame : ((fun c => decide (c = '*')) ∘ f) = fun c => decide (c = '*') := by
                funext c
                rw [Function.comp_apply, decide_eq_decide, hf '*' (by decide)]
              rw [List.dropWhile_map, hsame]
            have hbefore : (before.map f ≠ none ∧ before.map f ≠ some '/') ↔
                before ≠ none ∧ before ≠ some '/' := by
              cases before with
              | none => simp
              | some d => simp [hf '/' (by decide) d]
            rw [hf.apply_eq (d := '*') (by decide)]
            simp only [parseFrom, hdrop, List.length_map, hbefore]
            generalize rest.dropWhile (fun c => decide (c = '*')) = behind
            by_cases hone : 1 + (rest.length - behind.length) = 1
            · have hnext := ih (position + 1) (some '*') rest
              rw [Option.map_some, hf.apply_eq (d := '*') (by decide)] at hnext
              rw [if_pos hone, if_pos hone, Outcome.isOk_bind_pure, Outcome.isOk_bind_pure, hnext]
            rw [if_neg hone, if_neg hone]
            by_cases hmany : 2 < 1 + (rest.length - behind.length)
            · rw [if_pos hmany, if_pos hmany]
            rw [if_neg hmany, if_neg hmany]
            by_cases hstray : before ≠ none ∧ before ≠ some '/'
            · rw [if_pos hstray, if_pos hstray]
            rw [if_neg hstray, if_neg hstray]
            cases behind with
            | nil => rfl
            | cons d next =>
                by_cases hslash : d = '/'
                · subst hslash
                  have hnext := ih (position + 3) (some '/') next
                  rw [Option.map_some, hf.apply_eq (d := '/') (by decide)] at hnext
                  rw [List.map_cons, hf.apply_eq (d := '/') (by decide)]
                  simp only [Outcome.isOk_bind_pure, hnext]
                · have hother : f d ≠ '/' := hf.apply_ne (by decide) hslash
                  simp [hslash, hother]
          by_cases hopen : c = '['
          · subst hopen
            have hclass := hf.bracket_map rest
            rw [hf.apply_eq (d := '[') (by decide), parseFrom, parseFrom]
            cases hrest : bracket rest with
            | none =>
                rw [hrest, Option.map_none, Option.map_eq_none_iff] at hclass
                rw [hclass]
            | some parts =>
                obtain ⟨token, behind⟩ := parts
                rw [hrest, Option.map_some, Option.map_eq_some_iff] at hclass
                obtain ⟨⟨other, same⟩, hmapped, hsame⟩ := hclass
                simp only at hsame
                subst hsame
                have hnext := ih (position + 1 + (rest.length - behind.length)) (some ']') behind
                rw [Option.map_some, hf.apply_eq (d := ']') (by decide)] at hnext
                rw [hmapped]
                simp only [Outcome.isOk_bind_pure, List.length_map, hnext]
          have hnext := ih (position + 1) (some c) rest
          rw [Option.map_some] at hnext
          rw [parseFrom.eq_6 _ _ _ _ _ (hf.apply_ne (by decide) hany) (hf.apply_ne (by decide) hstar)
            (hf.apply_ne (by decide) hopen), parseFrom.eq_6 _ _ _ _ _ hany hstar hopen,
            Outcome.isOk_bind_pure, Outcome.isOk_bind_pure, hnext]

/-- The fields of a text are changed one by one. -/
theorem fields_map (hf : KeepsMeaning f) (text : List Char) :
    Text.fields '/' (text.map f) = (Text.fields '/' text).map (List.map f) := by
  induction text with
  | nil => rfl
  | cons c rest ih =>
      rw [List.map_cons, Text.fields, Text.fields, ih]
      by_cases hc : c = '/'
      · rw [if_pos hc, if_pos ((hf '/' (by decide) c).mpr hc)]
        rfl
      · rw [if_neg hc, if_neg (hf.apply_ne (by decide) hc)]
        cases Text.fields '/' rest <;> rfl

theorem isAbsolute_iff (hf : KeepsMeaning f) (path : String) :
    Path.isAbsolute path = true ↔ (path.toList.map f).head? = some '/' := by
  rw [Path.isAbsolute, List.head?_map, beq_iff_eq]
  cases path.toList.head? with
  | none => simp
  | some c => simp [hf '/' (by decide) c]

/-- The text that is split into names is that of the path, changed. -/
theorem relativeText_map (hf : KeepsMeaning f) (path : String) :
    (Path.relativeText path).map f =
      if (path.toList.map f).head? = some '/' then (path.toList.map f).drop 1
      else path.toList.map f := by
  rw [Path.relativeText]
  by_cases habsolute : Path.isAbsolute path
  · rw [if_pos habsolute, if_pos ((hf.isAbsolute_iff path).mp habsolute), List.map_drop]
  · rw [if_neg habsolute, if_neg fun h => habsolute ((hf.isAbsolute_iff path).mpr h)]

end KeepsMeaning

end Wildcard

open Wildcard

/-- Patterns that differ in letters only still do so behind a directory. -/
theorem Path.map_join {f : Char → Char} (hf : KeepsMeaning f) (directory : String) {a b : String}
    (hsame : a.toList.map f = b.toList.map f) :
    (join directory a).toList.map f = (join directory b).toList.map f := by
  have habsolute : isAbsolute a = isAbsolute b := by
    rw [Bool.eq_iff_iff, hf.isAbsolute_iff, hf.isAbsolute_iff, hsame]
  rw [join, join, habsolute]
  split
  · exact hsame
  · split <;> simp [String.toList_append, hsame]

namespace FileTree

/-- A search goes wrong if the pattern cannot be read, as a whole or one of its names. -/
theorem isOk_search_iff (t : FileTree) (pattern : String) :
    (t.search pattern).isOk = true ↔ (parse pattern.toList).isOk = true ∧
      ∀ name ∈ Text.fields '/' (Path.relativeText pattern), (parse name).isOk = true := by
  have hnames : ((Path.names pattern).mapM fun name => parse name.toList).isOk = true ↔
      ∀ name ∈ Text.fields '/' (Path.relativeText pattern), (parse name).isOk = true := by
    rw [Outcome.isOk_mapM_iff, Path.names_eq, List.forall_mem_map]
    simp only [String.toList_ofList]
  have hsearch : (t.search pattern).isOk = (t.inOrder.enumerate pattern).isOk := by
    rw [search]
    cases t.inOrder.enumerate pattern <;> rfl
  rw [hsearch, enumerate, ← hnames]
  cases parse pattern.toList with
  | error e => simp [Except.isOk, Except.toBool]
  | ok tokens =>
      rw [Outcome.ok_bind, Outcome.isOk_bind_pure]
      exact (and_iff_right rfl).symm

/-- **Whether a pattern can be searched does not depend on the letters in it.** -/
theorem isOk_search_of_map {f : Char → Char} (hf : KeepsMeaning f) (t : FileTree) {p q : String}
    (hsame : p.toList.map f = q.toList.map f) : (t.search p).isOk = (t.search q).isOk := by
  have hparse (text : List Char) : (parse (text.map f)).isOk = (parse text).isOk := by
    have hread := hf.isOk_parseFrom text.length 0 none text
    rwa [parse, List.length_map]
  have hnames (pattern : String) :
      (∀ name ∈ Text.fields '/' (Path.relativeText pattern), (parse name).isOk = true) ↔
        ∀ name ∈ Text.fields '/' ((Path.relativeText pattern).map f),
          (parse name).isOk = true := by
    rw [hf.fields_map, List.forall_mem_map]
    simp only [hparse]
  rw [Bool.eq_iff_iff, isOk_search_iff, isOk_search_iff, hnames, hnames,
    ← hparse p.toList, ← hparse q.toList,
    hf.relativeText_map, hf.relativeText_map, hsame]

end FileTree

end SeviriImagery
