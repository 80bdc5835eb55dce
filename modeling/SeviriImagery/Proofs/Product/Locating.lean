import SeviriImagery.Proofs.Product.Found

/-!
# What locating a product comes to

Whether a product is located, and what is then in its slots, depends on the files that match its
patterns and on what their headers say.  `FileTree.locate_settled` says how: the greatest number of
a last segment planned is the number of slots, and each slot has the first of the files with its
number, in the order of paths.  Files whose number is zero or too great have no slot.

The candidates for the slots are put in the order of their numbers first, and then one after the
other in the slots.  As the sort keeps candidates with one number in their order, a slot is taken by
the first of them (`SegmentCandidate.find?_sort`).
-/

namespace SeviriImagery

namespace SegmentCandidate

/-- A candidate is put in the slot of its number, if that is free. -/
theorem getElem?_place (slots : List (Option SegmentCandidate)) (c : SegmentCandidate) (i : Nat) :
    (place slots c).1[i]? =
      slots[i]?.map fun slot => slot.or (if c.sequence = i + 1 then some c else none) := by
  unfold place
  by_cases hzero : c.sequence = 0
  · rw [if_pos hzero, if_neg (by omega)]
    simp
  · rw [if_neg hzero]
    by_cases hown : c.sequence = i + 1
    · have hindex : c.sequence - 1 = i := by omega
      rw [if_pos hown, hindex]
      cases hslot : slots[i]? with
      | none => simp [hslot]
      | some slot =>
          cases slot with
          | none =>
              obtain ⟨hi, -⟩ := List.getElem?_eq_some_iff.mp hslot
              simp [hi]
          | some existing => simp [hslot]
    · have hother : c.sequence - 1 ≠ i := by omega
      rw [if_neg hown]
      cases hslot : slots[c.sequence - 1]? with
      | none => simp
      | some slot =>
          cases slot with
          | none => simp [List.getElem?_set_ne hother]
          | some existing => simp

/-- A slot that is free gets the first of the candidates with its number. -/
theorem getElem?_placeAll (candidates : List SegmentCandidate)
    (slots : List (Option SegmentCandidate)) (i : Nat) :
    (placeAll candidates slots).2[i]? =
      slots[i]?.map fun slot => slot.or (candidates.find? fun c => c.sequence == i + 1) := by
  induction candidates generalizing slots with
  | nil => simp [placeAll]
  | cons c rest ih =>
      rw [placeAll]
      simp only
      rw [ih, getElem?_place, Option.map_map]
      congr 1
      funext slot
      rw [Function.comp_apply, List.find?_cons]
      by_cases hown : c.sequence = i + 1
      · cases slot <;> simp [hown]
      · have hother : (c.sequence == i + 1) = false := beq_eq_false_iff_ne.mpr hown
        cases slot <;> simp [hown, hother]

/-- Of slots that are all free each gets the first of the candidates with its number. -/
theorem placeAll_replicate (candidates : List SegmentCandidate) (n : Nat) :
    (placeAll candidates (List.replicate n none)).2 =
      (List.range n).map fun i => candidates.find? fun c => c.sequence == i + 1 := by
  apply List.ext_getElem?
  intro i
  rw [getElem?_placeAll, List.getElem?_map]
  by_cases hi : i < n
  · simp [hi]
  · simp [hi]

/-- Of the candidates with one number the sort leaves the first one in front. -/
theorem find?_sort (candidates : List SegmentCandidate) (number : Nat) :
    (sort candidates).find? (fun c => c.sequence == number) =
      candidates.find? fun c => c.sequence == number := by
  have hkept : (candidates.filter fun c => c.sequence == number).Sublist (sort candidates) := by
    refine List.sublist_mergeSort (fun a b c hab hbc => ?_) (fun a b => ?_) ?_ List.filter_sublist
    · exact decide_eq_true (Nat.le_trans (of_decide_eq_true hab) (of_decide_eq_true hbc))
    · simpa using Nat.le_total a.sequence b.sequence
    · refine List.pairwise_of_forall_mem_list fun a ha b hb => decide_eq_true ?_
      have ha := (List.mem_filter.mp ha).2
      have hb := (List.mem_filter.mp hb).2
      rw [beq_iff_eq] at ha hb
      exact Nat.le_of_eq (ha.trans hb.symm)
  have hfilter : candidates.filter (fun c => c.sequence == number) =
      (sort candidates).filter fun c => c.sequence == number := by
    have hsublist := hkept.filter fun c => c.sequence == number
    rw [List.filter_filter] at hsublist
    simp only [Bool.and_self] at hsublist
    exact hsublist.eq_of_length ((List.mergeSort_perm _ _).filter _).length_eq.symm
  rw [← List.head?_filter, ← List.head?_filter, hfilter]

/-- The number of slots is the greatest number of a last segment planned. -/
theorem isGreatest_slotCount {candidates : List SegmentCandidate} (hsome : candidates ≠ []) :
    IsGreatest {n | ∃ c ∈ candidates, c.plannedEnd = n} (slotCount candidates) := by
  have hfold (n : Nat) (cs : List SegmentCandidate) :
      (∀ c ∈ cs, c.plannedEnd ≤ cs.foldl (fun n c => max n c.plannedEnd) n) ∧
        n ≤ cs.foldl (fun n c => max n c.plannedEnd) n ∧
        (cs.foldl (fun n c => max n c.plannedEnd) n = n ∨
          ∃ c ∈ cs, c.plannedEnd = cs.foldl (fun n c => max n c.plannedEnd) n) := by
    induction cs generalizing n with
    | nil => simp
    | cons c cs ih =>
        obtain ⟨hbelow, hstart, hreached⟩ := ih (max n c.plannedEnd)
        rw [List.foldl_cons]
        refine ⟨?_, le_trans (le_max_left _ _) hstart, ?_⟩
        · rw [List.forall_mem_cons]
          exact ⟨le_trans (le_max_right _ _) hstart, hbelow⟩
        · rcases hreached with hsame | ⟨d, hd, hdone⟩
          · rcases max_choice n c.plannedEnd with hmax | hmax
            · exact .inl (hsame.trans hmax)
            · exact .inr ⟨c, List.mem_cons_self, (hsame.trans hmax).symm⟩
          · exact .inr ⟨d, List.mem_cons_of_mem c hd, hdone⟩
  obtain ⟨hbelow, -, hreached⟩ := hfold 0 candidates
  refine ⟨?_, ?_⟩
  · rcases hreached with hzero | hreached
    · obtain ⟨c, rest, rfl⟩ := List.exists_cons_of_ne_nil hsome
      have hc := hbelow c List.mem_cons_self
      exact ⟨c, List.mem_cons_self, by rw [slotCount]; omega⟩
    · exact hreached
  · intro n hn
    obtain ⟨c, hc, rfl⟩ := hn
    exact hbelow c hc

/-- There are as many slots as every candidate asks for. -/
theorem slotCount_eq {candidates : List SegmentCandidate} {n : Nat}
    (hall : ∀ c ∈ candidates, c.plannedEnd = n) (hsome : candidates ≠ []) :
    slotCount candidates = n := by
  obtain ⟨⟨c, hc, hcount⟩, -⟩ := isGreatest_slotCount hsome
  rw [← hcount, hall c hc]

end SegmentCandidate

@[simp] theorem Noted.result_monadLift {α : Type} (r : Except Error α) :
    (liftM r : Noted α).result = r := rfl

/-- The result of a search for a product, without its notes. -/
theorem FileTree.locate_result (t : FileTree) (name : ProductName) :
    (t.locate name).result = (do
      let prologue ← t.locatePrologue name
      let epilogue ← (t.locateEpilogue name).result
      let candidates ← t.segmentCandidates name
      LocatedProduct.ofSlots name prologue epilogue (SegmentCandidate.settle candidates).2
        (SegmentCandidate.length_settle candidates ▸ SegmentCandidate.slotCount_lt candidates)) := by
  rw [locate, Noted.result_bind]
  show (t.locatePrologue name >>= _) = _
  refine bind_congr fun prologue => ?_
  rw [Noted.result_bind]
  refine bind_congr fun epilogue => ?_
  rw [Noted.result_bind]
  show (t.segmentCandidates name >>= _) = _
  refine bind_congr fun candidates => ?_
  simp only [Noted.result_bind, Noted.result_monadLift, Noted.result_noteIf, Outcome.ok_bind]
  exact bind_pure _

/-- The first value in some slots stands behind slots that are empty. -/
theorem exists_of_head?_filterMap {α : Type} {slots : List (Option α)} {first : α}
    (hfirst : (slots.filterMap id).head? = some first) :
    ∃ i : Nat, slots[i]? = some (some first) ∧ ∀ j < i, slots[j]? = some none := by
  induction slots with
  | nil => cases hfirst
  | cons slot slots ih =>
      cases slot with
      | some value =>
          cases hfirst
          exact ⟨0, rfl, fun j hj => absurd hj (Nat.not_lt_zero j)⟩
      | none =>
          obtain ⟨i, hi, hempty⟩ := ih hfirst
          refine ⟨i + 1, hi, fun j hj => ?_⟩
          cases j with
          | zero => rfl
          | succ j => exact hempty j (Nat.lt_of_succ_lt_succ hj)

namespace FileTree

/-- What the header of a file says about its place in a product, if it can be read and says it. -/
def identification? (t : FileTree) (path : String) : Option SegmentIdentification :=
  (t.readHeader path).toOption.bind (·.identification)

/-- The header of a file says that it is the segment with this number. -/
def HasNumber (t : FileTree) (path : String) (number : Nat) : Prop :=
  ∃ id, t.identification? path = some id ∧ id.sequence.toNat = number

/-- A file has one number at most. -/
theorem HasNumber.unique {t : FileTree} {path : String} {a b : Nat} (ha : t.HasNumber path a)
    (hb : t.HasNumber path b) : a = b := by
  obtain ⟨id, hid, rfl⟩ := ha
  obtain ⟨same, hsame, rfl⟩ := hb
  rw [hid] at hsame
  cases hsame
  rfl

/-- The numbers of the last segment planned, as the segment files of a product have them. -/
def plannedEnds (t : FileTree) (name : ProductName) : Set Nat :=
  {n | ∃ path ∈ t.found name .segment, ∃ id, t.identification? path = some id ∧
    id.plannedEnd.toNat = n}

/-- A path comes first among some paths, in their order. -/
def IsFirst (paths : Set String) (path : String) : Prop :=
  path ∈ paths ∧ ∀ other ∈ paths, Path.le path other = true

/-- The segment files of a product with this number. -/
def numbered (t : FileTree) (name : ProductName) (number : Nat) : Set String :=
  {path | path ∈ t.found name .segment ∧ t.HasNumber path number}

end FileTree

/-- A product is what the files in a tree make of its name. -/
structure LocatedProduct.IsSettledBy (p : LocatedProduct) (t : FileTree) : Prop where
  prologue : t.found p.name .prologue = [p.prologue]
  noEpilogue : p.epilogue = none ↔ t.found p.name .epilogue = []
  epilogue : ∀ path, p.epilogue = some path →
    FileTree.IsFirst {path | path ∈ t.found p.name .epilogue} path
  count : IsGreatest (t.plannedEnds p.name) p.segments.length
  absent : ∀ i < p.segments.length,
    (p.segments[i]? = some none ↔ t.numbered p.name (i + 1) = ∅)
  present : ∀ (i : Nat) (path : String), p.segments[i]? = some (some path) →
    FileTree.IsFirst (t.numbered p.name (i + 1)) path
  /-- A file whose number is zero or greater than that of the last segment has no slot. -/
  unplanned : ∀ path number, t.HasNumber path number → number = 0 ∨ p.segments.length < number →
    some path ∉ p.segments
  header : ∃ (i : Nat) (path : String), p.segments[i]? = some (some path) ∧
    (∀ j < i, p.segments[j]? = some none) ∧ t.readHeader path = .ok p.firstHeader

/-- A slot is empty if no file has its number, and otherwise has the first file that does. -/
theorem LocatedProduct.IsSettledBy.exists_slot {p : LocatedProduct} {t : FileTree}
    (hsettled : p.IsSettledBy t) {i : Nat} (hi : i < p.segments.length) :
    (p.segments[i]? = some none ∧ t.numbered p.name (i + 1) = ∅) ∨
      ∃ path, p.segments[i]? = some (some path) ∧
        FileTree.IsFirst (t.numbered p.name (i + 1)) path := by
  cases hslot : p.segments[i]? with
  | none => exact absurd (List.getElem?_eq_none_iff.mp hslot) (Nat.not_le.mpr hi)
  | some slot =>
      cases slot with
      | none => exact .inl ⟨rfl, (hsettled.absent i hi).mp hslot⟩
      | some path => exact .inr ⟨path, rfl, hsettled.present i path hslot⟩

namespace FileTree

variable {t : FileTree} {name : ProductName}

/-- A prologue is located if it is the only one that is found. -/
theorem locatePrologue_eq_ok_iff {path : String} :
    t.locatePrologue name = .ok path ↔ t.found name .prologue = [path] := by
  rw [locatePrologue]
  cases hfiles : t.productFiles name .prologue with
  | error e =>
      rw [found, hfiles]
      simp [Except.toOption]
  | ok paths =>
      rw [found_of_productFiles hfiles, Outcome.ok_bind]
      cases paths with
      | nil => simp [throw, throwThe, MonadExceptOf.throw]
      | cons first rest =>
          cases rest with
          | nil => simp [pure, Except.pure]
          | cons second rest => simp [throw, throwThe, MonadExceptOf.throw]

/-- Of several epilogues the first one is taken, and none is needed. -/
theorem locateEpilogue_eq_ok_iff {epilogue : Option String} :
    (t.locateEpilogue name).result = .ok epilogue ↔
      (t.productFiles name .epilogue).isOk = true ∧ epilogue = (t.found name .epilogue).head? := by
  rw [locateEpilogue, Noted.result_bind, Noted.result_monadLift]
  cases hfiles : t.productFiles name .epilogue with
  | error e => simp [Except.isOk, Except.toBool]
  | ok paths =>
      rw [found_of_productFiles hfiles, Outcome.ok_bind, Noted.result_bind, Noted.result_noteIf]
      simp [Except.isOk, Except.toBool, eq_comm]

end FileTree

/-- A file is a candidate as its header says. -/
theorem SegmentCandidate.identification?_of_ofFile {t : FileTree} {path : String}
    {c : SegmentCandidate} (hfile : ofFile t path = .ok c) :
    c.path = path ∧ t.readHeader path = .ok c.header ∧ ∃ id, t.identification? path = some id ∧
      id.sequence.toNat = c.sequence ∧ id.plannedEnd.toNat = c.plannedEnd := by
  obtain ⟨header, hread, hfile⟩ := Outcome.bind_eq_ok_iff.mp hfile
  obtain ⟨id, hid, hsame⟩ := Outcome.bind_eq_ok_iff.mp hfile
  cases hsame
  refine ⟨rfl, hread, id, ?_, rfl, rfl⟩
  rw [Outcome.inFile_eq_ok_iff, Outcome.mapError_eq_ok_iff, SegmentHeader.requireIdentification] at hid
  rw [FileTree.identification?, hread]
  cases hrecord : header.identification with
  | none =>
      rw [hrecord] at hid
      cases hid
  | some record =>
      rw [hrecord] at hid
      cases hid
      exact hrecord

/-- The candidates in some files are in the order of the files. -/
theorem SegmentCandidate.paths_of_forall₂ {t : FileTree} {paths : List String}
    {candidates : List SegmentCandidate}
    (hall : List.Forall₂ (fun path c => ofFile t path = .ok c) paths candidates) :
    paths = candidates.map (·.path) ∧ ∀ c ∈ candidates, ofFile t c.path = .ok c := by
  induction hall with
  | nil => exact ⟨rfl, by simp⟩
  | cons hfile _ ih =>
      obtain ⟨rfl, -, -⟩ := identification?_of_ofFile hfile
      obtain ⟨hrest, hfiles⟩ := ih
      rw [List.map_cons, ← hrest, List.forall_mem_cons]
      exact ⟨rfl, hfile, hfiles⟩

/-- A file whose header is read and has an identification is a candidate. -/
theorem SegmentCandidate.ofFile_of_readHeader {t : FileTree} {path : String}
    {header : SegmentHeader} {id : SegmentIdentification}
    (hread : (t.readHeader path).toOption = some header) (hid : header.identification = some id) :
    ofFile t path =
      .ok ⟨path, header, id.sequence.toNat, id.plannedEnd.toNat, id.plannedEnd.toNat_lt⟩ := by
  cases hfile : t.readHeader path with
  | error e =>
      rw [hfile] at hread
      cases hread
  | ok same =>
      rw [hfile] at hread
      cases hread
      rw [ofFile, hfile, Outcome.ok_bind, SegmentHeader.requireIdentification, hid]
      rfl

/-- A file that can be identified is a candidate. -/
theorem SegmentCandidate.exists_ofFile {t : FileTree} {path : String}
    (hid : (t.identification? path).isSome) : ∃ c, ofFile t path = .ok c := by
  obtain ⟨id, hid⟩ := Option.isSome_iff_exists.mp hid
  obtain ⟨header, hread, hid⟩ := Option.bind_eq_some_iff.mp hid
  exact ⟨_, ofFile_of_readHeader hread hid⟩

namespace FileTree

/-- The segment files of a product as candidates, one for each of the files in their order. -/
structure HasCandidates (t : FileTree) (name : ProductName) (candidates : List SegmentCandidate) :
    Prop where
  nonempty : candidates ≠ []
  found : t.found name .segment = candidates.map (·.path)
  file : ∀ c ∈ candidates, SegmentCandidate.ofFile t c.path = .ok c

variable {t : FileTree} {name : ProductName} {candidates : List SegmentCandidate}

/-- The candidates of a product are its segment files, if each can be one. -/
theorem segmentCandidates_eq_ok_iff :
    t.segmentCandidates name = .ok candidates ↔ t.HasCandidates name candidates := by
  constructor
  · intro hcandidates
    obtain ⟨paths, hfiles, hcandidates⟩ := Outcome.bind_eq_ok_iff.mp hcandidates
    by_cases hempty : paths.isEmpty
    · rw [if_pos hempty] at hcandidates
      cases hcandidates
    rw [if_neg hempty] at hcandidates
    obtain ⟨hpaths, hfile⟩ :=
      SegmentCandidate.paths_of_forall₂ (Outcome.mapM_eq_ok_iff.mp hcandidates)
    refine ⟨?_, ?_, hfile⟩
    · intro hnil
      rw [hpaths, hnil] at hempty
      exact hempty rfl
    · rw [found_of_productFiles hfiles]
      exact hpaths
  · intro hhas
    have hread : (candidates.map (·.path)).mapM (SegmentCandidate.ofFile t) = .ok candidates := by
      rw [Outcome.mapM_eq_ok_iff, List.forall₂_map_left_iff, List.forall₂_same]
      exact hhas.file
    have hfound := hhas.found
    rw [segmentCandidates]
    cases hfiles : t.productFiles name .segment with
    | error e =>
        rw [FileTree.found, hfiles] at hfound
        exact absurd (List.map_eq_nil_iff.mp hfound.symm) hhas.nonempty
    | ok paths =>
        rw [found_of_productFiles hfiles] at hfound
        rw [Outcome.ok_bind, hfound, if_neg (by simpa using hhas.nonempty)]
        exact hread

/-- If there is a segment file, and each can be identified, then there are candidates. -/
theorem exists_segmentCandidates (hsome : t.found name .segment ≠ [])
    (hall : ∀ path ∈ t.found name .segment, (t.identification? path).isSome) :
    ∃ candidates, t.segmentCandidates name = .ok candidates := by
  cases hfiles : t.productFiles name .segment with
  | error e =>
      rw [FileTree.found, hfiles] at hsome
      exact absurd rfl hsome
  | ok paths =>
      rw [found_of_productFiles hfiles] at hsome hall
      obtain ⟨candidates, hcandidates, -⟩ := Outcome.exists_mapM fun path hpath =>
        SegmentCandidate.exists_ofFile (hall path hpath)
      refine ⟨candidates, ?_⟩
      rw [segmentCandidates, hfiles, Outcome.ok_bind, if_neg (by simpa using hsome)]
      exact hcandidates

namespace HasCandidates

variable (hhas : t.HasCandidates name candidates)

include hhas

/-- Each of the files is identified. -/
theorem isSome_identification? :
    ∀ path ∈ t.found name .segment, (t.identification? path).isSome := by
  intro path hpath
  rw [hhas.found] at hpath
  obtain ⟨c, hc, rfl⟩ := List.mem_map.mp hpath
  obtain ⟨-, -, id, hid, -⟩ := SegmentCandidate.identification?_of_ofFile (hhas.file c hc)
  rw [hid]
  rfl

/-- The files with a number are those of the candidates with this number. -/
theorem mem_numbered_iff {number : Nat} {path : String} :
    path ∈ t.numbered name number ↔ ∃ c ∈ candidates, c.path = path ∧ c.sequence = number := by
  constructor
  · intro hgiven
    obtain ⟨hfound, id, hid, rfl⟩ := hgiven
    rw [hhas.found] at hfound
    obtain ⟨c, hc, rfl⟩ := List.mem_map.mp hfound
    obtain ⟨-, -, same, hsame, hnumber, -⟩ :=
      SegmentCandidate.identification?_of_ofFile (hhas.file c hc)
    rw [hid] at hsame
    cases hsame
    exact ⟨c, hc, rfl, hnumber.symm⟩
  · intro hgiven
    obtain ⟨c, hc, rfl, rfl⟩ := hgiven
    obtain ⟨-, -, id, hid, hnumber, -⟩ :=
      SegmentCandidate.identification?_of_ofFile (hhas.file c hc)
    refine ⟨?_, id, hid, hnumber⟩
    rw [hhas.found]
    exact List.mem_map_of_mem hc

/-- The ends that the files plan are those that the candidates plan. -/
theorem plannedEnds_eq : t.plannedEnds name = {n | ∃ c ∈ candidates, c.plannedEnd = n} := by
  ext n
  constructor
  · intro hgiven
    obtain ⟨path, hfound, id, hid, rfl⟩ := hgiven
    rw [hhas.found] at hfound
    obtain ⟨c, hc, rfl⟩ := List.mem_map.mp hfound
    obtain ⟨-, -, same, hsame, -, hplanned⟩ :=
      SegmentCandidate.identification?_of_ofFile (hhas.file c hc)
    rw [hid] at hsame
    cases hsame
    exact ⟨c, hc, hplanned.symm⟩
  · intro hgiven
    obtain ⟨c, hc, rfl⟩ := hgiven
    obtain ⟨-, -, id, hid, -, hplanned⟩ :=
      SegmentCandidate.identification?_of_ofFile (hhas.file c hc)
    refine ⟨c.path, ?_, id, hid, hplanned⟩
    rw [hhas.found]
    exact List.mem_map_of_mem hc

/-- The number of slots is the greatest number of a last segment that a header gives. -/
theorem isGreatest_slotCount :
    IsGreatest (t.plannedEnds name) (SegmentCandidate.slotCount candidates) := by
  rw [hhas.plannedEnds_eq]
  exact SegmentCandidate.isGreatest_slotCount hhas.nonempty

/-- There is no candidate with a number if no file has it. -/
theorem find?_eq_none_iff {number : Nat} :
    candidates.find? (fun c => c.sequence == number) = none ↔ t.numbered name number = ∅ := by
  rw [List.find?_eq_none, Set.eq_empty_iff_forall_notMem]
  simp only [hhas.mem_numbered_iff, beq_iff_eq]
  constructor
  · intro hnone path hgiven
    obtain ⟨c, hc, -, hnumber⟩ := hgiven
    exact hnone c hc hnumber
  · intro hnone c hc hnumber
    exact hnone c.path ⟨c, hc, rfl, hnumber⟩

/-- **The first candidate with a number is in the file that comes first** among those with it. -/
theorem isFirst_of_find? {number : Nat} {c : SegmentCandidate}
    (hfind : candidates.find? (fun c => c.sequence == number) = some c) :
    IsFirst (t.numbered name number) c.path := by
  obtain ⟨hnumber, before, behind, hsplit, hbefore⟩ := List.find?_eq_some_iff_append.mp hfind
  refine ⟨hhas.mem_numbered_iff.mpr ⟨c, ?_, rfl, by simpa using hnumber⟩, ?_⟩
  · rw [hsplit]
    simp
  intro other hother
  obtain ⟨d, hd, rfl, hsame⟩ := hhas.mem_numbered_iff.mp hother
  rw [hsplit, List.mem_append, List.mem_cons] at hd
  rcases hd with hd | rfl | hd
  · have hnot := hbefore d hd
    rw [hsame, beq_self_eq_true] at hnot
    cases hnot
  · exact (Path.stepsLe_total _ _).elim id id
  · have hsorted := pairwise_found t name .segment
    rw [hhas.found, hsplit, List.map_append, List.map_cons] at hsorted
    exact List.rel_of_pairwise_cons (List.pairwise_append.mp hsorted).2.1 (List.mem_map_of_mem hd)

end HasCandidates

/-- The slots of a product, each with the first of the candidates with its number. -/
def slots (candidates : List SegmentCandidate) : List (Option SegmentCandidate) :=
  (List.range (SegmentCandidate.slotCount candidates)).map fun i =>
    candidates.find? fun c => c.sequence == i + 1

/-- Each slot has the first candidate with its number. -/
theorem getElem?_slots {i : Nat} (hi : i < SegmentCandidate.slotCount candidates) :
    (slots candidates)[i]? = some (candidates.find? fun c => c.sequence == i + 1) := by
  rw [slots, List.getElem?_map, List.getElem?_range hi, Option.map_some]

/-- What is in a slot is in one of those that were asked for. -/
theorem lt_slotCount_of_getElem?_slots {i : Nat} {slot : Option SegmentCandidate}
    (hslot : (slots candidates)[i]? = some slot) : i < SegmentCandidate.slotCount candidates := by
  obtain ⟨hi, -⟩ := List.getElem?_eq_some_iff.mp hslot
  simpa [slots] using hi

/-- The slots that are settled one candidate after the other are these. -/
theorem settle_eq (candidates : List SegmentCandidate) :
    (SegmentCandidate.settle candidates).2 = slots candidates := by
  rw [SegmentCandidate.settle, SegmentCandidate.placeAll_replicate, slots]
  simp only [SegmentCandidate.find?_sort]

/-- There are fewer slots than words of 16 bits. -/
theorem length_slots_lt (candidates : List SegmentCandidate) :
    ((slots candidates).map (·.map (·.path))).length < 2 ^ 16 := by
  rw [List.length_map, ← settle_eq, SegmentCandidate.length_settle]
  exact SegmentCandidate.slotCount_lt candidates

/-- How a product is located, step by step. -/
theorem locate_eq_ok_iff {p : LocatedProduct} :
    (t.locate name).result = .ok p ↔
      ∃ prologue candidates first, t.found name .prologue = [prologue] ∧
        t.segmentCandidates name = .ok candidates ∧
        ((slots candidates).filterMap id).head? = some first ∧
        p = ⟨name, prologue, (t.found name .epilogue).head?,
          (slots candidates).map (·.map (·.path)), first.header, length_slots_lt candidates⟩ := by
  rw [locate_result]
  simp only [Outcome.bind_eq_ok_iff, locatePrologue_eq_ok_iff, locateEpilogue_eq_ok_iff,
    settle_eq, LocatedProduct.ofSlots]
  constructor
  · intro hlocated
    obtain ⟨prologue, hprologue, epilogue, ⟨-, hepilogue⟩, candidates, hcandidates, hslots⟩ :=
      hlocated
    rw [hepilogue] at hslots
    cases hfirst : (slots candidates).filterMap id with
    | nil =>
        rw [hfirst] at hslots
        cases hslots
    | cons first rest =>
        rw [hfirst] at hslots
        cases hslots
        exact ⟨prologue, candidates, first, hprologue, hcandidates, by rw [hfirst]; rfl, rfl⟩
  · intro hgiven
    obtain ⟨prologue, candidates, first, hprologue, hcandidates, hfirst, rfl⟩ := hgiven
    have hepilogue : (t.productFiles name .epilogue).isOk = true := by
      rw [isOk_productFiles_epilogue, Outcome.isOk_iff]
      cases hfiles : t.productFiles name .prologue with
      | error e =>
          rw [found, hfiles] at hprologue
          cases hprologue
      | ok paths => exact ⟨paths, rfl⟩
    refine ⟨prologue, hprologue, _, ⟨hepilogue, rfl⟩, candidates, hcandidates, ?_⟩
    obtain ⟨rest, hrest⟩ := List.head?_eq_some_iff.mp hfirst
    rw [hrest]

/-- When a product is located. -/
theorem exists_locate_iff :
    (∃ p, (t.locate name).result = .ok p) ↔
      (∃ prologue, t.found name .prologue = [prologue]) ∧ t.found name .segment ≠ [] ∧
        (∀ path ∈ t.found name .segment, (t.identification? path).isSome) ∧
        ∃ number last, IsGreatest (t.plannedEnds name) last ∧ 1 ≤ number ∧ number ≤ last ∧
          (t.numbered name number).Nonempty := by
  constructor
  · intro hlocated
    obtain ⟨p, hlocated⟩ := hlocated
    obtain ⟨prologue, candidates, first, hprologue, hcandidates, hfirst, -⟩ :=
      locate_eq_ok_iff.mp hlocated
    have hhas := segmentCandidates_eq_ok_iff.mp hcandidates
    obtain ⟨i, hi, -⟩ := exists_of_head?_filterMap hfirst
    have hlast := lt_slotCount_of_getElem?_slots hi
    rw [getElem?_slots hlast, Option.some.injEq] at hi
    refine ⟨⟨prologue, hprologue⟩, ?_, ?_, i + 1, _, hhas.isGreatest_slotCount, by omega, hlast,
      ⟨first.path, (hhas.isFirst_of_find? hi).1⟩⟩
    · rw [hhas.found]
      simpa using hhas.nonempty
    · exact hhas.isSome_identification?
  · intro hgiven
    obtain ⟨⟨prologue, hprologue⟩, hsome, hall, number, last, hlast, hone, hplanned, hnumber⟩ := hgiven
    obtain ⟨candidates, hcandidates⟩ := exists_segmentCandidates hsome hall
    have hhas := segmentCandidates_eq_ok_iff.mp hcandidates
    have hcount := hlast.unique hhas.isGreatest_slotCount
    have hinside : number - 1 < SegmentCandidate.slotCount candidates := by omega
    have hslot := getElem?_slots hinside
    rw [Nat.sub_add_cancel hone] at hslot
    cases hfind : candidates.find? (fun c => c.sequence == number) with
    | none =>
        rw [hhas.find?_eq_none_iff.mp hfind] at hnumber
        exact absurd hnumber Set.not_nonempty_empty
    | some c =>
        rw [hfind] at hslot
        have hmem : c ∈ (slots candidates).filterMap id :=
          List.mem_filterMap.mpr ⟨_, List.mem_of_getElem? hslot, rfl⟩
        obtain ⟨first, rest, hfirst⟩ := List.exists_cons_of_ne_nil (List.ne_nil_of_mem hmem)
        exact ⟨_, locate_eq_ok_iff.mpr
          ⟨prologue, candidates, first, hprologue, hcandidates, by rw [hfirst]; rfl, rfl⟩⟩

/-- What a located product is. -/
theorem isSettledBy_of_locate {p : LocatedProduct} (hlocated : (t.locate name).result = .ok p) :
    p.name = name ∧ p.IsSettledBy t := by
  obtain ⟨prologue, candidates, first, hprologue, hcandidates, hfirst, hp⟩ :=
    locate_eq_ok_iff.mp hlocated
  have hname : p.name = name := by rw [hp]
  have hepilogue : p.epilogue = (t.found name .epilogue).head? := by rw [hp]
  have hsegments : p.segments = (slots candidates).map (·.map (·.path)) := by rw [hp]
  have hhas := segmentCandidates_eq_ok_iff.mp hcandidates
  have hlength : p.segments.length = SegmentCandidate.slotCount candidates := by
    simp [hsegments, slots]
  have hslot (i : Nat) (hi : i < SegmentCandidate.slotCount candidates) :
      p.segments[i]? = some ((candidates.find? fun c => c.sequence == i + 1).map (·.path)) := by
    rw [hsegments, List.getElem?_map, getElem?_slots hi, Option.map_some]
  have hpresent (i : Nat) (path : String) (hpath : p.segments[i]? = some (some path)) :
      IsFirst (t.numbered p.name (i + 1)) path := by
    obtain ⟨hi, -⟩ := List.getElem?_eq_some_iff.mp hpath
    rw [hlength] at hi
    rw [hslot i hi, Option.some.injEq, Option.map_eq_some_iff] at hpath
    obtain ⟨c, hfind, rfl⟩ := hpath
    rw [hname]
    exact hhas.isFirst_of_find? hfind
  refine ⟨hname, ?_, ?_, ?_, ?_, ?_, hpresent, ?_, ?_⟩
  · rw [hname, hprologue, hp]
  · rw [hname, hepilogue, List.head?_eq_none_iff]
  · intro path hpath
    rw [hepilogue] at hpath
    rw [hname]
    obtain ⟨rest, hrest⟩ := List.head?_eq_some_iff.mp hpath
    refine ⟨List.mem_of_head? hpath, fun other hother => ?_⟩
    have hsorted := pairwise_found t name .epilogue
    change other ∈ t.found name .epilogue at hother
    rw [hrest] at hsorted hother
    rcases List.mem_cons.mp hother with rfl | hother
    · exact (Path.stepsLe_total _ _).elim id id
    · exact List.rel_of_pairwise_cons hsorted hother
  · rw [hname, hlength]
    exact hhas.isGreatest_slotCount
  · intro i hi
    rw [hlength] at hi
    rw [hname, hslot i hi, Option.some.injEq, Option.map_eq_none_iff]
    exact hhas.find?_eq_none_iff
  · intro path number hnumber hout hmem
    obtain ⟨i, hi⟩ := List.getElem?_of_mem hmem
    obtain ⟨hlast, -⟩ := List.getElem?_eq_some_iff.mp hi
    obtain ⟨⟨-, hown⟩, -⟩ := hpresent i path hi
    have hsame := hnumber.unique hown
    omega
  · obtain ⟨i, hi, hempty⟩ := exists_of_head?_filterMap hfirst
    have hlast := lt_slotCount_of_getElem?_slots hi
    refine ⟨i, first.path, ?_, fun j hj => ?_, ?_⟩
    · rw [hsegments, List.getElem?_map, hi]
      rfl
    · rw [hsegments, List.getElem?_map, hempty j hj]
      rfl
    · rw [getElem?_slots hlast, Option.some.injEq] at hi
      have hfile := hhas.file first (List.mem_of_find?_eq_some hi)
      rw [hp]
      exact (SegmentCandidate.identification?_of_ofFile hfile).2.1

/-- What a search for a product comes to in a tree that has its entries in order, with what the
headers of the segment files say. -/
structure Lists (t : FileTree) (name : ProductName) (prologues : List String)
    (candidates : List SegmentCandidate) : Prop where
  proper : t.IsProper
  inOrder : t.entries.Pairwise fun a b => placeLe a.1 b.1 = true
  prologue : (t.enumerate (name.pattern .prologue)).toOption = some prologues
  segment : (t.enumerate (name.pattern .segment)).toOption = some (candidates.map (·.path))
  sorted : ∀ paths ∈ [prologues, candidates.map (·.path)],
    paths.Pairwise fun a b => Path.le a b = true
  header : ∀ c ∈ candidates, (t.readHeader c.path).toOption = some c.header
  identification : ∀ c ∈ candidates,
    c.header.identification.map (fun id => (id.sequence.toNat, id.plannedEnd.toNat)) =
      some (c.sequence, c.plannedEnd)

instance (t : FileTree) (name : ProductName) (prologues : List String)
    (candidates : List SegmentCandidate) : Decidable (t.Lists name prologues candidates) :=
  decidable_of_iff
    (t.IsProper ∧ (t.entries.Pairwise fun (a b : Place × Entry) => placeLe a.1 b.1 = true) ∧
      (t.enumerate (name.pattern .prologue)).toOption = some prologues ∧
      (t.enumerate (name.pattern .segment)).toOption = some (candidates.map SegmentCandidate.path) ∧
      (∀ paths ∈ [prologues, candidates.map SegmentCandidate.path],
        paths.Pairwise fun a b => Path.le a b = true) ∧
      (∀ c ∈ candidates, (t.readHeader c.path).toOption = some c.header) ∧
      ∀ c ∈ candidates,
        c.header.identification.map (fun id => (id.sequence.toNat, id.plannedEnd.toNat)) =
          some (c.sequence, c.plannedEnd))
    ⟨fun ⟨proper, inOrder, prologue, segment, sorted, header, identification⟩ =>
        { proper, inOrder, prologue, segment, sorted, header, identification },
      fun h => ⟨h.proper, h.inOrder, h.prologue, h.segment, h.sorted, h.header, h.identification⟩⟩

namespace Lists

variable {prologues : List String} (hlists : t.Lists name prologues candidates)

include hlists

/-- The prologues that are listed are those that are found. -/
theorem found_prologue : t.found name .prologue = prologues :=
  found_of_enumerate hlists.inOrder hlists.prologue (hlists.sorted _ List.mem_cons_self)

/-- The candidates that are listed are those of the segment files. -/
theorem hasCandidates (hsome : candidates ≠ []) : t.HasCandidates name candidates := by
  refine ⟨hsome, found_of_enumerate hlists.inOrder hlists.segment (hlists.sorted _ (by simp)), ?_⟩
  intro c hc
  obtain ⟨id, hid, hsame⟩ := Option.map_eq_some_iff.mp (hlists.identification c hc)
  rw [Prod.mk.injEq] at hsame
  rw [SegmentCandidate.ofFile_of_readHeader (hlists.header c hc) hid]
  obtain ⟨path, header, sequence, plannedEnd, planned⟩ := c
  cases hsame.1
  cases hsame.2
  rfl

end Lists

/-- A file with nothing but the header of a segment that has this number of as many as planned. -/
def headerFile (number last : UInt8) : Entry :=
  .file [0, 0, 16, 0, 0, 0, 0, 29, 0, 0, 0, 0, 0, 0, 0, 0,
    128, 0, 13, 1, 66, 9, 0, number, 0, 1, 0, last, 1]

/-- The candidate in such a file. -/
def bareCandidate (path : String) (number last : UInt16) : SegmentCandidate where
  path
  header :=
    { SegmentHeader.ofPrimary ⟨0, 29, 0⟩ with
      identification := some ⟨322, 9, number, 1, last, 1⟩ }
  sequence := number.toNat
  plannedEnd := last.toNat
  planned := last.toNat_lt

/-- A folder with a prologue and four segment files.  Two of them say that they are segment 2, of
three and of two, one that it is segment 0, and one has too great a number. -/
def crowded : FileTree :=
  ⟨[(["d"], .directory),
    (["d", "H-000-A_____-A___________-B________-000001___-T-C_"], headerFile 2 3),
    (["d", "H-000-A_____-A___________-B________-000002___-T-C_"], headerFile 2 2),
    (["d", "H-000-A_____-A___________-B________-000003___-T-C_"], headerFile 0 1),
    (["d", "H-000-A_____-A___________-B________-000004___-T-C_"], headerFile 9 3),
    (["d", "H-000-A_____-A___________-_________-PRO______-T-C_"], .file [])], []⟩

theorem lists_crowded :
    crowded.Lists ⟨"d", "H", "A", "B", "T"⟩ ["d/H-000-A_____-A___________-_________-PRO______-T-C_"]
      [bareCandidate "d/H-000-A_____-A___________-B________-000001___-T-C_" 2 3,
        bareCandidate "d/H-000-A_____-A___________-B________-000002___-T-C_" 2 2,
        bareCandidate "d/H-000-A_____-A___________-B________-000003___-T-C_" 0 1,
        bareCandidate "d/H-000-A_____-A___________-B________-000004___-T-C_" 9 3] := by
  decide +kernel

theorem locate_crowded :
    ∃ p, (crowded.locate ⟨"d", "H", "A", "B", "T"⟩).result = .ok p ∧
      p.segments = [none, some "d/H-000-A_____-A___________-B________-000001___-T-C_", none] :=
  ⟨_, locate_eq_ok_iff.mpr ⟨_, _, _, lists_crowded.found_prologue,
    segmentCandidates_eq_ok_iff.mpr (lists_crowded.hasCandidates (List.cons_ne_nil _ _)), rfl, rfl⟩,
    rfl⟩

/-- **What locating a product comes to.**  A product is located if it has one prologue and segments,
the header of each segment file says where the segment belongs, and one of the segments is planned.
What is located then is what the files make of the name.  In whatever order a tree has its entries,
the outcome is the same.  Under a proper name the files are those in its directory that its patterns
find, none of them is found twice, and they come in the order of their texts. -/
theorem locate_settled (t : FileTree) (name : ProductName) :
    ((∃ p, (t.locate name).result = .ok p) ↔
      (∃ prologue, t.found name .prologue = [prologue]) ∧ t.found name .segment ≠ [] ∧
        (∀ path ∈ t.found name .segment, (t.identification? path).isSome) ∧
        ∃ number last, IsGreatest (t.plannedEnds name) last ∧ 1 ≤ number ∧ number ≤ last ∧
          (t.numbered name number).Nonempty) ∧
    (∀ p, (t.locate name).result = .ok p → p.name = name ∧ p.IsSettledBy t) ∧
    (t.WellFormed → ∀ s : FileTree, s.Rearranges t → s.locate name = t.locate name) ∧
    (t.WellFormed → ∀ place, name.IsSoughtIn t place → ∀ kind path, path ∈ t.found name kind ↔
      ∃ file, (t.entryAt? (place ++ [file])).isSome ∧ name.Finds kind file ∧
        path = below (approach name.directory) file) ∧
    (t.IsProper → name.check = .ok () → ∀ kind, (t.found name kind).Nodup ∧
      ∀ a ∈ t.found name kind, ∀ b ∈ t.found name kind, (Path.le a b = true ↔ a ≤ b)) :=
  ⟨exists_locate_iff, fun _ => isSettledBy_of_locate, fun hwf _ hsame => hsame.locate_eq hwf name,
    fun hwf _ hsought _ _ => mem_found_iff hwf hsought,
    fun hproper hcheck => found_in_order_of_texts hproper hcheck⟩

/-- Segment 2 of the crowded folder is in the first of its two files.  The folder's files are found
the same from the last to the first. -/
theorem locate_settled_crowded :
    (∃ p, (crowded.locate ⟨"d", "H", "A", "B", "T"⟩).result = .ok p ∧ p.IsSettledBy crowded ∧
      p.segments = [none, some "d/H-000-A_____-A___________-B________-000001___-T-C_", none]) ∧
    FileTree.locate { crowded with entries := crowded.entries.reverse } ⟨"d", "H", "A", "B", "T"⟩ =
      crowded.locate ⟨"d", "H", "A", "B", "T"⟩ ∧
    (∀ path, path ∈ crowded.found ⟨"d", "H", "A", "B", "T"⟩ .segment ↔
      ∃ file, (crowded.entryAt? ["d", file]).isSome ∧
        ProductName.Finds ⟨"d", "H", "A", "B", "T"⟩ .segment file ∧
          path = below (approach "d") file) ∧
    (crowded.found ⟨"d", "H", "A", "B", "T"⟩ .segment).Nodup := by
  obtain ⟨-, hsettled, horder, hsought, hproper⟩ := locate_settled crowded ⟨"d", "H", "A", "B", "T"⟩
  obtain ⟨p, hlocated, hsegments⟩ := locate_crowded
  exact ⟨⟨p, hlocated, (hsettled p hlocated).2, hsegments⟩,
    horder lists_crowded.proper.wellFormed _ ⟨rfl, List.reverse_perm _⟩,
    hsought lists_crowded.proper.wellFormed ["d"] ⟨rfl, ⟨rfl, rfl⟩, rfl, rfl⟩ .segment,
    (hproper lists_crowded.proper rfl .segment).1⟩

/-- Two folders with a segment file each, and one with the prologue. -/
def twoFolders : FileTree :=
  ⟨[(["a"], .directory),
    (["a", "H-000-A_____-A___________-B________-000001___-T-C_"], headerFile 1 1),
    (["a", "H-000-A_____-A___________-_________-PRO______-T-C_"], .file []),
    (["a-b"], .directory),
    (["a-b", "H-000-A_____-A___________-B________-000001___-T-C_"], headerFile 1 1)], []⟩

theorem lists_twoFolders :
    twoFolders.Lists ⟨".", "*/H", "A", "B", "T"⟩
      ["a/H-000-A_____-A___________-_________-PRO______-T-C_"]
      [bareCandidate "a/H-000-A_____-A___________-B________-000001___-T-C_" 1 1,
        bareCandidate "a-b/H-000-A_____-A___________-B________-000001___-T-C_" 1 1] := by
  decide +kernel

/-- The segment located is the one in the folder whose name comes first, although the path of the
other comes first as a text. -/
theorem locate_twoFolders :
    ∃ p, (twoFolders.locate ⟨".", "*/H", "A", "B", "T"⟩).result = .ok p ∧
      p.segments[0]? = some (some "a/H-000-A_____-A___________-B________-000001___-T-C_") ∧
      "a-b/H-000-A_____-A___________-B________-000001___-T-C_" ∈
        twoFolders.numbered ⟨".", "*/H", "A", "B", "T"⟩ 1 := by
  have hhas := lists_twoFolders.hasCandidates (List.cons_ne_nil _ _)
  exact ⟨_, locate_eq_ok_iff.mpr ⟨_, _, _, lists_twoFolders.found_prologue,
    segmentCandidates_eq_ok_iff.mpr hhas, rfl, rfl⟩, rfl,
    hhas.mem_numbered_iff.mpr ⟨_, List.mem_cons_of_mem _ List.mem_cons_self, rfl, rfl⟩⟩

/-- A folder in a folder of the same name. -/
def nestedFolders : FileTree :=
  ⟨[(["a"], .directory),
    (["a", "a"], .directory),
    (["a", "a", "H-000-A_____-A___________-B________-000001___-T-C_"], headerFile 1 1),
    (["a", "a", "H-000-A_____-A___________-_________-PRO______-T-C_"], .file [])], []⟩

/-- A pattern for a folder of this name at any depth comes to each file through either folder. -/
theorem lists_nestedFolders :
    nestedFolders.Lists ⟨".", "**/a/**/H", "A", "B", "T"⟩
      ["a/a/H-000-A_____-A___________-_________-PRO______-T-C_",
        "a/a/H-000-A_____-A___________-_________-PRO______-T-C_"]
      [bareCandidate "a/a/H-000-A_____-A___________-B________-000001___-T-C_" 1 1,
        bareCandidate "a/a/H-000-A_____-A___________-B________-000001___-T-C_" 1 1] := by
  decide +kernel

/-- **The order of paths is not that of their texts, and a file may be found twice.**  A name with
wildcards for directories may have files in several.  Then the segment located is not that in the
file whose path comes first as a text.  And if a pattern comes to one file in two ways, as one with
directories of any depth can, the product is not located although it has one prologue. -/
theorem wildcards_order_and_repeat :
    (∃ (t : FileTree) (name : ProductName) (p : LocatedProduct) (first other : String),
      t.IsProper ∧ (t.locate name).result = .ok p ∧ p.segments[0]? = some (some first) ∧
        other ∈ t.numbered name 1 ∧ other < first) ∧
    ∃ (t : FileTree) (name : ProductName) (prologue : String),
      t.IsProper ∧ (∀ path, path ∈ t.found name .prologue ↔ path = prologue) ∧
        t.found name .segment ≠ [] ∧
        (∀ path ∈ t.found name .segment, (t.identification? path).isSome) ∧
        (∃ number last, IsGreatest (t.plannedEnds name) last ∧ 1 ≤ number ∧ number ≤ last ∧
          (t.numbered name number).Nonempty) ∧
        ∀ p, (t.locate name).result ≠ .ok p := by
  have hhas := lists_nestedFolders.hasCandidates (List.cons_ne_nil _ _)
  refine ⟨?_, nestedFolders, ⟨".", "**/a/**/H", "A", "B", "T"⟩,
    "a/a/H-000-A_____-A___________-_________-PRO______-T-C_", lists_nestedFolders.proper, ?_, ?_,
    hhas.isSome_identification?, ⟨1, 1, hhas.isGreatest_slotCount, le_rfl, le_rfl,
      ⟨_, hhas.mem_numbered_iff.mpr ⟨_, List.mem_cons_self, rfl, rfl⟩⟩⟩, ?_⟩
  · obtain ⟨p, hlocated, hfirst, hother⟩ := locate_twoFolders
    exact ⟨_, _, p, _, _, lists_twoFolders.proper, hlocated, hfirst, hother, by decide⟩
  · intro path
    rw [lists_nestedFolders.found_prologue, List.mem_cons, List.mem_singleton, or_self]
  · rw [hhas.found]
    simp
  · intro p hlocated
    obtain ⟨prologue, -, -, hone, -⟩ := locate_eq_ok_iff.mp hlocated
    rw [lists_nestedFolders.found_prologue] at hone
    cases hone

end FileTree

end SeviriImagery
