import SeviriImagery.Proofs.Product.Files
import SeviriImagery.Proofs.Product.Locating

/-!
# Finding a product that was written

A directory holds a product if it has a prologue, some of the segments and perhaps an epilogue,
and the patterns of the product find nothing else (`FileTree.HoldsProduct`).
`FileTree.HoldsProduct.locate` says that such a product is found: each segment that is there stands
in the slot of its number, and the other slots are empty.  It does not matter in which order the
segments are found, for no two of them have one number.

A product in a directory through which no search comes is not found (`FileTree.locate_astray`).
-/

namespace SeviriImagery

open Wildcard

/-- A directory of a tree that holds a product.  The product has a prologue and those segments that
have samples, and of the files in the directory its patterns find no others. -/
structure FileTree.HoldsProduct (t : FileTree) (place : Place) (l : ProductLayout) (p : Prologue)
    (segments : UInt16 → Option (Array Nat)) : Prop where
  wellFormed : t.WellFormed
  folder : t.IsFolder l.name.directory place
  member : ∀ kind name entry, t.entryAt? (place ++ [name]) = some entry → l.name.Finds kind name →
    ∃ m, name = l.name.memberName m
  prologue : ∃ bytes, t.entryAt? (place ++ [l.name.memberName .prologue]) = some (.file bytes) ∧
    p.StandsIn bytes
  present : ∀ sequence samples, segments sequence = some samples →
    ∃ bytes, t.entryAt? (place ++ [l.name.memberName (.segment sequence)]) = some (.file bytes) ∧
      l.HoldsSegment sequence samples bytes
  absent : ∀ sequence, segments sequence = none →
    t.entryAt? (place ++ [l.name.memberName (.segment sequence)]) = none

/-- The path on which a file of a product is found. -/
def ProductLayout.foundPath (l : ProductLayout) (m : ProductMember) : String :=
  FileTree.below (FileTree.approach l.name.directory) (l.name.memberName m)

/-- What is found of a product: its prologue, and each of its segments in the slot of its number. -/
structure ProductLayout.IsLocated (l : ProductLayout) (segments : UInt16 → Option (Array Nat))
    (p : LocatedProduct) : Prop where
  name : p.name = l.name
  prologue : p.prologue = l.foundPath .prologue
  count : p.segments.length = l.plannedEnd.toNat
  segment : ∀ sequence : UInt16, 1 ≤ sequence.toNat → sequence.toNat ≤ l.plannedEnd.toNat →
    p.segments[sequence.toNat - 1]? =
      some ((segments sequence).map fun _ => l.foundPath (.segment sequence))
  header : ∃ sequence, l.Describes sequence p.firstHeader

/-- All segments planned are there if each of them was written. -/
theorem ProductLayout.IsLocated.presentCount_eq {l : ProductLayout}
    {segments : UInt16 → Option (Array Nat)} {p : LocatedProduct} (hlocated : l.IsLocated segments p)
    (hall : ∀ index, index < l.plannedEnd.toNat → (segments (.ofNat (index + 1))).isSome) :
    p.presentCount = p.plannedCount := by
  rw [LocatedProduct.presentCount, LocatedProduct.plannedCount, List.length_filter_eq_length_iff]
  intro slot hslot
  obtain ⟨index, hindex, rfl⟩ := List.mem_iff_getElem.mp hslot
  have hplanned : index < l.plannedEnd.toNat := by rwa [← hlocated.count]
  have hnumber : (UInt16.ofNat (index + 1)).toNat = index + 1 := by
    have hlimit := l.plannedEnd.toNat_lt
    rw [UInt16.toNat_ofNat', Nat.mod_eq_of_lt (by omega)]
  have hown := hlocated.segment (.ofNat (index + 1)) (by omega) (by omega)
  rw [hnumber, Nat.add_sub_cancel, List.getElem?_eq_getElem hindex, Option.some.injEq] at hown
  rw [hown, Option.isSome_map]
  exact hall index hplanned

namespace FileTree

variable {t : FileTree} {place : Place} {l : ProductLayout}

/-- A file in the directory of a product is read where a search finds it. -/
theorem readBytes_foundPath (hwf : t.WellFormed) (hfolder : t.IsFolder l.name.directory place)
    (hname : l.name.IsWritable) (hsearchable : Path.isSearchable l.name.directory)
    {m : ProductMember} {bytes : List UInt8}
    (hentry : t.entryAt? (place ++ [l.name.memberName m]) = some (.file bytes)) :
    t.readBytes (l.foundPath m) = .ok bytes := by
  have hplain := ProductName.isPlainName_memberName hname.check m
  have hslash := (ProductName.isPlainName_memberName hname.check (.segment 1)).no_slash
  have hsize : (l.name.memberName m).utf8ByteSize ≤
      (l.name.memberName (.segment 1)).utf8ByteSize := by
    rw [ProductName.utf8ByteSize_memberName hname.check, ProductName.utf8ByteSize_memberName hname.check]
  have hresolve : t.resolve (l.foundPath m) = .ok (place ++ [l.name.memberName m]) := by
    rw [ProductLayout.foundPath, resolve_found hwf hfolder hslash hname.path hsearchable
      hplain.not_empty hplain.no_slash (hname.nul_not_mem_memberName m) hsize]
    exact follow_child hfolder.2 hplain (by rw [hentry]; rfl)
  have hfind : t.find (l.foundPath m) = .ok (.file bytes) := by
    rw [find, hresolve, Outcome.ok_bind, hentry]
    rfl
  rw [readBytes, hfind]

/-- The header of a segment is read where a search finds the segment. -/
theorem readHeader_foundPath (hwf : t.WellFormed) (hfolder : t.IsFolder l.name.directory place)
    (hname : l.name.IsWritable) (hsearchable : Path.isSearchable l.name.directory)
    {m : ProductMember} {bytes : List UInt8}
    (hentry : t.entryAt? (place ++ [l.name.memberName m]) = some (.file bytes))
    {own : ProductLayout} {sequence : UInt16} {samples : Array Nat}
    (hholds : own.HoldsSegment sequence samples bytes) :
    ∃ header, t.readHeader (l.foundPath m) = .ok header ∧ own.Describes sequence header := by
  obtain ⟨header, data, hread, hdescribes, -⟩ := hholds
  obtain ⟨⟨first, rest⟩, hfrom, hfile⟩ := Outcome.bind_eq_ok_iff.mp hread
  obtain ⟨same, -, hpair⟩ := Outcome.bind_eq_ok_iff.mp hfile
  cases hpair
  refine ⟨header, ?_, hdescribes⟩
  rw [readHeader, readBytes_foundPath hwf hfolder hname hsearchable hentry, Outcome.ok_bind, hfrom]
  rfl

/-- Through some directories no search comes, and a product in them is not found. -/
theorem locate_astray {name : ProductName} (hwf : t.WellFormed) (hname : name.IsWritable)
    (hfolder : t.IsFolder name.directory place)
    (hsearchable : Path.isSearchable name.directory = false) :
    (t.locate name).result = .error (.locate (.noSuchFile (name.pattern .prologue))) := by
  have hprologue : t.locatePrologue name =
      .error (.locate (.noSuchFile (name.pattern .prologue))) := by
    rw [FileTree.locatePrologue, productFiles_eq hwf hname.check hfolder hname.path, hsearchable,
      if_neg (by decide), Outcome.ok_bind, Path.sort, List.mergeSort_nil]
    rfl
  rw [locate_result, hprologue]
  rfl

end FileTree

namespace FileTree.HoldsProduct

variable {t : FileTree} {place : Place} {l : ProductLayout} {p : Prologue}
  {segments : UInt16 → Option (Array Nat)}

/-- The files of a kind that a search finds. -/
theorem productFiles (hholds : t.HoldsProduct place l p segments) (hname : l.name.IsWritable)
    (kind : FileKind) :
    t.productFiles l.name kind = .ok (Path.sort (if Path.isSearchable l.name.directory then
      (t.inOrder.matching place (l.name.fileMarks kind)).map (below (approach l.name.directory))
      else [])) :=
  productFiles_eq hholds.wellFormed hname.check hholds.folder hname.path kind

/-- The files that match are the files of the kind. -/
theorem mem_matching_iff (hholds : t.HoldsProduct place l p segments) (hname : l.name.IsWritable)
    {kind : FileKind} {name : String} :
    name ∈ t.inOrder.matching place (l.name.fileMarks kind) ↔
      ∃ m : ProductMember, m.kind = kind ∧ name = l.name.memberName m ∧
        ∃ entry, t.entryAt? (place ++ [name]) = some entry := by
  have hsame := rearranges_inOrder t
  rw [FileTree.mem_matching_iff (hsame.wellFormed hholds.wellFormed),
    hsame.entryAt?_eq hholds.wellFormed]
  constructor
  · intro hgiven
    obtain ⟨⟨entry, hentry⟩, hmatch⟩ := hgiven
    obtain ⟨m, rfl⟩ := hholds.member kind name entry hentry
      ((ProductName.finds_iff hname.check).mpr hmatch)
    exact ⟨m, (ProductName.allows_memberName hname m kind).mp hmatch, rfl, entry, hentry⟩
  · intro hgiven
    obtain ⟨m, hkind, rfl, hentry⟩ := hgiven
    exact ⟨hentry, (ProductName.allows_memberName hname m kind).mpr hkind⟩

/-- A file of the product is read where it is found. -/
theorem readBytes_foundPath (hholds : t.HoldsProduct place l p segments)
    (hname : l.name.IsWritable) (hsearchable : Path.isSearchable l.name.directory)
    {m : ProductMember} {bytes : List UInt8}
    (hentry : t.entryAt? (place ++ [l.name.memberName m]) = some (.file bytes)) :
    t.readBytes (l.foundPath m) = .ok bytes :=
  FileTree.readBytes_foundPath hholds.wellFormed hholds.folder hname hsearchable hentry

theorem locatePrologue (hholds : t.HoldsProduct place l p segments) (hname : l.name.IsWritable)
    (hsearchable : Path.isSearchable l.name.directory) :
    t.locatePrologue l.name = .ok (l.foundPath .prologue) := by
  have hmatching : t.inOrder.matching place (l.name.fileMarks .prologue) =
      [l.name.memberName .prologue] := by
    have hwf := (rearranges_inOrder t).wellFormed hholds.wellFormed
    rw [← List.perm_singleton, List.perm_ext_iff_of_nodup
      (nodup_matching hwf place _) (List.nodup_singleton _)]
    intro name
    rw [hholds.mem_matching_iff hname, List.mem_singleton]
    constructor
    · intro hgiven
      obtain ⟨m, hkind, rfl, -⟩ := hgiven
      cases m with
      | prologue => rfl
      | epilogue => cases hkind
      | segment sequence => cases hkind
    · intro hsame
      subst hsame
      obtain ⟨bytes, hentry, -⟩ := hholds.prologue
      exact ⟨.prologue, rfl, rfl, _, hentry⟩
  rw [FileTree.locatePrologue, hholds.productFiles hname, if_pos hsearchable, hmatching,
    Outcome.ok_bind, Path.sort, List.map_singleton, List.mergeSort_singleton]
  rfl

/-- The header of a segment is read where the segment is found. -/
theorem readHeader_foundPath (hholds : t.HoldsProduct place l p segments)
    (hname : l.name.IsWritable) (hsearchable : Path.isSearchable l.name.directory)
    {sequence : UInt16} {samples : Array Nat} (hsamples : segments sequence = some samples) :
    ∃ header, t.readHeader (l.foundPath (.segment sequence)) = .ok header ∧
      l.Describes sequence header := by
  obtain ⟨bytes, hentry, hsegment⟩ := hholds.present sequence samples hsamples
  exact FileTree.readHeader_foundPath hholds.wellFormed hholds.folder hname hsearchable hentry hsegment

/-- A segment that was found is a candidate for the slot of its number. -/
theorem ofFile_foundPath (hholds : t.HoldsProduct place l p segments)
    (hname : l.name.IsWritable) (hsearchable : Path.isSearchable l.name.directory)
    {sequence : UInt16} {samples : Array Nat} (hsamples : segments sequence = some samples) :
    ∃ header, l.Describes sequence header ∧
      SegmentCandidate.ofFile t (l.foundPath (.segment sequence)) =
        .ok ⟨l.foundPath (.segment sequence), header, sequence.toNat, l.plannedEnd.toNat,
          l.plannedEnd.toNat_lt⟩ := by
  obtain ⟨header, hread, hdescribes⟩ := hholds.readHeader_foundPath hname hsearchable hsamples
  refine ⟨header, hdescribes, ?_⟩
  rw [SegmentCandidate.ofFile, hread, Outcome.ok_bind, SegmentHeader.requireIdentification,
    hdescribes.identification]
  rfl

/-- The segments that are there are found as candidates for their slots, and nothing else is. -/
theorem segmentCandidates (hholds : t.HoldsProduct place l p segments)
    (hname : l.name.IsWritable) (hsearchable : Path.isSearchable l.name.directory)
    (hsome : ∃ sequence, (segments sequence).isSome) :
    ∃ candidates, t.segmentCandidates l.name = .ok candidates ∧
      (∀ c ∈ candidates, c.plannedEnd = l.plannedEnd.toNat ∧ ∃ sequence,
        (segments sequence).isSome ∧ l.Describes sequence c.header ∧
          c.sequence = sequence.toNat ∧ c.path = l.foundPath (.segment sequence)) ∧
      ∀ sequence, (segments sequence).isSome → ∃ c ∈ candidates, c.sequence = sequence.toNat := by
  obtain ⟨paths, hpaths⟩ : ∃ paths, t.productFiles l.name .segment = .ok paths ∧
      ∀ path, path ∈ paths ↔ ∃ sequence, (segments sequence).isSome ∧
        path = l.foundPath (.segment sequence) := by
    refine ⟨_, hholds.productFiles hname .segment, fun path => ?_⟩
    rw [if_pos hsearchable, Path.sort, List.mem_mergeSort, List.mem_map]
    constructor
    · intro hgiven
      obtain ⟨name, hmem, rfl⟩ := hgiven
      obtain ⟨m, hkind, rfl, entry, hentry⟩ := (hholds.mem_matching_iff hname).mp hmem
      cases m with
      | prologue => cases hkind
      | epilogue => cases hkind
      | segment sequence =>
          refine ⟨sequence, ?_, rfl⟩
          cases hsegment : segments sequence with
          | none =>
              rw [hholds.absent sequence hsegment] at hentry
              cases hentry
          | some samples => rfl
    · intro hgiven
      obtain ⟨sequence, hsegment, rfl⟩ := hgiven
      obtain ⟨samples, hsamples⟩ := Option.isSome_iff_exists.mp hsegment
      obtain ⟨bytes, hentry, -⟩ := hholds.present sequence samples hsamples
      exact ⟨_, (hholds.mem_matching_iff hname).mpr ⟨.segment sequence, rfl, rfl, _, hentry⟩, rfl⟩
  obtain ⟨hfiles, hmem⟩ := hpaths
  have hofFile : ∀ path ∈ paths, ∃ c, SegmentCandidate.ofFile t path = .ok c := by
    intro path hpath
    obtain ⟨sequence, hsegment, rfl⟩ := (hmem path).mp hpath
    obtain ⟨samples, hsamples⟩ := Option.isSome_iff_exists.mp hsegment
    obtain ⟨header, -, hcandidate⟩ := hholds.ofFile_foundPath hname hsearchable hsamples
    exact ⟨_, hcandidate⟩
  obtain ⟨candidates, hcandidates, hall⟩ := Outcome.exists_mapM hofFile
  have hpresent : ∃ path, path ∈ paths := by
    obtain ⟨sequence, hsegment⟩ := hsome
    exact ⟨_, (hmem _).mpr ⟨sequence, hsegment, rfl⟩⟩
  have hnotEmpty : paths.isEmpty = false := by
    obtain ⟨path, hpath⟩ := hpresent
    cases paths with
    | nil => cases hpath
    | cons _ _ => rfl
  refine ⟨candidates, ?_, ?_, ?_⟩
  · rw [FileTree.segmentCandidates, hfiles, Outcome.ok_bind, hnotEmpty]
    exact hcandidates
  · intro c hc
    obtain ⟨path, hpath, hfile⟩ := (hall c).mp hc
    obtain ⟨sequence, hsegment, rfl⟩ := (hmem path).mp hpath
    obtain ⟨samples, hsamples⟩ := Option.isSome_iff_exists.mp hsegment
    obtain ⟨header, hdescribes, hcandidate⟩ := hholds.ofFile_foundPath hname hsearchable hsamples
    rw [hcandidate] at hfile
    cases hfile
    exact ⟨rfl, sequence, hsegment, hdescribes, rfl, rfl⟩
  · intro sequence hsegment
    obtain ⟨samples, hsamples⟩ := Option.isSome_iff_exists.mp hsegment
    obtain ⟨header, -, hcandidate⟩ := hholds.ofFile_foundPath hname hsearchable hsamples
    exact ⟨_, (hall _).mpr ⟨_, (hmem _).mpr ⟨sequence, hsegment, rfl⟩, hcandidate⟩, rfl⟩

/-- **A product that was written is found**, if a search comes through its directory and one of the
segments planned is there. -/
theorem locate (hholds : t.HoldsProduct place l p segments) (hname : l.name.IsWritable)
    (hsearchable : Path.isSearchable l.name.directory)
    (hsome : ∃ sequence : UInt16, 1 ≤ sequence.toNat ∧ sequence.toNat ≤ l.plannedEnd.toNat ∧
      (segments sequence).isSome) :
    ∃ product, (t.locate l.name).result = .ok product ∧ l.IsLocated segments product := by
  obtain ⟨planned, hfirst, hlast, hplanned⟩ := hsome
  obtain ⟨candidates, hcandidates, hfound, hthere⟩ :=
    hholds.segmentCandidates hname hsearchable ⟨planned, hplanned⟩
  have hhas := segmentCandidates_eq_ok_iff.mp hcandidates
  have hprologue := locatePrologue_eq_ok_iff.mp (hholds.locatePrologue hname hsearchable)
  have hends : IsGreatest (t.plannedEnds l.name) l.plannedEnd.toNat := by
    rw [← SegmentCandidate.slotCount_eq (fun c hc => (hfound c hc).1) hhas.nonempty]
    exact hhas.isGreatest_slotCount
  have hnumbered (sequence : UInt16) :
      (t.numbered l.name sequence.toNat).Nonempty ↔ (segments sequence).isSome := by
    constructor
    · intro hgiven
      obtain ⟨path, hpath⟩ := hgiven
      obtain ⟨c, hc, -, hnumber⟩ := hhas.mem_numbered_iff.mp hpath
      obtain ⟨-, same, hsegment, -, hsame, -⟩ := hfound c hc
      rwa [← UInt16.toNat_inj.mp (hsame.symm.trans hnumber)]
    · intro hsegment
      obtain ⟨c, hc, hnumber⟩ := hthere sequence hsegment
      exact ⟨c.path, hhas.mem_numbered_iff.mpr ⟨c, hc, rfl, hnumber⟩⟩
  have hsegments : t.found l.name .segment ≠ [] := by
    rw [hhas.found]
    simpa using hhas.nonempty
  obtain ⟨product, hproduct⟩ := exists_locate_iff.mpr ⟨⟨_, hprologue⟩, hsegments,
    hhas.isSome_identification?, _, _, hends, hfirst, hlast, (hnumbered planned).mpr hplanned⟩
  obtain ⟨hsame, hsettled⟩ := isSettledBy_of_locate hproduct
  have hcount : product.segments.length = l.plannedEnd.toNat :=
    (hsame ▸ hsettled.count).unique hends
  refine ⟨product, hproduct, hsame, ?_, hcount, ?_, ?_⟩
  · have hown := hsettled.prologue
    rw [hsame, hprologue] at hown
    exact (List.singleton_inj.mp hown).symm
  · intro sequence hone hlimit
    have hslots := hsettled.exists_slot (show sequence.toNat - 1 < product.segments.length by omega)
    rw [hsame, Nat.sub_add_cancel hone] at hslots
    rcases hslots with ⟨hslot, hnone⟩ | ⟨path, hslot, hpath⟩
    · have hsegment : segments sequence = none := by
        rw [← Option.not_isSome_iff_eq_none, ← hnumbered, hnone]
        exact Set.not_nonempty_empty
      rw [hslot, hsegment]
      rfl
    · obtain ⟨c, hc, rfl, hown⟩ := hhas.mem_numbered_iff.mp hpath.1
      obtain ⟨-, same, hsegment, -, hother, hplace⟩ := hfound c hc
      obtain rfl : same = sequence := UInt16.toNat_inj.mp (hother.symm.trans hown)
      obtain ⟨samples, hsamples⟩ := Option.isSome_iff_exists.mp hsegment
      rw [hslot, hsamples, hplace]
      rfl
  · obtain ⟨i, path, hslot, -, hread⟩ := hsettled.header
    have hpath := (hsettled.present i path hslot).1
    rw [hsame] at hpath
    obtain ⟨c, hc, rfl, -⟩ := hhas.mem_numbered_iff.mp hpath
    obtain ⟨-, sequence, -, hdescribes, -, -⟩ := hfound c hc
    obtain ⟨-, hheader, -⟩ := SegmentCandidate.identification?_of_ofFile (hhas.file c hc)
    rw [hread] at hheader
    rw [Except.ok.inj hheader]
    exact ⟨sequence, hdescribes⟩

end FileTree.HoldsProduct

end SeviriImagery
