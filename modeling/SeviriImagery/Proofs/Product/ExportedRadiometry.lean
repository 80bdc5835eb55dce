import SeviriImagery.Proofs.Product.Calibrated
import SeviriImagery.Proofs.Product.Exporter

/-!
# The radiometry of exported products

An exporter may be given the radiometry of another product, which goes into the prologue of every
image that it takes.  A prologue has the gains of twelve channels, but it names a satellite only
once, and this is the satellite of the image.  So the gains come back as they were given, and with
them the calibration of reflective channels.  The bands of thermal channels are told by the
satellite, and come back only if the image was taken by the satellite of the radiometry
(`Exporter.radiometry_of_exported`).
-/

namespace SeviriImagery

namespace FileTree

variable {t : FileTree} {place : Place} {directory name : String}

/-- A file in a directory is read by its path. -/
theorem readBytes_join (hfolder : t.IsFolder directory place) (hname : IsPlainName name)
    (hpath : checkPath (Path.join directory name) = .ok ()) {bytes : List UInt8}
    (hentry : t.entryAt? (place ++ [name]) = some (.file bytes)) :
    t.readBytes (Path.join directory name) = .ok bytes := by
  have hfind : t.find (Path.join directory name) = .ok (.file bytes) := by
    rw [find, resolve_join hfolder hname.no_slash hpath,
      follow_child hfolder.2 hname (by rw [hentry]; rfl), Outcome.ok_bind, hentry]
    rfl
  rw [readBytes, hfind]

theorem wellFormed_storeAll (hwf : t.WellFormed) (files : List NewFile) :
    (t.storeAll files).1.WellFormed := by
  induction files generalizing t with
  | nil => exact hwf
  | cons file files ih =>
      cases hwrite : t.write file.path file.bytes with
      | error fault =>
          simp only [storeAll, store, hwrite]
          exact hwf
      | ok next =>
          simp only [storeAll, store, hwrite]
          exact ih (wellFormed_write hwf hwrite)

theorem wellFormed_writeImage (hwf : t.WellFormed) (i : Image) (directory : String)
    (radiometry : Option Radiometry) : (t.writeImage i directory radiometry).1.WellFormed := by
  unfold writeImage
  cases i.productFiles directory radiometry with
  | error e => exact hwf
  | ok made => exact wellFormed_storeAll hwf made.2

/-- **The prologue that is found is the one in the directory.**  No other one can be there, for a
product with two prologues is not located. -/
theorem prologue_of_locate {l : ProductLayout} (hwf : t.WellFormed) (hname : l.name.IsWritable)
    (hfolder : t.IsFolder l.name.directory place) {bytes : List UInt8}
    (hentry : t.entryAt? (place ++ [l.name.prologueName]) = some (.file bytes))
    {product : LocatedProduct} (hlocated : (t.locate l.name).result = .ok product) :
    t.readBytes product.prologue = .ok bytes := by
  have hsearchable : Path.isSearchable l.name.directory := by
    by_contra hastray
    rw [locate_astray hwf hname hfolder (Bool.not_eq_true _ ▸ hastray)] at hlocated
    cases hlocated
  obtain ⟨hown, hsettled⟩ := isSettledBy_of_locate hlocated
  have honly := hsettled.prologue
  have hfound : l.foundPath .prologue ∈ t.found l.name .prologue := by
    rw [mem_found_iff hwf ⟨hname.check, hfolder, hname.path, hsearchable⟩]
    exact ⟨l.name.prologueName, by rw [hentry]; rfl, hname.finds_memberName .prologue, rfl⟩
  rw [hown] at honly
  rw [honly, List.mem_singleton] at hfound
  rw [← hfound]
  exact readBytes_foundPath hwf hfolder hname hsearchable hentry

end FileTree

/-- The calibration of a reflective channel depends on the gains alone. -/
theorem PixelData.IsCalibrationOf.of_gains {calibrated raw : PixelData} {a b : Radiometry}
    {c : Channel} (hcalibrated : calibrated.IsCalibrationOf raw a c) (hreflective : c.isReflective)
    (hgains : a.gains = b.gains) : calibrated.IsCalibrationOf raw b c := by
  have hgain : a.gain c = b.gain c := by rw [Radiometry.gain, Radiometry.gain, hgains]
  rw [IsCalibrationOf, if_pos hreflective] at hcalibrated ⊢
  rw [← hgain]
  exact hcalibrated

namespace Exporter

variable {i : Image}

/-- **The radiometry of an exported product** has the gains that the exporter was given and the
satellite of the image.  So it is the one that was given just if the image was taken by the satellite
that this is of.

Whatever else there is in the directory, a product that is found under the recorded name is
calibrated by this radiometry.  For reflective channels that is the calibration by the one given. -/
theorem radiometry_of_exported {directory : String} {p : Radiometry} {s behind : State}
    (haccepted : (accept ⟨directory, some p⟩ i).run s = (.ok (), behind)) :
    ∃ name prologue, behind.written = s.written ++ [name] ∧
      behind.tree.readPrologue (Path.join name.directory name.prologueName) = .ok prologue ∧
      prologue.radiometry = ⟨Spacecraft.ofTable i.spacecraft, p.gains⟩ ∧
      (prologue.radiometry = p ↔ p.satellite = Spacecraft.ofTable i.spacecraft) ∧
      (s.tree.WellFormed → ∀ (options : DecodeOptions) (calibrated raw : Image),
        (behind.tree.decode name { options with calibrate := true }).result = .ok calibrated →
        (behind.tree.decode name { options with calibrate := false }).result = .ok raw →
          ∃ c, Channel.ofNumber? raw.channelNumber = some c ∧
            calibrated.data.IsCalibrationOf raw.data prologue.radiometry c ∧
            (c.isReflective → calibrated.data.IsCalibrationOf raw.data p c)) := by
  rw [accept_run] at haccepted
  cases hwritten : (s.tree.writeImage i directory (some p)).2.result with
  | error fault =>
      simp only [hwritten] at haccepted
      cases haccepted
  | ok name =>
      simp only [hwritten] at haccepted
      cases haccepted
      obtain ⟨c, place, hi, hname, hwritable, hstored⟩ := Image.isStored_of_writeImage hwritten
      obtain ⟨bytes, read, hentry, hstands⟩ := hstored.prologue
      have hplain := ProductName.isPlainName_memberName hwritable.check .prologue
      have hbytes := FileTree.readBytes_join hstored.folder hplain
        (hwritable.checkPath_memberName .prologue) hentry
      refine ⟨name, _, rfl, hstands.readPrologue hbytes, rfl, ?_, ?_⟩
      · constructor
        · intro hsame
          rw [← hsame]
          rfl
        · intro hsatellite
          show (⟨Spacecraft.ofTable i.spacecraft, p.gains⟩ : Radiometry) = p
          rw [← hsatellite]
      · intro hwf options calibrated raw hcalibrated hraw
        rw [FileTree.decode, Noted.result_bind] at hcalibrated hraw
        obtain ⟨product, hlocated, hcalibrated⟩ := Outcome.bind_eq_ok_iff.mp hcalibrated
        obtain ⟨_, hagain, hraw⟩ := Outcome.bind_eq_ok_iff.mp hraw
        rw [hlocated] at hagain
        cases hagain
        obtain ⟨found, channel, hfound, hchannel, hpixels⟩ :=
          LocatedProduct.isCalibrationOf_of_attempts hcalibrated hraw
        have hbehind := FileTree.wellFormed_writeImage hwf i directory (some p)
        have hread := hstands.readPrologue (@FileTree.prologue_of_locate _ _ (i.productLayout name c)
          hbehind hwritable hstored.folder _ hentry _ hlocated)
        rw [hread] at hfound
        cases hfound
        exact ⟨channel, hchannel, hpixels, fun hreflective => hpixels.of_gains hreflective rfl⟩

/-- A radiometry of the third satellite. -/
def ofThirdSatellite : Radiometry := ⟨323, Vector.replicate 12 .identity⟩

/-- Four pixels that the second satellite has taken are exported with a radiometry of the third one.
The gains come back, but the radiometry is another. -/
theorem fourPixels_with_other_radiometry :
    ∃ behind name prologue,
      (accept ⟨"d", some ofThirdSatellite⟩ Image.fourPixels).run ⟨ProductLayout.oneDirectory, []⟩ =
        (.ok (), behind) ∧
      behind.written = [name] ∧
      behind.tree.readPrologue (Path.join name.directory name.prologueName) = .ok prologue ∧
      prologue.radiometry = ⟨322, ofThirdSatellite.gains⟩ ∧
      prologue.radiometry ≠ ofThirdSatellite := by
  obtain ⟨tree, hrun⟩ := accept_run_of_writeImage []
    (@Image.writeImage_fourPixels (some ofThirdSatellite) ["w", "d"] "d" rfl ⟨rfl, rfl⟩ rfl)
  obtain ⟨name, prologue, hnames, hread, hradiometry, hsame, -⟩ := radiometry_of_exported hrun
  have hsecond : Spacecraft.ofTable Image.fourPixels.spacecraft = 322 := by decide
  have hother : ofThirdSatellite.satellite ≠ Spacecraft.ofTable Image.fourPixels.spacecraft := by
    decide
  rw [hsecond] at hradiometry
  exact ⟨_, name, prologue, hrun, hnames, hread, hradiometry, fun heq => hother (hsame.mp heq)⟩

end Exporter

end SeviriImagery
