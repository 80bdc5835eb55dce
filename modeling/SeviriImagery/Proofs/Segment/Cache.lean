import SeviriImagery.Proofs.Frame.Loading

/-!
# A cache that does not show

Whoever asks for segments through a cache gets what the source would have given without it, whatever
was asked for before, be it absent, out of range or impossible to load.  All that the calls leave
behind is the segment that is held and the number of loads (`SegmentCache.calls_as_uncached`).  The
number is that of the calls that `SegmentCache.loadsAt` picks out, each by the cache that it found
(`SegmentCache.loads_call`).

The samples held and the number of their segment are one value of a cache.  A program may well keep
them apart and change them one after the other: forget which segment is held, drop its samples, load,
and only then put both back.  `CacheFields` is such a cache.  At no call can it be told from the
other (`CacheFields.segment_spec`), so samples of one segment never stand under the number of another.
-/

namespace SeviriImagery

namespace SegmentCache

/-- A cache after some more calls. -/
def call (source : SegmentSource) (cache : SegmentCache) (indices : List Nat) : SegmentCache :=
  indices.foldl (fun cache index => (segment source index cache).2) cache

/-- Whether a call loads a segment: it is there, it is not the one held, and it can be loaded. -/
def loadsAt (source : SegmentSource) (cache : SegmentCache) (index : Nat) : Bool :=
  source.offers index && cache.held.index? != some index && (source.load index).isOk

/-- Some calls, each with the cache that it finds. -/
def calls (source : SegmentSource) : (indices : List Nat) → SegmentCache →
    List (SegmentCache × Nat)
  | [], _ => []
  | index :: rest, cache => (cache, index) :: calls source rest (segment source index cache).2

variable {source : SegmentSource} {cache : SegmentCache} {index : Nat}

/-- What holds of a cache between two calls: the segment held is there, and its samples are those
that the source has. -/
structure IsSound (source : SegmentSource) (cache : SegmentCache) : Prop where
  agrees : cache.Agrees source
  offers : ∀ index, cache.held.index? = some index → source.offers index

theorem isSound_fresh (source : SegmentSource) : fresh.IsSound source where
  agrees := agrees_fresh source
  offers := fun index hheld => by cases hheld

/-- What a call can come to: nothing is changed, or the segment asked for is loaded, or nothing is
held because it cannot be. -/
theorem segment_cases (source : SegmentSource) (index : Nat) (cache : SegmentCache) :
    (¬source.offers index ∧ segment source index cache = (.ok none, cache)) ∨
    (source.offers index ∧ cache.held.index? = some index ∧
      ∃ samples, cache.held = .holding index samples ∧
        segment source index cache = (.ok (some samples), cache)) ∨
    (source.offers index ∧ cache.held.index? ≠ some index ∧
      ∃ samples, source.load index = .ok samples ∧ segment source index cache =
        (.ok (some samples), ⟨.holding index samples, index :: cache.tried, cache.loads + 1⟩)) ∨
    (source.offers index ∧ cache.held.index? ≠ some index ∧
      ∃ e, source.load index = .error e ∧ segment source index cache =
        (.error e, ⟨.empty, index :: cache.tried, cache.loads⟩)) := by
  by_cases hoffers : source.offers index
  · by_cases hheld : cache.held.index? = some index
    · cases hcase : cache.held with
      | empty => rw [hcase] at hheld; cases hheld
      | holding held samples =>
          rw [hcase] at hheld
          cases hheld
          refine .inr (.inl ⟨hoffers, rfl, samples, rfl, ?_⟩)
          rw [segment, if_pos hoffers, fetch, hcase]
          simp
    · cases hload : source.load index with
      | ok samples =>
          exact .inr (.inr (.inl ⟨hoffers, hheld, samples, rfl, segment_loaded hoffers hheld hload⟩))
      | error e =>
          exact .inr (.inr (.inr ⟨hoffers, hheld, e, rfl, segment_failed hoffers hheld hload⟩))
  · exact .inl ⟨hoffers, segment_absent hoffers cache⟩

/-- A call keeps a cache sound. -/
theorem IsSound.segment (hsound : cache.IsSound source) (index : Nat) :
    (segment source index cache).2.IsSound source where
  agrees := agrees_segment hsound.agrees index
  offers := by
    rcases segment_cases source index cache with ⟨-, hcall⟩ | ⟨-, -, samples, -, hcall⟩ |
      ⟨hoffers, -, samples, -, hcall⟩ | ⟨-, -, e, -, hcall⟩ <;> rw [hcall]
    · exact hsound.offers
    · exact hsound.offers
    · intro held hheld
      cases hheld
      exact hoffers
    · intro held hheld
      cases hheld

/-- So do any number of calls. -/
theorem IsSound.call (hsound : cache.IsSound source) (indices : List Nat) :
    (call source cache indices).IsSound source := by
  induction indices generalizing cache with
  | nil => exact hsound
  | cons index rest ih => exact ih (hsound.segment index)

/-- A call adds to the loads if it loads a segment. -/
theorem loads_segment (source : SegmentSource) (index : Nat) (cache : SegmentCache) :
    (segment source index cache).2.loads =
      cache.loads + if loadsAt source cache index then 1 else 0 := by
  rcases segment_cases source index cache with ⟨habsent, hcall⟩ | ⟨-, hheld, samples, -, hcall⟩ |
    ⟨hoffers, hother, samples, hload, hcall⟩ | ⟨-, -, e, hload, hcall⟩ <;> rw [hcall]
  · simp [loadsAt, habsent]
  · simp [loadsAt, hheld]
  · simp [loadsAt, hoffers, hother, hload, Except.isOk, Except.toBool]
  · simp [loadsAt, hload, Except.isOk, Except.toBool]

/-- The loads are the calls that load a segment. -/
theorem loads_call (source : SegmentSource) (indices : List Nat) (cache : SegmentCache) :
    (call source cache indices).loads =
      cache.loads + (calls source indices cache).countP fun c => loadsAt source c.1 c.2 := by
  induction indices generalizing cache with
  | nil => rfl
  | cons index rest ih =>
      have hstep : call source cache (index :: rest) =
          call source (segment source index cache).2 rest := rfl
      rw [hstep, ih, loads_segment, calls, List.countP_cons, Nat.add_assoc]
      exact congrArg (cache.loads + ·) (Nat.add_comm _ _)

end SegmentCache

/-- A cache that keeps the number of the segment held, its samples and the loads in fields of their
own. -/
structure CacheFields where
  /-- The segment held, if there is one. -/
  state : Option Nat
  samples : Array Nat
  loads : Nat

namespace CacheFields

/-- A cache that was never used. -/
def fresh : CacheFields := ⟨none, #[], 0⟩

/-- Loads a segment in place of the one held, field by field. -/
def load (source : SegmentSource) (index : Nat) : ExceptT Error (StateM CacheFields) Unit := do
  modify fun c => { c with state := none }
  modify fun c => { c with samples := #[] }
  let samples ← ofExcept (source.load index)
  modify fun c => { c with samples }
  modify fun c => { c with state := some index }
  modify fun c => { c with loads := c.loads + 1 }

/-- The samples of a segment, or nothing if the source does not offer it. -/
def segment (source : SegmentSource) (index : Nat) :
    ExceptT Error (StateM CacheFields) (Option (Array Nat)) := do
  if source.count ≤ index || !source.isPresent index then return none
  if (← get).state ≠ some index then load source index
  return some (← get).samples

/-- A cache after some more calls. -/
def call (source : SegmentSource) (c : CacheFields) (indices : List Nat) : CacheFields :=
  indices.foldl (fun c index => ((segment source index).run c).2) c

/-- The fields say what a cache says. -/
structure Shows (c : CacheFields) (cache : SegmentCache) : Prop where
  state : c.state = cache.held.index?
  samples : ∀ index samples, cache.held = .holding index samples → c.samples = samples
  loads : c.loads = cache.loads

variable {source : SegmentSource} {c : CacheFields} {cache : SegmentCache} {index : Nat}

/-- What a load leaves behind. -/
theorem load_run (source : SegmentSource) (index : Nat) (c : CacheFields) :
    (load source index).run c =
      match source.load index with
      | .ok samples => (.ok (), ⟨some index, samples, c.loads + 1⟩)
      | .error e => (.error e, ⟨none, #[], c.loads⟩) := by
  rw [load, Outcome.run_modify_bind, Outcome.run_modify_bind, Outcome.run_ofExcept_bind]
  cases source.load index <;> rfl

/-- A segment that is not there leaves the fields as they are. -/
theorem segment_absent (habsent : ¬source.offers index) (c : CacheFields) :
    (segment source index).run c = (.ok none, c) := by
  have hguard : (source.count ≤ index || !source.isPresent index) = true := by
    simpa [SegmentSource.offers, imp_iff_not_or] using habsent
  unfold segment
  rw [if_pos hguard]
  rfl

/-- A segment that is there is loaded, unless it is the one held. -/
theorem segment_offered (hoffers : source.offers index) (c : CacheFields) :
    (segment source index).run c =
      if c.state = some index then (.ok (some c.samples), c)
      else match source.load index with
        | .ok samples => (.ok (some samples), ⟨some index, samples, c.loads + 1⟩)
        | .error e => (.error e, ⟨none, #[], c.loads⟩) := by
  have hguard : (source.count ≤ index || !source.isPresent index) = false := by
    simpa [SegmentSource.offers] using hoffers
  unfold segment
  rw [hguard, if_neg Bool.false_ne_true, Outcome.run_get_bind]
  by_cases hheld : c.state = some index
  · rw [if_neg (not_not_intro hheld), if_pos hheld]
    rfl
  · rw [if_pos hheld, if_neg hheld, Outcome.run_bind, load_run]
    cases source.load index <;> rfl

theorem shows_fresh : fresh.Shows .fresh where
  state := rfl
  samples := nofun
  loads := rfl

/-- A call cannot tell the two caches apart. -/
theorem segment_spec (source : SegmentSource) (index : Nat) (hshows : c.Shows cache) :
    ((segment source index).run c).1 = (SegmentCache.segment source index cache).1 ∧
      ((segment source index).run c).2.Shows (SegmentCache.segment source index cache).2 := by
  rcases SegmentCache.segment_cases source index cache with ⟨habsent, hcall⟩ |
    ⟨hoffers, hheld, samples, hsamples, hcall⟩ | ⟨hoffers, hother, samples, hload, hcall⟩ |
    ⟨hoffers, hother, e, hload, hcall⟩
  · rw [hcall, segment_absent habsent]
    exact ⟨rfl, hshows⟩
  · rw [hcall, segment_offered hoffers, if_pos (hshows.state.trans hheld),
      hshows.samples _ _ hsamples]
    exact ⟨rfl, hshows⟩
  · rw [hcall, segment_offered hoffers, if_neg (hshows.state ▸ hother), hload]
    refine ⟨rfl, rfl, fun held stored hheld => ?_, congrArg (· + 1) hshows.loads⟩
    cases hheld
    rfl
  · rw [hcall, segment_offered hoffers, if_neg (hshows.state ▸ hother), hload]
    exact ⟨rfl, rfl, nofun, hshows.loads⟩

/-- Nor can any number of calls. -/
theorem Shows.call (hshows : c.Shows cache) (source : SegmentSource) (indices : List Nat) :
    (call source c indices).Shows (SegmentCache.call source cache indices) := by
  induction indices generalizing c cache with
  | nil => exact hshows
  | cons index rest ih => exact ih (segment_spec source index hshows).2

end CacheFields

namespace SegmentCache

variable {source : SegmentSource} {cache : SegmentCache} {index : Nat}

theorem not_offers_iff :
    ¬source.offers index ↔ source.count ≤ index ∨ source.isPresent index = false := by
  simp [SegmentSource.offers, imp_iff_not_or]

/-- Nothing is the answer for the segments that are not there, and for no other. -/
theorem segment_eq_none_iff (source : SegmentSource) (index : Nat) (cache : SegmentCache) :
    (segment source index cache).1 = .ok none ↔ ¬source.offers index := by
  rcases segment_cases source index cache with ⟨habsent, hcall⟩ |
    ⟨hoffers, -, samples, -, hcall⟩ | ⟨hoffers, -, samples, -, hcall⟩ |
    ⟨hoffers, -, e, -, hcall⟩ <;> rw [hcall]
  · exact iff_of_true rfl habsent
  · exact iff_of_false nofun (not_not_intro hoffers)
  · exact iff_of_false nofun (not_not_intro hoffers)
  · exact iff_of_false nofun (not_not_intro hoffers)

/-- A load that fails is tried, as the segment is not held, and leaves nothing held. -/
theorem held_segment_of_error (hsound : cache.IsSound source) (hoffers : source.offers index)
    {e : Error} (hload : source.load index = .error e) :
    (segment source index cache).2.held = .empty := by
  rw [segment_failed hoffers (hsound.agrees.held_ne hload) hload]

/-- Whatever was asked for, the next call gives what a load would give, and nothing for a segment
that is not there.  The segment held is one that is there, with the samples of a load.  A call for a
segment that is not there changes nothing, and one whose load fails leaves nothing held.  The loads
are counted: they are the calls for a segment that was there, was not held and could be loaded. -/
theorem calls_as_uncached (source : SegmentSource) (indices : List Nat) (index : Nat) :
    let cache := call source fresh indices
    let fields := CacheFields.call source .fresh indices
    let absent := source.count ≤ index ∨ source.isPresent index = false
    ((segment source index cache).1 = .ok none ↔ absent) ∧
    (¬absent → (segment source index cache).1 = (source.load index).map some) ∧
    (absent → (segment source index cache).2 = cache) ∧
    (¬absent → ∀ e, source.load index = .error e → (segment source index cache).2.held = .empty) ∧
    (∀ held samples, cache.held = .holding held samples →
      source.offers held ∧ source.load held = .ok samples) ∧
    cache.loads = (calls source indices fresh).countP (fun c => loadsAt source c.1 c.2) ∧
    ((CacheFields.segment source index).run fields).1 = (segment source index cache).1 ∧
    (absent → ((CacheFields.segment source index).run fields).2 = fields) ∧
    fields.Shows cache := by
  intro cache fields absent
  have hsound : cache.IsSound source := (isSound_fresh source).call indices
  have hshows : fields.Shows cache := CacheFields.shows_fresh.call source indices
  have habsent : ¬source.offers index ↔ absent := not_offers_iff
  refine ⟨?_, ?_, ?_, ?_, ?_, ?_, ?_, ?_, hshows⟩
  · exact (segment_eq_none_iff source index cache).trans habsent
  · intro hthere
    have hoffers : source.offers index := not_not.mp fun hnot => hthere (habsent.mp hnot)
    rw [segment_result hsound.agrees, SegmentSource.segment, if_pos hoffers]
  · intro hgone
    rw [segment_absent (habsent.mpr hgone)]
  · intro hthere e hload
    exact held_segment_of_error hsound (not_not.mp fun hnot => hthere (habsent.mp hnot)) hload
  · intro held samples hheld
    refine ⟨hsound.offers held ?_, hsound.agrees held samples hheld⟩
    rw [hheld]
    rfl
  · rw [loads_call, fresh, Nat.zero_add]
  · exact (CacheFields.segment_spec source index hshows).1
  · intro hgone
    rw [CacheFields.segment_absent (habsent.mpr hgone)]

/-- Three segments, of which the second is absent and the third cannot be loaded. -/
def threeSegments : SegmentSource where
  count := 3
  isPresent := fun index => index != 1
  load := fun index =>
    if index = 2 then .error (.value (.segmentUnavailable 2)) else .ok #[index, 7]

theorem calls_as_uncached_threeSegments :
    let cache := call threeSegments fresh [0, 0, 1, 2, 5, 0]
    (segment threeSegments 0 cache).1 = .ok (some #[0, 7]) ∧
    (segment threeSegments 1 cache).1 = .ok none ∧ (segment threeSegments 1 cache).2 = cache ∧
    (segment threeSegments 2 cache).2.held = .empty ∧ cache.loads = 2 :=
  have hfirst := calls_as_uncached threeSegments [0, 0, 1, 2, 5, 0] 0
  have hsecond := calls_as_uncached threeSegments [0, 0, 1, 2, 5, 0] 1
  have hthird := calls_as_uncached threeSegments [0, 0, 1, 2, 5, 0] 2
  ⟨hfirst.2.1 (by decide), hsecond.1.mpr (by decide), hsecond.2.2.1 (by decide),
    hthird.2.2.2.1 (by decide) _ rfl, hfirst.2.2.2.2.2.1.trans (by decide)⟩

end SegmentCache

end SeviriImagery
