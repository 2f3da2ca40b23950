import AmrFramework.Runs
import AmrFramework.Tracker

/-!
# The tracks over time

A track is known by its number. Over any sequence of frames after `reset` the numbers of
the live tracks are distinct, a number is given once, and a track is dropped in the frame in
which it has been missed more than `max_missed_frames` times in a row (`tracker_identity`).

The history of a run has a record of every frame. The counter that a track carries is
compared with how long the history is silent about its number (`quiet`).

Neither the source nor the model stores such a history. It is a ghost: `record` reads off a frame
what happened in it, and the run keeps the records, newest first. The invariant `Numbered` then
says of the tracker's own fields what the history says about them, the counters of missed frames
above all, and `Identity` is what one frame adds to an older history.
-/

namespace AmrFramework.Perception

universe u

open Runs

variable {K : Type u} [Field K] [LinearOrder K] [CMath K]

/-- What happened in a frame: who was matched, started and removed, and what was reported. -/
structure FrameRecord (K : Type u) : Type u where
  /-- the tracks that took a detection -/
  matched : List Int
  started : List Int
  removed : List Int
  reported : List (TrackedObject K)

/-- The tracks at the end of a frame. -/
def FrameRecord.ids (e : FrameRecord K) : List Int := e.reported.map TrackedObject.trackId

/-- The tracks at the end of a history. -/
def live : List (FrameRecord K) → List Int
  | [] => []
  | e :: _ => e.ids

/-- How many frames it is since a detection was the track's. -/
def quiet (id : Int) : List (FrameRecord K) → Nat
  | [] => 0
  | e :: h => if id ∈ e.matched ∨ id ∈ e.started then 0 else quiet id h + 1

namespace MultiObjectTracker

variable (t : MultiObjectTracker K) (i : Frame K)

def record : FrameRecord K where
  matched := ((t.pairs i).filter fun p => p.2.isSome).map fun p => p.1.id
  started := ((t.grown i).1.drop t.tracks.length).map InternalTrack.id
  removed := ((t.grown i).1.filter fun track => t.Stale track).map InternalTrack.id
  reported := (t.update i).1

/-- One frame, whatever its detections. -/
def Frames (t : MultiObjectTracker K) (e : FrameRecord K) (t' : MultiObjectTracker K) : Prop :=
  ∃ i, e = t.record i ∧ t' = (t.update i).2

end MultiObjectTracker

/-- What a frame keeps of the tracks and their numbers. A number belongs to one track from the
frame in which it is started to the one in which it is removed. -/
structure Identity (params : TrackerParams K) (e : FrameRecord K) (older : List (FrameRecord K)) :
    Prop where
  nodup : e.ids.Nodup
  length_le : (e.reported.length : Int) ≤ params.maxTracks
  missCount_le : ∀ obj ∈ e.reported, obj.missCount ≤ params.maxMissedFrames
  missCount_eq : ∀ obj ∈ e.reported, obj.missCount = quiet obj.trackId (e :: older)
  /-- a number is given once -/
  started_nodup : e.started.Nodup
  fresh : ∀ id ∈ e.started, ∀ e' ∈ older, id ∉ e'.started ∧ id ∉ e'.removed
  /-- no track goes lost, and none comes from nowhere -/
  tracks : (live older ++ e.started).Perm (e.ids ++ e.removed)
  removed : ∀ id ∈ e.removed, params.maxMissedFrames < quiet id (e :: older)

/-! ## The numbers of a frame

What happens to the numbers alone, without the filters and the distances: the association keeps
them, and the loop that starts tracks appends the next ones. -/

section Numbers

variable {i : Frame K}

/-- The association keeps the number of a track. -/
theorem associated_id (p : InternalTrack K × Option Nat) :
    (MultiObjectTracker.associated i p).id = p.1.id := by
  obtain ⟨track, _ | d⟩ := p <;> rfl

/-- A match sets the counter of a track to zero, a miss adds one. -/
theorem associated_missCount (p : InternalTrack K × Option Nat) :
    (MultiObjectTracker.associated i p).missCount =
      if p.2.isSome = true then 0 else p.1.missCount + 1 := by
  obtain ⟨track, _ | d⟩ := p <;> rfl

theorem map_id_newTracks (nextId : Int) (ds : List Nat) :
    (newTracks i nextId ds).map InternalTrack.id =
      (List.range ds.length).map fun j : Nat => nextId + j := by
  refine List.ext_getElem (by simp [newTracks]) fun j hj _ => ?_
  simp [newTracks, spawnTrack]

theorem missCount_newTracks {nextId : Int} {ds : List Nat} {track : InternalTrack K}
    (h : track ∈ newTracks i nextId ds) : track.missCount = 0 := by
  obtain ⟨p, -, rfl⟩ := List.mem_map.mp h
  rfl

end Numbers

namespace MultiObjectTracker

variable (t : MultiObjectTracker K) (i : Frame K)

theorem map_id_association :
    (t.association i).tracks.map InternalTrack.id = t.tracks.map InternalTrack.id := by
  rw [association_eq_map, List.map_map, ← fst_pairs t i, List.map_map]
  exact List.map_congr_left fun p _ => associated_id p

theorem length_association : (t.association i).tracks.length = t.tracks.length := by
  have hlength := congrArg List.length (t.map_id_association i)
  rwa [List.length_map, List.length_map] at hlength

/-- New tracks are numbered from `next_id_` on. -/
theorem record_started : (t.record i).started =
    (List.range (t.started i).length).map fun j : Nat => t.nextId + j := by
  rw [← map_id_newTracks (i := i), record, grown_eq, ← length_association t i]
  exact congrArg (List.map InternalTrack.id) List.drop_left

/-- The numbers before the stale tracks are dropped: the old ones, then those of the new tracks. -/
theorem map_id_grown :
    (t.grown i).1.map InternalTrack.id = t.tracks.map InternalTrack.id ++ (t.record i).started := by
  rw [record_started, ← map_id_newTracks (i := i), grown_eq, List.map_append, map_id_association]

/-- The numbers of a frame are those from the counter before it up to the counter after it. -/
theorem mem_record_started {id : Int} :
    id ∈ (t.record i).started ↔ t.nextId ≤ id ∧ id < (t.grown i).2 := by
  rw [record_started, grown_eq, List.mem_map]
  constructor
  · rintro ⟨j, hj, rfl⟩
    have hlt := List.mem_range.mp hj
    omega
  · rintro ⟨hle, hlt⟩
    dsimp only at hlt
    exact ⟨(id - t.nextId).toNat, List.mem_range.mpr (by omega), by omega⟩

theorem record_started_nodup : (t.record i).started.Nodup := by
  rw [record_started]
  exact List.nodup_range.map fun j k h => by simpa using h

/-- The numbers after a frame. -/
theorem record_ids : (t.record i).ids =
    ((t.grown i).1.filter fun track => ¬t.Stale track).map InternalTrack.id := by
  rw [FrameRecord.ids, record, update, List.map_map]
  rfl

end MultiObjectTracker

/-! ## Over a run

`Numbered` is the invariant. Its last two fields carry the argument: a number that occurs
anywhere in the history is below `next_id_`, so a new one is new for the whole past, and the
counter of a track is the length of the silence about its number. -/

/-- The numbers and the counters of a tracker, after a history. -/
structure Numbered (params : TrackerParams K) (h : List (FrameRecord K))
    (t : MultiObjectTracker K) : Prop where
  params_eq : t.params = params
  live : live h = t.tracks.map InternalTrack.id
  nodup : (t.tracks.map InternalTrack.id).Nodup
  lt : ∀ track ∈ t.tracks, track.id < t.nextId
  length_le : (t.tracks.length : Int) ≤ params.maxTracks
  missCount : ∀ track ∈ t.tracks, track.missCount = quiet track.id h
  issued : ∀ e ∈ h, ∀ id, id ∈ e.started ∨ id ∈ e.removed → id < t.nextId

section Step

variable {params : TrackerParams K} {h : List (FrameRecord K)} {t : MultiObjectTracker K}

open MultiObjectTracker

/-- A track that is not matched has a number that no matched one has. -/
theorem Numbered.matched_iff (hn : Numbered params h t) {i : Frame K}
    {p : InternalTrack K × Option Nat} (hp : p ∈ t.pairs i) :
    p.1.id ∈ (t.record i).matched ↔ p.2.isSome = true := by
  have hnodup : ((t.pairs i).map fun p => p.1.id).Nodup := by
    have hn := hn.nodup
    rwa [← fst_pairs t i, List.map_map] at hn
  constructor
  · intro hmem
    obtain ⟨q, hq, heq⟩ := List.mem_map.mp hmem
    obtain ⟨hq, hsome⟩ := List.mem_filter.mp hq
    obtain rfl := List.inj_on_of_nodup_map hnodup hq hp heq
    exact hsome
  · intro hsome
    exact List.mem_map_of_mem (List.mem_filter.mpr ⟨hp, hsome⟩)

/-- Tracks that are there before the stale ones are dropped, have numbers below the counter, -/
theorem Numbered.grown_lt (hn : Numbered params h t) (i : Frame K) :
    ∀ track ∈ (t.grown i).1, track.id < (t.grown i).2 := by
  intro track hmem
  have hid : track.id ∈ t.tracks.map InternalTrack.id ++ (t.record i).started := by
    rw [← map_id_grown]
    exact List.mem_map_of_mem hmem
  rcases List.mem_append.mp hid with hold | hnew
  · obtain ⟨old, hold, heq⟩ := List.mem_map.mp hold
    have hlt := hn.lt old hold
    rw [grown_eq]
    dsimp only
    omega
  · exact ((t.mem_record_started i).mp hnew).2

/-- and all different ones: the new numbers begin where the old ones end. -/
theorem Numbered.grown_nodup (hn : Numbered params h t) (i : Frame K) :
    ((t.grown i).1.map InternalTrack.id).Nodup := by
  rw [map_id_grown]
  refine hn.nodup.append (t.record_started_nodup i) fun id hold hnew => ?_
  obtain ⟨old, hmem, rfl⟩ := List.mem_map.mp hold
  exact absurd (hn.lt old hmem) (not_lt.mpr ((t.mem_record_started i).mp hnew).1)

/-- The counter of a track is how long the history is silent about it. A matched track is
mentioned in the record of the frame and has its counter set to zero; one that is missed is
silent for one frame more; and a new one is mentioned as started. -/
theorem Numbered.grown_missCount (hn : Numbered params h t) (i : Frame K) :
    ∀ track ∈ (t.grown i).1, track.missCount = quiet track.id (t.record i :: h) := by
  intro track hmem
  rw [grown_eq] at hmem
  rcases List.mem_append.mp hmem with hold | hnew
  · rw [association_eq_map] at hold
    obtain ⟨p, hp, rfl⟩ := List.mem_map.mp hold
    have hp1 : p.1 ∈ t.tracks := mem_pairs t i hp
    have hstarted : p.1.id ∉ (t.record i).started := fun hnew =>
      absurd (hn.lt p.1 hp1) (not_lt.mpr ((t.mem_record_started i).mp hnew).1)
    rw [associated_missCount, associated_id, quiet, hn.missCount p.1 hp1]
    simp only [hn.matched_iff hp, hstarted, or_false]
    split_ifs <;> rfl
  · have hstarted : track.id ∈ (t.record i).started := by
      rw [record_started, ← map_id_newTracks (i := i)]
      exact List.mem_map_of_mem hnew
    rw [missCount_newTracks hnew, quiet, if_pos (.inr hstarted)]
    rfl

/-- There are never more tracks than the maximum, not even before the stale ones are dropped. -/
theorem Numbered.length_grown_le (hn : Numbered params h t) (i : Frame K) :
    ((t.grown i).1.length : Int) ≤ params.maxTracks := by
  have hroom : (t.started i).length ≤
      (t.params.maxTracks - (t.association i).tracks.length).toNat := List.length_take_le _ _
  have hle := hn.length_le
  rw [grown_eq, List.length_append, newTracks, List.length_map, List.length_zipIdx]
  rw [length_association, hn.params_eq] at hroom
  rw [length_association]
  omega

/-- **One frame** keeps the numbers and the counters. What the frame drops is a sublist of what
`grown` has, so all that has to be looked at is `grown`. -/
theorem Numbered.update (hn : Numbered params h t) (i : Frame K) :
    Numbered params (t.record i :: h) (t.update i).2 where
  params_eq := hn.params_eq
  live := record_ids t i
  nodup := (hn.grown_nodup i).sublist (List.filter_sublist.map _)
  lt := fun track hmem => hn.grown_lt i track (List.mem_of_mem_filter hmem)
  length_le := by
    have hle : ((t.update i).2.tracks.length : Int) ≤ (t.grown i).1.length :=
      Int.ofNat_le.mpr (List.length_filter_le _ _)
    exact hle.trans (hn.length_grown_le i)
  missCount := fun track hmem => hn.grown_missCount i track (List.mem_of_mem_filter hmem)
  issued := by
    have hle : t.nextId ≤ (t.grown i).2 := by
      rw [grown_eq]
      exact le_add_of_nonneg_right (Int.natCast_nonneg _)
    intro e he id hid
    rcases List.mem_cons.mp he with rfl | he
    · rcases hid with hid | hid
      · exact ((t.mem_record_started i).mp hid).2
      · obtain ⟨track, hmem, rfl⟩ := List.mem_map.mp hid
        exact hn.grown_lt i track (List.mem_of_mem_filter hmem)
    · exact (hn.issued e he id hid).trans_le hle

/-- **What a frame says about the numbers**, given that they were in order before it. -/
theorem Numbered.identity (hn : Numbered params h t) (i : Frame K) :
    Identity params (t.record i) h where
  nodup := by
    rw [record_ids]
    exact (hn.update i).nodup
  length_le := by
    have hlength : (t.record i).reported.length = (t.update i).2.tracks.length := List.length_map _
    rw [hlength]
    exact (hn.update i).length_le
  missCount_le := by
    intro obj hobj
    obtain ⟨track, hmem, rfl⟩ := List.mem_map.mp hobj
    have hstale := (List.mem_filter.mp hmem).2
    rw [← hn.params_eq]
    exact not_lt.mp (of_decide_eq_true hstale)
  missCount_eq := by
    intro obj hobj
    obtain ⟨track, hmem, rfl⟩ := List.mem_map.mp hobj
    exact (hn.update i).missCount track hmem
  started_nodup := t.record_started_nodup i
  fresh := by
    intro id hid e' he'
    have hle := ((t.mem_record_started i).mp hid).1
    exact ⟨fun hmem => absurd (hn.issued e' he' id (.inl hmem)) (not_lt.mpr hle),
      fun hmem => absurd (hn.issued e' he' id (.inr hmem)) (not_lt.mpr hle)⟩
  tracks := by
    rw [hn.live, ← map_id_grown, record_ids]
    have hperm := List.filter_append_perm (fun track => decide (¬t.Stale track)) (t.grown i).1
    simpa [record] using (hperm.map InternalTrack.id).symm
  removed := by
    intro id hid
    obtain ⟨track, hmem, rfl⟩ := List.mem_map.mp hid
    obtain ⟨hmem, hstale⟩ := List.mem_filter.mp hmem
    rw [← hn.grown_missCount i track hmem, ← hn.params_eq]
    exact of_decide_eq_true hstale

end Step

/-- **Tracks keep their numbers**, in every frame of every run after `reset`: the numbers of the
live tracks are distinct and at most `max_tracks`, each is given once and is never seen again
after its track was dropped, the counter that is reported is the number of frames since the last
detection, and a track is dropped exactly in the frame in which this number exceeds
`max_missed_frames`.

The run starts with the empty tracker, which is `Numbered` by an empty history; a frame keeps
that (`Numbered.update`) and its record is in order (`Numbered.identity`). -/
theorem tracker_identity {t₀ t : MultiObjectTracker K} {h : List (FrameRecord K)}
    (hmax : 0 ≤ t₀.params.maxTracks) (hrun : Run MultiObjectTracker.Frames t₀.reset h t) :
    Always (Identity t₀.params) h := by
  have hstart : Numbered t₀.params [] t₀.reset :=
    ⟨rfl, rfl, List.nodup_nil, nofun, hmax, nofun, nofun⟩
  have hinv := hrun.invariant
    (I := fun h t => Numbered t₀.params h t ∧ Always (Identity t₀.params) h) ⟨hstart, trivial⟩
    fun h t e t' ⟨hn, halways⟩ ⟨i, he, ht⟩ => by
      subst he ht
      exact ⟨hn.update i, hn.identity i, halways⟩
  exact hinv.2

/-! ## Three frames

One object is seen once and then missed twice, another is seen from the second frame on; one miss
is forgiven. So the third frame has a track that is matched, one that is missed and one that is
dropped, while numbers 0 and 1 stay what they were. -/

/-- One miss is forgiven. -/
noncomputable def oneMiss : TrackerParams ℝ where
  maxMissedFrames := 1

open MultiObjectTracker

/-- A tracker that has missed one object for the first time, and has seen another one. -/
noncomputable def seenTwo : MultiObjectTracker ℝ where
  params := oneMiss
  tracks := (seenOnce oneMiss).predicted (onlyAt 10) ++ [spawnTrack 1 ({ x := 10 } : Cluster ℝ)]
  nextId := 2

theorem grown_seenOnce : (seenOnce oneMiss).grown (onlyAt 10) = (seenTwo.tracks, 2) := by
  rw [grown, association_seenOnce (by norm_num [oneMiss])]
  simp [onlyAt, spawn, predicted, seenOnce, oneMiss, seenTwo]

theorem update_seenOnce : ((seenOnce oneMiss).update (onlyAt 10)).2 = seenTwo := by
  simp only [update, grown_seenOnce]
  simp [seenTwo, seenOnce, predicted, Stale, oneMiss, spawnTrack]

theorem associate_second {radius : ℝ} {dets : List (Cluster ℝ)} {first second : InternalTrack ℝ}
    {detMatched : Nat → Bool} {d : Nat} (hfirst : closest radius dets first detMatched = none)
    (hsecond : closest radius dets second detMatched = some d) :
    associate radius dets [first, second] detMatched =
      ⟨[first, second.take (dets.getD d {})], [none, some d],
        Function.update detMatched d true⟩ := by
  rw [associate_cons_of_none _ hfirst, associate_cons_of_some [] hsecond]
  rfl

/-- The first object is missed again, the other one takes the detection. -/
theorem association_seenTwo :
    ∃ first second : InternalTrack ℝ, first.id = 0 ∧ first.missCount = 2 ∧ second.id = 1 ∧
      second.missCount = 0 ∧ (seenTwo.association (onlyAt 10)).tracks = [first, second] ∧
      (seenTwo.association (onlyAt 10)).detMatched 0 = true := by
  have hfirst := (((still_spawnTrack 0 0).predict 1).predict 2).closest_eq (y := 10)
    (r := oneMiss.associationRadius) fun _ => false
  have hsecond := ((still_spawnTrack 1 10).predict 1).closest_eq (y := 10)
    (r := oneMiss.associationRadius) fun _ => false
  rw [if_neg (by norm_num [oneMiss])] at hfirst
  rw [if_pos (by norm_num [oneMiss])] at hsecond
  have hassoc : seenTwo.association (onlyAt 10) = _ := associate_second hfirst hsecond
  rw [hassoc]
  exact ⟨_, _, rfl, rfl, rfl, rfl, rfl, rfl⟩

theorem grown_seenTwo : ∃ first second : InternalTrack ℝ, first.id = 0 ∧ first.missCount = 2 ∧
    second.id = 1 ∧ second.missCount = 0 ∧ (seenTwo.grown (onlyAt 10)).1 = [first, second] := by
  obtain ⟨first, second, hfirst, hmissed, hsecond, hseen, htracks, hmatched⟩ := association_seenTwo
  refine ⟨first, second, hfirst, hmissed, hsecond, hseen, ?_⟩
  have honly : (onlyAt 10).detections.zipIdx = [({ x := 10 }, 0)] := rfl
  rw [grown, htracks, honly, spawn, if_pos hmatched, spawn]

/-- In the third frame the first object is missed for the second time, and its track is dropped. -/
theorem tracker_identity_pruned :
    let t₀ : MultiObjectTracker ℝ := { params := oneMiss }
    let t₁ := (t₀.reset.update (onlyAt 0)).2
    let t₂ := (t₁.update (onlyAt 10)).2
    Always (Identity oneMiss)
        [t₂.record (onlyAt 10), t₁.record (onlyAt 10), t₀.reset.record (onlyAt 0)] ∧
      (t₁.record (onlyAt 10)).ids = [0, 1] ∧ (t₂.record (onlyAt 10)).ids = [1] ∧
      (t₂.record (onlyAt 10)).removed = [0] := by
  intro t₀ t₁ t₂
  have hrun : Run Frames t₀.reset
      [t₂.record (onlyAt 10), t₁.record (onlyAt 10), t₀.reset.record (onlyAt 0)]
      (t₂.update (onlyAt 10)).2 :=
    ((Run.start.snoc ⟨_, rfl, rfl⟩).snoc ⟨_, rfl, rfl⟩).snoc ⟨_, rfl, rfl⟩
  have h₁ : t₁ = seenOnce oneMiss := update_onlyAt_zero (by decide) (by decide)
  have h₂ : t₂ = seenTwo := by
    rw [← update_seenOnce, ← h₁]
  obtain ⟨first, second, hfirst, hmissed, hsecond, hseen, hgrown⟩ := grown_seenTwo
  have hdropped : seenTwo.Stale first := by
    rw [Stale, hmissed]
    decide
  have hkept : ¬ seenTwo.Stale second := by
    rw [Stale, hseen]
    decide
  have hidentity : Always (Identity t₀.params) _ := tracker_identity (by decide) hrun
  refine ⟨hidentity, ?_, ?_, ?_⟩
  · rw [h₁, record_ids, grown_seenOnce]
    rfl
  · rw [h₂, record_ids, hgrown]
    simp [hdropped, hkept, hsecond]
  · rw [h₂, record, hgrown]
    simp [hdropped, hkept, hfirst]

end AmrFramework.Perception
