import TelemetryForge.Report.Trace
import TelemetryForge.Cli.Command

/-!
# The index of a file

`dtl index` builds a tag index by a walk of the file and prints its counts.  An entry names a section
and an item of its stream; `positions` are those of the records of one type, read off the container
without the index.

Principal result: `index_locates` — an index that is built leads to exactly these positions, type by
type and in wire order, and counts them; one is not built only for a file that cannot be read or
parsed, or when memory for a chunk is refused.
-/

set_option autoImplicit false

namespace Dtl

open Checked

/-- Where the records of a type are: the number of the section, and that of the item in its stream. -/
def positions (env : Nat → CodecEnv) (secs : List Section) (tag : UInt8) : List (Nat × Nat) :=
  secs.zipIdx.flatMap fun p =>
    ((sectionItems (env p.2) WALK_DEFAULT_MAX_DECODE p.1).filter fun q => q.2.tag = tag).map
      fun q => (p.2, q.1)

/-- The position an entry names. -/
def IndexEntry.place (e : IndexEntry) : Nat × Nat := (e.sectionIndex.toNat, e.recordInSec.toNat)

/-! ## The entries of a walk -/

/-- Positions that the fields of an entry hold. -/
def WalkEvent.Placed (ev : WalkEvent) : Prop := ev.sectionIndex < 2 ^ 16 ∧ ev.recordInSec < 2 ^ 32

theorem WalkEvent.Placed.place_eq {ev : WalkEvent} (h : ev.Placed) :
    (indexEntry ev).place = (ev.sectionIndex, ev.recordInSec) := by
  have hsec := Nat.mod_eq_of_lt h.1
  have hrec := Nat.mod_eq_of_lt h.2
  simp only [IndexEntry.place, indexEntry, UInt16.toNat_ofNat', UInt32.toNat_ofNat', hsec, hrec]

theorem sectionItems_lt {env : CodecEnv} {sec : Section} {q : Nat × Record}
    (h : q ∈ sectionItems env WALK_DEFAULT_MAX_DECODE sec) : q.1 < 2 ^ 32 := by
  unfold sectionItems at h
  cases hs : sectionStream env WALK_DEFAULT_MAX_DECODE sec with
  | error rc => simp [hs] at h
  | ok raw =>
    simp only [hs, itemsOf, List.mem_filterMap] at h
    obtain ⟨⟨t, j⟩, hmem, hq⟩ := h
    cases hp : recordParse t with
    | error rc => simp [hp, Except.toOption] at hq
    | ok rec =>
      simp only [hp, Except.toOption, Option.map_some, Option.some.injEq] at hq
      have hj := (List.mem_zipIdx hmem).2.1
      obtain ⟨codec, hcodec, hcap', hdecode⟩ := decodes_iff.mpr hs
      have hraw := codecGet_decode_le hcodec hdecode
      have hitems := flatMap_encodeTlv_le (tlvItems raw).1
      have hspec := congrArg List.length (tlvItems_spec raw).1
      have hcap : WALK_DEFAULT_MAX_DECODE = 2 ^ 24 := rfl
      rw [List.length_append] at hspec
      rw [← hq]
      dsimp only
      omega

theorem walkSignals_placed {env : Nat → CodecEnv} {secs : List Section} (hcount : secs.length < 2 ^ 16)
    {ev : WalkEvent} (h : ev ∈ eventsOf (walkSignals env WALK_DEFAULT_MAX_DECODE 0 0 secs)) :
    ev.Placed := by
  rw [eventsOf_walkSignals] at h
  obtain ⟨f, hf, k, rfl⟩ := mem_numbered h
  obtain ⟨⟨sec, si⟩, hp, hf⟩ := List.mem_flatMap.mp hf
  obtain ⟨q, hq, rfl⟩ := List.mem_map.mp hf
  have hsi := (List.mem_zipIdx hp).2.1
  exact ⟨by dsimp only at hsi ⊢; omega, sectionItems_lt hq⟩

theorem numbered_cons (n : Nat) (f : Nat → WalkEvent) (fs : List (Nat → WalkEvent)) :
    numbered n (f :: fs) = f n :: numbered (n + 1) fs := rfl

/-- The events of a type in a section name the positions of its items. -/
theorem sectionEvents_places (si : Nat) (sec : Section) (tag : UInt8) :
    ∀ (items : List (Nat × Record)) (n : Nat),
      ((numbered n (sectionEvents si sec items)).filter fun ev => ev.record.tag = tag).map
          (fun ev => (ev.sectionIndex, ev.recordInSec)) =
        (items.filter fun q => q.2.tag = tag).map fun q => (si, q.1)
  | [], _ => rfl
  | q :: items, n => by
    have ih := sectionEvents_places si sec tag items (n + 1)
    simp only [sectionEvents] at ih ⊢
    rw [List.map_cons, numbered_cons]
    by_cases ht : q.2.tag = tag
    · rw [List.filter_cons_of_pos (by simpa using ht), List.filter_cons_of_pos (by simpa using ht),
        List.map_cons, List.map_cons, ih]
    · rw [List.filter_cons_of_neg (by simpa using ht), List.filter_cons_of_neg (by simpa using ht), ih]

/-- **The events of a type name its positions.** -/
theorem walkSignals_places (env : Nat → CodecEnv) (tag : UInt8) : ∀ (secs : List Section) (si n : Nat),
    ((eventsOf (walkSignals env WALK_DEFAULT_MAX_DECODE si n secs)).filter
        fun ev => ev.record.tag = tag).map (fun ev => (ev.sectionIndex, ev.recordInSec)) =
      (secs.zipIdx si).flatMap fun p =>
        ((sectionItems (env p.2) WALK_DEFAULT_MAX_DECODE p.1).filter fun q => q.2.tag = tag).map
          fun q => (p.2, q.1)
  | [], _, _ => rfl
  | sec :: secs, si, n => by
    rw [walkSignals, eventsOf_append, List.filter_append, List.map_append, eventsOf_sectionSignals,
      sectionEvents_places, walkSignals_places env tag secs, List.zipIdx_cons, List.flatMap_cons]

/-! ## Building the index -/

section Build

variable {δ : Type} (h : Host δ)

/-- **The callback appends every event**, until memory is refused. -/
theorem deliver_index : ∀ (xs : List Signal) {idx : Index} {built : List WalkEvent},
    idx.Holds (built.map indexEntry) →
      (∃ idx', deliver (indexWalk h) xs (.ok idx) = (none, .ok idx') ∧
        idx'.Holds ((built ++ eventsOf xs).map indexEntry)) ∨
      ∃ idx', deliver (indexWalk h) xs (.ok idx) = (some .oom, .ok idx') ∧ ∃ n, h.chunk n = none
  | [], idx, built, hh => .inl ⟨idx, rfl, by simpa [eventsOf] using hh⟩
  | .error we :: xs, idx, built, hh => deliver_index xs hh
  | .record ev :: xs, idx, built, hh => by
    rw [deliver]
    rcases indexAppend_spec hh ev (h.chunk ev.recordIndex) with ⟨hnone, herr⟩ | ⟨idx', hok, hholds⟩
    · refine .inr ⟨idx, ?_, ev.recordIndex, hnone⟩
      simp only [indexWalk, Except.bind_ok_eq, herr]
    · have hnext : idx'.Holds ((built ++ [ev]).map indexEntry) := by
        rwa [List.map_append]
      have hcons : built ++ eventsOf (.record ev :: xs) = (built ++ [ev]) ++ eventsOf xs := by
        simp [eventsOf, Signal.event?]
      rw [hcons]
      simp only [indexWalk, Except.bind_ok_eq, hok]
      exact deliver_index xs hnext

/-- What an index says about the records of a container. -/
structure Index.Locates (env : Nat → CodecEnv) (secs : List Section) (idx : Index) : Prop where
  /-- a lookup visits as many entries as it returns, and they name the positions in wire order -/
  lookups : ∀ tag, ∃ es, indexForeachTag idx tag = some (.ok ⟨es.length, es⟩) ∧
    es.map IndexEntry.place = positions env secs tag
  /-- the counts printed for the types are those of the lookups -/
  counts : ∀ tag : UInt8, idx.perTag[tag.toNat]? = some (positions env secs tag).length
  total : idx.total = (walkItems env WALK_DEFAULT_MAX_DECODE 0 secs).length

theorem holds_locates {env : Nat → CodecEnv} {secs : List Section} (hcount : secs.length < 2 ^ 16)
    {idx : Index}
    (hh : idx.Holds ((eventsOf (walkSignals env WALK_DEFAULT_MAX_DECODE 0 0 secs)).map indexEntry)) :
    idx.Locates env secs := by
  have hplaces : ∀ tag : UInt8,
      (((eventsOf (walkSignals env WALK_DEFAULT_MAX_DECODE 0 0 secs)).map indexEntry).filter
        fun e => e.tag = tag).map IndexEntry.place = positions env secs tag := by
    intro tag
    rw [positions, ← walkSignals_places env tag secs 0 0, List.filter_map, List.map_map]
    refine List.map_congr_left fun ev hev => ?_
    exact (walkSignals_placed hcount (List.mem_of_mem_filter hev)).place_eq
  have htallies := hh.tallies
  refine ⟨fun tag => ⟨_, ?_, hplaces tag⟩, fun tag => ?_, ?_⟩
  · rw [indexForeachTag_eq hh tag, List.countP_eq_length_filter]
  · rw [htallies.perTag tag, List.countP_eq_length_filter, ← hplaces tag, List.length_map]
  · have hitems := congrArg List.length
      (walkSignals_items env WALK_DEFAULT_MAX_DECODE secs 0 0)
    rw [List.length_map] at hitems
    rw [htallies.total, List.length_map, hitems]

/-- **`dtl index` leads to every record.** Whatever the files, the medium and the memory: either it
prints the counts of an index that locates the records of its input, or the input cannot be opened, is
too large, is no container, or the memory for a chunk was refused, and then it prints nothing. -/
theorem index_locates (files : FileStore) (path : CStr) :
    let r := cliIndex h files path
    (∃ data cont idx, openFile h files path = .ok data ∧ containerParse data = .ok cont ∧
      r = ⟨0, indexPrint idx, files⟩ ∧ idx.Locates (h.walk 0) cont.sections) ∨
    (r = ⟨1, [], files⟩ ∧ ((∃ n, h.chunk n = none) ∨ ∃ rc,
      (openFile h files path >>= fun data =>
        if CLI_MAX_FILE < data.length then .error .range else containerParse data) = .error rc)) := by
  unfold cliIndex
  cases hopen : openFile h files path with
  | error rc => exact .inr ⟨rfl, .inr ⟨rc, rfl⟩⟩
  | ok data =>
    simp only [Except.bind_ok_eq, walkAbsorb]
    by_cases hbig : data.length > CLI_MAX_FILE
    · rw [if_pos hbig, if_pos hbig]
      exact .inr ⟨rfl, .inr ⟨.range, rfl⟩⟩
    rw [if_neg hbig, if_neg hbig, walkMemory_eq]
    cases hparse : containerParse data with
    | error rc => exact .inr ⟨rfl, .inr ⟨rc, rfl⟩⟩
    | ok cont =>
      have hcount : cont.sections.length < 2 ^ 16 := by
        obtain ⟨es, region, hlayout, -, -, hsecs⟩ := containerParse_ok hparse
        rw [hsecs, List.length_map, hlayout.count_eq]
        exact cont.sectionCount.toNat_lt
      dsimp only
      rcases @deliver_index _ h (walkSignals (h.walk 0) (indexWalk h).cap 0 0 cont.sections)
        Index.empty [] Index.empty_holds with ⟨idx, hok, hholds⟩ | ⟨idx, herr, hnone⟩
      · rw [hok]
        exact .inl ⟨data, cont, idx, rfl, hparse, rfl, holds_locates hcount hholds⟩
      · rw [herr]
        exact .inr ⟨rfl, .inl hnone⟩

end Build

end Dtl
