import TelemetryForge.Core.Arena
import TelemetryForge.Lib.Cells
import TelemetryForge.Report.Export

/-!
# Ranking

Model of `dtl_topk_file`.  A value is an integer: a field has at most 32 bits, so the `double` that it is
converted to is exact (`topkExtract_exact`), and `%.3f` prints the integer and three zeros.  What an
array holds before it is written is arbitrary.

Principal result: `topkFile_ranks` — the lines printed are the first entries of the matching records,
stably sorted by descending value.
-/

set_option autoImplicit false

namespace Dtl

open CText Cells
open Function (update)

/-! ## The fields -/

/-- `dtl_topk_field`. -/
structure TopkField where
  name : String
  tag : UInt8
  extract : Record → Int

/-- A field of the union member `u`, which is read of records with its tag only. -/
def topkRead {γ : Type} (u : Record → Option γ) (value : γ → Int) (rec : Record) : Int :=
  match u rec with
  | some r => value r
  | none => 0

def topkHbUptime : Record → Int := topkRead Record.heartbeat? fun r => r.uptimeS.toNat
def topkHbSeq : Record → Int := topkRead Record.heartbeat? fun r => r.seq.toNat
def topkBatPct : Record → Int := topkRead Record.battery? fun r => r.pct.toNat
def topkBatTemp : Record → Int := topkRead Record.battery? fun r => r.tempCE1.toInt
def topkBatCycles : Record → Int := topkRead Record.battery? fun r => r.cycles.toNat
def topkGeoLat : Record → Int := topkRead Record.geo? fun r => r.latE7.toInt
def topkGeoLon : Record → Int := topkRead Record.geo? fun r => r.lonE7.toInt
def topkGeoAlt : Record → Int := topkRead Record.geo? fun r => r.altMm.toInt
def topkNetRxb : Record → Int := topkRead Record.net? fun r => r.rxBytes.toNat
def topkNetTxb : Record → Int := topkRead Record.net? fun r => r.txBytes.toNat
def topkNetRxp : Record → Int := topkRead Record.net? fun r => r.rxPkts.toNat
def topkNetTxp : Record → Int := topkRead Record.net? fun r => r.txPkts.toNat
def topkSensorId : Record → Int := topkRead Record.sensor? fun r => r.sensorId.toNat
def topkSensorCount : Record → Int := topkRead Record.sensor? fun r => r.count.toNat
def topkEventCode : Record → Int := topkRead Record.event? fun r => r.code.toNat
def topkEventPlen : Record → Int := topkRead Record.event? fun r => r.payloadLen.toNat
def topkLogSev : Record → Int := topkRead Record.log? fun r => r.severity.toNat
def topkConfigPairs : Record → Int := topkRead Record.config? fun r => r.pairCount.toNat
def topkDiagBlob : Record → Int := topkRead Record.diag? fun r => r.blobLen.toNat

/-- `kFields`. -/
def topkFields : List TopkField :=
  [⟨"heartbeat.uptime_s", REC_HEARTBEAT, topkHbUptime⟩,
   ⟨"heartbeat.seq", REC_HEARTBEAT, topkHbSeq⟩,
   ⟨"battery.pct", REC_BATTERY, topkBatPct⟩,
   ⟨"battery.temp_c_e1", REC_BATTERY, topkBatTemp⟩,
   ⟨"battery.cycles", REC_BATTERY, topkBatCycles⟩,
   ⟨"geo.lat_e7", REC_GEO, topkGeoLat⟩,
   ⟨"geo.lon_e7", REC_GEO, topkGeoLon⟩,
   ⟨"geo.alt_mm", REC_GEO, topkGeoAlt⟩,
   ⟨"net.rx_bytes", REC_NET, topkNetRxb⟩,
   ⟨"net.tx_bytes", REC_NET, topkNetTxb⟩,
   ⟨"net.rx_pkts", REC_NET, topkNetRxp⟩,
   ⟨"net.tx_pkts", REC_NET, topkNetTxp⟩,
   ⟨"sensor.sensor_id", REC_SENSOR, topkSensorId⟩,
   ⟨"sensor.count", REC_SENSOR, topkSensorCount⟩,
   ⟨"event.code", REC_EVENT, topkEventCode⟩,
   ⟨"event.payload_len", REC_EVENT, topkEventPlen⟩,
   ⟨"log.severity", REC_LOG, topkLogSev⟩,
   ⟨"config.pair_count", REC_CONFIG, topkConfigPairs⟩,
   ⟨"diag.blob_len", REC_DIAG, topkDiagBlob⟩]

/-- `dtl_topk_lookup`. -/
def topkLookup (name : CStr) : Option TopkField :=
  topkFields.find? fun f => name.val = ascii f.name

/-! ## Collection -/

/-- `dtl_topk_entry`. -/
structure TopkEntry where
  value : Int
  recordIndex : Nat
  deriving DecidableEq

/-- `sizeof(dtl_topk_entry)`. -/
def TOPK_ENTRY_SIZE : Nat := 8 + 8

/-- `dtl_topk_ctx`: `entries` is the content of the array in use. -/
structure TopkCtx where
  field : TopkField
  arena : Arena
  entries : Nat → TopkEntry
  count : Nat
  cap : Nat

/-- The growth branch of `dtl_topk_on_record`; `held` is what an array of a given capacity holds. -/
def topkGrow (held : Nat → Nat → TopkEntry) (c : TopkCtx) : Res TopkCtx :=
  let newCap := if c.cap ≠ 0 then c.cap * 2 else 64
  let (ok, arena) := arenaAlloc c.arena (newCap * TOPK_ENTRY_SIZE)
  if ok = false then .error .oom
  else .ok { c with
    arena := arena
    entries := fun i => if i < c.count then c.entries i else held newCap i
    cap := newCap }

/-- The entry of a record, in an array with room. -/
def topkStore (ev : WalkEvent) (c : TopkCtx) : TopkCtx :=
  { c with
    entries := update c.entries c.count ⟨c.field.extract ev.record, ev.recordIndex⟩
    count := c.count + 1 }

/-- `dtl_topk_on_record`. -/
def topkOnRecord (held : Nat → Nat → TopkEntry) (ev : WalkEvent) (c : TopkCtx) :
    Option Err × TopkCtx :=
  if ev.record.tag ≠ c.field.tag then (none, c)
  else
    match if c.count = c.cap then topkGrow held c else .ok c with
    | .error rc => (some rc, c)
    | .ok c => (none, topkStore ev c)

def topkWalk (held : Nat → Nat → TopkEntry) : Walk TopkCtx where
  onRecord := topkOnRecord held
  onError _ c := c
  maxDecode := 0

/-! ## Sorting and printing -/

/-- `dtl_topk_sort`: an entry stays after one whose value is not less. -/
def topkSort (e : Nat → TopkEntry) (n : Nat) : Nat → TopkEntry :=
  sortCells (fun key prev => ¬ prev.value < key.value) e n

/-- The number of entries shown of `count`. -/
def topkShown (n count : Nat) : Nat := if n = 0 ∨ n > count then count else n

def topkHeader (f : TopkField) (shown count : Nat) : Bytes :=
  ascii "top-" ++ decimal shown ++ ascii " by " ++ ascii f.name ++ ascii " (" ++ decimal count ++
    ascii " candidates):\n"

/-- The line of entry `i`. -/
def topkLine (i : Nat) (x : TopkEntry) : Bytes :=
  ascii "  " ++ padLeft 4 (decimal (i + 1)) ++ ascii "  record=" ++
    padRight 8 (decimal x.recordIndex) ++ ascii " value=" ++ decimalInt x.value ++ ascii ".000\n"

/-- `dtl_topk_file` on a file that can be read: the lines. -/
def topkFile (env : Nat → CodecEnv) (held : Nat → Nat → TopkEntry) (arena : Arena) (maxFile : Nat)
    (file : Bytes) (field : CStr) (n : Nat) : Res (List Bytes) :=
  match topkLookup field with
  | none => .error .inval
  | some fld =>
    match walkAbsorb env (topkWalk held) maxFile file ⟨fld, arena, held 0, 0, 0⟩ with
    | (some rc, _) => .error rc
    | (none, c) =>
      let e := topkSort c.entries c.count
      let shown := topkShown n c.count
      .ok (topkHeader fld shown c.count :: (List.range shown).map fun i => topkLine i (e i))

/-! ## What a ranking is for -/

/-- The entry of a record at an ordinal, if it matches. -/
def topkEntry (f : TopkField) (p : Record × Nat) : Option TopkEntry :=
  if p.1.tag = f.tag then some ⟨f.extract p.1, p.2⟩ else none

/-- The entries of the matching records of a stream, in its order. -/
def topkEntries (f : TopkField) (recs : List Record) : List TopkEntry :=
  recs.zipIdx.filterMap (topkEntry f)

/-- One entry ranks before another: its value is greater, or it came first. -/
def TopkBefore (a b : TopkEntry) : Prop :=
  b.value < a.value ∨ a.value = b.value ∧ a.recordIndex < b.recordIndex

/-- The entries, ranked. -/
structure TopkRanking (entries ranked : List TopkEntry) : Prop where
  perm : ranked.Perm entries
  order : ranked.Pairwise TopkBefore

/-- There is one ranking. -/
theorem TopkRanking.unique {entries ranked ranked' : List TopkEntry} (h : TopkRanking entries ranked)
    (h' : TopkRanking entries ranked') : ranked = ranked' := by
  refine List.Perm.eq_of_pairwise ?_ h.order h'.order (h.perm.trans h'.perm.symm)
  intro a b _ _ hab hba
  exfalso
  rcases hab with hab | hab <;> rcases hba with hba | hba <;> omega

/-! ## The table -/

theorem topkRead_exact {γ : Type} {u : Record → Option γ} {value : γ → Int}
    (h : ∀ r, (value r).natAbs < 2 ^ 32) (rec : Record) : (topkRead u value rec).natAbs < 2 ^ 32 := by
  unfold topkRead
  split
  · exact h _
  · decide

/-- Every value is an integer that a `double` represents. -/
theorem topkExtract_exact : ∀ f ∈ topkFields, ∀ rec, (f.extract rec).natAbs < 2 ^ 32 := by
  have h8 : ∀ x : UInt8, (x.toNat : Int).natAbs < 2 ^ 32 := fun x => by
    have := x.toNat_lt
    omega
  have h16 : ∀ x : UInt16, (x.toNat : Int).natAbs < 2 ^ 32 := fun x => by
    have := x.toNat_lt
    omega
  have h32 : ∀ x : UInt32, (x.toNat : Int).natAbs < 2 ^ 32 := fun x => by
    have := x.toNat_lt
    omega
  have hi16 : ∀ x : Int16, x.toInt.natAbs < 2 ^ 32 := fun x => by
    have := x.toInt_lt
    have := x.le_toInt
    omega
  have hi32 : ∀ x : Int32, x.toInt.natAbs < 2 ^ 32 := fun x => by
    have := x.toInt_lt
    have := x.le_toInt
    omega
  simp only [topkFields, List.forall_mem_cons]
  refine ⟨topkRead_exact fun r => h32 _, topkRead_exact fun r => h32 _, topkRead_exact fun r => h8 _,
    topkRead_exact fun r => hi16 _, topkRead_exact fun r => h32 _, topkRead_exact fun r => hi32 _,
    topkRead_exact fun r => hi32 _, topkRead_exact fun r => hi32 _, topkRead_exact fun r => h32 _,
    topkRead_exact fun r => h32 _, topkRead_exact fun r => h32 _, topkRead_exact fun r => h32 _,
    topkRead_exact fun r => h16 _, topkRead_exact fun r => h8 _, topkRead_exact fun r => h16 _,
    topkRead_exact fun r => h16 _, topkRead_exact fun r => h8 _, topkRead_exact fun r => h8 _,
    topkRead_exact fun r => h16 _, fun _ h => absurd h List.not_mem_nil⟩

/-- A lookup among distinct names finds the entry with the name. -/
theorem find?_name {α κ : Type} [DecidableEq κ] {key : α → κ} : ∀ {xs : List α} {a : α},
    (xs.map key).Nodup → a ∈ xs → (xs.find? fun b => key a = key b) = some a
  | b :: xs, a, hnodup, hmem => by
    rw [List.map_cons, List.nodup_cons] at hnodup
    rcases List.mem_cons.mp hmem with rfl | hrest
    · exact List.find?_cons_of_pos (by simp)
    · have hne : key a ≠ key b := fun heq => hnodup.1 (heq ▸ List.mem_map_of_mem hrest)
      rw [List.find?_cons_of_neg (by simpa using hne)]
      exact find?_name hnodup.2 hrest

/-- Every rankable field is found under its name. -/
theorem topkLookup_name {f : TopkField} (hf : f ∈ topkFields) {name : CStr}
    (hname : name.val = ascii f.name) : topkLookup name = some f := by
  have hnames : (topkFields.map fun f => ascii f.name).Nodup := by decide +kernel
  rw [topkLookup, hname]
  exact find?_name hnames hf

/-! ## What the array holds -/

theorem topkEntries_snoc (f : TopkField) (recs : List Record) (rec : Record) :
    topkEntries f (recs ++ [rec]) = topkEntries f recs ++
      if rec.tag = f.tag then [⟨f.extract rec, recs.length⟩] else [] := by
  have hlast : [(rec, recs.length)].filterMap (topkEntry f) =
      if rec.tag = f.tag then [⟨f.extract rec, recs.length⟩] else [] := by
    by_cases h : rec.tag = f.tag
    · rw [if_pos h]
      exact List.filterMap_cons_some (if_pos h)
    · rw [if_neg h]
      exact List.filterMap_cons_none (if_neg h)
  rw [topkEntries, List.zipIdx_append, List.filterMap_append, Nat.zero_add, List.zipIdx_singleton, hlast]
  rfl

/-- The entries come in the order of their ordinals. -/
theorem topkEntries_ordered (f : TopkField) (recs : List Record) :
    (topkEntries f recs).Pairwise fun a b => a.recordIndex < b.recordIndex := by
  have hidx : recs.zipIdx.Pairwise fun p q => p.2 < q.2 := by
    rw [← List.pairwise_map, List.zipIdx_map_snd]
    exact List.pairwise_lt_range'
  have hentry : ∀ p x, topkEntry f p = some x → x.recordIndex = p.2 := by
    intro p x h
    unfold topkEntry at h
    split at h
    · cases h
      rfl
    · cases h
  refine List.pairwise_filterMap.mpr (hidx.imp fun hlt a ha b hb => ?_)
  rw [hentry _ _ ha, hentry _ _ hb]
  exact hlt

/-- The context after the records `recs`. -/
structure TopkHolds (f : TopkField) (recs : List Record) (c : TopkCtx) : Prop where
  field : c.field = f
  room : c.count ≤ c.cap
  entries : cells c.entries c.count = topkEntries f recs

section Steps

variable {held : Nat → Nat → TopkEntry} {f : TopkField} {recs : List Record} {c c' : TopkCtx}

/-- Growing a full array copies the entries. -/
theorem topkGrow_holds (h : TopkHolds f recs c) (hfull : c.count = c.cap)
    (hok : topkGrow held c = .ok c') : TopkHolds f recs c' ∧ c'.count < c'.cap := by
  unfold topkGrow at hok
  dsimp only at hok
  generalize hnew : (if c.cap ≠ 0 then c.cap * 2 else 64) = newCap at hok
  have hroom : c.count < newCap := by
    rw [hfull, ← hnew]
    split <;> omega
  by_cases hmem : (arenaAlloc c.arena (newCap * TOPK_ENTRY_SIZE)).1 = false
  · rw [if_pos hmem] at hok
    cases hok
  rw [if_neg hmem] at hok
  cases hok
  refine ⟨⟨h.field, Nat.le_of_lt hroom, ?_⟩, hroom⟩
  rw [← h.entries]
  exact cells_congr fun i hi => if_pos hi

/-- A store behind the entries appends to them. -/
theorem topkStore_holds {ev : WalkEvent} (h : TopkHolds f recs c) (hroom : c.count < c.cap)
    (hindex : ev.recordIndex = recs.length) (htag : ev.record.tag = f.tag) :
    TopkHolds f (recs ++ [ev.record]) (topkStore ev c) := by
  refine ⟨h.field, hroom, ?_⟩
  rw [topkStore, cells_store, h.entries, topkEntries_snoc, if_pos htag, h.field, hindex]

/-- **What one callback does.** -/
theorem topkOnRecord_holds {ev : WalkEvent} (h : TopkHolds f recs c)
    (hindex : ev.recordIndex = recs.length) (hok : topkOnRecord held ev c = (none, c')) :
    TopkHolds f (recs ++ [ev.record]) c' := by
  unfold topkOnRecord at hok
  by_cases htag : ev.record.tag = f.tag
  · rw [if_neg (by rw [h.field]; exact not_not_intro htag)] at hok
    by_cases hfull : c.count = c.cap
    · rw [if_pos hfull] at hok
      cases hgrow : topkGrow held c with
      | error rc =>
        rw [hgrow] at hok
        cases hok
      | ok c₁ =>
        rw [hgrow] at hok
        cases hok
        obtain ⟨h₁, hroom⟩ := topkGrow_holds h hfull hgrow
        exact topkStore_holds h₁ hroom hindex htag
    · rw [if_neg hfull] at hok
      cases hok
      exact topkStore_holds h (Nat.lt_of_le_of_ne h.room hfull) hindex htag
  · rw [if_pos (by rw [h.field]; exact htag)] at hok
    cases hok
    refine ⟨h.field, h.room, ?_⟩
    rw [topkEntries_snoc, if_neg htag, List.append_nil]
    exact h.entries

end Steps

/-! ## The order -/

/-- An entry may stay after another, by value and then by ordinal. -/
def TopkAfter (a b : TopkEntry) : Prop :=
  a.value < b.value ∨ a.value = b.value ∧ b.recordIndex ≤ a.recordIndex

instance : DecidableRel TopkAfter := fun a b =>
  inferInstanceAs (Decidable (a.value < b.value ∨ a.value = b.value ∧ b.recordIndex ≤ a.recordIndex))

instance : Std.Total TopkAfter where
  total a b := by
    unfold TopkAfter
    omega

instance : IsTrans TopkEntry TopkAfter where
  trans a b c hab hbc := by
    unfold TopkAfter at *
    omega

/-- The sort of entries that come in the order of their ordinals is a ranking. -/
theorem topkSort_ranks {e : Nat → TopkEntry} {n : Nat}
    (h : (cells e n).Pairwise fun a b => a.recordIndex < b.recordIndex) :
    TopkRanking (cells e n) (cells (topkSort e n) n) := by
  have hperm : (cells (topkSort e n) n).Perm (cells e n) := sortCells_perm e n
  have hafter : (cells (topkSort e n) n).Pairwise fun b a => TopkAfter a b := by
    refine sortCells_pairwise e n (h.imp fun {b a} hlt => ?_)
    unfold TopkAfter
    omega
  have hne : (cells (topkSort e n) n).Pairwise fun a b => a.recordIndex ≠ b.recordIndex :=
    (hperm.pairwise_iff fun hab => hab.symm).mpr (h.imp fun hlt => Nat.ne_of_lt hlt)
  refine ⟨hperm, (hafter.and hne).imp fun {a b} hab => ?_⟩
  obtain ⟨hafter, hne⟩ := hab
  unfold TopkAfter at hafter
  unfold TopkBefore
  omega

/-- The lines number the entries shown. -/
theorem topkLines_eq (e : Nat → TopkEntry) (n : Nat) :
    ((List.range n).map fun i => topkLine i (e i)) = (cells e n).mapIdx topkLine := by
  induction n with
  | zero => rfl
  | succ n ih =>
    rw [List.range_succ, List.map_append, ih, cells_succ, List.mapIdx_concat, cells_length]
    rfl

theorem topkShown_eq (n count : Nat) :
    topkShown n count = if n = 0 then count else min n count := by
  unfold topkShown
  split <;> split <;> omega

/-- **The lines printed are the first entries of the ranking.** -/
theorem topkFile_ranks {env : Nat → CodecEnv} {held : Nat → Nat → TopkEntry} {arena : Arena}
    {maxFile : Nat} {file : Bytes} {field : CStr} {n : Nat} {lines : List Bytes} {f : TopkField}
    (hf : f ∈ topkFields) (hname : field.val = ascii f.name)
    (hok : topkFile env held arena maxFile file field n = .ok lines) :
    let entries := topkEntries f ((delivered env file).map (·.record))
    let shown := if n = 0 then entries.length else min n entries.length
    ∃ ranked, TopkRanking entries ranked ∧
      lines = topkHeader f shown entries.length :: (ranked.take shown).mapIdx topkLine := by
  unfold topkFile at hok
  rw [topkLookup_name hf hname] at hok
  dsimp only at hok
  split at hok
  · cases hok
  · rename_i c hwalk
    cases hok
    have h : TopkHolds f ((delivered env file).map (·.record)) c := by
      refine walkAbsorb_numbered (w := topkWalk held) rfl (fun _ _ _ h => h) ?_ ⟨rfl, Nat.le_refl 0, rfl⟩
        hwalk
      intro recs ev c c' h hindex hstep
      exact topkOnRecord_holds h hindex hstep
    have hlen : c.count = (topkEntries f ((delivered env file).map (·.record))).length := by
      rw [← h.entries, cells_length]
    have hle : topkShown n c.count ≤ c.count := by
      unfold topkShown
      split <;> omega
    have hranks := topkSort_ranks (e := c.entries) (n := c.count)
      (h.entries ▸ topkEntries_ordered f ((delivered env file).map (·.record)))
    rw [h.entries] at hranks
    refine ⟨_, hranks, ?_⟩
    rw [← hlen, ← topkShown_eq, cells_take _ hle, topkLines_eq]

theorem topkFile_ranks_two : ∃ f ∈ topkFields, ∃ lines,
    topkFile (fun _ => ⟨true, 0⟩) (fun _ _ => ⟨0, 0⟩) ⟨fun _ => false, 0⟩ 4096 twoSections
      (cstr (ascii "heartbeat.seq")) 1 = .ok lines ∧
    let entries := topkEntries f ((delivered (fun _ => ⟨true, 0⟩) twoSections).map (·.record))
    let shown := if 1 = 0 then entries.length else min 1 entries.length
    ∃ ranked, TopkRanking entries ranked ∧
      lines = topkHeader f shown entries.length :: (ranked.take shown).mapIdx topkLine := by
  have hf : (⟨"heartbeat.seq", REC_HEARTBEAT, topkHbSeq⟩ : TopkField) ∈ topkFields :=
    List.mem_cons_of_mem _ List.mem_cons_self
  obtain ⟨lines, hok⟩ := Except.exists_ok (show (topkFile (fun _ => ⟨true, 0⟩) (fun _ _ => ⟨0, 0⟩)
    ⟨fun _ => false, 0⟩ 4096 twoSections (cstr (ascii "heartbeat.seq")) 1).toOption.isSome = true by
      decide +kernel)
  exact ⟨_, hf, lines, hok, topkFile_ranks hf (by decide +kernel) hok⟩

end Dtl
