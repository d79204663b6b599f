import TelemetryForge.Lib.Chain
import TelemetryForge.Lib.Slots
import TelemetryForge.Report.Walk

/-!
# The tag index

Model of `report/index.c`.  The arena memory of an index is the list of the chunks it allocated, and a
pointer to a chunk is its place there; a new chunk has whatever entries the memory held before.
`total` and the counts of `per_tag` are natural numbers: what they count lies in memory, so a `size_t`
does not wrap on it.  A `NULL` or dangling pointer and a store outside an array are faults.

Principal result: `index_run` — over every sequence of appended events, allocation failures included,
the list from `head` to `tail` holds the entries in build order in full chunks and a last one that is
not empty, the counters agree with it, and `dtl_index_foreach_tag` visits the entries of a tag in order.
-/

set_option autoImplicit false

namespace Dtl

open Checked Slots NodeChain

/-- The length of `entries` in a chunk. -/
def INDEX_CHUNK : Nat := 256

/-- `dtl_index_entry`. -/
structure IndexEntry where
  tag : UInt8
  sectionIndex : UInt16
  recordInSec : UInt32
  recordIndex : UInt32
  deriving DecidableEq, Repr

/-- `dtl_index_chunk`. -/
structure IndexChunk where
  entries : List IndexEntry
  count : Nat
  next : Option Nat

/-- `dtl_index`, with the arena's chunks. -/
structure Index where
  chunks : List IndexChunk
  head : Option Nat
  tail : Option Nat
  total : Nat
  perTag : List Nat

/-- The index after its `memset`. -/
def Index.empty : Index := ⟨[], none, none, 0, List.replicate 256 0⟩

/-- The memory that `dtl_arena_alloc` hands out for a chunk, by what its entries held before. -/
abbrev ChunkMemory := Fin INDEX_CHUNK → IndexEntry

/-- The assignments to the fields of an entry. -/
def indexEntry (ev : WalkEvent) : IndexEntry where
  tag := ev.record.tag
  sectionIndex := UInt16.ofNat ev.sectionIndex
  recordInSec := UInt32.ofNat ev.recordInSec
  recordIndex := UInt32.ofNat ev.recordIndex

/-- `ch == NULL || ch->count == 256`. -/
def indexNeedsChunk (idx : Index) : Run Err Bool :=
  match idx.tail with
  | none => return true
  | some ch => do
    let c ← load idx.chunks ch
    return decide (c.count = INDEX_CHUNK)

/-- The new chunk after the assignments to its `count` and `next`. -/
def newChunk (old : ChunkMemory) : IndexChunk := ⟨List.ofFn old, 0, none⟩

/-- Allocate a chunk and link it behind the tail. -/
def indexNewChunk (memory : Option ChunkMemory) (idx : Index) : Run Err Index :=
  match memory with
  | none => .error (.err .oom)
  | some old =>
    let ch := idx.chunks.length
    let chunks := idx.chunks ++ [newChunk old]
    match idx.tail with
    | some tail => do
      let c ← load chunks tail
      let chunks ← store chunks tail { c with next := some ch }
      return { idx with chunks := chunks, tail := some ch }
    | none => return { idx with chunks := chunks, head := some ch, tail := some ch }

/-- The chunk the next entry goes into is allocated. -/
def indexRoom (memory : Option ChunkMemory) (idx : Index) : Run Err Index := do
  let needed ← indexNeedsChunk idx
  if needed then indexNewChunk memory idx else return idx

/-- Store an entry behind the others of the tail chunk and count it. -/
def indexStore (e : IndexEntry) (idx : Index) : Run Err Index :=
  match idx.tail with
  | none => .error .outside
  | some ch => do
    let c ← load idx.chunks ch
    let entries ← store c.entries c.count e
    let chunks ← store idx.chunks ch { c with entries := entries, count := c.count + 1 }
    let n ← load idx.perTag e.tag.toNat
    let perTag ← store idx.perTag e.tag.toNat (n + 1)
    return { idx with chunks := chunks, total := idx.total + 1, perTag := perTag }

/-- `dtl_index_append`; a failure leaves the index as it was. -/
def indexAppend (ev : WalkEvent) (memory : Option ChunkMemory) (idx : Index) : Run Err Index := do
  let idx ← indexRoom memory idx
  indexStore (indexEntry ev) idx

/-- What `dtl_index_foreach_tag` has done: its count, and the calls of the callback. -/
structure Visited where
  matched : Nat
  calls : List IndexEntry

/-- The loop of `dtl_index_foreach_tag` over `n` entries of a chunk, from the `i`-th on. -/
def foreachEntries (tag : UInt8) (c : IndexChunk) : Nat → Nat → Visited → Run Err Visited
  | 0, _, v => .ok v
  | n + 1, i, v => do
    let e ← load c.entries i
    foreachEntries tag c n (i + 1) (if e.tag = tag then ⟨v.matched + 1, v.calls ++ [e]⟩ else v)

/-- The body of its loop over the chunks. -/
def foreachChunk (tag : UInt8) (v : Visited) (c : IndexChunk) : Run Err Visited :=
  foreachEntries tag c c.count 0 v

/-- The chunk a pointer points to. -/
def Index.chunkAt (idx : Index) (ch : Nat) : Option IndexChunk := idx.chunks[ch]?

/-- `dtl_index_foreach_tag`; the fuel is the number of chunks, and `none` means that it is spent. -/
def indexForeachTag (idx : Index) (tag : UInt8) : Option (Run Err Visited) :=
  walk IndexChunk.next idx.chunkAt .outside (foreachChunk tag) idx.chunks.length idx.head ⟨0, []⟩

/-- A run: the index, and the events appended to it. -/
structure IndexHistory where
  idx : Index
  built : List WalkEvent

/-- One event of a run; an event that is refused is not indexed. -/
def indexStep (h : IndexHistory) (call : WalkEvent × Option ChunkMemory) : Run Empty IndexHistory :=
  match indexAppend call.1 call.2 h.idx with
  | .ok idx => .ok ⟨idx, h.built ++ [call.1]⟩
  | .error (.err _) => .ok h
  | .error .wrap => .error .wrap
  | .error .outside => .error .outside

/-- A sequence of events, each with the answer of its allocation, from the empty index. -/
def indexRun (calls : List (WalkEvent × Option ChunkMemory)) : Run Empty IndexHistory :=
  calls.foldlM indexStep ⟨.empty, []⟩

/-! ## The invariant -/

/-- The entries in use. -/
def IndexChunk.used (c : IndexChunk) : List IndexEntry := c.entries.take c.count

/-- The array has its length, and the fill count lies within it. -/
structure IndexChunk.Ok (c : IndexChunk) : Prop where
  cells : c.entries.length = INDEX_CHUNK
  count_le : c.count ≤ INDEX_CHUNK

/-- The two redundant counters. -/
structure Index.Tallies (idx : Index) (built : List IndexEntry) : Prop where
  total : idx.total = built.length
  tags : idx.perTag.length = 256
  perTag : ∀ t : UInt8, idx.perTag[t.toNat]? = some (built.countP fun e => e.tag = t)
  sum : idx.perTag.sum = built.length

/-- The chunks from `head` on are these; all but the last are full. -/
structure Index.Linked (idx : Index) (nodes : List (Nat × IndexChunk)) (i : Nat) (c : IndexChunk) :
    Prop where
  list : Segment IndexChunk.next idx.chunkAt idx.head (nodes ++ [(i, c)]) none
  tail : idx.tail = some i
  distinct : ∀ e ∈ nodes, e.1 ≠ i
  all : nodes.length + 1 = idx.chunks.length
  ok : ∀ e ∈ nodes, e.2.Ok
  full : ∀ e ∈ nodes, e.2.count = INDEX_CHUNK
  last : c.Ok

/-- The index holds these entries: it has no chunk, or its last chunk is not empty. -/
inductive Index.Holds (idx : Index) (built : List IndexEntry) : Prop where
  | empty (head : idx.head = none) (tail : idx.tail = none) (chunks : idx.chunks = [])
      (entries : built = []) (tallies : idx.Tallies built)
  | chunked (nodes : List (Nat × IndexChunk)) (i : Nat) (c : IndexChunk)
      (linked : idx.Linked nodes i c) (used : 0 < c.count)
      (entries : built = nodes.flatMap (fun e => e.2.used) ++ c.used) (tallies : idx.Tallies built)

theorem IndexChunk.Ok.filled {c : IndexChunk} (h : c.Ok) :
    Filled INDEX_CHUNK c.entries c.used ∧ c.used.length = c.count := by
  have hlen : c.used.length = c.count := by
    rw [IndexChunk.used, List.length_take, h.cells]
    exact Nat.min_eq_left h.count_le
  exact ⟨⟨h.cells, hlen ▸ h.count_le, by rw [hlen]; rfl⟩, hlen⟩

theorem newChunk_ok (old : ChunkMemory) : (newChunk old).Ok where
  cells := by simp [newChunk]
  count_le := by simp [newChunk]

theorem Index.Tallies.of_eq {idx idx' : Index} {built : List IndexEntry} (h : idx.Tallies built)
    (htotal : idx'.total = idx.total) (htags : idx'.perTag = idx.perTag) : idx'.Tallies built := by
  obtain ⟨h1, h2, h3, h4⟩ := h
  refine ⟨?_, ?_, ?_, ?_⟩
  · rw [htotal, h1]
  · rw [htags, h2]
  · rw [htags]
    exact h3
  · rw [htags, h4]

@[simp] theorem newChunk_used (old : ChunkMemory) : (newChunk old).used = [] := rfl

/-- One counter of an array goes up. -/
theorem sum_set_succ : ∀ {l : List Nat} {i n : Nat}, l[i]? = some n →
    (l.set i (n + 1)).sum = l.sum + 1
  | x :: l, 0, n, h => by
    simp only [List.getElem?_cons_zero, Option.some.injEq] at h
    subst h
    simp only [List.set_cons_zero, List.sum_cons]
    omega
  | x :: l, i + 1, n, h => by
    rw [List.getElem?_cons_succ] at h
    simp only [List.set_cons_succ, List.sum_cons, sum_set_succ h]
    omega

/-- The counters after one more entry. -/
theorem Index.Tallies.push {idx idx' : Index} {built : List IndexEntry} (h : idx.Tallies built)
    (e : IndexEntry) (htotal : idx'.total = idx.total + 1)
    (htags : idx'.perTag =
      idx.perTag.set e.tag.toNat ((built.countP fun e' => e'.tag = e.tag) + 1)) :
    idx'.Tallies (built ++ [e]) := by
  have hat := h.perTag e.tag
  refine ⟨?_, ?_, ?_, ?_⟩
  · simp [htotal, h.total]
  · rw [htags, List.length_set, h.tags]
  · intro t
    rw [htags]
    by_cases ht : e.tag = t
    · subst ht
      rw [List.getElem?_set_self (List.getElem?_eq_some_iff.mp hat).1]
      simp
    · have hne : e.tag.toNat ≠ t.toNat := fun heq => ht (UInt8.toNat_inj.mp heq)
      rw [List.getElem?_set_ne hne, h.perTag t]
      simp [ht]
  · rw [htags, sum_set_succ hat, h.sum]
    simp

section Link

variable {idx : Index} {nodes : List (Nat × IndexChunk)} {i : Nat} {c : IndexChunk}

theorem Index.Linked.at_last (h : idx.Linked nodes i c) : idx.chunks[i]? = some c :=
  h.list.mem (i, c) (by simp)

theorem Index.Linked.at_nodes (h : idx.Linked nodes i c) : ∀ e ∈ nodes, idx.chunks[e.1]? = some e.2 :=
  fun e he => h.list.mem e (by simp [he])

/-- A store to the last chunk leaves the others where they are. -/
theorem Index.Linked.at_set (h : idx.Linked nodes i c) (c' : IndexChunk) :
    ∀ e ∈ nodes, (idx.chunks.set i c')[e.1]? = some e.2 := by
  intro e he
  rw [List.getElem?_set_ne (h.distinct e he).symm]
  exact h.at_nodes e he

theorem Index.Linked.self_set (h : idx.Linked nodes i c) (c' : IndexChunk) :
    (idx.chunks.set i c')[i]? = some c' :=
  List.getElem?_set_self (List.getElem?_eq_some_iff.mp h.at_last).1

theorem getElem?_concat_of_some {α : Type} {l : List α} {j : Nat} {a b : α} (h : l[j]? = some a) :
    (l ++ [b])[j]? = some a := by
  rw [List.getElem?_append_left (List.getElem?_eq_some_iff.mp h).1, h]

/-- **A new chunk is linked behind a full one.** -/
theorem indexNewChunk_linked (h : idx.Linked nodes i c) (hfull : c.count = INDEX_CHUNK)
    (old : ChunkMemory) :
    ∃ idx' c', indexNewChunk (some old) idx = .ok idx' ∧ c'.used = c.used ∧
      idx'.Linked (nodes ++ [(i, c')]) idx.chunks.length (newChunk old) ∧
      idx'.total = idx.total ∧ idx'.perTag = idx.perTag := by
  have hlast := getElem?_concat_of_some (b := newChunk old) h.at_last
  have hi := (List.getElem?_eq_some_iff.mp h.at_last).1
  have hnodes : ∀ e ∈ nodes, e.1 < idx.chunks.length :=
    fun e he => (List.getElem?_eq_some_iff.mp (h.at_nodes e he)).1
  refine ⟨{ idx with
      chunks := (idx.chunks ++ [newChunk old]).set i { c with next := some idx.chunks.length }
      tail := some idx.chunks.length }, { c with next := some idx.chunks.length },
    ?_, rfl, ?_, rfl, rfl⟩
  · simp only [indexNewChunk, h.tail, load_some hlast, store_some hlast, Except.bind_ok_eq,
      Except.pure_eq_ok]
  · refine ⟨?_, rfl, ?_, ?_, ?_, ?_, newChunk_ok old⟩
    · refine (h.list.relink ?_ ?_ rfl).append (.cons ?_ (.nil none))
      · intro e he
        rw [Index.chunkAt, List.getElem?_set_ne (h.distinct e he).symm]
        exact getElem?_concat_of_some (h.at_nodes e he)
      · exact List.getElem?_set_self (List.getElem?_eq_some_iff.mp hlast).1
      · rw [Index.chunkAt, List.getElem?_set_ne (by omega)]
        simp
    · intro e he
      rcases List.mem_append.mp he with he | he
      · have := hnodes e he
        omega
      · rw [List.mem_singleton.mp he]
        exact Nat.ne_of_lt hi
    · simp [h.all]
    · intro e he
      rcases List.mem_append.mp he with he | he
      · exact h.ok e he
      · rw [List.mem_singleton.mp he]
        exact ⟨h.last.cells, h.last.count_le⟩
    · intro e he
      rcases List.mem_append.mp he with he | he
      · exact h.full e he
      · rw [List.mem_singleton.mp he]
        exact hfull

/-- The first chunk. -/
theorem indexNewChunk_first (htail : idx.tail = none) (hchunks : idx.chunks = [])
    (old : ChunkMemory) :
    ∃ idx', indexNewChunk (some old) idx = .ok idx' ∧ idx'.Linked [] 0 (newChunk old) ∧
      idx'.total = idx.total ∧ idx'.perTag = idx.perTag := by
  refine ⟨{ idx with chunks := [newChunk old], head := some 0, tail := some 0 }, ?_, ?_, rfl, rfl⟩
  · simp only [indexNewChunk, htail, hchunks]
    rfl
  · exact ⟨.cons rfl (.nil none), rfl, by simp, by simp, by simp, by simp, newChunk_ok old⟩

/-- **After the first part of an append the tail chunk has room**, unless memory ran out. -/
theorem indexRoom_spec {built : List IndexEntry} (h : idx.Holds built) (memory : Option ChunkMemory) :
    (memory = none ∧ indexRoom memory idx = .error (.err .oom)) ∨
      ∃ idx' nodes i c, indexRoom memory idx = .ok idx' ∧ idx'.Linked nodes i c ∧
        c.count < INDEX_CHUNK ∧ built = nodes.flatMap (fun e => e.2.used) ++ c.used ∧
        idx'.Tallies built := by
  rcases h with ⟨hhead, htail, hchunks, rfl, tallies⟩ | ⟨nodes, i, c, linked, hpos, rfl, tallies⟩
  · have hneeded : indexNeedsChunk idx = .ok true := by simp [indexNeedsChunk, htail]
    cases memory with
    | none =>
      left
      simp [indexRoom, hneeded, indexNewChunk]
    | some old =>
      obtain ⟨idx', hnew, hlinked, htotal, htags⟩ := indexNewChunk_first htail hchunks old
      refine .inr ⟨idx', [], 0, newChunk old, ?_, hlinked, by simp [newChunk, INDEX_CHUNK],
        by simp, tallies.of_eq htotal htags⟩
      simp [indexRoom, hneeded, hnew]
  · have hneeded : indexNeedsChunk idx = .ok (decide (c.count = INDEX_CHUNK)) := by
      simp only [indexNeedsChunk, linked.tail, load_some linked.at_last, Except.bind_ok_eq,
        Except.pure_eq_ok]
    by_cases hfull : c.count = INDEX_CHUNK
    · rw [hfull] at hneeded
      cases memory with
      | none =>
        left
        simp [indexRoom, hneeded, indexNewChunk]
      | some old =>
        obtain ⟨idx', c', hnew, hused, hlinked, htotal, htags⟩ :=
          indexNewChunk_linked linked hfull old
        refine .inr ⟨idx', _, _, _, ?_, hlinked, by simp [newChunk, INDEX_CHUNK], ?_,
          tallies.of_eq htotal htags⟩
        · simp [indexRoom, hneeded, hnew]
        · simp [List.flatMap_append, hused]
    · have hlt : c.count < INDEX_CHUNK := Nat.lt_of_le_of_ne linked.last.count_le hfull
      refine .inr ⟨idx, nodes, i, c, ?_, linked, hlt, rfl, tallies⟩
      simp [indexRoom, hneeded, hfull]

/-- **A store to a tail chunk with room appends the entry.** -/
theorem indexStore_holds (h : idx.Linked nodes i c) (hroom : c.count < INDEX_CHUNK)
    {built : List IndexEntry} (hbuilt : built = nodes.flatMap (fun e => e.2.used) ++ c.used)
    (tallies : idx.Tallies built) (e : IndexEntry) :
    ∃ idx', indexStore e idx = .ok idx' ∧ idx'.Holds (built ++ [e]) := by
  obtain ⟨hfilled, hused⟩ := h.last.filled
  obtain ⟨entries, hstore, hnew⟩ := hfilled.push (ε := Err) e (by omega)
  rw [hused] at hstore
  have hcount := tallies.perTag e.tag
  have hlen : (c.used ++ [e]).length = c.count + 1 := by simp [hused]
  have huse : IndexChunk.used ⟨entries, c.count + 1, c.next⟩ = c.used ++ [e] := by
    rw [← hnew.front, hlen]
    rfl
  refine ⟨{ idx with
      chunks := idx.chunks.set i ⟨entries, c.count + 1, c.next⟩
      total := idx.total + 1
      perTag := idx.perTag.set e.tag.toNat ((built.countP fun e' => e'.tag = e.tag) + 1) }, ?_,
    .chunked nodes i ⟨entries, c.count + 1, c.next⟩ ⟨?_, h.tail, h.distinct, ?_, h.ok, h.full, ?_⟩
      (Nat.succ_pos _) ?_ (tallies.push e rfl rfl)⟩
  · simp only [indexStore, h.tail, load_some h.at_last, hstore, store_some h.at_last,
      load_some hcount, store_some hcount, Except.bind_ok_eq, Except.pure_eq_ok]
  · exact h.list.relink (h.at_set _) (h.self_set _) h.list.last_next
  · simp [h.all]
  · exact ⟨hnew.length, hroom⟩
  · rw [huse, hbuilt, List.append_assoc]

end Link

theorem Index.Holds.tallies {idx : Index} {built : List IndexEntry} (h : idx.Holds built) :
    idx.Tallies built := by
  cases h with
  | empty _ _ _ _ tallies => exact tallies
  | chunked _ _ _ _ _ _ tallies => exact tallies

/-- The list of an index. -/
theorem Index.Holds.nodes {idx : Index} {built : List IndexEntry} (h : idx.Holds built) :
    ∃ nodes, Segment IndexChunk.next idx.chunkAt idx.head nodes none ∧
      idx.tail = nodes.getLast?.map Prod.fst ∧
      (∀ init last, nodes = init ++ [last] →
        (∀ e ∈ init, e.2.count = 256) ∧ 1 ≤ last.2.count ∧ last.2.count ≤ 256) ∧
      nodes.flatMap (fun e => e.2.used) = built := by
  rcases h with ⟨hhead, htail, -, rfl, -⟩ | ⟨nodes, i, c, linked, hpos, rfl, -⟩
  · rw [hhead]
    refine ⟨[], .nil none, htail, fun init last h => ?_, rfl⟩
    simp at h
  · refine ⟨nodes ++ [(i, c)], linked.list, ?_, fun init last h => ?_, ?_⟩
    · simp [linked.tail]
    · obtain ⟨rfl, hlast⟩ := List.append_inj' h rfl
      cases hlast
      exact ⟨linked.full, hpos, linked.last.count_le⟩
    · simp [List.flatMap_append]

/-! ## Appending -/

theorem indexAppend_spec {idx : Index} {built : List IndexEntry} (h : idx.Holds built)
    (ev : WalkEvent) (memory : Option ChunkMemory) :
    (memory = none ∧ indexAppend ev memory idx = .error (.err .oom)) ∨
      ∃ idx', indexAppend ev memory idx = .ok idx' ∧ idx'.Holds (built ++ [indexEntry ev]) := by
  rcases indexRoom_spec h memory with ⟨hnone, herr⟩ | ⟨idx₁, nodes, i, c, hok, hl, hlt, hb, ht⟩
  · refine .inl ⟨hnone, ?_⟩
    rw [indexAppend, herr]
    rfl
  · obtain ⟨idx', hstore, hholds⟩ := indexStore_holds hl hlt hb ht (indexEntry ev)
    refine .inr ⟨idx', ?_, hholds⟩
    rw [indexAppend, hok]
    exact hstore

theorem Index.empty_holds : Index.empty.Holds [] := by
  refine .empty rfl rfl rfl rfl ⟨rfl, List.length_replicate, fun t => ?_, ?_⟩
  · exact List.getElem?_replicate_of_lt t.toNat_lt
  · exact (List.sum_replicate_nat).trans (Nat.mul_zero _)

/-- **Every run keeps the invariant.** -/
theorem indexStep_holds : ∀ (calls : List (WalkEvent × Option ChunkMemory)) {h : IndexHistory},
    h.idx.Holds (h.built.map indexEntry) →
    ∃ h' evs, calls.foldlM indexStep h = .ok h' ∧ h'.built = h.built ++ evs ∧
      h'.idx.Holds (h'.built.map indexEntry) ∧ evs.Sublist (calls.map Prod.fst) ∧
      ((∀ call ∈ calls, call.2 ≠ none) → evs = calls.map Prod.fst)
  | [], h, hh => ⟨h, [], rfl, by simp, hh, by simp, fun _ => rfl⟩
  | (ev, memory) :: calls, h, hh => by
    rcases indexAppend_spec hh ev memory with ⟨hnone, herr⟩ | ⟨idx', hok, hholds⟩
    · have hstep : indexStep h (ev, memory) = .ok h := by simp only [indexStep, herr]
      obtain ⟨h', evs, hrun, hbuilt, hh', hsub, -⟩ := indexStep_holds calls hh
      refine ⟨h', evs, ?_, hbuilt, hh', hsub.cons _, fun hall => ?_⟩
      · rw [List.foldlM_cons, hstep]
        exact hrun
      · exact absurd hnone (hall (ev, memory) List.mem_cons_self)
    · have hstep : indexStep h (ev, memory) = .ok ⟨idx', h.built ++ [ev]⟩ := by
        simp only [indexStep, hok]
      have hnext : idx'.Holds ((h.built ++ [ev]).map indexEntry) := by
        rwa [List.map_append]
      obtain ⟨h', evs, hrun, hbuilt, hh', hsub, hall⟩ :=
        indexStep_holds calls (h := ⟨idx', h.built ++ [ev]⟩) hnext
      refine ⟨h', ev :: evs, ?_, ?_, hh', hsub.cons_cons ev, fun hsome => ?_⟩
      · rw [List.foldlM_cons, hstep]
        exact hrun
      · rw [hbuilt, List.append_assoc]
        rfl
      · rw [hall fun call hc => hsome call (List.mem_cons_of_mem _ hc)]
        rfl

/-! ## Looking up a tag -/

/-- What a loop has done after more entries. -/
def Visited.more (v : Visited) (tag : UInt8) (es : List IndexEntry) : Visited :=
  ⟨v.matched + es.countP (fun e => e.tag = tag), v.calls ++ es.filter fun e => e.tag = tag⟩

@[simp] theorem Visited.more_nil (v : Visited) (tag : UInt8) : v.more tag [] = v := by
  simp [Visited.more]

theorem Visited.more_append (v : Visited) (tag : UInt8) (es es' : List IndexEntry) :
    v.more tag (es ++ es') = (v.more tag es).more tag es' := by
  simp [Visited.more, Nat.add_assoc]

theorem Visited.more_one (v : Visited) (tag : UInt8) (e : IndexEntry) :
    v.more tag [e] = if e.tag = tag then ⟨v.matched + 1, v.calls ++ [e]⟩ else v := by
  by_cases ht : e.tag = tag
  · simp [Visited.more, ht]
  · simp [Visited.more, ht]

theorem foreachEntries_eq (tag : UInt8) (c : IndexChunk) : ∀ (n i : Nat) (v : Visited),
    i + n ≤ c.entries.length →
    foreachEntries tag c n i v = .ok (v.more tag ((c.entries.drop i).take n))
  | 0, i, v, _ => by simp [foreachEntries]
  | n + 1, i, v, h => by
    have hi : i < c.entries.length := by omega
    have hat : c.entries[i]? = some (c.entries.get ⟨i, hi⟩) := List.getElem?_eq_getElem hi
    have hdrop : (c.entries.drop i).take (n + 1) =
        [c.entries.get ⟨i, hi⟩] ++ (c.entries.drop (i + 1)).take n := by
      rw [List.drop_eq_getElem_cons hi]
      rfl
    rw [foreachEntries, load_some hat, Except.bind_ok_eq, ← Visited.more_one,
      foreachEntries_eq tag c n (i + 1) _ (by omega), hdrop, Visited.more_append]

theorem foreachChunk_eq (tag : UInt8) {c : IndexChunk} (h : c.Ok) (v : Visited) :
    foreachChunk tag v c = .ok (v.more tag c.used) := by
  rw [foreachChunk, foreachEntries_eq tag c c.count 0 v (by rw [h.cells]; have := h.count_le; omega)]
  rfl

theorem foreachChunks_eq (tag : UInt8) : ∀ (cs : List IndexChunk) (v : Visited), (∀ c ∈ cs, c.Ok) →
    cs.foldlM (foreachChunk tag) v = .ok (v.more tag (cs.flatMap IndexChunk.used))
  | [], v, _ => by simp
  | c :: cs, v, h => by
    rw [List.foldlM_cons, foreachChunk_eq tag (h c (by simp)), Except.bind_ok_eq,
      foreachChunks_eq tag cs _ fun c' hc => h c' (by simp [hc]), List.flatMap_cons,
      Visited.more_append]

/-- **A lookup visits the entries of its tag in build order.** -/
theorem indexForeachTag_eq {idx : Index} {built : List IndexEntry} (h : idx.Holds built)
    (tag : UInt8) :
    indexForeachTag idx tag =
      some (.ok ⟨built.countP fun e => e.tag = tag, built.filter fun e => e.tag = tag⟩) := by
  rcases h with ⟨hhead, -, -, rfl, -⟩ | ⟨nodes, i, c, linked, -, rfl, -⟩
  · rw [indexForeachTag, hhead]
    cases idx.chunks.length <;> rfl
  · have hall : (nodes ++ [(i, c)]).length ≤ idx.chunks.length := by simp [linked.all]
    have hok : ∀ c' ∈ (nodes ++ [(i, c)]).map Prod.snd, c'.Ok := by
      intro c' hc'
      obtain ⟨e, he, rfl⟩ := List.mem_map.mp hc'
      rcases List.mem_append.mp he with he | he
      · exact linked.ok e he
      · rw [List.mem_singleton.mp he]
        exact linked.last
    rw [indexForeachTag, linked.list.walk _ _ hall, foreachChunks_eq tag _ _ hok]
    simp [Visited.more, List.flatMap_append, List.flatMap_map]

/-- **The index is consistent after every sequence of events.**  The list from `head` ends at `tail`;
all its chunks but the last are full and the last is not empty; the chunks hold the entries of the
events in build order; and the counters and the lookups agree with them. -/
theorem index_run (calls : List (WalkEvent × Option ChunkMemory)) :
    ∃ h, indexRun calls = .ok h ∧
      (h.built.Sublist (calls.map Prod.fst) ∧
        ((∀ call ∈ calls, call.2 ≠ none) → h.built = calls.map Prod.fst)) ∧
      (∃ nodes, Segment IndexChunk.next h.idx.chunkAt h.idx.head nodes none ∧
        h.idx.tail = nodes.getLast?.map Prod.fst ∧
        (∀ init last, nodes = init ++ [last] →
          (∀ e ∈ init, e.2.count = 256) ∧ 1 ≤ last.2.count ∧ last.2.count ≤ 256) ∧
        nodes.flatMap (fun e => e.2.used) = h.built.map indexEntry) ∧
      h.idx.total = h.built.length ∧
      (∀ tag : UInt8, ∃ n, h.idx.perTag[tag.toNat]? = some n ∧
        indexForeachTag h.idx tag =
          some (.ok ⟨n, (h.built.map indexEntry).filter fun e => e.tag = tag⟩)) ∧
      h.idx.perTag.sum = h.idx.total := by
  obtain ⟨h, evs, hrun, hbuilt, hh, hsub, hall⟩ :=
    indexStep_holds calls (h := ⟨.empty, []⟩) Index.empty_holds
  rw [List.nil_append] at hbuilt
  subst hbuilt
  have htallies := hh.tallies
  refine ⟨h, hrun, ⟨hsub, hall⟩, hh.nodes, ?_, fun tag => ⟨_, htallies.perTag tag, ?_⟩, ?_⟩
  · rw [htallies.total, List.length_map]
  · exact indexForeachTag_eq hh tag
  · rw [htallies.sum, htallies.total]

end Dtl
