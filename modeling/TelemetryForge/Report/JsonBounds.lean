import TelemetryForge.Report.JsonSteps

/-!
# The JSON parser stays within its input

`jsonParseValue_parses` is the run of the four functions that call each other: the depth is the measure
of the recursion, what is left of the text that of the item loops.

Principal results: `importJsonMemory_refines` — the import is the one on lists unless a request is
refused; `importJsonMemory_run` — its calls are within bounds, and a call that fails ends the import.
-/

set_option autoImplicit false

namespace Dtl

open CText Nullable

/-- A value that nests at most `n` levels deep, itself included. -/
inductive Json.Within : Nat → Json → Prop where
  | null {n : Nat} : Within (n + 1) .null
  | bool {n : Nat} {b : Bool} : Within (n + 1) (.bool b)
  | num {n : Nat} {text : Bytes} : Within (n + 1) (.num text)
  | str {n : Nat} {s : CStr} : Within (n + 1) (.str s)
  | arr {n : Nat} {items : List Json} (h : ∀ v ∈ items, Within n v) : Within (n + 1) (.arr items)
  | obj {n : Nat} {pairs : List (CStr × Json)} (h : ∀ m ∈ pairs, Within n m.2) :
    Within (n + 1) (.obj pairs)

section Items

variable {α : Type} {item : Bytes → Option (α × Bytes)} {close : UInt8}

theorem jsonItems_mem : ∀ {fuel : Nat} {p rest : Bytes} {xs : List α},
    jsonItems item close fuel p = some (xs, rest) → ∀ x ∈ xs, ∃ q r, item q = some (x, r)
  | fuel + 1, p, rest, xs, h => by
    rw [jsonItems] at h
    rcases hitem : item p with _ | ⟨y, q⟩
    · simp [hitem] at h
    simp only [hitem, Option.bind_eq_bind, Option.bind_some] at h
    rcases htext : jsonSkipWs q with _ | ⟨c, q'⟩
    · simp [htext] at h
    simp only [htext] at h
    have hy : ∃ q r, item q = some (y, r) := ⟨p, q, hitem⟩
    by_cases hc : c = 44
    · rw [if_pos hc] at h
      rcases hrest : jsonItems item close fuel q' with _ | ⟨ys, r⟩
      · simp [hrest] at h
      · simp only [hrest, Option.map_eq_map, Option.map_some, Option.some.injEq, Prod.mk.injEq] at h
        rcases h with ⟨rfl, rfl⟩
        simpa [hy] using jsonItems_mem hrest
    · rw [if_neg hc] at h
      by_cases hclose : c = close
      · simp only [hclose, if_true, Option.some.injEq, Prod.mk.injEq] at h
        simpa [← h.1] using hy
      · simp [hclose] at h

/-- What an array or an object holds was read as its items are. -/
theorem jsonList_mem {p rest : Bytes} {xs : List α} (h : jsonList item close p = some (xs, rest)) :
    ∀ x ∈ xs, ∃ q r, item q = some (x, r) := by
  rw [jsonList] at h
  rcases htext : jsonSkipWs p with _ | ⟨c, q⟩
  · simp [htext] at h
  simp only [htext] at h
  by_cases hclose : c = close
  · simp only [hclose, if_true, Option.some.injEq, Prod.mk.injEq] at h
    simp [← h.1]
  · rw [if_neg hclose] at h
    exact jsonItems_mem h

end Items

theorem jsonMember_value {value : Bytes → Option (Json × Bytes)} {p rest : Bytes} {m : CStr × Json}
    (h : jsonMember value p = some (m, rest)) : ∃ q, value q = some (m.2, rest) := by
  rw [jsonMember] at h
  rcases htext : jsonSkipWs p with _ | ⟨c, p⟩
  · simp [htext] at h
  simp only [htext] at h
  by_cases hc : c = 34
  · rw [if_pos hc] at h
    rcases hkey : jsonString p with _ | ⟨key, p⟩
    · simp [hkey] at h
    simp only [hkey, Option.bind_eq_bind, Option.bind_some] at h
    rcases hcolon : jsonSkipWs p with _ | ⟨c, p⟩
    · simp [hcolon] at h
    simp only [hcolon] at h
    by_cases hc : c = 58
    · rw [if_pos hc] at h
      rcases hval : value p with _ | ⟨v, r⟩
      · simp [hval] at h
      · simp only [hval, Option.map_eq_map, Option.map_some, Option.some.injEq, Prod.mk.injEq] at h
        rcases h with ⟨rfl, rfl⟩
        exact ⟨p, hval⟩
    · simp [hc] at h
  · simp [hc] at h

theorem jsonWord_some {word : String} {value v : Json} {p rest : Bytes}
    (h : jsonWord word value p = some (v, rest)) : v = value := by
  unfold jsonWord at h
  split at h
  · simp only [Option.some.injEq, Prod.mk.injEq] at h
    exact h.1.symm
  · cases h

/-- **Nesting**: a value that may nest `d` levels deep does not nest any deeper. -/
theorem jsonValue_within : ∀ {d : Nat} {p rest : Bytes} {v : Json},
    jsonValue d p = some (v, rest) → v.Within d
  | d + 1, p, rest, v, h => by
    rw [jsonValue] at h
    rcases htext : jsonSkipWs p with _ | ⟨c, p⟩
    · simp [htext] at h
    simp only [htext] at h
    by_cases hobject : c = 123
    · simp only [if_pos hobject, Option.map_eq_map, Option.map_eq_some_iff, Prod.mk.injEq] at h
      rcases h with ⟨⟨pairs, r⟩, hlist, rfl, rfl⟩
      refine .obj fun m hm => ?_
      rcases jsonList_mem hlist m hm with ⟨q, r, hmember⟩
      rcases jsonMember_value hmember with ⟨q, hval⟩
      exact jsonValue_within hval
    by_cases harray : c = 91
    · simp only [if_neg hobject, if_pos harray, Option.map_eq_map, Option.map_eq_some_iff,
        Prod.mk.injEq] at h
      rcases h with ⟨⟨items, r⟩, hlist, rfl, rfl⟩
      refine .arr fun v hv => ?_
      rcases jsonList_mem hlist v hv with ⟨q, r, hval⟩
      exact jsonValue_within hval
    rw [if_neg hobject, if_neg harray] at h
    by_cases hstring : c = 34
    · simp only [if_pos hstring, Option.map_eq_map, Option.map_eq_some_iff, Prod.mk.injEq] at h
      rcases h with ⟨⟨str, r⟩, -, rfl, rfl⟩
      exact .str
    rw [if_neg hstring] at h
    by_cases htrue : c = 116
    · rw [if_pos htrue] at h
      rw [jsonWord_some h]
      exact .bool
    rw [if_neg htrue] at h
    by_cases hfalse : c = 102
    · rw [if_pos hfalse] at h
      rw [jsonWord_some h]
      exact .bool
    rw [if_neg hfalse] at h
    by_cases hnull : c = 110
    · rw [if_pos hnull] at h
      rw [jsonWord_some h]
      exact .null
    · simp only [if_neg hnull, Option.map_eq_map, Option.map_eq_some_iff, Prod.mk.injEq] at h
      rcases h with ⟨⟨txt, r⟩, -, rfl, rfl⟩
      exact .num

theorem jsonRoot_within {data : Bytes} {items : List Json} (h : jsonRoot data = some items) :
    ∀ v ∈ items, v.Within JSON_MAX_DEPTH := by
  rw [jsonRoot] at h
  rcases htext : jsonSkipWs data with _ | ⟨c, p⟩
  · simp [htext] at h
  simp only [htext] at h
  by_cases hc : c = 91
  · rw [if_pos hc] at h
    rcases hlist : jsonList (jsonValue JSON_MAX_DEPTH) 93 p with _ | ⟨xs, q⟩
    · simp [hlist] at h
    simp only [hlist, Option.bind_eq_bind, Option.bind_some, Option.ite_none_right_eq_some,
      Option.some.injEq] at h
    intro v hv
    rw [← h.2] at hv
    rcases jsonList_mem hlist v hv with ⟨q, r, hval⟩
    exact jsonValue_within hval
  · simp [hc] at h

namespace Machine

section Parser

variable {α β : Type} {data : Bytes} {alloc : Nat → Bool} {x : JsonParse α}
  {spec : Option (α × Bytes)} {k : Nat} {s : JsonParser}

/-! ## Arrays, objects and values -/

section Items

variable {item : JsonParse α} {text : Bytes → Option (α × Bytes)} {close : UInt8} {depth : Nat}

theorem jsonItemLoop_parses (hitem : ∀ s : JsonParser, s.p ≤ data.length → s.depth = depth →
      Parses data alloc item s 1 (text (data.drop s.p))) :
    ∀ {fuel : Nat} {items : List α} {cap : Nat} {s : JsonParser}, s.p ≤ data.length → s.depth = depth →
      data.length - s.p ≤ fuel → 0 < cap → items.length ≤ cap →
      Parses data alloc (jsonItemLoop data alloc item close (fuel + 1) items cap) s 1
        ((jsonItems text close fuel (data.drop s.p)).map fun q => (items ++ q.1, q.2))
  | 0, items, cap, s, hp, hdepth, hfuel, _, _ => by
    -- the text is at its end, where no item starts
    refine Parses.bind (hitem s hp hdepth) (fun _ => rfl) fun x s' hm _ => ?_
    have := hm.ahead
    have := hm.within
    omega
  | fuel + 1, items, cap, s, hp, hdepth, hfuel, hpos, hcap => by
    refine Parses.bind (hitem s hp hdepth) (fun h => by rw [jsonItems, h]; rfl) fun x s₁ hm₁ hx => ?_
    refine Parses.grow hm₁.within hpos hcap (by simp) fun cap' s₂ hm₂ hs₂ hroom => ?_
    refine Parses.step (jsonStore_parses hm₂.within hroom) fun s₃ hm₃ hs₃ => ?_
    refine Parses.step (jsonSkipWs_parses hm₃.within) fun s₄ hm₄ hs₄ => ?_
    rw [hs₃, hs₂] at hs₄
    rw [jsonItems, hx]
    dsimp only [Option.bind_eq_bind, Option.bind_some]
    rw [← hs₄]
    refine Parses.peek hm₄.within (fun htext => by rw [htext]; rfl) fun c p s₅ htext hm₅ hs₅ => ?_
    rw [htext]
    dsimp only
    refine Parses.ite (fun hc => ?_) fun hc => ?_
    · rw [if_pos hc]
      refine Parses.step (jsonStep_parses hm₅.within hs₅) fun s₆ hm₆ hs₆ => ?_
      have hmoved := ((((hm₁.trans hm₂).trans hm₃).trans hm₄).trans hm₅).trans hm₆
      have hloop : Parses data alloc
          (jsonItemLoop data alloc item close (fuel + 1) (items ++ [x]) cap') s₆ 1 _ :=
        jsonItemLoop_parses hitem hm₆.within (hmoved.depth.trans hdepth)
          (by have := hmoved.ahead; omega) (by omega) (by rw [List.length_append]; exact hroom)
      rw [hs₆] at hloop
      refine Parses.mono ?_ (Nat.zero_le 1)
      simpa [Function.comp_def] using hloop
    · rw [if_neg hc]
      refine Parses.ite (fun hclose => ?_) fun hclose => ?_
      · rw [if_pos hclose]
        refine Parses.step (jsonStep_parses hm₅.within hs₅) fun s₆ hm₆ hs₆ => ?_
        exact .ret hm₆.within hs₆
      · rw [if_neg hclose]
        exact .null hm₅.within

theorem jsonParseList_parses {c : UInt8} {p : Bytes} (hitem : ∀ s : JsonParser, s.p ≤ data.length →
      s.depth = depth → Parses data alloc item s 1 (text (data.drop s.p)))
    (hp : s.p ≤ data.length) (hdepth : s.depth = depth) (htext : data.drop s.p = c :: p) :
    Parses data alloc (jsonParseList data alloc item close) s 1 (jsonList text close p) := by
  refine Parses.step (jsonRequests_parses hp) fun s₁ hm₁ hs₁ => ?_
  refine Parses.step (jsonStep_parses hm₁.within (hs₁.trans htext)) fun s₂ hm₂ hs₂ => ?_
  refine Parses.step (jsonSkipWs_parses hm₂.within) fun s₃ hm₃ hs₃ => ?_
  refine Parses.step (jsonLook_parses hm₃.within) fun s₄ hm₄ hs₄ => ?_
  have hmoved := ((hm₁.trans hm₂).trans hm₃).trans hm₄
  have hloop : Parses data alloc
      (jsonItemLoop data alloc item close (data.length - s₄.p + 1) [] 8) s₄ 1
      (jsonItems text close (data.drop s₄.p).length (data.drop s₄.p)) := by
    have hitems : Parses data alloc
        (jsonItemLoop data alloc item close (data.length - s₄.p + 1) [] 8) s₄ 1 _ :=
      jsonItemLoop_parses hitem hm₄.within (hmoved.depth.trans hdepth) le_rfl (by simp) (by simp)
    simpa using hitems
  rw [jsonList, ← hs₂, ← hs₃, ← hs₄]
  rcases htext : data.drop s₄.p with _ | ⟨d, q⟩
  · rw [htext] at hloop
    exact Parses.ask (hloop.mono (Nat.zero_le 1))
  · rw [htext] at hloop
    dsimp only
    simp only [List.head?_cons, Option.some.injEq]
    refine Parses.branch (fun _ => ?_) fun _ => Parses.ask (hloop.mono (Nat.zero_le 1))
    refine Parses.step (jsonStep_parses hm₄.within htext) fun s₅ hm₅ hs₅ => ?_
    exact .ret hm₅.within hs₅

end Items

theorem jsonMember_parses {value : JsonParse Json} {text : Bytes → Option (Json × Bytes)} {depth : Nat}
    (hdeep : depth ≤ JSON_MAX_DEPTH) (hvalue : ∀ s : JsonParser, s.p ≤ data.length → s.depth = depth →
      Parses data alloc value s 1 (text (data.drop s.p)))
    (hp : s.p ≤ data.length) (hdepth : s.depth = depth) :
    Parses data alloc (jsonMember data alloc value) s 1 (Dtl.jsonMember text (data.drop s.p)) := by
  refine Parses.step (jsonSkipWs_parses hp) fun s₁ hm₁ hs₁ => ?_
  refine Parses.step (jsonLook_parses hm₁.within) fun s₂ hm₂ hs₂ => ?_
  have hdepth₂ : s₂.depth = depth := ((hm₁.trans hm₂).depth).trans hdepth
  rw [Dtl.jsonMember, ← hs₁, ← hs₂]
  rcases htext : data.drop s₂.p with _ | ⟨c, p⟩
  · exact .null hm₂.within
  dsimp only
  simp only [List.head?_cons, Option.some.injEq]
  refine Parses.branch (fun hc => ?_) fun _ => .null hm₂.within
  rw [hc] at htext
  refine Parses.bind (jsonParseString_parses hm₂.within (hdepth₂ ▸ hdeep) htext) (fun h => by rw [h]; rfl) fun key s₃ hm₃ hkey => ?_
  dsimp only [Option.bind_eq_bind]
  rw [hkey, Option.bind_some]
  have hexpect : Parses data alloc (jsonExpect data 58) s₃ 0 _ := jsonExpect_parses hm₃.within
  dsimp only
  rcases hcolon : Dtl.jsonSkipWs (data.drop s₃.p) with _ | ⟨d, q⟩
  · rw [hcolon] at hexpect
    exact hexpect.stop
  rw [hcolon] at hexpect
  dsimp only at hexpect ⊢
  by_cases hd : d = 58
  · rw [if_pos hd] at hexpect ⊢
    refine Parses.step hexpect fun s₄ hm₄ hs₄ => ?_
    have hdepth₄ : s₄.depth = depth := ((hm₃.trans hm₄).depth).trans hdepth₂
    rw [← hs₄]
    exact Parses.map ((hvalue s₄ hm₄.within hdepth₄).mono (Nat.zero_le 1))
  · rw [if_neg hd] at hexpect ⊢
    exact hexpect.stop

theorem jsonParseArray_parses {value : JsonParse Json} {text : Bytes → Option (Json × Bytes)}
    {depth : Nat} {p : Bytes} (hdeep : depth ≤ JSON_MAX_DEPTH) (hvalue : ∀ s : JsonParser,
      s.p ≤ data.length → s.depth = depth → Parses data alloc value s 1 (text (data.drop s.p)))
    (hp : s.p ≤ data.length) (hdepth : s.depth = depth) (htext : data.drop s.p = 91 :: p) :
    Parses data alloc (jsonParseArray data alloc value) s 1 (jsonList text 93 p) :=
  .call (hdepth ▸ hdeep) nofun (jsonParseList_parses hvalue hp hdepth htext)

theorem jsonParseObject_parses {value : JsonParse Json} {text : Bytes → Option (Json × Bytes)}
    {depth : Nat} {p : Bytes} (hdeep : depth ≤ JSON_MAX_DEPTH) (hvalue : ∀ s : JsonParser,
      s.p ≤ data.length → s.depth = depth → Parses data alloc value s 1 (text (data.drop s.p)))
    (hp : s.p ≤ data.length) (hdepth : s.depth = depth) (htext : data.drop s.p = 123 :: p) :
    Parses data alloc (jsonParseObject data alloc value) s 1
      (jsonList (Dtl.jsonMember text) 125 p) :=
  .call (hdepth ▸ hdeep) nofun (jsonParseList_parses
    (fun _ hp hdepth => jsonMember_parses hdeep hvalue hp hdepth) hp hdepth htext)

/-- The switch, when a value may nest `levels` deep inside it. -/
theorem jsonSwitch_parses {value : JsonParse Json} {depth levels : Nat}
    (hdeep : depth ≤ JSON_MAX_DEPTH) (hvalue : ∀ s : JsonParser, s.p ≤ data.length → s.depth = depth →
      Parses data alloc value s 1 (jsonValue levels (data.drop s.p)))
    (hp : s.p ≤ data.length) (hdepth : s.depth = depth) :
    Parses data alloc (jsonSwitch data alloc value) s 1 (jsonValue (levels + 1) (data.drop s.p)) := by
  refine Parses.step (jsonSkipWs_parses hp) fun s₁ hm₁ hs₁ => ?_
  rw [jsonValue, ← hs₁]
  refine Parses.peek hm₁.within (fun htext => by rw [htext]) fun c p s₂ htext hm₂ hs₂ => ?_
  rw [htext]
  dsimp only
  have hdepth₂ : s₂.depth = depth := ((hm₁.trans hm₂).depth).trans hdepth
  have hdeep₂ : s₂.depth ≤ JSON_MAX_DEPTH := hdepth₂ ▸ hdeep
  refine Parses.branch (fun hc => ?_) fun _ => ?_
  · exact Parses.map (jsonParseObject_parses hdeep hvalue hm₂.within hdepth₂ (hc ▸ hs₂))
  refine Parses.branch (fun hc => ?_) fun _ => ?_
  · exact Parses.map (jsonParseArray_parses hdeep hvalue hm₂.within hdepth₂ (hc ▸ hs₂))
  refine Parses.branch (fun hc => ?_) fun _ => ?_
  · refine Parses.bind (jsonParseString_parses hm₂.within hdeep₂ (hc ▸ hs₂))
      (fun h => by rw [h]; rfl) fun str s₃ hm₃ hstr => ?_
    refine Parses.step (jsonRequest_parses hm₃.within) fun s₄ hm₄ hs₄ => ?_
    rw [hstr]
    exact .ret hm₄.within hs₄
  have hlt : s₂.p < data.length := length_left (t := [c]) hs₂ hm₂.within
  rw [← hs₂]
  refine Parses.branch (fun _ => jsonWord_parses hm₂.within (by decide)) fun _ => ?_
  refine Parses.branch (fun _ => jsonWord_parses hm₂.within (by decide)) fun _ => ?_
  refine Parses.branch (fun _ => jsonWord_parses hm₂.within (by decide)) fun _ => ?_
  exact jsonNumber_parses hlt

theorem jsonEnter_eq (s : JsonParser) : jsonEnter s =
    .ok (if s.depth + 1 > JSON_MAX_DEPTH then none else some (), { s with depth := s.depth + 1 }) := by
  show (if s.depth + 1 > JSON_MAX_DEPTH then Nullable.null else pure () : JsonParse Unit)
    { s with depth := s.depth + 1 } = _
  split <;> rfl

/-- The part of a call of `dtl_json_parse_value` that is one level deeper. -/
theorem Parses.nested (hlt : s.depth < JSON_MAX_DEPTH)
    (h : Parses data alloc x { s with depth := s.depth + 1 } k spec) :
    Parses data alloc (jsonEnter >>= fun _ => atExit x fun _ _ s => { s with depth := s.depth - 1 })
      s k spec := by
  have henter : jsonEnter s = .ok (some (), { s with depth := s.depth + 1 }) := by
    rw [jsonEnter_eq, if_neg (by omega)]
  refine Ends.bind (Q := fun _ s' => s' = { s with depth := s.depth + 1 }) (.inl ⟨(), _, henter, rfl⟩) ?_
  rintro _ s' rfl
  refine Ends.atExit (Ends.mono h ?_ ?_)
  · rintro a s' ⟨hm, hspec⟩
    exact ⟨⟨hm.ahead, hm.within, by simp [hm.depth], hm.calls⟩, hspec⟩
  · rintro s' ⟨hm, hspec⟩
    have hle : s.depth ≤ s'.depth - 1 := Nat.le_sub_one_of_lt hm.depth
    exact ⟨⟨hm.ahead, hm.within, hle, hm.calls⟩, hspec⟩

theorem Parses.tooDeep (hp : s.p ≤ data.length) (h : s.depth = JSON_MAX_DEPTH) :
    Parses data alloc (jsonEnter >>= fun _ => x) s k none := by
  have henter : jsonEnter s = .ok (none, { s with depth := s.depth + 1 }) := by
    rw [jsonEnter_eq, if_pos (by omega)]
  refine Ends.bind (Q := fun _ _ => False) (.inr ⟨_, henter, ?_, .inr rfl⟩) nofun
  exact ⟨le_rfl, hp, Nat.le_succ _, .of_eq rfl⟩

theorem jsonParseValue_parses : ∀ {stack : Nat} {s : JsonParser}, s.p ≤ data.length →
    s.depth ≤ JSON_MAX_DEPTH → JSON_MAX_DEPTH < stack + s.depth →
    Parses data alloc (jsonParseValue data alloc stack) s 1
      (jsonValue (JSON_MAX_DEPTH - s.depth) (data.drop s.p))
  | 0, _, _, hdeep, hstack => by omega
  | stack + 1, s, hp, hdeep, hstack => by
    by_cases hlt : s.depth < JSON_MAX_DEPTH
    · refine Parses.call hdeep (fun _ => .inl hlt) (Parses.nested hlt ?_)
      have hlevels : JSON_MAX_DEPTH - s.depth = JSON_MAX_DEPTH - (s.depth + 1) + 1 := by omega
      rw [hlevels]
      refine jsonSwitch_parses (by omega : s.depth + 1 ≤ JSON_MAX_DEPTH) (fun s' hp' hdepth => ?_) hp rfl
      rw [← hdepth]
      exact jsonParseValue_parses hp' (by omega) (by omega)
    · have hmax : s.depth = JSON_MAX_DEPTH := by omega
      rw [hmax, Nat.sub_self]
      exact Parses.call hdeep (fun _ => .inr rfl) (Parses.tooDeep hp hmax)

/-! ## The whole text -/

/-- **The parser** is the one on lists, unless a request is refused. -/
theorem jsonParse_parses : Parses data alloc (jsonParse data alloc) .start 0
    ((jsonRoot data).map fun items => (items, [])) := by
  have hstart : JsonParser.start.p ≤ data.length := Nat.zero_le _
  refine Parses.step (jsonSkipWs_parses hstart) fun s₁ hm₁ hs₁ => ?_
  refine Parses.step (jsonLook_parses hm₁.within) fun s₂ hm₂ hs₂ => ?_
  have hdepth₂ : s₂.depth = 0 := (hm₁.trans hm₂).depth
  have hskip : Dtl.jsonSkipWs data = data.drop s₂.p := by rw [hs₂, hs₁]; rfl
  rw [jsonRoot, hskip, ← hs₂]
  rcases htext : data.drop s₂.p with _ | ⟨c, p⟩
  · exact .null hm₂.within
  dsimp only
  simp only [List.head?_cons, Option.some.injEq]
  by_cases hc : c = 91
  · rw [if_pos hc, if_pos hc]
    have hvalue : ∀ s : JsonParser, s.p ≤ data.length → s.depth = 0 → Parses data alloc
        (jsonParseValue data alloc (JSON_MAX_DEPTH + 1)) s 1 (jsonValue JSON_MAX_DEPTH (data.drop s.p)) := by
      intro s hp hdepth
      have hrun : Parses data alloc (jsonParseValue data alloc (JSON_MAX_DEPTH + 1)) s 1 _ :=
        jsonParseValue_parses hp (by omega) (by omega)
      rwa [hdepth, Nat.sub_zero] at hrun
    refine Parses.bind ((jsonParseArray_parses (Nat.zero_le _) hvalue hm₂.within hdepth₂
      (hc ▸ htext)).mono (Nat.zero_le 1)) (fun h => by rw [h]; rfl) fun items s₃ hm₃ hitems => ?_
    refine Parses.step (jsonSkipWs_parses hm₃.within) fun s₄ hm₄ hs₄ => Parses.ask ?_
    rw [hitems]
    dsimp only [Option.bind_eq_bind, Option.bind_some]
    rw [← hs₄, apply_ite (Option.map _)]
    have hend : data.drop s₄.p = [] ↔ data.length - s₄.p = 0 := by
      rw [List.drop_eq_nil_iff, Nat.sub_eq_zero_iff_le]
    by_cases hleft : data.length - s₄.p = 0
    · rw [if_pos hleft, if_pos (hend.mpr hleft)]
      exact .ret hm₄.within (hend.mpr hleft)
    · rw [if_neg hleft, if_neg (mt hend.mp hleft)]
      exact .null hm₄.within
  · rw [if_neg hc, if_neg hc]
    exact .null hm₂.within

section Import

variable (e : EmitEnv) (a : Arena) (ft : FloatText)

/-- The import over memory is the one over the text, unless the arena refuses a request. -/
theorem importJsonMemory_refines (halloc : ∀ n, alloc n = true) :
    ∃ s, importJsonMemory data alloc e a ft = .ok (Dtl.importJsonMemory e a ft data, s) := by
  have hgrants : ¬ Refuses alloc := by
    rintro ⟨n, hn⟩
    simp [halloc] at hn
  have hparse : Parses data alloc (jsonParse data alloc) .start 0 _ := jsonParse_parses
  rcases hparse with ⟨items, s, hrun, -, hspec⟩ | ⟨s, hrun, -, hspec⟩
  · simp only [Option.map_eq_some_iff, Prod.mk.injEq] at hspec
    rcases hspec with ⟨items', hroot, rfl, -⟩
    exact ⟨s, by simp [importJsonMemory, Dtl.importJsonMemory, jsonRows, hroot, hrun]⟩
  · have hroot : jsonRoot data = none := by simpa [hgrants] using hspec
    refine ⟨s, ?_⟩
    simp [importJsonMemory, Dtl.importJsonMemory, jsonRows, hroot, hrun]
    rfl

/-- **The parser stays within its input**: on every input and whatever the arena answers, the import
ends without a fault, all calls are within bounds, the values of the array nest no deeper than allowed,
and a call that has failed means that the import has. -/
theorem importJsonMemory_run (data : Bytes) (alloc : Nat → Bool) :
    ∃ parsed outcome s, jsonParse data alloc .start = .ok (parsed, s) ∧
      importJsonMemory data alloc e a ft = .ok (outcome, s) ∧ s.p ≤ data.length ∧
      (∀ c ∈ s.calls, c.Bounded data.length) ∧
      (∀ items ∈ parsed, ∀ v ∈ items, v.Within JSON_MAX_DEPTH) ∧
      ((∃ c ∈ s.calls, c.ok = false) → outcome = .error .badRecord) := by
  have hparse : Parses data alloc (jsonParse data alloc) .start 0 _ := jsonParse_parses
  rcases hparse with ⟨items, s, hrun, hm, hspec⟩ | ⟨s, hrun, hm, -⟩
  · simp only [Option.map_eq_some_iff, Prod.mk.injEq] at hspec
    rcases hspec with ⟨items', hroot, rfl, -⟩
    have hmem : ∀ c ∈ s.calls, c.Bounded data.length ∧ c.ok = true := hm.calls.of_start
    refine ⟨some items', _, s, hrun, by rw [importJsonMemory, hrun], hm.within, fun c hc => (hmem c hc).1, ?_, ?_⟩
    · rintro xs ⟨rfl⟩
      exact jsonRoot_within hroot
    · rintro ⟨c, hc, hfailed⟩
      rw [(hmem c hc).2] at hfailed
      cases hfailed
  · exact ⟨none, .error .badRecord, s, hrun, by rw [importJsonMemory, hrun], hm.within,
      hm.calls.of_start, nofun, fun _ => rfl⟩

end Import

end Parser

end Machine

end Dtl
