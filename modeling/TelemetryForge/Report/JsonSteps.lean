import TelemetryForge.Report.JsonMachine

/-!
# The parts of the JSON parser, step by step

`Parses x s k spec` — a part `x` of the parser ends when it is started in `s`: with the result and the
rest of the text that `spec` gives, the cursor at least `k` bytes further on and the depth as it was, or
with `NULL`, because `spec` is none or because the arena has refused a request.  All calls it has made
are within bounds, and none of them has failed when it has a result.

Principal results: `jsonParseString_parses`, `jsonNumber_parses` — the parts without nested values.
-/

set_option autoImplicit false

namespace Dtl

open CText Nullable

namespace Machine

/-! ## What a part of the parser does -/

/-- The bounds of a call that has returned. -/
structure JsonCall.Bounded (len : Nat) (c : JsonCall) : Prop where
  forward : c.start ≤ c.stop
  within : c.stop ≤ len
  deep : c.enter ≤ JSON_MAX_DEPTH
  done : c.ok = true → c.start < c.stop ∧ c.leave = c.enter
  value : c.fn = .value → c.ok = true → c.enter < JSON_MAX_DEPTH

/-- The calls that have returned between `s` and `s'` all satisfy `P`. -/
def Recorded (P : JsonCall → Prop) (s s' : JsonParser) : Prop :=
  ∃ made, s'.calls = s.calls ++ made ∧ ∀ c ∈ made, P c

/-- From `s` to `s'`, the cursor has moved by `k` bytes or more and every call has had a result. -/
structure Moved (len k : Nat) (s s' : JsonParser) : Prop where
  ahead : s.p + k ≤ s'.p
  within : s'.p ≤ len
  depth : s'.depth = s.depth
  calls : Recorded (fun c => c.Bounded len ∧ c.ok = true) s s'

/-- From `s` to `s'`, where a part of the parser has returned `NULL`. -/
structure Stuck (len : Nat) (s s' : JsonParser) : Prop where
  ahead : s.p ≤ s'.p
  within : s'.p ≤ len
  depth : s.depth ≤ s'.depth
  calls : Recorded (JsonCall.Bounded len) s s'

variable {len j k n : Nat} {s s' s'' : JsonParser} {P Q : JsonCall → Prop}

theorem Recorded.of_eq (h : s'.calls = s.calls) : Recorded P s s' := ⟨[], by simp [h], by simp⟩

theorem Recorded.mono (h : Recorded P s s') (hPQ : ∀ c, P c → Q c) : Recorded Q s s' := by
  rcases h with ⟨made, hcalls, hmade⟩
  exact ⟨made, hcalls, fun c hc => hPQ c (hmade c hc)⟩

theorem Recorded.trans (h : Recorded P s s') (h' : Recorded P s' s'') : Recorded P s s'' := by
  rcases h with ⟨made, hcalls, hmade⟩
  rcases h' with ⟨made', hcalls', hmade'⟩
  refine ⟨made ++ made', by rw [hcalls', hcalls, List.append_assoc], fun c hc => ?_⟩
  rcases List.mem_append.mp hc with hc | hc
  · exact hmade c hc
  · exact hmade' c hc

/-- The call that has led from `s` to `s'` is the next one to be recorded. -/
theorem Recorded.record {fn : JsonFn} {ok : Bool} (h : Recorded P s s') (hcall : P (s.call fn ok s')) :
    Recorded P s (s.record fn ok s') :=
  h.trans ⟨[s.call fn ok s'], rfl, fun c hc => by rwa [List.mem_singleton.mp hc]⟩

theorem Recorded.of_start (h : Recorded P .start s) : ∀ c ∈ s.calls, P c := by
  rcases h with ⟨made, hcalls, hmade⟩
  simpa [JsonParser.start, hcalls] using hmade

theorem Moved.refl (h : s.p ≤ len) : Moved len 0 s s := ⟨le_rfl, h, rfl, .of_eq rfl⟩

theorem Stuck.refl (h : s.p ≤ len) : Stuck len s s := ⟨le_rfl, h, le_rfl, .of_eq rfl⟩

theorem Moved.mono (h : Moved len k s s') (hj : j ≤ k) : Moved len j s s' := by
  have := h.ahead
  exact ⟨by omega, h.within, h.depth, h.calls⟩

theorem Moved.trans (h : Moved len k s s') (h' : Moved len j s' s'') : Moved len (k + j) s s'' := by
  have := h.ahead
  have := h'.ahead
  exact ⟨by omega, h'.within, h'.depth.trans h.depth, h.calls.trans h'.calls⟩

theorem Moved.stuck (h : Moved len k s s') (h' : Stuck len s' s'') : Stuck len s s'' := by
  have hahead : s.p ≤ s'.p := le_trans (Nat.le_add_right _ _) h.ahead
  exact ⟨hahead.trans h'.ahead, h'.within, h.depth.symm.le.trans h'.depth,
    (h.calls.mono fun _ hc => hc.1).trans h'.calls⟩

theorem Moved.record {fn : JsonFn} (h : Moved len 1 s s') (hdeep : s.depth ≤ JSON_MAX_DEPTH)
    (hvalue : fn = .value → s.depth < JSON_MAX_DEPTH) : Moved len 1 s (s.record fn true s') := by
  have hlt : s.p < s'.p := h.ahead
  have hcall : (s.call fn true s').Bounded len :=
    ⟨le_of_lt hlt, h.within, hdeep, fun _ => ⟨hlt, h.depth⟩, fun hfn _ => hvalue hfn⟩
  exact ⟨h.ahead, h.within, h.depth, h.calls.record ⟨hcall, rfl⟩⟩

theorem Stuck.record {fn : JsonFn} (h : Stuck len s s') (hdeep : s.depth ≤ JSON_MAX_DEPTH) :
    Stuck len s (s.record fn false s') := by
  have hcall : (s.call fn false s').Bounded len := ⟨h.ahead, h.within, hdeep, nofun, nofun⟩
  exact ⟨h.ahead, h.within, h.depth, h.calls.record hcall⟩

section Parser

variable {α β : Type} (data : Bytes) (alloc : Nat → Bool)

/-- The arena refuses a request. -/
def Refuses : Prop := ∃ n, alloc n = false

/-- From `s`, the part `x` of the parser does what `spec` says of the text that is left. -/
def Parses (x : JsonParse α) (s : JsonParser) (k : Nat) (spec : Option (α × Bytes)) : Prop :=
  Ends x s (fun a s' => Moved data.length k s s' ∧ spec = some (a, data.drop s'.p))
    fun s' => Stuck data.length s s' ∧ (Refuses alloc ∨ spec = none)

variable {data alloc} {x : JsonParse α} {f : α → JsonParse β} {spec : Option (α × Bytes)}
  {goal : Option (β × Bytes)}

theorem Parses.mono (h : Parses data alloc x s k spec) (hj : j ≤ k) : Parses data alloc x s j spec :=
  Ends.mono h (fun _ _ ⟨hm, hspec⟩ => ⟨hm.mono hj, hspec⟩) fun _ h => h

theorem Parses.ret {a : α} {p : Bytes} (h : s.p ≤ data.length) (hp : data.drop s.p = p) :
    Parses data alloc (pure a) s 0 (some (a, p)) :=
  Ends.ret ⟨.refl h, by rw [hp]⟩

theorem Parses.null (h : s.p ≤ data.length) : Parses data alloc (Nullable.null : JsonParse α) s k none :=
  Ends.null ⟨.refl h, .inr rfl⟩

theorem Parses.orNull {o : Option α} (h : s.p ≤ data.length) :
    Parses data alloc (Nullable.orNull o) s 0 (o.map fun a => (a, data.drop s.p)) := by
  cases o with
  | none => exact .null h
  | some a => exact .ret h rfl

/-- **A sequence**: what is left of the `n` bytes and of the text is up to its second part. -/
theorem Parses.bind (hx : Parses data alloc x s k spec) (hnone : spec = none → goal = none)
    (hf : ∀ a s', Moved data.length k s s' → spec = some (a, data.drop s'.p) →
      Parses data alloc (f a) s' (n - k) goal) :
    Parses data alloc (x >>= f) s n goal := by
  refine Ends.bind (Ends.mono hx (fun _ _ h => h) fun s' h => ⟨h.1, h.2.imp id hnone⟩)
    fun a s' ⟨hm, hspec⟩ => ?_
  refine Ends.mono (hf a s' hm hspec) (fun b s'' h => ⟨?_, h.2⟩) fun s'' h => ⟨hm.stuck h.1, h.2⟩
  exact (hm.trans h.1).mono (by omega)

/-- A first part that has a result on this text, unless the arena refuses a request. -/
theorem Parses.step {a : α} {p : Bytes} (hx : Parses data alloc x s k (some (a, p)))
    (hf : ∀ s', Moved data.length k s s' → data.drop s'.p = p →
      Parses data alloc (f a) s' (n - k) goal) :
    Parses data alloc (x >>= f) s n goal := by
  refine Parses.bind hx nofun fun b s' hm hb => ?_
  simp only [Option.some.injEq, Prod.mk.injEq] at hb
  rcases hb with ⟨rfl, hp⟩
  exact hf s' hm hp.symm

/-- A first part that has no result on this text. -/
theorem Parses.stop (hx : Parses data alloc x s k none) : Parses data alloc (x >>= f) s n none :=
  Parses.bind hx (fun _ => rfl) fun _ _ _ h => by cases h

theorem Parses.ask {g : JsonParser → α} (h : Parses data alloc (f (g s)) s k goal) :
    Parses data alloc (Nullable.ask g >>= f) s k goal := h

/-- A value that has to be there. -/
theorem Parses.need {o : Option α} (hp : s.p ≤ data.length) (hnone : o = none → goal = none)
    (hf : ∀ a, o = some a → Parses data alloc (f a) s k goal) :
    Parses data alloc (Nullable.orNull o >>= f) s k goal := by
  cases o with
  | none => exact .inr ⟨s, rfl, .refl hp, .inr (hnone rfl)⟩
  | some a => exact hf a rfl

theorem Parses.ite {c : Prop} [Decidable c] {y : JsonParse α} (hx : c → Parses data alloc x s k spec)
    (hy : ¬ c → Parses data alloc y s k spec) : Parses data alloc (if c then x else y) s k spec :=
  Ends.ite hx hy

/-- A branch that the text's parser takes as well. -/
theorem Parses.branch {c : Prop} [Decidable c] {y : JsonParse α} {spec' : Option (α × Bytes)}
    (hx : c → Parses data alloc x s k spec) (hy : ¬ c → Parses data alloc y s k spec') :
    Parses data alloc (if c then x else y) s k (if c then spec else spec') := by
  by_cases h : c
  · rw [if_pos h, if_pos h]
    exact hx h
  · rw [if_neg h, if_neg h]
    exact hy h

theorem Parses.map {g : α → β} (h : Parses data alloc x s k spec) :
    Parses data alloc (x >>= fun a => pure (g a)) s k ((fun q => (g q.1, q.2)) <$> spec) := by
  refine Parses.bind h (fun hnone => by rw [hnone]; rfl) fun a s' hm ha => ?_
  rw [ha, Nat.sub_self]
  exact .ret hm.within rfl

/-- The bytes that have gone from the text are behind the cursor. -/
theorem Parses.ahead {a : α} {p : Bytes} (h : Parses data alloc x s 0 (some (a, p)))
    (hp : s.p ≤ data.length) (hlen : p.length + k ≤ (data.drop s.p).length) :
    Parses data alloc x s k (some (a, p)) := by
  refine Ends.mono h (fun b s' ⟨hm, hb⟩ => ⟨⟨?_, hm.within, hm.depth, hm.calls⟩, hb⟩) fun _ h => h
  simp only [Option.some.injEq, Prod.mk.injEq] at hb
  rw [hb.2, List.length_drop, List.length_drop] at hlen
  have := hm.within
  omega

/-- A call of a function that consumes a byte. -/
theorem Parses.call {fn : JsonFn} (hdeep : s.depth ≤ JSON_MAX_DEPTH)
    (hvalue : fn = .value → s.depth < JSON_MAX_DEPTH ∨ spec = none)
    (hx : Parses data alloc x s 1 spec) : Parses data alloc (jsonCall fn x) s 1 spec := by
  refine Ends.atExit (Ends.mono hx ?_ ?_)
  · rintro a s' ⟨hm, hspec⟩
    exact ⟨hm.record hdeep fun hfn => (hvalue hfn).resolve_right (by simp [hspec]), hspec⟩
  · rintro s' ⟨hm, hspec⟩
    exact ⟨hm.record hdeep, hspec⟩

/-! ## The cursor and the arena -/

theorem drop_add {t p : Bytes} {i : Nat} (h : data.drop i = t ++ p) : data.drop (i + t.length) = p := by
  rw [← List.drop_drop, h, List.drop_left]

theorem length_left {t p : Bytes} {i : Nat} (h : data.drop i = t ++ p) (hi : i ≤ data.length) :
    i + t.length ≤ data.length := by
  have := congrArg List.length h
  simp only [List.length_drop, List.length_append] at this
  omega

theorem jsonAdvance_parses {t p : Bytes} (hp : s.p ≤ data.length) (h : data.drop s.p = t ++ p) :
    Parses data alloc (jsonAdvance data t.length) s t.length (some ((), p)) := by
  have hle := length_left h hp
  refine .inl ⟨(), { s with p := s.p + t.length }, if_pos hle, ?_, ?_⟩
  · exact ⟨le_rfl, hle, rfl, .of_eq rfl⟩
  · rw [drop_add h]

theorem jsonStep_parses {c : UInt8} {p : Bytes} (hp : s.p ≤ data.length) (h : data.drop s.p = c :: p) :
    Parses data alloc (jsonAdvance data 1) s 1 (some ((), p)) :=
  jsonAdvance_parses (t := [c]) hp h

theorem jsonByte_parses {c : UInt8} {p : Bytes} (hp : s.p ≤ data.length) (h : data.drop s.p = c :: p) :
    Parses data alloc (jsonByte data) s 0 (some (c, data.drop s.p)) := by
  have hbyte : data[s.p]? = some c := by
    rw [← List.head?_drop, h]
    rfl
  refine .inl ⟨c, s, ?_, .refl hp, rfl⟩
  rw [jsonByte, hbyte]

theorem jsonBytes_parses {start : Nat} (hp : s.p ≤ data.length) (h : start + n ≤ data.length) :
    Parses data alloc (jsonBytes data start n) s 0
      (some ((data.drop start).take n, data.drop s.p)) :=
  .inl ⟨_, s, if_pos h, .refl hp, rfl⟩

theorem jsonLook_parses (hp : s.p ≤ data.length) :
    Parses data alloc (jsonLook data) s 0 (some ((data.drop s.p).head?, data.drop s.p)) := by
  refine Parses.ask (Parses.ite (fun h => ?_) fun h => ?_)
  · have hnil : data.drop s.p = [] := List.drop_of_length_le (by omega)
    rw [hnil]
    exact .ret hp hnil
  · rcases hcons : data.drop s.p with _ | ⟨c, p⟩
    · have := List.drop_eq_nil_iff.mp hcons
      omega
    · refine Parses.step (jsonByte_parses hp hcons) fun s' hm hs' => ?_
      exact .ret hm.within (hs'.trans hcons)

theorem jsonNeed_parses (hp : s.p ≤ data.length) :
    Parses data alloc (jsonNeed data) s 0 ((data.drop s.p).head?.map fun c => (c, data.drop s.p)) := by
  refine Parses.step (jsonLook_parses hp) fun s' hm hs' => ?_
  rw [← hs']
  exact .orNull hm.within

theorem jsonNext_parses (hp : s.p ≤ data.length) :
    Parses data alloc (jsonNext data) s 1 (data.drop s.p).next? := by
  rcases htext : data.drop s.p with _ | ⟨c, p⟩
  · refine Parses.bind (jsonNeed_parses hp) (by simp) fun c s' hm hc => ?_
    simp [htext] at hc
  · have hneed : Parses data alloc (jsonNeed data) s 0 (some (c, c :: p)) := by
      simpa [htext] using jsonNeed_parses hp
    refine Parses.step hneed fun s' hm hs' => ?_
    refine Parses.step (jsonStep_parses hm.within hs') fun s' hm hs' => ?_
    exact .ret hm.within hs'

/-- A byte that has to be there, looked at. -/
theorem Parses.peek {f : UInt8 → JsonParse β} (hp : s.p ≤ data.length)
    (hnil : data.drop s.p = [] → goal = none)
    (hcons : ∀ c p s', data.drop s.p = c :: p → Moved data.length 0 s s' → data.drop s'.p = c :: p →
      Parses data alloc (f c) s' k goal) :
    Parses data alloc (jsonNeed data >>= f) s k goal := by
  have hneed : Parses data alloc (jsonNeed data) s 0 _ := jsonNeed_parses hp
  rcases htext : data.drop s.p with _ | ⟨c, p⟩
  · rw [htext] at hneed
    rw [hnil htext]
    exact hneed.stop
  · rw [htext] at hneed
    exact Parses.step hneed fun s' hm hs' => hcons c p s' htext hm hs'

/-- A byte that has to be there, consumed. -/
theorem Parses.next {f : UInt8 → JsonParse β} (hp : s.p ≤ data.length)
    (hnil : data.drop s.p = [] → goal = none)
    (hcons : ∀ c p s', data.drop s.p = c :: p → Moved data.length 1 s s' → data.drop s'.p = p →
      Parses data alloc (f c) s' (k - 1) goal) :
    Parses data alloc (jsonNext data >>= f) s k goal := by
  have hnext : Parses data alloc (jsonNext data) s 1 _ := jsonNext_parses hp
  rcases htext : data.drop s.p with _ | ⟨c, p⟩
  · rw [htext] at hnext
    rw [hnil htext]
    exact hnext.stop
  · rw [htext] at hnext
    exact Parses.step hnext fun s' hm hs' => hcons c p s' htext hm hs'

theorem jsonRequest_parses (hp : s.p ≤ data.length) :
    Parses data alloc (jsonRequest alloc) s 0 (some ((), data.drop s.p)) := by
  by_cases h : alloc s.requests
  · exact .inl ⟨(), { s with requests := s.requests + 1 }, by rw [jsonRequest, if_pos h],
      ⟨le_rfl, hp, rfl, .of_eq rfl⟩, rfl⟩
  · refine .inr ⟨{ s with requests := s.requests + 1 }, by rw [jsonRequest, if_neg h],
      ⟨le_rfl, hp, le_rfl, .of_eq rfl⟩, ?_⟩
    exact .inl ⟨s.requests, by simpa using h⟩

theorem jsonRequests_parses (hp : s.p ≤ data.length) :
    Parses data alloc (jsonRequests alloc) s 0 (some ((), data.drop s.p)) := by
  by_cases h : alloc s.requests && alloc (s.requests + 1)
  · exact .inl ⟨(), { s with requests := s.requests + 2 }, by rw [jsonRequests, if_pos h],
      ⟨le_rfl, hp, rfl, .of_eq rfl⟩, rfl⟩
  · refine .inr ⟨{ s with requests := s.requests + 2 }, by rw [jsonRequests, if_neg h],
      ⟨le_rfl, hp, le_rfl, .of_eq rfl⟩, ?_⟩
    rcases hfst : alloc s.requests
    · exact .inl ⟨s.requests, hfst⟩
    · exact .inl ⟨s.requests + 1, by simpa [hfst] using h⟩

/-- A block that is grown when it is full has room for one more element then. -/
theorem Parses.grow {full : Bool} {cap : Nat} {f : Nat → JsonParse β} (hp : s.p ≤ data.length)
    (hpos : 0 < cap) (hle : n ≤ cap) (hfull : n = cap → full = true)
    (hf : ∀ cap' s', Moved data.length 0 s s' → data.drop s'.p = data.drop s.p → n < cap' →
      Parses data alloc (f cap') s' k goal) :
    Parses data alloc (jsonGrow alloc full cap >>= f) s k goal := by
  cases full with
  | true =>
    refine Parses.step (k := 0) (a := cap * 2) ?_ fun s' hm hs' => hf (cap * 2) s' hm hs' (by omega)
    refine Parses.step (jsonRequest_parses hp) fun s' hm hs' => ?_
    exact .ret hm.within hs'
  | false =>
    have hne : n ≠ cap := fun h => by simpa using hfull h
    exact hf cap s (.refl hp) rfl (by omega)

theorem jsonStore_parses {cap : Nat} (hp : s.p ≤ data.length) (h : n < cap) :
    Parses data alloc (jsonStore n cap) s 0 (some ((), data.drop s.p)) := by
  rw [jsonStore, if_pos h]
  exact .ret hp rfl

/-! ## Strings and numbers -/

theorem jsonSkipLoop_parses {keep : UInt8 → Bool} : ∀ {fuel : Nat} {s : JsonParser},
    s.p ≤ data.length → (data.drop s.p).length < fuel →
    Parses data alloc (jsonSkipLoop data keep fuel) s 0 (some ((), (data.drop s.p).dropWhile keep))
  | 0, _, _, hfuel => by omega
  | fuel + 1, s, hp, hfuel => by
    refine Parses.step (jsonLook_parses hp) fun s' hm hs' => ?_
    rw [← hs'] at hfuel ⊢
    rcases htext : data.drop s'.p with _ | ⟨c, p⟩
    · exact .ret hm.within htext
    · rw [htext] at hfuel
      by_cases hc : keep c
      · rw [List.dropWhile_cons_of_pos hc, List.head?_cons, Option.any_some, if_pos hc]
        refine Parses.step (jsonStep_parses hm.within htext) fun s' hm hs' => ?_
        rw [← hs'] at hfuel ⊢
        exact jsonSkipLoop_parses hm.within (by simpa using hfuel)
      · rw [List.dropWhile_cons_of_neg hc, List.head?_cons, Option.any_some, if_neg hc]
        exact .ret hm.within htext

theorem jsonSkip_parses {keep : UInt8 → Bool} (hp : s.p ≤ data.length) :
    Parses data alloc (jsonSkip data keep) s 0 (some ((), (data.drop s.p).dropWhile keep)) :=
  .ask (jsonSkipLoop_parses hp (by simp))

theorem jsonSkipWs_parses (hp : s.p ≤ data.length) :
    Parses data alloc (jsonSkipWs data) s 0 (some ((), Dtl.jsonSkipWs (data.drop s.p))) :=
  jsonSkip_parses hp

/-- The digits of a `\u` escape as text. -/
def hexText : Nat → Nat → Bytes → Option (Nat × Bytes)
  | 0, v, p => some (v, p)
  | _ + 1, _, [] => none
  | n + 1, v, h :: p => (hexVal h).bind fun d => hexText n (v * 16 + d) p

theorem jsonHexLoop_parses : ∀ {n v : Nat} {s : JsonParser}, s.p ≤ data.length →
    Parses data alloc (jsonHexLoop data n v) s n (hexText n v (data.drop s.p))
  | 0, v, s, hp => .ret hp rfl
  | n + 1, v, s, hp => by
    refine Parses.next hp (fun htext => by rw [htext]; rfl) fun h p s' htext hm hs' => ?_
    rw [htext]
    refine Parses.need hm.within (fun hd => by rw [hexText, hd]; rfl) fun d hd => ?_
    rw [hexText, hd, ← hs']
    exact jsonHexLoop_parses hm.within

/-- The character that `c` and an escape behind it stand for, and the text behind it. -/
def charText (c : UInt8) (p : Bytes) : Option (UInt8 × Bytes) :=
  if c = 92 then
    p.next?.bind fun q =>
      if q.1 = 117 then
        (hexText 4 0 q.2).bind fun r => if r.1 > 0x7F then none else some (UInt8.ofNat r.1, r.2)
      else (jsonUnescape q.1).map fun c => (c, q.2)
  else some (c, p)

theorem hexText_short : ∀ {n v : Nat} {p : Bytes}, p.length < n → hexText n v p = none
  | _ + 1, _, [], _ => rfl
  | n + 1, v, h :: p, hlen => by
    have hrest : p.length < n := by simpa using hlen
    rw [hexText]
    cases hexVal h with
    | none => rfl
    | some d => exact hexText_short hrest

/-- The text of a `\u` escape is that of the parser on lists. -/
theorem hexText_four (p : Bytes) : ((hexText 4 0 p).bind fun r =>
      if r.1 > 0x7F then none else some (UInt8.ofNat r.1, r.2)) =
    match p with
    | h0 :: h1 :: h2 :: h3 :: p => (Dtl.jsonUnicode h0 h1 h2 h3).map fun c => (c, p)
    | _ => none := by
  rcases p with _ | ⟨h0, _ | ⟨h1, _ | ⟨h2, _ | ⟨h3, p⟩⟩⟩⟩
  · rfl
  · rw [hexText_short (by simp)]
    rfl
  · rw [hexText_short (by simp)]
    rfl
  · rw [hexText_short (by simp)]
    rfl
  · simp only [hexText, Dtl.jsonUnicode]
    rcases hexVal h0 with _ | v0
    · rfl
    rcases hexVal h1 with _ | v1
    · rfl
    rcases hexVal h2 with _ | v2
    · rfl
    rcases hexVal h3 with _ | v3
    · rfl
    simp only [Option.bind_some, Option.bind_eq_bind, Nat.zero_mul, Nat.zero_add]
    split <;> rfl

theorem jsonChars_cons (c : UInt8) (p : Bytes) : jsonChars (c :: p) =
    if c = 34 then some ([], p) else (charText c p).bind fun q => Dtl.jsonStore q.1 (jsonChars q.2) := by
  rw [jsonChars.eq_def, charText]
  dsimp only
  by_cases hq : c = 34
  · rw [if_pos hq, if_pos hq]
  rw [if_neg hq, if_neg hq]
  by_cases he : c = 92
  · rw [if_pos he, if_pos he]
    rcases p with _ | ⟨c, p⟩
    · rfl
    · simp only [List.next?, Option.bind_some, hexText_four]
      by_cases hu : c = 117
      · simp only [if_pos hu]
        split <;> simp [Option.bind_map]
      · simp only [if_neg hu, Option.bind_map, Function.comp_def]
  · rw [if_neg he, if_neg he]
    rfl

theorem jsonUnicode_parses (hp : s.p ≤ data.length) : Parses data alloc (jsonUnicode data) s 4
    ((hexText 4 0 (data.drop s.p)).bind fun r =>
      if r.1 > 0x7F then none else some (UInt8.ofNat r.1, r.2)) := by
  refine Parses.bind (jsonHexLoop_parses hp) (fun h => by rw [h]; rfl) fun v s' hm hv => ?_
  rw [hv, Option.bind_some]
  exact Parses.branch (fun _ => .null hm.within) fun _ => .ret hm.within rfl

theorem jsonChar_parses {c : UInt8} (hp : s.p ≤ data.length) :
    Parses data alloc (jsonChar data c) s 0 (charText c (data.drop s.p)) := by
  rw [charText]
  refine Parses.branch (fun _ => ?_) fun _ => .ret hp rfl
  refine Parses.bind (jsonNext_parses hp) (fun h => by rw [h]; rfl) fun e s' hm he => ?_
  rw [he, Option.bind_some]
  exact Parses.branch (fun _ => (jsonUnicode_parses hm.within).mono (Nat.zero_le 4))
    fun _ => .orNull hm.within

theorem jsonStringLoop_parses : ∀ {fuel : Nat} {buf : Bytes} {cap : Nat} {s : JsonParser},
    s.p ≤ data.length → data.length - s.p < fuel → buf.length < cap →
    Parses data alloc (jsonStringLoop data alloc fuel buf cap) s 1
      ((jsonChars (data.drop s.p)).map fun q => (buf ++ q.1, q.2))
  | 0, _, _, _, _, hfuel, _ => by omega
  | fuel + 1, buf, cap, s, hp, hfuel, hcap => by
    refine Parses.next hp (fun htext => by rw [htext]; rfl) fun c p s₁ htext hm₁ hs₁ => ?_
    rw [htext, jsonChars_cons]
    refine Parses.ite (fun hc => ?_) fun hc => ?_
    · rw [if_pos hc]
      refine Parses.step (jsonStore_parses hm₁.within hcap) fun s₂ hm₂ hs₂ => ?_
      rw [Option.map_some, List.append_nil]
      exact .ret hm₂.within (hs₂.trans hs₁)
    · rw [if_neg hc, ← hs₁]
      refine Parses.bind (jsonChar_parses hm₁.within) (fun h => by rw [h]; rfl) fun e s₂ hm₂ he => ?_
      refine Parses.grow hm₂.within (by omega) (n := buf.length + 1) hcap (by simp; omega)
        fun cap' s₃ hm₃ hs₃ hroom => ?_
      refine Parses.step (jsonStore_parses hm₃.within (by omega)) fun s₄ hm₄ hs₄ => ?_
      have hmoved := ((hm₁.trans hm₂).trans hm₃).trans hm₄
      have hloop : Parses data alloc (jsonStringLoop data alloc fuel (buf ++ [e]) cap') s₄ 1 _ :=
        jsonStringLoop_parses hm₄.within
          (by have := hmoved.ahead; have := hmoved.within; omega) (by simpa using hroom)
      rw [hs₄, hs₃] at hloop
      rw [he, Option.bind_some, Dtl.jsonStore, Option.map_map]
      refine Parses.mono ?_ (Nat.zero_le 1)
      simpa [Function.comp_def] using hloop

theorem jsonParseString_parses {p : Bytes} (hp : s.p ≤ data.length) (hdeep : s.depth ≤ JSON_MAX_DEPTH)
    (htext : data.drop s.p = 34 :: p) :
    Parses data alloc (jsonParseString data alloc) s 1 (Dtl.jsonString p) := by
  refine Parses.call hdeep nofun ?_
  refine Parses.step (jsonRequest_parses hp) fun s₁ hm₁ hs₁ => ?_
  refine Parses.step (jsonStep_parses hm₁.within (hs₁.trans htext)) fun s₂ hm₂ hs₂ => Parses.ask ?_
  have hloop : Parses data alloc
      (jsonStringLoop data alloc (data.length - s₂.p + 1) [] 32) s₂ 1 _ :=
    jsonStringLoop_parses hm₂.within (Nat.lt_succ_self _) (by simp)
  rw [← hs₂, Dtl.jsonString]
  refine Parses.bind (hloop.mono (Nat.zero_le 1)) (fun h => ?_) fun buf s₃ hm₃ hbuf => ?_
  · simpa using h
  · rcases hchars : jsonChars (data.drop s₂.p) with _ | q
    · simp [hchars] at hbuf
    · simp only [hchars, Option.map_some, List.nil_append, Option.some.injEq, Prod.mk.injEq] at hbuf
      rw [Option.map_some, hbuf.1, hbuf.2]
      exact .ret hm₃.within rfl

theorem jsonMinus_append (p : Bytes) : (Dtl.jsonMinus p).1 ++ (Dtl.jsonMinus p).2 = p := by
  cases p with
  | nil => rfl
  | cons c p =>
    rw [Dtl.jsonMinus]
    split <;> rfl

theorem jsonFraction_append (p : Bytes) : (Dtl.jsonFraction p).1 ++ (Dtl.jsonFraction p).2 = p := by
  cases p with
  | nil => rfl
  | cons c p =>
    rw [Dtl.jsonFraction]
    split <;> simp

theorem jsonSign_append (p : Bytes) : (Dtl.jsonSign p).1 ++ (Dtl.jsonSign p).2 = p := by
  cases p with
  | nil => rfl
  | cons c p =>
    rw [Dtl.jsonSign]
    split <;> rfl

theorem jsonExponent_append (p : Bytes) : (Dtl.jsonExponent p).1 ++ (Dtl.jsonExponent p).2 = p := by
  cases p with
  | nil => rfl
  | cons c p =>
    rw [Dtl.jsonExponent]
    split
    · simp [jsonSign_append]
    · rfl

/-- A number is the text up to where its parser stops. -/
theorem jsonNumber_append {p txt rest : Bytes} (h : Dtl.jsonNumber p = some (txt, rest)) :
    txt ++ rest = p := by
  unfold Dtl.jsonNumber at h
  dsimp only at h
  split at h
  · cases h
  · simp only [Option.some.injEq, Prod.mk.injEq] at h
    rcases h with ⟨rfl, rfl⟩
    simp only [List.append_assoc, jsonExponent_append, jsonFraction_append,
      List.takeWhile_append_dropWhile, jsonMinus_append]

theorem jsonMinus_parses {c : UInt8} {p : Bytes} (hp : s.p ≤ data.length) (h : data.drop s.p = c :: p) :
    Parses data alloc (jsonMinus data) s 0 (some ((), (Dtl.jsonMinus (data.drop s.p)).2)) := by
  refine Parses.step (jsonByte_parses hp h) fun s' hm hs' => ?_
  rw [h] at hs' ⊢
  rw [Dtl.jsonMinus]
  refine Parses.ite (fun hc => ?_) fun hc => ?_
  · rw [if_pos hc]
    exact (jsonStep_parses hm.within hs').mono (Nat.zero_le 1)
  · rw [if_neg hc]
    exact .ret hm.within hs'

theorem jsonDigits_parses (hp : s.p ≤ data.length) : Parses data alloc (jsonDigits data) s 1
    (if (data.drop s.p).takeWhile isDigit = [] then none
      else some ((), (data.drop s.p).dropWhile isDigit)) := by
  refine Parses.peek hp (fun htext => by rw [htext]; rfl) fun c p s' htext hm hs' => ?_
  rw [htext]
  refine Parses.ite (fun hc => ?_) fun hc => ?_
  · have hlen : (p.dropWhile isDigit).length ≤ p.length := (List.dropWhile_sublist isDigit).length_le
    have hskip : Parses data alloc (jsonSkip data isDigit) s' 0 _ := jsonSkip_parses hm.within
    rw [hs', List.dropWhile_cons_of_pos hc] at hskip
    rw [List.takeWhile_cons_of_pos hc, if_neg (by simp), List.dropWhile_cons_of_pos hc]
    exact hskip.ahead hm.within (by simpa [hs'] using hlen)
  · rw [List.takeWhile_cons_of_neg hc, if_pos rfl]
    exact .null hm.within

theorem jsonFraction_parses (hp : s.p ≤ data.length) : Parses data alloc (jsonFraction data) s 0
    (some ((), (Dtl.jsonFraction (data.drop s.p)).2)) := by
  refine Parses.step (jsonLook_parses hp) fun s' hm hs' => ?_
  rw [← hs']
  rcases htext : data.drop s'.p with _ | ⟨c, p⟩
  · exact .ret hm.within htext
  · simp only [Dtl.jsonFraction, List.head?_cons, Option.some.injEq]
    refine Parses.ite (fun hc => ?_) fun hc => ?_
    · rw [if_pos hc]
      refine Parses.step (jsonStep_parses hm.within htext) fun s' hm hs' => ?_
      rw [← hs']
      exact jsonSkip_parses hm.within
    · rw [if_neg hc]
      exact .ret hm.within htext

theorem jsonSign_parses (hp : s.p ≤ data.length) : Parses data alloc (jsonSign data) s 0
    (some ((), (Dtl.jsonSign (data.drop s.p)).2)) := by
  refine Parses.step (jsonLook_parses hp) fun s' hm hs' => ?_
  rw [← hs']
  rcases htext : data.drop s'.p with _ | ⟨c, p⟩
  · exact .ret hm.within htext
  · simp only [Dtl.jsonSign, List.head?_cons, Option.some.injEq]
    refine Parses.ite (fun hc => ?_) fun hc => ?_
    · rw [if_pos hc]
      exact (jsonStep_parses hm.within htext).mono (Nat.zero_le 1)
    · rw [if_neg hc]
      exact .ret hm.within htext

theorem jsonExponent_parses (hp : s.p ≤ data.length) : Parses data alloc (jsonExponent data) s 0
    (some ((), (Dtl.jsonExponent (data.drop s.p)).2)) := by
  refine Parses.step (jsonLook_parses hp) fun s' hm hs' => ?_
  rw [← hs']
  rcases htext : data.drop s'.p with _ | ⟨c, p⟩
  · exact .ret hm.within htext
  · simp only [Dtl.jsonExponent, List.head?_cons, Option.some.injEq]
    refine Parses.ite (fun hc => ?_) fun hc => ?_
    · rw [if_pos hc]
      refine Parses.step (jsonStep_parses hm.within htext) fun s₁ hm₁ hs₁ => ?_
      refine Parses.step (jsonSign_parses hm₁.within) fun s₂ hm₂ hs₂ => ?_
      rw [← hs₁, ← hs₂]
      exact jsonSkip_parses hm₂.within
    · rw [if_neg hc]
      exact .ret hm.within htext

theorem jsonNumber_parses (hp : s.p < data.length) : Parses data alloc (jsonNumber data alloc) s 1
    ((Dtl.jsonNumber (data.drop s.p)).map fun q => (.num q.1, q.2)) := by
  have hcons : data.drop s.p = data[s.p] :: data.drop (s.p + 1) := List.drop_eq_getElem_cons hp
  refine Parses.ask ?_
  refine Parses.step (jsonMinus_parses hp.le hcons) fun s₁ hm₁ hs₁ => ?_
  have hdigits : Parses data alloc (jsonDigits data) s₁ 1 _ := jsonDigits_parses hm₁.within
  by_cases hd : (data.drop s₁.p).takeWhile isDigit = []
  · rw [if_pos hd] at hdigits
    dsimp only [Dtl.jsonNumber]
    rw [← hs₁, if_pos hd]
    exact hdigits.stop
  rw [if_neg hd] at hdigits
  refine Parses.step hdigits fun s₂ hm₂ hs₂ => ?_
  refine Parses.step (jsonFraction_parses hm₂.within) fun s₃ hm₃ hs₃ => ?_
  refine Parses.step (jsonExponent_parses hm₃.within) fun s₄ hm₄ hs₄ => Parses.ask ?_
  refine Parses.step (jsonRequest_parses hm₄.within) fun s₅ hm₅ hs₅ => ?_
  have hmoved := (((hm₁.trans hm₂).trans hm₃).trans hm₄).ahead
  have hle := hm₄.within
  refine Parses.step (jsonBytes_parses hm₅.within (by omega)) fun s₆ hm₆ hs₆ => ?_
  refine Parses.step (jsonRequest_parses hm₆.within) fun s₇ hm₇ hs₇ => ?_
  have hnum : ∃ txt, Dtl.jsonNumber (data.drop s.p) = some (txt, data.drop s₄.p) := by
    dsimp only [Dtl.jsonNumber]
    rw [← hs₁, if_neg hd, ← hs₂, ← hs₃, ← hs₄]
    exact ⟨_, rfl⟩
  rcases hnum with ⟨txt, hnum⟩
  have htext : txt = (data.drop s.p).take (s₄.p - s.p) := by
    have happend := jsonNumber_append hnum
    have hlen := congrArg List.length happend
    simp only [List.length_append, List.length_drop] at hlen
    rw [← happend, List.take_left' (by omega)]
  rw [hnum, Option.map_some, htext]
  exact .ret hm₇.within (by rw [hs₇, hs₆, hs₅])

/-- A word that the text starts with. -/
theorem jsonWord_parses {word : String} {value : Json} (hp : s.p ≤ data.length)
    (hword : 0 < (ascii word).length) : Parses data alloc (jsonWord data alloc word value) s 1
    (Dtl.jsonWord word value (data.drop s.p)) := by
  refine Parses.ask (Parses.ask ?_)
  rw [Dtl.jsonWord]
  refine Parses.ite (fun h => ?_) fun h => ?_
  · have hshort : (data.drop s.p).take (ascii word).length ≠ ascii word := by
      intro htake
      have := congrArg List.length htake
      simp only [List.length_take, List.length_drop] at this
      omega
    rw [if_neg hshort]
    exact .null hp
  refine Parses.step (jsonBytes_parses hp (by omega)) fun s₁ hm₁ hs₁ => ?_
  refine Parses.ite (fun htake => ?_) fun htake => ?_
  · have happend : data.drop s₁.p = ascii word ++ (data.drop s.p).drop (ascii word).length := by
      rw [hs₁]
      conv_lhs => rw [← List.take_append_drop (ascii word).length (data.drop s.p), htake]
    rw [if_pos htake]
    refine Parses.step ((jsonAdvance_parses hm₁.within happend).mono hword) fun s₂ hm₂ hs₂ => ?_
    refine Parses.step (jsonRequest_parses hm₂.within) fun s₃ hm₃ hs₃ => ?_
    exact .ret hm₃.within (hs₃.trans hs₂)
  · rw [if_neg htake]
    exact .null hm₁.within

theorem jsonExpect_parses {c : UInt8} (hp : s.p ≤ data.length) :
    Parses data alloc (jsonExpect data c) s 0
      (match Dtl.jsonSkipWs (data.drop s.p) with
        | [] => none
        | d :: p => if d = c then some ((), p) else none) := by
  refine Parses.step (jsonSkipWs_parses hp) fun s₁ hm₁ hs₁ => ?_
  rw [← hs₁]
  refine Parses.step (jsonLook_parses hm₁.within) fun s₂ hm₂ hs₂ => ?_
  rw [← hs₂]
  rcases htext : data.drop s₂.p with _ | ⟨d, p⟩
  · exact .null hm₂.within
  · simp only [List.head?_cons, Option.some.injEq]
    exact Parses.branch (fun _ => (jsonStep_parses hm₂.within htext).mono (Nat.zero_le 1))
      fun _ => .null hm₂.within

end Parser

end Machine

end Dtl
