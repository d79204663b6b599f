import TelemetryForge.Report.Printed

/-!
# Importing a JSON export

The exporter writes an object as a list of members.  `Reads item text x` says that a parser reads `x`
off `text` whatever delimiter follows; a `JsonMember` is a key with a value text and the proof that it
is read as its value, so that the text of members is read back member by member.

A string comes back up to its first NUL, which is escaped in the text but ends the string in memory.

Principal results: `jsonChars_string` — escaped strings are read back; `reads_object`, `jsonRoot_text`
— the exported text is read back as the members of its records; `jimportRecord_members` — these stand
for the record, its string cut at the first NUL; `exportJson_import_iff` — when importing a JSON export
gives the records back.
-/

set_option autoImplicit false

namespace Dtl

open CText

/-! ## Strings -/

/-- Four hexadecimal digits of a control character. -/
theorem hexPad_control : ∀ n < 32, hexPad 4 n = [48, 48, hexDigit (n / 16), hexDigit (n % 16)] := by
  decide +kernel

theorem jsonUnicode_control : ∀ n < 32,
    jsonUnicode 48 48 (hexDigit (n / 16)) (hexDigit (n % 16)) = some (UInt8.ofNat n) := by
  decide +kernel

theorem jsonChars_close (p : Bytes) : jsonChars (34 :: p) = some ([], p) := by
  rw [jsonChars.eq_def]
  rfl

theorem jsonChars_unescape {c c' : UInt8} (h : c ≠ 117) (hc : jsonUnescape c = some c') (p : Bytes) :
    jsonChars (92 :: c :: p) = jsonStore c' (jsonChars p) := by
  rw [jsonChars.eq_def]
  dsimp only
  rw [if_neg (by decide), if_pos rfl, if_neg h, hc, Option.bind_some]

theorem jsonChars_unicode {h0 h1 h2 h3 c : UInt8} (hc : jsonUnicode h0 h1 h2 h3 = some c) (p : Bytes) :
    jsonChars (92 :: 117 :: h0 :: h1 :: h2 :: h3 :: p) = jsonStore c (jsonChars p) := by
  rw [jsonChars.eq_def]
  dsimp only
  rw [if_neg (by decide), if_pos rfl, if_pos rfl, hc, Option.bind_some]

/-- An escaped character is read back. -/
theorem jsonChars_escape (c : UInt8) (p : Bytes) :
    jsonChars (jsonEscape c ++ p) = jsonStore c (jsonChars p) := by
  unfold jsonEscape
  split
  · rename_i h
    subst h
    exact jsonChars_unescape (by decide) rfl p
  rename_i h34
  split
  · rename_i h
    subst h
    exact jsonChars_unescape (by decide) rfl p
  rename_i h92
  split
  · rename_i h
    subst h
    exact jsonChars_unescape (by decide) rfl p
  split
  · rename_i h
    subst h
    exact jsonChars_unescape (by decide) rfl p
  split
  · rename_i h
    subst h
    exact jsonChars_unescape (by decide) rfl p
  split
  · rename_i hlt
    have hn : c.toNat < 32 := UInt8.lt_iff_toNat_lt.mp hlt
    have hc := jsonUnicode_control _ hn
    rw [UInt8.ofNat_toNat] at hc
    rw [hexPad_control _ hn]
    exact jsonChars_unicode hc p
  · rw [List.singleton_append, jsonChars.eq_def]
    dsimp only
    rw [if_neg h34, if_neg h92]

/-- **Escaped strings are read back.** -/
theorem jsonChars_string (s rest : Bytes) :
    jsonChars (s.flatMap jsonEscape ++ 34 :: rest) = some (s, rest) := by
  induction s with
  | nil => exact jsonChars_close rest
  | cons c s ih =>
    rw [List.flatMap_cons, List.append_assoc, jsonChars_escape, ih]
    rfl

theorem jsonString_export (s rest : Bytes) :
    jsonString (s.flatMap jsonEscape ++ 34 :: rest) = some (cstr s, rest) := by
  rw [jsonString, jsonChars_string]
  rfl

/-! ## Values -/

/-- What follows a value: a comma, a closing bracket or a newline. -/
def JsonEnd (rest : Bytes) : Prop := ∃ c p, rest = c :: p ∧ (c = 44 ∨ c = 125 ∨ c = 93 ∨ c = 10)

/-- The parser reads `x` off the text, whatever follows. -/
def Reads {α : Type} (item : Bytes → Option (α × Bytes)) (text : Bytes) (x : α) : Prop :=
  ∀ rest, JsonEnd rest → item (text ++ rest) = some (x, rest)

/-- The white space that is skipped. -/
def isWs (c : UInt8) : Bool := c = 32 || c = 9 || c = 10 || c = 13

theorem jsonSkipWs_cons {c : UInt8} (h : isWs c = false) (p : Bytes) : jsonSkipWs (c :: p) = c :: p :=
  List.dropWhile_cons_of_neg (by simpa [isWs] using h)

theorem jsonSkipWs_append {ws : Bytes} (h : ∀ c ∈ ws, isWs c = true) (p : Bytes) :
    jsonSkipWs (ws ++ p) = jsonSkipWs p :=
  List.dropWhile_append_of_pos h

/-- A digit starts none of the other values. -/
theorem isDigit_start {c : UInt8} (h : isDigit c = true ∨ c = 45) : isWs c = false ∧ c ≠ 123 ∧ c ≠ 91 ∧
    c ≠ 34 ∧ c ≠ 116 ∧ c ≠ 102 ∧ c ≠ 110 := by
  rcases h with h | rfl
  · refine ⟨?_, ?_, ?_, ?_, ?_, ?_, ?_⟩
    · have hne : c ≠ 32 ∧ c ≠ 9 ∧ c ≠ 10 ∧ c ≠ 13 := by
        refine ⟨?_, ?_, ?_, ?_⟩ <;>
          · rintro rfl
            exact absurd h (by decide)
      simp [isWs, hne]
    all_goals
      rintro rfl
      exact absurd h (by decide)
  · decide

/-- A text that is scanned as a number. -/
structure IsNumeral (text : Bytes) : Prop where
  head : ∃ c p, text = c :: p ∧ (isDigit c = true ∨ c = 45)
  scans : Reads jsonNumber text text

theorem reads_numeral (d : Nat) {text : Bytes} (h : IsNumeral text) :
    Reads (jsonValue (d + 1)) text (.num text) := by
  intro rest hrest
  obtain ⟨c, p, rfl, hc⟩ := h.head
  obtain ⟨h0, h1, h2, h3, h4, h5, h6⟩ := isDigit_start hc
  have hscan := h.scans rest hrest
  rw [List.cons_append] at hscan ⊢
  rw [jsonValue, jsonSkipWs_cons h0]
  dsimp only
  rw [if_neg h1, if_neg h2, if_neg h3, if_neg h4, if_neg h5, if_neg h6, hscan]
  rfl

/-- No number goes on at a delimiter. -/
theorem JsonEnd.stops {rest : Bytes} (h : JsonEnd rest) : NoDigit rest ∧
    jsonFraction rest = ([], rest) ∧ jsonExponent rest = ([], rest) := by
  obtain ⟨c, p, rfl, rfl | rfl | rfl | rfl⟩ := h
  all_goals exact ⟨rfl, rfl, rfl⟩

theorem takeWhile_decimal (n : Nat) {rest : Bytes} (h : NoDigit rest) :
    (decimal n ++ rest).takeWhile isDigit = decimal n ∧
      (decimal n ++ rest).dropWhile isDigit = rest := by
  have hall := decimal_isDigit n
  rw [List.takeWhile_append_of_pos hall, List.dropWhile_append_of_pos hall]
  cases rest with
  | nil => simp
  | cons c p =>
    have hc : isDigit c = false := h
    simp [hc]

theorem decimal_numeral (n : Nat) : IsNumeral (decimal n) := by
  constructor
  · cases hd : decimal n with
    | nil => exact absurd hd (decimal_ne_nil n)
    | cons c p => exact ⟨c, p, rfl, .inl (decimal_isDigit n c (by rw [hd]; simp))⟩
  · intro rest hrest
    obtain ⟨h1, h2, h3⟩ := hrest.stops
    obtain ⟨htake, hdrop⟩ := takeWhile_decimal n h1
    have hminus : jsonMinus (decimal n ++ rest) = ([], decimal n ++ rest) := by
      cases hd : decimal n with
      | nil => exact absurd hd (decimal_ne_nil n)
      | cons c p =>
        have hc := (isDigit_ne (decimal_isDigit n c (by rw [hd]; simp))).2.1
        rw [List.cons_append, jsonMinus, if_neg hc]
    rw [jsonNumber, hminus]
    dsimp only
    rw [htake, hdrop, if_neg (decimal_ne_nil n), h2]
    dsimp only
    rw [h3]
    simp

theorem decimalInt_numeral (i : Int) : IsNumeral (decimalInt i) := by
  unfold decimalInt
  split
  · refine ⟨⟨45, _, rfl, .inr rfl⟩, ?_⟩
    intro rest hrest
    obtain ⟨h1, h2, h3⟩ := hrest.stops
    obtain ⟨htake, hdrop⟩ := takeWhile_decimal i.natAbs h1
    rw [List.cons_append, jsonNumber, jsonMinus, if_pos rfl]
    dsimp only
    rw [htake, hdrop, if_neg (decimal_ne_nil _), h2]
    dsimp only
    rw [h3]
    simp
  · exact decimal_numeral _

theorem reads_string (d : Nat) (s : Bytes) :
    Reads (jsonValue (d + 1)) (exportJsonString s) (.str (cstr s)) := by
  intro rest _
  rw [exportJsonString, List.cons_append, List.append_assoc, List.singleton_append, jsonValue,
    jsonSkipWs_cons (by decide)]
  dsimp only
  rw [if_neg (by decide), if_neg (by decide), if_pos rfl, jsonString_export]
  rfl

theorem reads_bool (d : Nat) (b : Bool) : Reads (jsonValue (d + 1)) (jsonBoolText b) (.bool b) := by
  intro rest _
  cases b with
  | false => rfl
  | true => rfl

/-- A string that needs no escape. -/
theorem exportJsonString_plain {s : Bytes} (h : ∀ c ∈ s, jsonEscape c = [c]) :
    exportJsonString s = 34 :: (s ++ [34]) := by
  have hflat : s.flatMap jsonEscape = s := by
    induction s with
    | nil => rfl
    | cons c s ih =>
      rw [List.forall_mem_cons] at h
      rw [List.flatMap_cons, h.1, ih h.2]
      rfl
  rw [exportJsonString, hflat]

/-- White space before a value is skipped. -/
theorem reads_ws {d : Nat} {ws text : Bytes} {v : Json} (hws : ∀ c ∈ ws, isWs c = true)
    (h : Reads (jsonValue d) text v) : Reads (jsonValue d) (ws ++ text) v := by
  intro rest hrest
  have hvalue := h rest hrest
  cases d with
  | zero => cases hvalue
  | succ d =>
    rw [List.append_assoc]
    rw [jsonValue] at hvalue ⊢
    rwa [jsonSkipWs_append hws]

/-! ## Lists of items -/

section Items

variable {α : Type} {item : Bytes → Option (α × Bytes)} {close : UInt8}

theorem commaJoin_length : ∀ ts : List Bytes, ts.length ≤ (commaJoin ts).length + 1
  | [] => Nat.zero_le _
  | [t] => by simp
  | t :: u :: ts => by
    have ih := commaJoin_length (u :: ts)
    have hjoin : commaJoin (t :: u :: ts) = t ++ 44 :: commaJoin (u :: ts) := rfl
    rw [hjoin, List.length_append, List.length_cons, List.length_cons (a := 44)]
    omega

/-- The item loop reads items with commas in between, up to the closing bracket. -/
theorem jsonItems_reads (hclose : close ≠ 44) {tail rest : Bytes} (htail : JsonEnd tail)
    (hskip : jsonSkipWs tail = close :: rest) : ∀ {texts : List Bytes} {xs : List α} {fuel : Nat},
    List.Forall₂ (Reads item) texts xs → texts ≠ [] → texts.length ≤ fuel →
      jsonItems item close fuel (commaJoin texts ++ tail) = some (xs, rest)
  | [], _, _, _, hne, _ => absurd rfl hne
  | _ :: _, _, 0, _, _, hfuel => by simp at hfuel
  | [t], _, fuel + 1, .cons hx .nil, _, _ => by
    show jsonItems item close (fuel + 1) (t ++ tail) = _
    rw [jsonItems, hx tail htail]
    simp only [Option.bind_eq_bind, Option.bind_some, hskip, if_neg hclose, if_pos]
  | t :: u :: ts, x :: xs, fuel + 1, .cons hx hxs, _, hfuel => by
    have ih : jsonItems item close fuel (commaJoin (u :: ts) ++ tail) = some (xs, rest) :=
      jsonItems_reads hclose htail hskip hxs (by simp) (by simpa using hfuel)
    have hjoin : commaJoin (t :: u :: ts) ++ tail = t ++ 44 :: (commaJoin (u :: ts) ++ tail) := by
      show (t ++ 44 :: commaJoin (u :: ts)) ++ tail = _
      simp
    rw [hjoin, jsonItems, hx _ ⟨44, _, rfl, .inl rfl⟩]
    simp only [Option.bind_eq_bind, Option.bind_some, jsonSkipWs_cons (c := 44) (by decide), if_true, ih]
    rfl

/-- Arrays and objects that are not empty. -/
theorem jsonList_reads (hclose : close ≠ 44) {p tail rest : Bytes} {texts : List Bytes} {xs : List α}
    (htail : JsonEnd tail) (hskip : jsonSkipWs tail = close :: rest)
    (hp : jsonSkipWs p = commaJoin texts ++ tail)
    (hhead : (commaJoin texts ++ tail).head? ≠ some close) (hxs : List.Forall₂ (Reads item) texts xs)
    (hne : texts ≠ []) : jsonList item close p = some (xs, rest) := by
  have hlen := commaJoin_length texts
  have hfuel : texts.length ≤ (commaJoin texts ++ tail).length := by
    obtain ⟨c, q, rfl, -⟩ := htail
    rw [List.length_append, List.length_cons]
    omega
  have hitems := jsonItems_reads hclose htail hskip hxs hne hfuel
  rw [jsonList, hp]
  revert hhead hitems
  generalize commaJoin texts ++ tail = q
  intro hhead hitems
  cases q with
  | nil => cases (hitems : jsonItems item close 0 [] = _)
  | cons c q =>
    dsimp only
    rw [if_neg (by simpa using hhead)]
    exact hitems

theorem jsonList_empty {p rest : Bytes} (hp : jsonSkipWs p = close :: rest) :
    jsonList item close p = some ([], rest) := by
  rw [jsonList, hp]
  dsimp only
  rw [if_pos rfl]

end Items

/-! ## Members and objects -/

/-- A key and a value text that is read as its value, `d` levels being left. -/
structure JsonMember (d : Nat) where
  key : Bytes
  text : Bytes
  value : Json
  reads : Reads (jsonValue d) text value

variable {d : Nat}

/-- The member as it is written. -/
def JsonMember.whole (m : JsonMember d) : Bytes := exportJsonString m.key ++ 58 :: m.text

/-- The member as it is read. -/
def JsonMember.pair (m : JsonMember d) : CStr × Json := (cstr m.key, m.value)

/-- The text of an object. -/
def objectText (ms : List (JsonMember d)) : Bytes :=
  123 :: (commaJoin (ms.map JsonMember.whole) ++ [125])

theorem reads_member (m : JsonMember d) : Reads (jsonMember (jsonValue d)) m.whole m.pair := by
  intro rest hrest
  have hvalue := m.reads rest hrest
  rw [JsonMember.whole, exportJsonString, jsonMember]
  simp only [List.cons_append, List.append_assoc, List.nil_append]
  rw [jsonSkipWs_cons (by decide)]
  dsimp only
  rw [if_pos rfl, jsonString_export]
  simp only [Option.bind_eq_bind, Option.bind_some]
  rw [jsonSkipWs_cons (by decide)]
  dsimp only
  rw [if_pos rfl, hvalue]
  rfl

/-- **The text of members is read back as an object.** -/
theorem reads_object (ms : List (JsonMember d)) :
    Reads (jsonValue (d + 1)) (objectText ms) (.obj (ms.map JsonMember.pair)) := by
  intro rest _
  have hlist : jsonList (jsonMember (jsonValue d)) 125 (commaJoin (ms.map JsonMember.whole) ++ 125 :: rest) =
      some (ms.map JsonMember.pair, rest) := by
    cases ms with
    | nil => exact jsonList_empty (jsonSkipWs_cons (by decide) rest)
    | cons m ms =>
      have hhead : ∃ q, commaJoin ((m :: ms).map JsonMember.whole) ++ 125 :: rest = 34 :: q := by
        rw [List.map_cons, commaJoin_cons, JsonMember.whole, exportJsonString]
        exact ⟨_, rfl⟩
      obtain ⟨q, hq⟩ := hhead
      have hne : (m :: ms).map JsonMember.whole ≠ [] := by simp
      refine jsonList_reads (by decide) ⟨125, rest, rfl, .inr (.inl rfl)⟩ (jsonSkipWs_cons (by decide) rest)
        ?_ ?_ ?_ hne
      · rw [hq, jsonSkipWs_cons (by decide)]
      · rw [hq]
        simp
      · rw [List.forall₂_map_left_iff, List.forall₂_map_right_iff, List.forall₂_same]
        intro m' _
        exact reads_member m'
  rw [objectText, List.cons_append, List.append_assoc, List.singleton_append, jsonValue,
    jsonSkipWs_cons (by decide)]
  dsimp only
  rw [if_pos rfl, hlist]
  rfl

/-! ## The members of a record -/

/-- A number. -/
def numMember (key : String) {text : Bytes} (h : IsNumeral text) : JsonMember (d + 1) :=
  ⟨ascii key, text, .num text, reads_numeral d h⟩

/-- A string with its escapes. -/
def strMember (key : String) (s : Bytes) : JsonMember (d + 1) :=
  ⟨ascii key, exportJsonString s, .str (cstr s), reads_string d s⟩

/-- A string that is written as it is. -/
def rawMember (key : String) (s : Bytes) (h : ∀ c ∈ s, jsonEscape c = [c]) : JsonMember (d + 1) :=
  ⟨ascii key, 34 :: (s ++ [34]), .str (cstr s), exportJsonString_plain h ▸ reads_string d s⟩

def boolMember (key : String) (b : Bool) : JsonMember (d + 1) :=
  ⟨ascii key, jsonBoolText b, .bool b, reads_bool d b⟩

/-- An array without items. -/
def emptyMember (key : String) : JsonMember (d + 1) :=
  ⟨ascii key, [91, 93], .arr [], fun rest _ => by
    show jsonValue (d + 1) (91 :: 93 :: rest) = _
    rw [jsonValue, jsonSkipWs_cons (by decide)]
    dsimp only
    rw [if_neg (by decide), if_pos rfl, jsonList_empty (jsonSkipWs_cons (by decide) rest)]
    rfl⟩

/-- An object. -/
def objMember (key : String) (ms : List (JsonMember d)) : JsonMember (d + 1) :=
  ⟨ascii key, objectText ms, .obj (ms.map JsonMember.pair), reads_object ms⟩

/-- The pair of a `CONFIG` record. -/
def pairMember (p : ConfigPair) : JsonMember (d + 1) :=
  ⟨p.key.val, exportJsonString p.value.val, .str (cstr p.value.val), reads_string d p.value.val⟩

theorem digit_plain {c : UInt8} (h : isDigit c = true) : jsonEscape c = [c] := by
  have hge : (48 : UInt8) ≤ c := by
    simp only [isDigit, Bool.and_eq_true, decide_eq_true_eq] at h
    exact h.1
  have hne : c ≠ 34 ∧ c ≠ 92 ∧ c ≠ 10 ∧ c ≠ 13 ∧ c ≠ 9 := by
    refine ⟨?_, ?_, ?_, ?_, ?_⟩ <;>
      · rintro rfl
        exact absurd h (by decide)
  have hlt : ¬ c < 0x20 := fun h' => absurd (UInt8.lt_of_le_of_lt hge h') (by decide)
  simp [jsonEscape, hne, hlt]

theorem hexDigit_plain : ∀ n < 16, jsonEscape (hexDigit n) = [hexDigit n] := by decide

theorem hexText_plain (bs : Bytes) : ∀ c ∈ hexText bs, jsonEscape c = [c] := by
  intro c hc
  obtain ⟨b, -, hb⟩ := List.mem_flatMap.mp hc
  have hlt := b.toNat_lt
  rw [hexPad_byte, List.mem_cons, List.mem_singleton] at hb
  rcases hb with rfl | rfl
  · exact hexDigit_plain _ (by omega)
  · exact hexDigit_plain _ (by omega)

theorem walkTagName_plain (tag : UInt8) : ∀ c ∈ ascii (walkTagName tag), jsonEscape c = [c] := by
  intro c hc
  exact of_decide_eq_true (walkTagName_all (p := fun c => jsonEscape c = [c]) (by decide) tag c hc)

/-- The version string of a `FIRMWARE` record. -/
def versionText (major minor patch : Nat) : Bytes :=
  decimal major ++ (46 :: (decimal minor ++ 46 :: decimal patch))

theorem versionText_plain (major minor patch : Nat) :
    ∀ c ∈ versionText major minor patch, jsonEscape c = [c] := by
  intro c hc
  have hnum : ∀ n, c ∈ decimal n → jsonEscape c = [c] := fun n h => digit_plain (decimal_isDigit n c h)
  simp only [versionText, List.mem_append, List.mem_cons] at hc
  rcases hc with hc | rfl | hc | rfl | hc
  · exact hnum _ hc
  · rfl
  · exact hnum _ hc
  · rfl
  · exact hnum _ hc

/-- The members that follow index, tag and type. -/
def jsonTail : Record → List (JsonMember 63)
  | .heartbeat r => [numMember "uptime_s" (decimal_numeral r.uptimeS.toNat),
      numMember "seq" (decimal_numeral r.seq.toNat)]
  | .sensor r => [numMember "sensor_id" (decimal_numeral r.sensorId.toNat), emptyMember "samples"]
  | .event r => [numMember "code" (decimal_numeral r.code.toNat),
      rawMember "payload_hex" (hexText (r.payload.take r.payloadLen.toNat)) (hexText_plain _)]
  | .diag r => [numMember "subsystem" (decimal_numeral r.subsystem.toNat),
      boolMember "redacted" (r.redacted ≠ 0),
      rawMember "blob_hex" (hexText (r.blob.take (if r.redacted ≠ 0 then 0 else r.blobLen.toNat)))
        (hexText_plain _)]
  | .geo r => [numMember "lat_e7" (decimalInt_numeral r.latE7.toInt),
      numMember "lon_e7" (decimalInt_numeral r.lonE7.toInt),
      numMember "alt_mm" (decimalInt_numeral r.altMm.toInt)]
  | .battery r => [numMember "pct" (decimal_numeral r.pct.toNat),
      numMember "temp_c_e1" (decimalInt_numeral r.tempCE1.toInt),
      numMember "cycles" (decimal_numeral r.cycles.toNat)]
  | .net r => [numMember "iface_id" (decimal_numeral r.ifaceId.toNat),
      numMember "rx_bytes" (decimal_numeral r.rxBytes.toNat),
      numMember "tx_bytes" (decimal_numeral r.txBytes.toNat),
      numMember "rx_pkts" (decimal_numeral r.rxPkts.toNat),
      numMember "tx_pkts" (decimal_numeral r.txPkts.toNat)]
  | .log r => [numMember "severity" (decimal_numeral r.severity.toNat),
      strMember "msg" (r.msg.take r.msgLen.toNat)]
  | .config r => [objMember "pairs" ((r.pairs.take r.pairCount.toNat).map pairMember)]
  | .keyref r => [numMember "slot_id" (decimal_numeral r.slotId.toNat),
      boolMember "redacted" (r.redacted ≠ 0),
      strMember "label" (r.label.take (if r.redacted ≠ 0 then 0 else r.labelLen.toNat))]
  | .firmware r => [rawMember "version" (versionText r.major.toNat r.minor.toNat r.patch.toNat)
        (versionText_plain _ _ _),
      rawMember "hash_hex" (hexText r.hash.val) (hexText_plain _)]
  | .other _ _ => []

/-- The members of an exported object, of a record without samples. -/
def jsonMembers (rec : Record) (index : Nat) : List (JsonMember 63) :=
  numMember "index" (decimal_numeral index) :: numMember "tag" (decimal_numeral rec.tag.toNat) ::
    rawMember "type" (ascii (walkTagName rec.tag)) (walkTagName_plain _) :: jsonTail rec

/-- The exporter writes the members. -/
theorem exportJsonRecord_eq {ft : FloatText} {rec : Record} {index : Nat} (h : rec.NoSamples)
    (first : Bool) : exportJsonRecord ft rec index first =
      (if first then [] else [44]) ++ (ascii "\n  " ++ objectText (jsonMembers rec index)) := by
  have hcomma : (if first then [] else ascii ",") = (if first then [] else [44] : Bytes) := rfl
  rw [exportJsonRecord, hcomma]
  congr 1
  cases rec with
  | sensor r =>
    have hs : r.samples = [] := h
    simp only [exportJsonKvTail, hs, List.take_nil, List.map_nil, List.append_assoc, objectText,
      jsonMembers, jsonTail, List.map_cons, commaJoin, JsonMember.whole, numMember, rawMember,
      emptyMember, List.cons_append]
    rfl
  | config r =>
    have hpairs : ∀ ps : List ConfigPair, (ps.map pairMember).map (JsonMember.whole (d := 62)) =
        ps.map fun p => exportJsonString p.key.val ++ 58 :: exportJsonString p.value.val := by
      intro ps
      rw [List.map_map]
      rfl
    simp only [exportJsonKvTail, List.append_assoc, objectText, jsonMembers, jsonTail, List.map_cons,
      List.map_nil, commaJoin, JsonMember.whole, numMember, rawMember, objMember, hpairs,
      List.cons_append]
    rfl
  | _ =>
    simp only [exportJsonKvTail, List.append_assoc, objectText, jsonMembers, jsonTail, List.map_cons,
      List.map_nil, commaJoin, JsonMember.whole, numMember, rawMember, strMember, boolMember,
      versionText, List.cons_append]
    rfl

/-! ## Importing the members -/

/-- The record with its explicit-length string cut at the first NUL. -/
def Record.cutNul : Record → Record
  | .log r => .log ⟨r.severity, UInt16.ofNat (cstr r.msg).val.length, (cstr r.msg).val⟩
  | .keyref r => .keyref ⟨r.slotId, UInt8.ofNat (cstr r.label).val.length, (cstr r.label).val, r.redacted⟩
  | rec => rec

/-- No message and no label has a NUL byte in it. -/
def Record.NulFree : Record → Prop
  | .log r => (0 : UInt8) ∉ r.msg
  | .keyref r => (0 : UInt8) ∉ r.label
  | _ => True

theorem Record.cutNul_eq_iff {rec : Record} (h : rec.WellFormed) : rec.cutNul = rec ↔ rec.NulFree := by
  cases rec with
  | log r =>
    obtain ⟨severity, msgLen, msg⟩ := r
    have hlen : msg.length = msgLen.toNat := h
    simp only [cutNul, NulFree, Record.log.injEq, Log.mk.injEq, true_and]
    constructor
    · rintro ⟨-, hmsg⟩
      exact (cstr_eq_iff msg).mp hmsg
    · intro hnul
      rw [cstr_of_not_mem hnul, hlen]
      simp
  | keyref r =>
    obtain ⟨slotId, labelLen, label, redacted⟩ := r
    have hlen : label.length = labelLen.toNat := h
    simp only [cutNul, NulFree, Record.keyref.injEq, Keyref.mk.injEq, true_and, and_true]
    constructor
    · rintro ⟨-, hlabel⟩
      exact (cstr_eq_iff label).mp hlabel
    · intro hnul
      rw [cstr_of_not_mem hnul, hlen]
      simp
  | _ => exact iff_of_true rfl trivial

section Object

variable {obj : Json} {key : String}

theorem jsonU32_u32 {v : UInt32} (h : jsonGet obj key = some (.num (decimal v.toNat))) :
    jsonU32 obj key = some v := by
  rw [jsonU32, h]
  exact fieldU32_u32 v

theorem jsonU32_u16 {v : UInt16} (h : jsonGet obj key = some (.num (decimal v.toNat))) :
    jsonU32 obj key = some v.toUInt32 := by
  rw [jsonU32, h]
  exact fieldU32_u16 v

theorem jsonU32_u8 {v : UInt8} (h : jsonGet obj key = some (.num (decimal v.toNat))) :
    jsonU32 obj key = some v.toUInt32 := by
  rw [jsonU32, h]
  exact fieldU32_u8 v

theorem jsonI32_i32 {v : Int32} (h : jsonGet obj key = some (.num (decimalInt v.toInt))) :
    jsonI32 obj key = some v := by
  rw [jsonI32, h]
  exact fieldI32_i32 v

theorem jsonI32_i16 {v : Int16} (h : jsonGet obj key = some (.num (decimalInt v.toInt))) :
    jsonI32 obj key = some v.toInt32 := by
  rw [jsonI32, h]
  exact fieldI32_i16 v

end Object

/-- The object of a record, as it is read. -/
def jsonObject (rec : Record) (index : Nat) : Json := .obj ((jsonMembers rec index).map JsonMember.pair)

/-- The tag selects the importer of its type. -/
theorem jimportRecord_tag (ft : FloatText) (rec : Record) (index : Nat) :
    jimportRecord ft (jsonObject rec index) = jsonRecord ft (jsonObject rec index) rec.tag := by
  have htag : jsonU32 (jsonObject rec index) "tag" = some rec.tag.toUInt32 := jsonU32_u8 rfl
  have hle : ¬ rec.tag.toUInt32 > 0xFF := u8_in_range rec.tag
  rw [jimportRecord, htag, orBad, Except.bind_ok_eq, failIf_neg hle, Except.bind_ok_eq]
  simp

theorem jimportRecord_heartbeat (ft : FloatText) (r : Heartbeat) (index : Nat) :
    jimportRecord ft (jsonObject (.heartbeat r) index) = .ok (.heartbeat r) := by
  rw [jimportRecord_tag]
  show jsonHeartbeat _ = _
  rw [jsonHeartbeat, jsonU32_u32 (v := r.uptimeS) rfl, orBad, Except.bind_ok_eq,
    jsonU32_u32 (v := r.seq) rfl]
  rfl

theorem jimportRecord_log (ft : FloatText) {r : Log} (index : Nat) (hw : (Record.log r).WellFormed) :
    jimportRecord ft (jsonObject (.log r) index) = .ok (Record.log r).cutNul := by
  obtain ⟨severity, msgLen, msg⟩ := r
  have hlen : msg.length = msgLen.toNat := hw
  have hlt := msgLen.toNat_lt
  have hle := cstr_length_le msg
  have hmsg : jsonStr (jsonObject (.log ⟨severity, msgLen, msg⟩) index) "msg" = some (cstr msg) := by
    show some (cstr (msg.take msgLen.toNat)) = _
    rw [← hlen, List.take_length]
  rw [jimportRecord_tag]
  show jsonLog _ = _
  rw [jsonLog, jsonU32_u8 (v := severity) rfl, orBad, Except.bind_ok_eq, failIf_neg (u8_in_range _),
    Except.bind_ok_eq, hmsg, orBad, Except.bind_ok_eq, failIf_neg (by omega)]
  simp [Record.cutNul]

theorem jimportRecord_geo (ft : FloatText) (r : Geo) (index : Nat) :
    jimportRecord ft (jsonObject (.geo r) index) = .ok (.geo r) := by
  rw [jimportRecord_tag]
  show jsonGeo _ = _
  rw [jsonGeo, jsonI32_i32 (v := r.latE7) rfl, orBad, Except.bind_ok_eq, jsonI32_i32 (v := r.lonE7) rfl,
    orBad, Except.bind_ok_eq, jsonI32_i32 (v := r.altMm) rfl]
  rfl

theorem jimportRecord_battery (ft : FloatText) (r : Battery) (index : Nat) :
    jimportRecord ft (jsonObject (.battery r) index) = .ok (.battery r) := by
  rw [jimportRecord_tag]
  show jsonBattery _ = _
  rw [jsonBattery, jsonU32_u8 (v := r.pct) rfl, orBad, Except.bind_ok_eq,
    jsonI32_i16 (v := r.tempCE1) rfl, orBad, Except.bind_ok_eq, jsonU32_u32 (v := r.cycles) rfl, orBad,
    Except.bind_ok_eq, failIf_neg (not_or.mpr ⟨u8_in_range _, i16_in_range _⟩)]
  simp

theorem jimportRecord_net (ft : FloatText) (r : Net) (index : Nat) :
    jimportRecord ft (jsonObject (.net r) index) = .ok (.net r) := by
  rw [jimportRecord_tag]
  show jsonNet _ = _
  rw [jsonNet, jsonU32_u8 (v := r.ifaceId) rfl, orBad, Except.bind_ok_eq,
    jsonU32_u32 (v := r.rxBytes) rfl, orBad, Except.bind_ok_eq, jsonU32_u32 (v := r.txBytes) rfl, orBad,
    Except.bind_ok_eq, jsonU32_u32 (v := r.rxPkts) rfl, orBad, Except.bind_ok_eq,
    jsonU32_u32 (v := r.txPkts) rfl, orBad, Except.bind_ok_eq, failIf_neg (u8_in_range _)]
  simp

theorem jimportRecord_sensor (ft : FloatText) {r : Sensor} (index : Nat)
    (hw : (Record.sensor r).WellFormed) (hs : (Record.sensor r).NoSamples) :
    jimportRecord ft (jsonObject (.sensor r) index) = .ok (.sensor r) := by
  obtain ⟨id, count, samples⟩ := r
  have hnil : samples = [] := hs
  subst hnil
  have hcount : count = 0 := by
    rw [← UInt8.toNat_inj]
    exact (show [].length = count.toNat from hw).symm
  subst hcount
  have hsamples : jsonGet (jsonObject (.sensor ⟨id, 0, []⟩) index) "samples" = some (.arr []) := rfl
  rw [jimportRecord_tag]
  show jsonSensor ft _ = _
  rw [jsonSensor, jsonU32_u16 (v := id) rfl, orBad, Except.bind_ok_eq, failIf_neg (u16_in_range _),
    Except.bind_ok_eq, hsamples]
  dsimp only
  rw [failIf_neg (by simp), jsonSamples]
  simp

/-- Hexadecimal text is its own C string, and is read back. -/
theorem jsonHex_hexText (bs : Bytes) : jsonHex (cstr (hexText bs)) = some bs := by
  have hnul : (0 : UInt8) ∉ hexText bs := fun h0 => absurd (hexText_plain bs 0 h0) (by decide)
  rw [jsonHex, cstr_of_not_mem hnul, fieldHex_hexText (by rw [hexText_length]; omega)]

theorem jimportRecord_event (ft : FloatText) {r : Event} (index : Nat)
    (hw : (Record.event r).WellFormed) :
    jimportRecord ft (jsonObject (.event r) index) = .ok (.event r) := by
  obtain ⟨code, payloadLen, payload⟩ := r
  have hlen : payload.length = payloadLen.toNat := hw
  have hlt := payloadLen.toNat_lt
  have hhex : jsonStr (jsonObject (.event ⟨code, payloadLen, payload⟩) index) "payload_hex" =
      some (cstr (hexText payload)) := by
    show some (cstr (hexText (payload.take payloadLen.toNat))) = _
    rw [← hlen, List.take_length]
  rw [jimportRecord_tag]
  show jsonEvent _ = _
  rw [jsonEvent, jsonU32_u16 (v := code) rfl, orBad, Except.bind_ok_eq, failIf_neg (u16_in_range _),
    Except.bind_ok_eq, hhex, orBad, Except.bind_ok_eq, jsonHex_hexText, orBad, Except.bind_ok_eq,
    failIf_neg (by omega), hlen]
  simp

theorem jimportRecord_diag (ft : FloatText) {r : Diag} (index : Nat)
    (hw : (Record.diag r).WellFormed) (hl : (Record.diag r).InLimits) :
    jimportRecord ft (jsonObject (.diag r) index) = .ok (.diag r) := by
  obtain ⟨subsystem, blobLen, blob, redacted⟩ := r
  have hlen : blob.length = blobLen.toNat := hw
  have hlt := blobLen.toNat_lt
  have hred : redacted = 0 := hl
  subst hred
  have hbool : jsonBool (jsonObject (.diag ⟨subsystem, blobLen, blob, 0⟩) index) "redacted" =
      some false := rfl
  have hhex : jsonStr (jsonObject (.diag ⟨subsystem, blobLen, blob, 0⟩) index) "blob_hex" =
      some (cstr (hexText blob)) := by
    show some (cstr (hexText (blob.take blobLen.toNat))) = _
    rw [← hlen, List.take_length]
  rw [jimportRecord_tag]
  show jsonDiag _ = _
  rw [jsonDiag, jsonU32_u16 (v := subsystem) rfl, orBad, Except.bind_ok_eq, hbool, orBad,
    Except.bind_ok_eq, failIf_neg (u16_in_range _), Except.bind_ok_eq, hhex, jsonRedactable,
    if_neg (by decide), orBad, Except.bind_ok_eq, jsonHex_hexText, orBad, Except.bind_ok_eq,
    failIf_neg (by omega), hlen]
  simp

theorem jimportRecord_keyref (ft : FloatText) {r : Keyref} (index : Nat)
    (hw : (Record.keyref r).WellFormed) (hl : (Record.keyref r).InLimits) :
    jimportRecord ft (jsonObject (.keyref r) index) = .ok (Record.keyref r).cutNul := by
  obtain ⟨slotId, labelLen, label, redacted⟩ := r
  have hlen : label.length = labelLen.toNat := hw
  have hlt := labelLen.toNat_lt
  have hle := cstr_length_le label
  have hred : redacted = 0 := hl
  subst hred
  have hbool : jsonBool (jsonObject (.keyref ⟨slotId, labelLen, label, 0⟩) index) "redacted" =
      some false := rfl
  have hlabel : jsonStr (jsonObject (.keyref ⟨slotId, labelLen, label, 0⟩) index) "label" =
      some (cstr label) := by
    show some (cstr (label.take labelLen.toNat)) = _
    rw [← hlen, List.take_length]
  rw [jimportRecord_tag]
  show jsonKeyref _ = _
  rw [jsonKeyref, jsonU32_u8 (v := slotId) rfl, orBad, Except.bind_ok_eq, hbool, orBad,
    Except.bind_ok_eq, failIf_neg (u8_in_range _), Except.bind_ok_eq, hlabel, jsonRedactable,
    if_neg (by decide)]
  dsimp only [Option.getD_some]
  rw [failIf_neg (by omega)]
  simp [Record.cutNul]

theorem scanVersion_versionText {major minor patch : Nat} (h1 : major < 2 ^ 32) (h2 : minor < 2 ^ 32)
    (h3 : patch < 2 ^ 32) :
    scanVersion (versionText major minor patch) = some (major, minor, patch) := by
  have hpatch := scanfU_decimal h3 (s := []) trivial
  rw [List.append_nil] at hpatch
  have hmajor : scanfU (versionText major minor patch) =
      some (major, 46 :: (decimal minor ++ 46 :: decimal patch)) := scanfU_decimal h1 rfl
  have hminor : scanfU (decimal minor ++ 46 :: decimal patch) = some (minor, 46 :: decimal patch) :=
    scanfU_decimal h2 rfl
  simp [scanVersion, hmajor, scanDot, hminor, hpatch]

theorem jimportRecord_firmware (ft : FloatText) (r : Firmware) (index : Nat) :
    jimportRecord ft (jsonObject (.firmware r) index) = .ok (.firmware r) := by
  obtain ⟨major, minor, patch, hash⟩ := r
  have h1 := major.toNat_lt
  have h2 := minor.toNat_lt
  have h3 := patch.toNat_lt
  have hver : jsonStr (jsonObject (.firmware ⟨major, minor, patch, hash⟩) index) "version" =
      some (cstr (versionText major.toNat minor.toNat patch.toNat)) := rfl
  have hhex : jsonStr (jsonObject (.firmware ⟨major, minor, patch, hash⟩) index) "hash_hex" =
      some (cstr (hexText hash.val)) := rfl
  have hnul : (0 : UInt8) ∉ versionText major.toNat minor.toNat patch.toNat :=
    fun h0 => absurd (versionText_plain _ _ _ 0 h0) (by decide)
  have hnul' : (0 : UInt8) ∉ hexText hash.val :=
    fun h0 => absurd (hexText_plain _ 0 h0) (by decide)
  rw [jimportRecord_tag]
  show jsonFirmware _ = _
  rw [jsonFirmware, hver, orBad, Except.bind_ok_eq, hhex, orBad, Except.bind_ok_eq,
    cstr_of_not_mem hnul, scanVersion_versionText (by omega) (by omega) (by omega), orBad,
    Except.bind_ok_eq]
  dsimp only
  rw [failIf_neg (by omega), Except.bind_ok_eq, cstr_of_not_mem hnul', importHash_hexText]
  simp

theorem jsonPairs_members : ∀ ps : List ConfigPair,
    jsonPairs ((ps.map pairMember).map (JsonMember.pair (d := 62))) = .ok ps
  | [] => rfl
  | p :: ps => by
    have ih := jsonPairs_members ps
    rw [List.map_cons, List.map_cons]
    show (⟨cstr p.key.val, cstr p.value.val⟩ :: ·) <$>
      jsonPairs ((ps.map pairMember).map (JsonMember.pair (d := 62))) = _
    rw [ih, cstr_val, cstr_val]
    rfl

theorem jimportRecord_config (ft : FloatText) {r : Config} (index : Nat)
    (hw : (Record.config r).WellFormed) :
    jimportRecord ft (jsonObject (.config r) index) = .ok (.config r) := by
  obtain ⟨pairCount, pairs⟩ := r
  have hlen : pairs.length = pairCount.toNat := hw
  have hlt := pairCount.toNat_lt
  have hpairs : jsonGet (jsonObject (.config ⟨pairCount, pairs⟩) index) "pairs" =
      some (.obj ((pairs.map pairMember).map (JsonMember.pair (d := 62)))) := by
    show some (Json.obj (((pairs.take pairCount.toNat).map pairMember).map JsonMember.pair)) = _
    rw [← hlen, List.take_length]
  have hcount : ((pairs.map pairMember).map (JsonMember.pair (d := 62))).length = pairCount.toNat := by
    rw [List.length_map, List.length_map, hlen]
  rw [jimportRecord_tag]
  show jsonConfig (jsonObject (.config ⟨pairCount, pairs⟩) index) = _
  rw [jsonConfig, hpairs]
  dsimp only
  rw [failIf_neg (by omega), Except.bind_ok_eq, jsonPairs_members, Except.bind_ok_eq, hcount,
    UInt8.ofNat_toNat, ← hlen, List.take_length]
  rfl

/-- **The members of a record stand for the record**, its string cut at the first NUL. -/
theorem jimportRecord_members (ft : FloatText) {rec : Record} (index : Nat) (hp : rec.Parseable)
    (hs : rec.NoSamples) : jimportRecord ft (jsonObject rec index) = .ok rec.cutNul := by
  cases rec with
  | heartbeat r => exact jimportRecord_heartbeat ft r index
  | sensor r => exact jimportRecord_sensor ft index hp.1 hs
  | event r => exact jimportRecord_event ft index hp.1
  | diag r => exact jimportRecord_diag ft index hp.1 hp.2
  | geo r => exact jimportRecord_geo ft r index
  | battery r => exact jimportRecord_battery ft r index
  | net r => exact jimportRecord_net ft r index
  | log r => exact jimportRecord_log ft index hp.1
  | config r => exact jimportRecord_config ft index hp.1
  | keyref r => exact jimportRecord_keyref ft index hp.1 hp.2
  | firmware r => exact jimportRecord_firmware ft r index
  | other t ht => exact hp.1.elim

/-! ## The whole export -/

/-- The texts of the records from number `k` on. -/
def jsonTexts (k : Nat) (recs : List Record) : List Bytes :=
  (recs.zipIdx k).map fun p => ascii "\n  " ++ objectText (jsonMembers p.1 p.2)

theorem jsonTexts_cons (k : Nat) (rec : Record) (recs : List Record) :
    jsonTexts k (rec :: recs) =
      (ascii "\n  " ++ objectText (jsonMembers rec k)) :: jsonTexts (k + 1) recs := rfl

theorem exportRecords_tail {ft : FloatText} : ∀ {recs : List Record} {k : Nat}, 0 < k →
    (∀ rec ∈ recs, rec.NoSamples) →
      exportRecords ft .json k recs = (jsonTexts k recs).flatMap csvColumn
  | [], _, _, _ => rfl
  | rec :: recs, k, hk, h => by
    rw [List.forall_mem_cons] at h
    have ih := @exportRecords_tail ft recs (k + 1) (by omega) h.2
    have hfirst : (k == 0) = false := by simpa using Nat.ne_of_gt hk
    show exportJsonRecord ft rec k (k == 0) ++ exportRecords ft .json (k + 1) recs = _
    rw [exportJsonRecord_eq h.1, hfirst, ih]
    rfl

/-- The exported records are texts with commas in between. -/
theorem exportRecords_json {ft : FloatText} {recs : List Record} (h : ∀ rec ∈ recs, rec.NoSamples) :
    exportRecords ft .json 0 recs = commaJoin (jsonTexts 0 recs) := by
  cases recs with
  | nil => rfl
  | cons rec recs =>
    rw [List.forall_mem_cons] at h
    show exportJsonRecord ft rec 0 true ++ exportRecords ft .json 1 recs = _
    rw [exportJsonRecord_eq h.1, exportRecords_tail Nat.one_pos h.2, jsonTexts_cons, commaJoin_cons]
    rfl

/-- **The exported text is read back as the objects of its records.** -/
theorem jsonRoot_text {ft : FloatText} {recs : List Record} (h : ∀ rec ∈ recs, rec.NoSamples) :
    jsonRoot (exportText ft .json recs) = some (recs.zipIdx.map fun p => jsonObject p.1 p.2) := by
  have hlist : jsonList (jsonValue JSON_MAX_DEPTH) 93 (commaJoin (jsonTexts 0 recs) ++ [10, 93, 10]) =
      some (recs.zipIdx.map fun p => jsonObject p.1 p.2, [10]) := by
    cases recs with
    | nil => exact jsonList_empty rfl
    | cons rec recs =>
      -- the white space before the first object is skipped ahead of the item loop
      have htexts : commaJoin (jsonTexts 0 (rec :: recs)) = ascii "\n  " ++
          commaJoin (objectText (jsonMembers rec 0) :: jsonTexts 1 recs) := by
        rw [jsonTexts_cons, commaJoin_cons, commaJoin_cons, List.append_assoc]
      have hws : ∀ c ∈ ascii "\n  ", isWs c = true := List.all_eq_true.mp (by decide)
      have hobject : ∀ p : Record × Nat, Reads (jsonValue JSON_MAX_DEPTH)
          (objectText (jsonMembers p.1 p.2)) (jsonObject p.1 p.2) := fun p => reads_object _
      have hhead : ∃ q, commaJoin (objectText (jsonMembers rec 0) :: jsonTexts 1 recs) ++ [10, 93, 10] =
          123 :: q := by
        rw [commaJoin_cons]
        exact ⟨_, rfl⟩
      obtain ⟨q, hq⟩ := hhead
      refine jsonList_reads (by decide) ⟨10, [93, 10], rfl, .inr (.inr (.inr rfl))⟩ rfl ?_ ?_ ?_
        (List.cons_ne_nil (objectText (jsonMembers rec 0)) (jsonTexts 1 recs))
      · rw [htexts, List.append_assoc, jsonSkipWs_append hws, hq, jsonSkipWs_cons (by decide)]
      · rw [hq]
        simp
      · rw [List.zipIdx_cons, List.map_cons]
        refine .cons (hobject (rec, 0)) ?_
        rw [jsonTexts, List.forall₂_map_left_iff, List.forall₂_map_right_iff, List.forall₂_same]
        intro p _
        exact reads_ws hws (hobject p)
  have htext : exportText ft .json recs = 91 :: (commaJoin (jsonTexts 0 recs) ++ [10, 93, 10]) := by
    rw [exportText, exportRecords_json h]
    rfl
  rw [htext, jsonRoot, jsonSkipWs_cons (by decide)]
  dsimp only
  rw [if_pos rfl, hlist]
  rfl

/-- What the objects of the exported text hand over. -/
theorem handed_exported {ft : FloatText} {recs : List Record}
    (h : ∀ rec ∈ recs, rec.Parseable ∧ rec.NoSamples) :
    handed (jsonRows ft (exportText ft .json recs)) = .ok (recs.map Record.cutNul) := by
  have hrows : ∀ (recs : List Record) (k : Nat), (∀ rec ∈ recs, rec.Parseable ∧ rec.NoSamples) →
      handed (((recs.zipIdx k).map fun p => jsonObject p.1 p.2).map fun item =>
        some <$> jimportRecord ft item) = .ok (recs.map Record.cutNul) := by
    intro recs
    induction recs with
    | nil => intro _ _; rfl
    | cons rec recs ih =>
      intro k h
      rw [List.forall_mem_cons] at h
      rw [List.zipIdx_cons, List.map_cons, List.map_cons, jimportRecord_members ft k h.1.1 h.1.2, map_ok,
        handed, ih (k + 1) h.2]
      rfl
  rw [jsonRows, jsonRoot_text fun rec hrec => (h rec hrec).2]
  exact hrows recs 0 h

/-- **When importing a JSON export gives the records back.** For records as a walk delivers them, with
no samples among them: the text is what `dtl_export_file` writes for a container that delivers them;
and, given memory, the import succeeds and has handed the writer these very records if and only if no
message and no label has a NUL byte in it and the records fit into one section. -/
theorem exportJson_import_iff (e : EmitEnv) (a : Arena) (ft : FloatText) (recs : List Record)
    (hwalked : ∀ rec ∈ recs, rec.Walked) (hsamples : ∀ rec ∈ recs, rec.NoSamples) (hroomy : a.Roomy) :
    (∀ env maxFile file cont, file.length ≤ maxFile → containerParse file = .ok cont →
      (delivered env file).map (·.record) = recs →
        exportFile env ft .json maxFile file = (none, exportText ft .json recs)) ∧
    (((∃ bytes, importJsonMemory e a ft (exportText ft .json recs) = .ok (bytes, recs.length)) ∧
        handed (jsonRows ft (exportText ft .json recs)) = .ok recs) ↔
      (∀ rec ∈ recs, rec.NulFree) ∧ (importRaw e.slack recs).length ≤ SECTION_MAX_RAW) := by
  have hparse : ∀ rec ∈ recs, rec.Parseable ∧ rec.NoSamples :=
    fun rec hrec => ⟨(hwalked rec hrec).parseable, hsamples rec hrec⟩
  have hhanded := @handed_exported ft recs hparse
  have hcut : recs.map Record.cutNul = recs ↔ ∀ rec ∈ recs, rec.NulFree := by
    have hrec := fun rec hrec => Record.cutNul_eq_iff (hparse rec hrec).1.1
    constructor
    · intro heq rec hmem
      exact (hrec rec hmem).mp (List.map_inj_left.mp (heq.trans (List.map_id recs).symm) rec hmem)
    · intro hall
      have hid := List.map_congr_left fun rec hmem => (hrec rec hmem).mpr (hall rec hmem)
      exact hid.trans (List.map_id recs)
  constructor
  · intro env maxFile file cont hlen hcont hrecs
    rw [exportFile_eq env ft .json hlen hcont, hrecs]
  · rw [← hcut]
    constructor
    · rintro ⟨⟨bytes, hok⟩, hrecs⟩
      rw [hhanded, Except.ok.injEq] at hrecs
      exact ⟨hrecs, importRows_raw_le hok (by rw [hhanded, hrecs])⟩
    · rintro ⟨hrecs, hraw⟩
      rw [hrecs] at hhanded
      exact ⟨importRows_walked hhanded hroomy hwalked hraw, hhanded⟩

/-- A message with a quote, a backslash, a newline, a control character and a byte above 0x7F in it,
and two pairs with equal keys. -/
theorem exportJson_import_strings :
    (∃ bytes, importJsonMemory ⟨zeroSlack, fun _ _ => ⟨true, 0⟩⟩ ⟨fun _ => false, 0⟩ noFloats
        (exportText noFloats .json [.log ⟨3, 5, [34, 92, 10, 1, 200]⟩,
          .config ⟨2, [⟨cstr [97], cstr [34]⟩, ⟨cstr [97], cstr []⟩]⟩]) = .ok (bytes, 2)) ∧
      handed (jsonRows noFloats (exportText noFloats .json [.log ⟨3, 5, [34, 92, 10, 1, 200]⟩,
          .config ⟨2, [⟨cstr [97], cstr [34]⟩, ⟨cstr [97], cstr []⟩]⟩])) =
        .ok [.log ⟨3, 5, [34, 92, 10, 1, 200]⟩,
          .config ⟨2, [⟨cstr [97], cstr [34]⟩, ⟨cstr [97], cstr []⟩]⟩] := by
  refine (exportJson_import_iff _ _ noFloats _ ?_ ?_ (fun _ => rfl)).2.mpr ⟨?_, by decide +kernel⟩
  · rw [List.forall_mem_cons, List.forall_mem_singleton]
    constructor
    · exact ⟨⟨REC_LOG, [3, 5, 0, 34, 92, 10, 1, 200]⟩, by decide, by decide⟩
    · exact ⟨⟨REC_CONFIG, [2, 1, 97, 1, 34, 1, 97, 0]⟩, by decide, by decide⟩
  · rw [List.forall_mem_cons, List.forall_mem_singleton]
    exact ⟨trivial, trivial⟩
  · rw [List.forall_mem_cons, List.forall_mem_singleton]
    exact ⟨by show (0 : UInt8) ∉ [34, 92, 10, 1, 200]; decide, trivial⟩

/-- A container with one `LOG` record, of message `a`, NUL, `b`. -/
def nulMessage : Bytes :=
  [68, 84, 76, 1, 1, 0, 1, 0, 89, 107, 50, 251, 1, 0, 0, 0, 9, 0, 0, 0, 9, 0, 0, 0, 0, 0, 0, 0,
    23, 6, 0, 3, 3, 0, 97, 0, 98]

/-- The NUL is exported, and ends the message when it is imported. -/
theorem exportJson_cuts_message :
    (delivered (fun _ => ⟨true, 0⟩) nulMessage).map (·.record) = [.log ⟨3, 3, [97, 0, 98]⟩] ∧
      (importJsonMemory ⟨zeroSlack, fun _ _ => ⟨true, 0⟩⟩ ⟨fun _ => false, 0⟩ noFloats
        (exportFile (fun _ => ⟨true, 0⟩) noFloats .json 4096 nulMessage).2).toOption.isSome = true ∧
      handed (jsonRows noFloats (exportFile (fun _ => ⟨true, 0⟩) noFloats .json 4096 nulMessage).2) =
        .ok [.log ⟨3, 1, [97]⟩] := by
  decide +kernel

end Dtl
