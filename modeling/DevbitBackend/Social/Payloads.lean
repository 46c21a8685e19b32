import DevbitBackend.Lib.Base64
import DevbitBackend.Lib.Json
import DevbitBackend.Social.Searches

/-!
# Social.Payloads

The texts of cursors as `social/mod.rs` makes them: one of two payloads, in JSON and
base64. Either payload is read back as it was (`codec_roundTrip`,
`codec_offsetRoundTrip`) and is refused where the other is expected. Neither names
the query that the cursor is for.
-/

namespace DevbitBackend.Social

/-- The crates that the cursors are made with: `base64`, `serde_json` and the format of
`chrono` for times, which are in microseconds here. -/
structure CursorCrates where
  base64 : Base64.Engine
  json : Json.Engine
  formatTime : Int → String
  parseTime : String → Option Int

structure CursorCrates.Lawful (crates : CursorCrates) : Prop where
  base64 : crates.base64.Lawful
  json : crates.json.Lawful
  /-- For the times that `chrono` holds. -/
  parse_format : ∀ t, timeHolds t = true → crates.parseTime (crates.formatTime t) = some t

/-! ### Payloads -/

/-- `TimeCursorPayload`. -/
def timeCursorPayload (crates : CursorCrates) : Json.Record (Int × Int × Unit) :=
  .cons (.text "at" crates.formatTime crates.parseTime) (.cons (.int64 "id") .nil)

/-- `OffsetCursorPayload`. -/
def offsetCursorPayload : Json.Record (Int × Unit) := .cons (.int64 "offset") .nil

namespace CursorCrates

variable {α β : Type}

def encode (crates : CursorCrates) (payload : Json.Record α) (a : α) : String :=
  crates.base64.encode (crates.json.encode payload a)

def decode (crates : CursorCrates) (payload : Json.Record α) (text : String) : Option α :=
  (crates.base64.decode text).bind (crates.json.decode payload)

/-- The four functions, the decoding ones for a text that is trimmed and not empty. -/
def codec (crates : CursorCrates) : CursorCodec where
  encodeTime c := crates.encode (timeCursorPayload crates) (c.createdAt, c.id, ())
  decodeTime text := (crates.decode (timeCursorPayload crates) text).map fun p => ⟨p.1, p.2.1⟩
  encodeOffset offset := crates.encode offsetCursorPayload (offset, ())
  decodeOffset text := (crates.decode offsetCursorPayload text).map Prod.fst

variable {crates : CursorCrates} {payload : Json.Record α} {other : Json.Record β} {a : α} {b : β}

/-- The text of a payload has nothing to trim. -/
theorem cursorText_encode (h : crates.Lawful) (hkeeps : payload.Keeps a) :
    cursorText (some (crates.encode payload a)) = some (crates.encode payload a) := by
  have hne : crates.encode payload a ≠ "" :=
    h.base64.encode_ne_empty (Json.Engine.encode_ne_nil h.json hkeeps)
  have htrim : trim (crates.encode payload a) = crates.encode payload a :=
    trim_visible hne fun c hc => Base64.visible_urlSafe (h.base64.encode_alphabet _ c hc)
  simp [cursorText, Option.filter, htrim, hne]

theorem decode_encode (h : crates.Lawful) (hnames : payload.names.Nodup)
    (hkeeps : payload.Keeps a) : crates.decode payload (crates.encode payload a) = some a := by
  rw [decode, encode, h.base64.decode_encode, Option.bind_some,
    Json.Engine.decode_encode h.json hnames hkeeps]

/-- A payload is no payload of a type with a field that it lacks. -/
theorem decode_foreign (h : crates.Lawful) {name : String} (hname : name ∈ payload.names)
    (hother : name ∉ other.names) (hkeeps : other.Keeps b) :
    crates.decode payload (crates.encode other b) = none := by
  rw [decode, encode, h.base64.decode_encode, Option.bind_some,
    Json.Engine.decode_foreign h.json hname hother hkeeps]

/-! ### The two kinds of cursor -/

variable {c : TimeCursor} {offset : ℕ}

theorem names_timeCursorPayload : (timeCursorPayload crates).names = ["at", "id"] := rfl

theorem keeps_timeCursorPayload (h : crates.Lawful)
    (htime : timeHolds c.createdAt = true) (hid : IntType.bigint.holds c.id = true) :
    (timeCursorPayload crates).Keeps (c.createdAt, c.id, ()) := by
  simp only [IntType.holds, Bool.and_eq_true, decide_eq_true_eq] at hid
  exact ⟨Json.Field.keeps_text (h.parse_format _ htime), Json.Field.keeps_int64 hid, trivial⟩

theorem keeps_offsetCursorPayload (hoffset : offset < 2 ^ 63) :
    offsetCursorPayload.Keeps ((offset : Int), ()) :=
  ⟨Json.Field.keeps_int64 ⟨by omega, by omega⟩, trivial⟩

theorem codec_roundTrip (h : crates.Lawful) : RoundTrip crates.codec := by
  intro c htime hid
  have hkeeps := keeps_timeCursorPayload h htime hid
  have hnames : (timeCursorPayload crates).names.Nodup := by
    rw [names_timeCursorPayload]
    decide
  simp only [decodeTimeCursor, codec, cursorText_encode h hkeeps, decode_encode h hnames hkeeps,
    Option.map_some]

theorem codec_offsetRoundTrip (h : crates.Lawful) : OffsetRoundTrip crates.codec := by
  intro offset hoffset
  have hkeeps := keeps_offsetCursorPayload hoffset
  have hnames : offsetCursorPayload.names.Nodup := by decide
  refine ⟨_, cursorText_encode h hkeeps, ?_⟩
  simp only [codec, decode_encode h hnames hkeeps, Option.map_some]

/-- A time cursor has no field `offset`. -/
theorem decodeOffsetCursor_encodeTime (h : crates.Lawful)
    (htime : timeHolds c.createdAt = true) (hid : IntType.bigint.holds c.id = true) :
    decodeOffsetCursor crates.codec (some (crates.codec.encodeTime c)) = .error .badCursor := by
  have hkeeps := keeps_timeCursorPayload h htime hid
  have hmissing : "offset" ∉ (timeCursorPayload crates).names := by
    rw [names_timeCursorPayload]
    decide
  have hforeign : crates.decode offsetCursorPayload _ = none :=
    decode_foreign h List.mem_cons_self hmissing hkeeps
  simp only [decodeOffsetCursor, codec, cursorText_encode h hkeeps, hforeign, Option.map_none]

/-- An offset cursor has no field `at`. -/
theorem decodeTimeCursor_encodeOffset (h : crates.Lawful) (hoffset : offset < 2 ^ 63) :
    decodeTimeCursor crates.codec (some (crates.codec.encodeOffset offset)) =
      .error .badCursor := by
  have hkeeps := keeps_offsetCursorPayload hoffset
  have hmissing : "at" ∉ offsetCursorPayload.names := by decide
  have hforeign : crates.decode (timeCursorPayload crates) _ = none :=
    decode_foreign h List.mem_cons_self hmissing hkeeps
  simp only [decodeTimeCursor, codec, cursorText_encode h hkeeps, hforeign, Option.map_none]

end CursorCrates

end DevbitBackend.Social
