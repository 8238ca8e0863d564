import EventSourcing.Proofs.Json.RoundTrip

namespace EventSourcing

namespace Json

variable {α : Type}

/-- The text that is written for what a text is read as. -/
def Codec.normalize (codec : Codec α) (text : List Char) : Option (List Char) :=
  (codec.decode text).map codec.encode

/-- Only valid values are read, and what is written for them is a normal form of everything that is
read as them. -/
structure Normalises (codec : Codec α) (isValid : α → Prop) (spelled : α → List Char → Prop) :
    Prop where
  /-- What is accepted is valid, and its value alone decides the normal form. -/
  accepted : ∀ text value, codec.decode text = some value →
    isValid value ∧ codec.normalize text = some (codec.encode value)
  /-- A normal form is accepted. It is read as the same value and is its own normal form. -/
  stable : ∀ text normal, codec.normalize text = some normal →
    codec.decode normal = codec.decode text ∧ codec.normalize normal = some normal
  /-- All spellings of a valid value are accepted, with space behind them or without. -/
  spellings : ∀ value text, isValid value → Padded (spelled value) text →
    codec.decode text = some value

section Normalises

variable {codec : Codec α} {isValid : α → Prop} {spelled : α → List Char → Prop}

theorem Codec.normalize_of_decode {text : List Char} {value : α}
    (hdecode : codec.decode text = some value) :
    codec.normalize text = some (codec.encode value) := by
  rw [normalize, hdecode]
  rfl

/-- It is enough that valid values are read, and come back when they are written. -/
theorem Normalises.of_roundTrips (hvalid : ∀ text value, codec.decode text = some value →
      isValid value) (hback : RoundTrips codec isValid)
    (hspelled : ∀ value text, isValid value → Padded (spelled value) text →
      codec.decode text = some value) : Normalises codec isValid spelled where
  accepted text value hdecode := ⟨hvalid text value hdecode, Codec.normalize_of_decode hdecode⟩
  stable text normal hnormal := by
    obtain ⟨value, hdecode, rfl⟩ := Option.map_eq_some_iff.1 hnormal
    have hagain := hback.decode_encode value (hvalid text value hdecode)
    exact ⟨hagain.trans hdecode.symm, Codec.normalize_of_decode hagain⟩
  spellings := hspelled

/-- The layouts of a record are read if what is spelled in them is read. -/
theorem IsRecord.decode_of_members {fields : List (Declared α)} (hrecord : IsRecord fields codec)
    {members : List Member} {value : α}
    (himplies : List.Forall₂ Member.Implies members (fields.map (·.member value)))
    {text : List Char} (hlayout : Padded (Layout members) text) :
    codec.decode text = some value := by
  obtain ⟨literal, space, hlayout, hspace, rfl⟩ := hlayout
  exact hrecord.decode_of_layout value literal space (hlayout.mono himplies) hspace

end Normalises

end Json

open Json

/-- What the text of every identifier is like. -/
structure IsName (text : String) : Prop where
  ne_empty : text ≠ ""
  isTrimmed : Text.IsTrimmed text.toList
  length_le : text.length ≤ 255

theorem Identifier.isName {kind : IdentifierKind} (identifier : Identifier kind) :
    IsName identifier.text :=
  ⟨identifier.ne_empty, identifier.isTrimmed, identifier.length_le⟩

/-- Both parts of the key are names. -/
def AggregateKey.IsValid (key : AggregateKey) : Prop :=
  IsName key.type.text ∧ IsName key.id.text

theorem AggregateKey.isValid (key : AggregateKey) : key.IsValid :=
  ⟨key.type.isName, key.id.isName⟩

/-- The position fits 64 bits, and the key is valid. -/
def RecordedEvent.IsValid (event : RecordedEvent String) : Prop :=
  event.key.IsValid ∧ event.sequenceId < UInt64.size

namespace Identifier

variable {kind : IdentifierKind}

/-- A literal of a text that is the name once it has been trimmed. -/
def Spelled (identifier : Identifier kind) (literal : List Char) : Prop :=
  ∃ raw, Text.trim raw = identifier.text ∧ Quoted raw literal

/-- A text parses as the name that trimming leaves. -/
theorem parse_of_trim {raw : String} {identifier : Identifier kind}
    (htrim : Text.trim raw = identifier.text) : parse kind raw = .ok identifier := by
  simp only [parse, htrim, identifier.ne_empty, identifier.length_le, dite_true, dite_false]

theorem parse_eq_ok_iff {raw : String} {identifier : Identifier kind} :
    parse kind raw = .ok identifier ↔ Text.trim raw = identifier.text :=
  ⟨fun h => (text_of_parse h).symm, parse_of_trim⟩

/-- A text is a name when between 1 and 255 characters are left of it. -/
theorem exists_parse_iff {raw : String} : (∃ identifier, parse kind raw = .ok identifier) ↔
    1 ≤ (Text.trim raw).length ∧ (Text.trim raw).length ≤ 255 := by
  constructor
  · rintro ⟨identifier, hparse⟩
    rw [parse_eq_ok_iff.1 hparse]
    have hlength : identifier.text.length ≠ 0 :=
      fun h => identifier.ne_empty (String.length_eq_zero_iff.1 h)
    exact ⟨Nat.one_le_iff_ne_zero.2 hlength, identifier.length_le⟩
  · rintro ⟨hpos, hle⟩
    have hne : Text.trim raw ≠ "" :=
      fun h => Nat.one_le_iff_ne_zero.1 hpos (String.length_eq_zero_iff.2 h)
    exact ⟨⟨Text.trim raw, Text.isTrimmed_trim raw, hne, hle⟩, parse_eq_ok_iff.2 rfl⟩

end Identifier

/-- A literal of one of the forms. -/
def Uuid.Spelled (u : Uuid) (literal : List Char) : Prop :=
  ∃ raw : String, u.Form raw.toList ∧ Quoted raw literal

namespace Json.Codecs.LawfulParts

variable {codecs : Codecs}

/-- Exactly the spellings of a name are read as that name. -/
theorem decode_identifier_iff (hparts : codecs.LawfulParts) {kind : IdentifierKind}
    {identifier : Identifier kind} {text : List Char} :
    (codecs.identifier kind).decode text = some identifier ↔
      Padded identifier.Spelled text := by
  simp only [(hparts.identifier kind).decode_iff, hparts.text.decode_iff,
    Identifier.parse_eq_ok_iff]
  constructor
  · rintro ⟨raw, ⟨literal, space, hquoted, hspace, htext⟩, htrim⟩
    exact ⟨literal, space, ⟨raw, htrim, hquoted⟩, hspace, htext⟩
  · rintro ⟨literal, space, ⟨raw, htrim, hquoted⟩, hspace, htext⟩
    exact ⟨raw, ⟨literal, space, hquoted, hspace, htext⟩, htrim⟩

theorem decode_uuid (hparts : codecs.LawfulParts) {u : Uuid} {literal : List Char}
    (hspelled : u.Spelled literal) : codecs.uuid.decode literal = some u := by
  obtain ⟨raw, hform, hquoted⟩ := hspelled
  exact hparts.uuid.decode_of_form u raw literal
    ((hparts.text.decode_iff _ _).2 (padded_of_literal hquoted)) hform

theorem decode_retryLimit (hparts : codecs.LawfulParts) {limit : OptimisticRetryLimit}
    {text : List Char} (hspelled : Padded (Numeral limit.value) text) :
    codecs.retryLimit.decode text = some limit := by
  have hlt : limit.value < UInt32.size := Nat.lt_of_le_of_lt limit.le_max (by decide)
  refine (hparts.retryLimit.decode_iff _ _).2
    ⟨limit.value, ((hparts.number _).decode_iff _ _).2 ⟨hlt, hspelled⟩, ?_⟩
  rw [OptimisticRetryLimit.ofNat, dif_pos limit.le_max]

theorem decode_liveLockLimit (hparts : codecs.LawfulParts) {limit : LiveLockLimit}
    {text : List Char} (hspelled : Padded (Numeral limit.value) text) :
    codecs.liveLockLimit.decode text = some limit := by
  have hlt : limit.value < UInt32.size := Nat.lt_of_le_of_lt limit.le_max (by decide)
  refine (hparts.liveLockLimit.decode_iff _ _).2
    ⟨limit.value, ((hparts.number _).decode_iff _ _).2 ⟨hlt, hspelled⟩, ?_⟩
  rw [LiveLockLimit.ofNat, dif_pos limit.pos, dif_pos limit.le_max]

end Json.Codecs.LawfulParts

namespace AggregateKey

def members (key : AggregateKey) : List Member :=
  [{ name := "aggregate_type", spelled := key.type.Spelled, mayBeOmitted := False },
    { name := "aggregate_id", spelled := key.id.Spelled, mayBeOmitted := False }]

theorem members_imply {codecs : Codecs} (hparts : codecs.LawfulParts) (key : AggregateKey) :
    List.Forall₂ Member.Implies key.members ((declared codecs).map (·.member key)) := by
  refine .cons ⟨rfl, fun _ h => ?_, nofun⟩ (.cons ⟨rfl, fun _ h => ?_, nofun⟩ .nil)
  · exact hparts.decode_identifier_iff.2 (padded_of_literal h)
  · exact hparts.decode_identifier_iff.2 (padded_of_literal h)

end AggregateKey

namespace RecordedEvent

def members (event : RecordedEvent String) : List Member :=
  [{ name := "aggregate_type", spelled := event.key.type.Spelled, mayBeOmitted := False },
    { name := "aggregate_id", spelled := event.key.id.Spelled, mayBeOmitted := False },
    { name := "sequence_id", spelled := Numeral event.sequenceId, mayBeOmitted := False },
    { name := "domain_event", spelled := Quoted event.payload, mayBeOmitted := False },
    { name := "source_id", spelled := event.sourceId.Spelled, mayBeOmitted := False }]

theorem members_imply {codecs : Codecs} (hparts : codecs.LawfulParts)
    {event : RecordedEvent String} (hlt : event.sequenceId < UInt64.size) :
    List.Forall₂ Member.Implies event.members ((declared codecs).map (·.member event)) := by
  refine .cons ⟨rfl, fun _ h => ?_, nofun⟩ (.cons ⟨rfl, fun _ h => ?_, nofun⟩
    (.cons ⟨rfl, fun _ h => ?_, nofun⟩ (.cons ⟨rfl, fun _ h => ?_, nofun⟩
      (.cons ⟨rfl, fun _ h => ?_, nofun⟩ .nil))))
  · exact hparts.decode_identifier_iff.2 (padded_of_literal h)
  · exact hparts.decode_identifier_iff.2 (padded_of_literal h)
  · exact ((hparts.number _).decode_iff _ _).2 ⟨hlt, padded_of_literal h⟩
  · exact (hparts.text.decode_iff _ _).2 (padded_of_literal h)
  · exact hparts.decode_uuid h

/-- What is read as an event has a position that is read as a number. -/
theorem isValid_of_decode {codecs : Codecs} (hlawful : codecs.Lawful) {text : List Char}
    {event : RecordedEvent String} (hdecode : codecs.event.decode text = some event) :
    event.IsValid := by
  refine ⟨event.key.isValid, ?_⟩
  have hfield := hlawful.event.field_of_decode event text hdecode
    (.of "sequence_id" (codecs.number UInt64.size) (·.sequenceId) none)
    (.tail _ (.tail _ (.head _)))
  obtain hdefault | ⟨part, hpart⟩ := hfield
  · cases hdefault
  · exact (((hlawful.number _).decode_iff _ _).1 hpart).1

end RecordedEvent

namespace StoreConfig

def members (config : StoreConfig) : List Member :=
  [{ name := "optimistic_retry_limit"
     spelled := Numeral config.retryLimit.value
     mayBeOmitted := config.retryLimit = .standard }]

theorem members_imply {codecs : Codecs} (hparts : codecs.LawfulParts) (config : StoreConfig) :
    List.Forall₂ Member.Implies config.members ((declared codecs).map (·.member config)) :=
  .cons ⟨rfl, fun _ h => hparts.decode_retryLimit (padded_of_literal h),
    fun h => congrArg some h.symm⟩ .nil

end StoreConfig

namespace RepositoryConfig

def members (config : RepositoryConfig) : List Member :=
  [{ name := "live_lock_limit"
     spelled := Numeral config.liveLockLimit.value
     mayBeOmitted := config.liveLockLimit = .standard }]

theorem members_imply {codecs : Codecs} (hparts : codecs.LawfulParts)
    (config : RepositoryConfig) :
    List.Forall₂ Member.Implies config.members ((declared codecs).map (·.member config)) :=
  .cons ⟨rfl, fun _ h => hparts.decode_liveLockLimit (padded_of_literal h),
    fun h => congrArg some h.symm⟩ .nil

end RepositoryConfig

/-- A text is accepted as an identifier, a key, an event, a limit or a configuration only as a valid
one. The normal form of an accepted text is accepted as the same value and is its own normal form.
A value has one normal form for all its spellings: for any escapes, for blanks around a name, for
the forms of a unique identifier, for the members of a record in an object in any order, with others
among them, or in an array, and for a limit left out where it is the standard one. A string is
accepted as a name, and then as what is left of it, if that has between 1 and 255 characters. -/
theorem decoding_normalises {codecs : Codecs} (hlawful : codecs.Lawful) :
    (∀ kind, Normalises (codecs.identifier kind) (fun identifier => IsName identifier.text)
      Identifier.Spelled) ∧
    Normalises codecs.key AggregateKey.IsValid (fun key => Layout key.members) ∧
    Normalises codecs.event RecordedEvent.IsValid (fun event => Layout event.members) ∧
    Normalises codecs.retryLimit (fun limit => limit.value ≤ 100)
      (fun limit => Numeral limit.value) ∧
    Normalises codecs.liveLockLimit (fun limit => 1 ≤ limit.value ∧ limit.value ≤ 1000000)
      (fun limit => Numeral limit.value) ∧
    Normalises codecs.storeConfig (fun config => config.retryLimit.value ≤ 100)
      (fun config => Layout config.members) ∧
    Normalises codecs.repositoryConfig
      (fun config => 1 ≤ config.liveLockLimit.value ∧ config.liveLockLimit.value ≤ 1000000)
      (fun config => Layout config.members) ∧
    (∀ kind text trimmed,
      (∃ identifier, (codecs.identifier kind).decode text = some identifier ∧
        identifier.text = trimmed) ↔
      ∃ raw, Padded (Quoted raw) text ∧ Text.trim raw = trimmed ∧
        1 ≤ trimmed.length ∧ trimmed.length ≤ 255) := by
  refine ⟨fun kind => ?_, ?_, ?_, ?_, ?_, ?_, ?_, ?_⟩
  · refine .of_roundTrips (fun _ identifier _ => identifier.isName)
      (hlawful.identifier_roundTrips kind).restrict ?_
    exact fun _ _ _ => hlawful.decode_identifier_iff.2
  · refine .of_roundTrips (fun _ key _ => key.isValid) hlawful.key_roundTrips.restrict ?_
    exact fun key _ _ => hlawful.key.decode_of_members (key.members_imply hlawful.toLawfulParts)
  · refine .of_roundTrips (fun _ _ => RecordedEvent.isValid_of_decode hlawful) ?_ ?_
    · exact hlawful.event_roundTrips.mono fun _ hvalid => hvalid.2
    · exact fun _ _ hvalid => hlawful.event.decode_of_members
        (RecordedEvent.members_imply hlawful.toLawfulParts hvalid.2)
  · refine .of_roundTrips (fun _ limit _ => limit.le_max) hlawful.retryLimit_roundTrips.restrict ?_
    exact fun _ _ _ => hlawful.decode_retryLimit
  · refine .of_roundTrips (fun _ limit _ => ⟨limit.pos, limit.le_max⟩)
      hlawful.liveLockLimit_roundTrips.restrict ?_
    exact fun _ _ _ => hlawful.decode_liveLockLimit
  · refine .of_roundTrips (fun _ config _ => config.retryLimit.le_max)
      hlawful.storeConfig_roundTrips.restrict ?_
    exact fun config _ _ =>
      hlawful.storeConfig.decode_of_members (config.members_imply hlawful.toLawfulParts)
  · refine .of_roundTrips
      (fun _ config _ => ⟨config.liveLockLimit.pos, config.liveLockLimit.le_max⟩)
      hlawful.repositoryConfig_roundTrips.restrict ?_
    exact fun config _ _ =>
      hlawful.repositoryConfig.decode_of_members (config.members_imply hlawful.toLawfulParts)
  · intro kind text trimmed
    simp only [(hlawful.identifier kind).decode_iff, hlawful.text.decode_iff]
    constructor
    · rintro ⟨identifier, ⟨raw, hquoted, hparse⟩, rfl⟩
      have hlength := Identifier.exists_parse_iff.1 ⟨identifier, hparse⟩
      have htrim := Identifier.parse_eq_ok_iff.1 hparse
      exact ⟨raw, hquoted, htrim, htrim ▸ hlength⟩
    · rintro ⟨raw, hquoted, rfl, hlength⟩
      obtain ⟨identifier, hparse⟩ := Identifier.exists_parse_iff.2 hlength
      exact ⟨identifier, ⟨raw, hquoted, hparse⟩, Identifier.text_of_parse hparse⟩

/-- A key with the id in front, another member before it, a blank in the id and an escape in the
type. -/
def disguisedKey : List Char :=
  ['\x7b'] ++ writeString "x" ++ [':', '[', ']', ','] ++
    writeString "aggregate_id" ++ [':'] ++ writeString " n1" ++ [','] ++
    writeString "aggregate_type" ++ [':', '"', '\\', 'u', '0', '0', '4', 'e', 'o', 't', 'e', '"'] ++
    ['\x7d']

theorem layout_disguisedKey : Layout quotedEvent.key.members disguisedKey := by
  have hspells : Spells ('\\' :: 'u' :: '0' :: '0' :: '4' :: 'e' :: ['o', 't', 'e'])
      ['N', 'o', 't', 'e'] := by
    have hunit : Text.Hex.read? ['0', '0', '4', 'e'] = some 0x4e := rfl
    refine .unit hunit rfl rfl ?_
    refine .plain ?_ ?_ ?_ (.plain ?_ ?_ ?_ (.plain ?_ ?_ ?_ .nil)) <;> decide
  have htype : quotedEvent.key.type.Spelled
      ('"' :: '\\' :: 'u' :: '0' :: '0' :: '4' :: 'e' :: (['o', 't', 'e'] ++ ['"'])) :=
    ⟨"Note", Text.trim_of_isTrimmed quotedEvent.key.type.isTrimmed, [], _, isSpace_nil,
      hspells, rfl⟩
  have hid : quotedEvent.key.id.Spelled (writeString " n1") :=
    ⟨" n1", by decide +kernel, quoted_writeString " n1"⟩
  have hcomma : Comma false [','] := .present isSpace_nil
  have hother : Derives .value ['[', ']'] := .emptyArray isSpace_nil isSpace_nil
  have hclose : ObjectBody quotedEvent.key.members false ["aggregate_type", "aggregate_id"]
      ['\x7d'] :=
    .close isSpace_nil (by simp [AggregateKey.members])
  have htypeBody := ObjectBody.member hcomma (.head _)
    (by decide : "aggregate_type" ∉ ["aggregate_id"]) (named_writeString _) htype hclose
  have hidBody := ObjectBody.member hcomma (.tail _ (.head _)) List.not_mem_nil
    (named_writeString _) hid htypeBody
  have hbody := ObjectBody.other .absent (by simp)
    (named_writeString "x") hother hidBody
  have hlayout : Layout quotedEvent.key.members _ := .object isSpace_nil hbody
  simpa [disguisedKey] using hlayout

/-- It is read as the key that it spells and written in the normal form of that key. -/
theorem decoding_normalises_of_disguisedKey :
    Codecs.standard.Lawful ∧ Layout quotedEvent.key.members disguisedKey ∧
      Codecs.standard.key.normalize (disguisedKey ++ ['\n']) =
        some (Codecs.standard.key.encode quotedEvent.key) := by
  have hspace : IsSpace ['\n'] := by simp [IsSpace, isSpace]
  have hnormalises := (decoding_normalises lawful_standard).2.1
  have hdecode := hnormalises.spellings quotedEvent.key (disguisedKey ++ ['\n'])
    quotedEvent.key.isValid ⟨disguisedKey, ['\n'], layout_disguisedKey, hspace, rfl⟩
  exact ⟨lawful_standard, layout_disguisedKey, (hnormalises.accepted _ _ hdecode).2⟩

example : String.ofList disguisedKey =
    "\x7b\"x\":[],\"aggregate_id\":\" n1\",\"aggregate_type\":\"\\u004eote\"\x7d" := by
  decide +kernel

example : String.ofList (Codecs.standard.key.encode quotedEvent.key) =
    "\x7b\"aggregate_type\":\"Note\",\"aggregate_id\":\"n1\"\x7d" := by
  decide +kernel

end EventSourcing
