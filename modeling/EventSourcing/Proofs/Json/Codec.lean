import EventSourcing.Proofs.Json.Writing

namespace EventSourcing

namespace Json

/-- How the values of a type are written as texts and read from them. -/
structure Codec (α : Type) where
  encode : α → List Char
  /-- The value of a whole text, if the text is accepted. -/
  decode : List Char → Option α

/-- A text is written in quotes with the standard escapes, and read from all of its literals. -/
structure IsText (codec : Codec String) : Prop where
  encode_eq : ∀ text, codec.encode text = writeString text
  decode_iff : ∀ text cs, codec.decode cs = some text ↔ Padded (Quoted text) cs

/-- A number below `bound` is written with its decimal digits and read from them. -/
structure IsNumber (bound : Nat) (codec : Codec Nat) : Prop where
  encode_eq : ∀ n < bound, codec.encode n = writeNat n
  decode_iff : ∀ n cs, codec.decode cs = some n ↔ n < bound ∧ Padded (Numeral n) cs

/-- A unique identifier is written as a text, in groups of lower-case digits, and read from a text
of any of its forms. -/
structure IsUuid (text : Codec String) (codec : Codec Uuid) : Prop where
  encode_eq : ∀ u, codec.encode u = text.encode (toString u)
  decode_of_form : ∀ u raw cs, text.decode cs = some raw → u.Form raw.toList →
    codec.decode cs = some u

/-- A value that wraps another one is written as that one, and read as that one, which is checked
then. -/
structure IsChecked {α β ε : Type} (inner : Codec β) (check : β → Except ε α) (unwrap : α → β)
    (codec : Codec α) : Prop where
  encode_eq : ∀ value, codec.encode value = inner.encode (unwrap value)
  decode_iff : ∀ value cs, codec.decode cs = some value ↔
    ∃ raw, inner.decode cs = some raw ∧ check raw = .ok value

/-- A field that the declaration of a record names. -/
structure Declared (α : Type) where
  name : String
  /-- What is written for the field of a value. -/
  written : α → List Char
  /-- The texts that are read as the field of a value. -/
  spelled : α → List Char → Prop
  /-- The field of a value is the one that it has by default. -/
  isDefault : α → Prop

namespace Declared

variable {α β : Type}

/-- A field with a codec of its own. It may have a default. -/
def of (name : String) (codec : Codec β) (field : α → β) (default? : Option β) : Declared α where
  name
  written value := codec.encode (field value)
  spelled value text := codec.decode text = some (field value)
  isDefault value := default? = some (field value)

def member (declared : Declared α) (value : α) : Member where
  name := declared.name
  spelled := declared.spelled value
  mayBeOmitted := declared.isDefault value

end Declared

/-- A record is written as an object with its fields in order. It is read from any layout of its
fields, where those may be left out that have a default, and from no field of anything else. -/
structure IsRecord {α : Type} (fields : List (Declared α)) (codec : Codec α) : Prop where
  encode_eq : ∀ value, codec.encode value =
    writeObject (fields.map fun field => (field.name, field.written value))
  decode_of_layout : ∀ value text space, Layout (fields.map (·.member value)) text →
    IsSpace space → codec.decode (text ++ space) = some value
  field_of_decode : ∀ value cs, codec.decode cs = some value → ∀ field ∈ fields,
    field.isDefault value ∨ ∃ text, field.spelled value text

/-- How everything is written and read that has a serialized form. -/
structure Codecs where
  text : Codec String
  /-- Numbers below a bound. -/
  number : (bound : Nat) → Codec Nat
  uuid : Codec Uuid
  identifier : (kind : IdentifierKind) → Codec (Identifier kind)
  retryLimit : Codec OptimisticRetryLimit
  liveLockLimit : Codec LiveLockLimit
  key : Codec AggregateKey
  event : Codec (RecordedEvent String)
  storeConfig : Codec StoreConfig
  repositoryConfig : Codec RepositoryConfig

end Json

section Declarations

open Json

variable (codecs : Codecs)

def AggregateKey.declared : List (Declared AggregateKey) :=
  [.of "aggregate_type" (codecs.identifier .aggregateType) (·.type) none,
    .of "aggregate_id" (codecs.identifier .aggregateId) (·.id) none]

def RecordedEvent.declared : List (Declared (RecordedEvent String)) :=
  [.of "aggregate_type" (codecs.identifier .aggregateType) (·.key.type) none,
    .of "aggregate_id" (codecs.identifier .aggregateId) (·.key.id) none,
    .of "sequence_id" (codecs.number UInt64.size) (·.sequenceId) none,
    .of "domain_event" codecs.text (·.payload) none,
    .of "source_id" codecs.uuid (·.sourceId) none]

def StoreConfig.declared : List (Declared StoreConfig) :=
  [.of "optimistic_retry_limit" codecs.retryLimit (·.retryLimit) (some .standard)]

def RepositoryConfig.declared : List (Declared RepositoryConfig) :=
  [.of "live_lock_limit" codecs.liveLockLimit (·.liveLockLimit) (some .standard)]

end Declarations

/-- Texts, numbers and unique identifiers, and what is made of them by a check. -/
structure Json.Codecs.LawfulParts (codecs : Codecs) : Prop where
  text : IsText codecs.text
  number : ∀ bound, IsNumber bound (codecs.number bound)
  uuid : IsUuid codecs.text codecs.uuid
  identifier : ∀ kind,
    IsChecked codecs.text (Identifier.parse kind) Identifier.text (codecs.identifier kind)
  retryLimit : IsChecked (codecs.number UInt32.size) OptimisticRetryLimit.ofNat (·.value)
    codecs.retryLimit
  liveLockLimit : IsChecked (codecs.number UInt32.size) LiveLockLimit.ofNat (·.value)
    codecs.liveLockLimit

/-- What third parties promise of the codecs: those of the parts, and of records of these parts. -/
structure Json.Codecs.Lawful (codecs : Codecs) : Prop extends codecs.LawfulParts where
  key : IsRecord (AggregateKey.declared codecs) codecs.key
  event : IsRecord (RecordedEvent.declared codecs) codecs.event
  storeConfig : IsRecord (StoreConfig.declared codecs) codecs.storeConfig
  repositoryConfig : IsRecord (RepositoryConfig.declared codecs) codecs.repositoryConfig

namespace Json

/-- Reading a text gives back the value that was written, and so no two values are written alike. -/
structure RoundTrips {α : Type} (codec : Codec α) (admits : α → Prop) : Prop where
  decode_encode : ∀ value, admits value → codec.decode (codec.encode value) = some value
  injective : ∀ value other, admits value → admits other →
    codec.encode value = codec.encode other → value = other

theorem RoundTrips.of_decode_encode {α : Type} {codec : Codec α} {admits : α → Prop}
    (hdecode : ∀ value, admits value → codec.decode (codec.encode value) = some value) :
    RoundTrips codec admits where
  decode_encode := hdecode
  injective value other hvalue hother hencode := by
    have hback := hdecode value hvalue
    rw [hencode, hdecode other hother] at hback
    exact (Option.some.inj hback).symm

/-- Fewer values come back as well. -/
theorem RoundTrips.mono {α : Type} {codec : Codec α} {admits fewer : α → Prop}
    (hback : RoundTrips codec admits) (hadmits : ∀ value, fewer value → admits value) :
    RoundTrips codec fewer :=
  .of_decode_encode fun value hvalue => hback.decode_encode value (hadmits value hvalue)

/-- If every value comes back, then those do that are admitted. -/
theorem RoundTrips.restrict {α : Type} {codec : Codec α} {admits : α → Prop}
    (hback : RoundTrips codec fun _ => True) : RoundTrips codec admits :=
  hback.mono fun _ _ => trivial

theorem IsText.roundTrips {codec : Codec String} (htext : IsText codec) :
    RoundTrips codec fun _ => True := by
  refine .of_decode_encode fun text _ => ?_
  rw [htext.encode_eq, htext.decode_iff]
  exact padded_of_literal (quoted_writeString text)

theorem IsNumber.roundTrips {bound : Nat} {codec : Codec Nat} (hnumber : IsNumber bound codec) :
    RoundTrips codec (· < bound) := by
  refine .of_decode_encode fun n hlt => ?_
  rw [hnumber.encode_eq n hlt, hnumber.decode_iff]
  exact ⟨hlt, padded_of_literal (numeral_writeNat n)⟩

theorem IsUuid.roundTrips {text : Codec String} {codec : Codec Uuid} (huuid : IsUuid text codec)
    (htext : IsText text) : RoundTrips codec fun _ => True := by
  refine .of_decode_encode fun u _ => ?_
  rw [huuid.encode_eq]
  exact huuid.decode_of_form u _ _ (htext.roundTrips.decode_encode _ trivial) u.form_toString

/-- It is enough that what is wrapped comes back and passes the check once more. -/
theorem IsChecked.roundTrips {α β ε : Type} {inner : Codec β} {check : β → Except ε α}
    {unwrap : α → β} {codec : Codec α} (hchecked : IsChecked inner check unwrap codec)
    {admits : β → Prop} (hinner : RoundTrips inner admits)
    (hadmits : ∀ value, admits (unwrap value))
    (hcheck : ∀ value, check (unwrap value) = .ok value) : RoundTrips codec fun _ => True := by
  refine .of_decode_encode fun value _ => ?_
  rw [hchecked.encode_eq, hchecked.decode_iff]
  exact ⟨unwrap value, hinner.decode_encode _ (hadmits value), hcheck value⟩

/-- It is enough that the texts that are written for the fields come back. -/
theorem IsRecord.decode_encode {α : Type} {fields : List (Declared α)} {codec : Codec α}
    (hrecord : IsRecord fields codec) (hnodup : (fields.map (·.name)).Nodup) {value : α}
    (hfields : ∀ field ∈ fields, field.spelled value (field.written value)) :
    codec.decode (codec.encode value) = some value := by
  have hwritten : List.Forall₂ Member.IsWrittenAs (fields.map (·.member value))
      (fields.map fun field => (field.name, field.written value)) := by
    rw [List.forall₂_map_left_iff, List.forall₂_map_right_iff, List.forall₂_same]
    exact fun field hfield => ⟨rfl, hfields field hfield⟩
  have hnames : ((fields.map (·.member value)).map (·.name)).Nodup := by
    rw [List.map_map]
    exact hnodup
  have hlayout := layout_writeObject hwritten hnames
  have hdecode := hrecord.decode_of_layout value _ [] hlayout isSpace_nil
  rw [hrecord.encode_eq]
  rwa [List.append_nil] at hdecode

end Json

namespace Json.Codecs

variable {codecs : Codecs}

namespace LawfulParts

theorem identifier_roundTrips (hparts : codecs.LawfulParts) (kind : IdentifierKind) :
    RoundTrips (codecs.identifier kind) fun _ => True :=
  (hparts.identifier kind).roundTrips hparts.text.roundTrips (fun _ => trivial)
    Identifier.parse_text

theorem retryLimit_roundTrips (hparts : codecs.LawfulParts) :
    RoundTrips codecs.retryLimit fun _ => True := by
  refine hparts.retryLimit.roundTrips (hparts.number _).roundTrips (fun limit => ?_) fun limit => ?_
  · exact Nat.lt_of_le_of_lt limit.le_max (by decide)
  · rw [OptimisticRetryLimit.ofNat, dif_pos limit.le_max]

theorem liveLockLimit_roundTrips (hparts : codecs.LawfulParts) :
    RoundTrips codecs.liveLockLimit fun _ => True := by
  refine hparts.liveLockLimit.roundTrips (hparts.number _).roundTrips (fun limit => ?_)
    fun limit => ?_
  · exact Nat.lt_of_le_of_lt limit.le_max (by decide)
  · rw [LiveLockLimit.ofNat, dif_pos limit.pos, dif_pos limit.le_max]

theorem key_spelled (hparts : codecs.LawfulParts) (key : AggregateKey) :
    ∀ field ∈ AggregateKey.declared codecs, field.spelled key (field.written key) := by
  simp only [AggregateKey.declared, List.forall_mem_cons]
  exact ⟨(hparts.identifier_roundTrips _).decode_encode _ trivial,
    (hparts.identifier_roundTrips _).decode_encode _ trivial, List.forall_mem_nil _⟩

theorem event_spelled (hparts : codecs.LawfulParts) {event : RecordedEvent String}
    (hlt : event.sequenceId < UInt64.size) :
    ∀ field ∈ RecordedEvent.declared codecs, field.spelled event (field.written event) := by
  simp only [RecordedEvent.declared, List.forall_mem_cons]
  exact ⟨(hparts.identifier_roundTrips _).decode_encode _ trivial,
    (hparts.identifier_roundTrips _).decode_encode _ trivial,
    (hparts.number _).roundTrips.decode_encode _ hlt,
    hparts.text.roundTrips.decode_encode _ trivial,
    (hparts.uuid.roundTrips hparts.text).decode_encode _ trivial, List.forall_mem_nil _⟩

theorem storeConfig_spelled (hparts : codecs.LawfulParts) (config : StoreConfig) :
    ∀ field ∈ StoreConfig.declared codecs, field.spelled config (field.written config) := by
  simp only [StoreConfig.declared, List.forall_mem_cons]
  exact ⟨hparts.retryLimit_roundTrips.decode_encode _ trivial, List.forall_mem_nil _⟩

theorem repositoryConfig_spelled (hparts : codecs.LawfulParts) (config : RepositoryConfig) :
    ∀ field ∈ RepositoryConfig.declared codecs, field.spelled config (field.written config) := by
  simp only [RepositoryConfig.declared, List.forall_mem_cons]
  exact ⟨hparts.liveLockLimit_roundTrips.decode_encode _ trivial, List.forall_mem_nil _⟩

end LawfulParts

namespace Lawful

theorem key_roundTrips (hlawful : codecs.Lawful) : RoundTrips codecs.key fun _ => True :=
  .of_decode_encode fun key _ => hlawful.key.decode_encode
    (by simp [AggregateKey.declared, Declared.of]) (hlawful.key_spelled key)

theorem event_roundTrips (hlawful : codecs.Lawful) :
    RoundTrips codecs.event fun event => event.sequenceId < UInt64.size :=
  .of_decode_encode fun _ hlt => hlawful.event.decode_encode
    (by simp [RecordedEvent.declared, Declared.of]) (hlawful.event_spelled hlt)

theorem storeConfig_roundTrips (hlawful : codecs.Lawful) :
    RoundTrips codecs.storeConfig fun _ => True :=
  .of_decode_encode fun config _ => hlawful.storeConfig.decode_encode
    (by simp [StoreConfig.declared]) (hlawful.storeConfig_spelled config)

theorem repositoryConfig_roundTrips (hlawful : codecs.Lawful) :
    RoundTrips codecs.repositoryConfig fun _ => True :=
  .of_decode_encode fun config _ => hlawful.repositoryConfig.decode_encode
    (by simp [RepositoryConfig.declared]) (hlawful.repositoryConfig_spelled config)

end Lawful

end Json.Codecs

end EventSourcing
