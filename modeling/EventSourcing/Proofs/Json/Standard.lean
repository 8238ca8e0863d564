import EventSourcing.Proofs.Json.Codec
import EventSourcing.Proofs.Json.Layout

namespace EventSourcing

namespace Json

variable {α σ : Type}

open Reader

/-- The codec that writes with a function and reads with a reader. -/
def Codec.standard (reader : Reader α) (write : α → List Char) : Codec α where
  encode := write
  decode text := (Reader.decode reader (String.ofList text)).toOption

theorem Codec.decode_standard_iff {reader : Reader α} {write : α → List Char} {text : List Char}
    {value : α} : (Codec.standard reader write).decode text = some value ↔
      ∃ space, reader.run text = .ok (value, space) ∧ IsSpace space := by
  rw [← decode_eq_ok_iff]
  change (Reader.decode reader (String.ofList text)).toOption = some value ↔ _
  cases Reader.decode reader (String.ofList text) with
  | error error => exact ⟨nofun, nofun⟩
  | ok read =>
    exact ⟨fun h => congrArg Except.ok (Option.some.inj h),
      fun h => congrArg some (Except.ok.inj h)⟩

def Codecs.standard : Codecs where
  text := .standard string writeString
  number bound := .standard (nat bound) writeNat
  uuid := .standard Uuid.jsonReader Uuid.writeJson
  identifier kind := .standard (Identifier.jsonReader kind) Identifier.writeJson
  retryLimit := .standard OptimisticRetryLimit.jsonReader OptimisticRetryLimit.writeJson
  liveLockLimit := .standard LiveLockLimit.jsonReader LiveLockLimit.writeJson
  key := .standard AggregateKey.jsonRecord.reader AggregateKey.writeJson
  event := .standard RecordedEvent.jsonRecord.reader RecordedEvent.writeJson
  storeConfig := .standard StoreConfig.jsonRecord.reader StoreConfig.writeJson
  repositoryConfig := .standard RepositoryConfig.jsonRecord.reader RepositoryConfig.writeJson

theorem isText_standard : IsText Codecs.standard.text where
  encode_eq _ := rfl
  decode_iff text cs := by
    rw [Codecs.standard, Codec.decode_standard_iff]
    constructor
    · rintro ⟨space, hrun, hspace⟩
      obtain ⟨literal, hcs, hquoted⟩ := run_string_iff.1 hrun
      exact ⟨literal, space, hquoted, hspace, hcs⟩
    · rintro ⟨literal, space, hquoted, hspace, hcs⟩
      exact ⟨space, run_string_iff.2 ⟨literal, hcs, hquoted⟩, hspace⟩

theorem isNumber_standard (bound : Nat) : IsNumber bound (Codecs.standard.number bound) where
  encode_eq _ _ := rfl
  decode_iff n cs := by
    rw [Codecs.standard, Codec.decode_standard_iff]
    constructor
    · rintro ⟨space, hrun, hspace⟩
      obtain ⟨hlt, literal, hcs, hnumeral⟩ := exists_numeral_of_run_nat hrun
      exact ⟨hlt, literal, space, hnumeral, hspace, hcs⟩
    · rintro ⟨hlt, literal, space, hnumeral, hspace, rfl⟩
      exact ⟨space, reads_nat hlt hnumeral space hspace.endsNumber_self, hspace⟩

theorem isUuid_standard : IsUuid Codecs.standard.text Codecs.standard.uuid where
  encode_eq _ := rfl
  decode_of_form u raw cs hraw hform := by
    rw [Codecs.standard, Codec.decode_standard_iff] at hraw ⊢
    obtain ⟨space, hrun, hspace⟩ := hraw
    refine ⟨space, (run_bind_of_ok hrun _).trans ?_, hspace⟩
    rw [Uuid.parse?, hform.parseChars?]
    rfl

/-- A reader that checks what another one reads is the reader of what it checks. -/
theorem isChecked_standard {β ε : Type} {inner : Reader β} {write : β → List Char}
    {check : β → Except ε α} {error : ε → ReadError} {unwrap : α → β} :
    IsChecked (.standard inner write) check unwrap
      (.standard (checked inner check error) fun value => write (unwrap value)) where
  encode_eq _ := rfl
  decode_iff value cs := by
    simp only [Codec.decode_standard_iff, run_checked_iff]
    constructor
    · rintro ⟨space, ⟨raw, hrun, hcheck⟩, hspace⟩
      exact ⟨raw, ⟨space, hrun, hspace⟩, hcheck⟩
    · rintro ⟨raw, ⟨space, hrun, hspace⟩, hcheck⟩
      exact ⟨space, ⟨raw, hrun, hcheck⟩, hspace⟩

namespace Record

variable {P : σ → Prop}

theorem yields_readElements {fields : List (Field σ)}
    (hread : ∀ field ∈ fields, ∀ parts, P parts → (field.read parts).Yields P) (isFirst : Bool)
    {parts : σ} (hparts : P parts) : (readElements fields isFirst parts).Yields P := by
  induction fields generalizing isFirst parts with
  | nil => exact (yields_true _).bind fun _ _ => yields_pure hparts
  | cons field fields ih =>
    obtain ⟨hfirst, hread⟩ := List.forall_mem_cons.1 hread
    refine (yields_true _).bind fun next _ => ?_
    split
    · split
      · exact ih hread isFirst hparts
      · exact yields_throw _
    · exact (yields_true _).bind fun _ _ => (hfirst parts hparts).bind fun _ => ih hread false

theorem yields_readMember {fields : List (Field σ)}
    (hread : ∀ field ∈ fields, ∀ parts, P parts → (field.read parts).Yields P) (name : String)
    {parts : σ} (hparts : P parts) : (readMember fields name parts).Yields P := by
  unfold readMember
  split
  · next field hfound =>
    split
    · exact yields_throw _
    · have hmem := List.mem_of_find?_eq_some hfound
      exact (yields_true _).bind fun _ _ => hread field hmem parts hparts
  · exact (yields_true _).bind fun _ _ => (yields_true _).bind fun _ _ => yields_pure hparts

theorem yields_readMembers {fields : List (Field σ)}
    (hread : ∀ field ∈ fields, ∀ parts, P parts → (field.read parts).Yields P) (steps : Nat)
    (isFirst : Bool) {parts : σ} (hparts : P parts) :
    (readMembers fields steps isFirst parts).Yields P := by
  induction steps generalizing isFirst parts with
  | zero => exact yields_throw _
  | succ steps ih =>
    refine (yields_true _).bind fun next _ => ?_
    split
    · exact (yields_true _).bind fun _ _ => yields_pure hparts
    · refine (yields_true _).bind fun _ _ => (yields_true _).bind fun name _ => ?_
      exact (yields_readMember hread name hparts).bind fun _ => ih false

/-- What holds of the parts to begin with and is kept by every field holds of them at the end. -/
theorem yields_reader {record : Record σ α} {Q : α → Prop} (hstart : P record.start)
    (hread : ∀ field ∈ record.fields, ∀ parts, P parts → (field.read parts).Yields P)
    (hfinish : ∀ parts value, P parts → record.finish parts = .ok value → Q value) :
    record.reader.Yields Q := by
  have hend : ∀ parts, P parts → Yields (liftM (record.finish parts)) Q := by
    intro parts hparts cs value rest hrun
    cases hvalue : record.finish parts with
    | error error =>
      rw [hvalue] at hrun
      cases hrun
    | ok result =>
      rw [hvalue] at hrun
      cases hrun
      exact hfinish parts value hparts hvalue
  refine (yields_true _).bind fun next _ => ?_
  split
  · refine (yields_true _).bind fun _ _ => ?_
    exact (yields_readElements hread true hstart).bind hend
  · refine (yields_true _).bind fun _ _ => (yields_true _).bind fun cs _ => ?_
    exact (yields_readMembers hread cs.length true hstart).bind hend
  · exact (yields_throw _).bind hend

end Record

end Json

open Json Json.Reader

theorem Json.lawfulParts_standard : Codecs.standard.LawfulParts where
  text := isText_standard
  number := isNumber_standard
  uuid := isUuid_standard
  identifier _ := isChecked_standard
  retryLimit := isChecked_standard
  liveLockLimit := isChecked_standard

/-- A field takes its member if its reader takes off the front of any text what it takes off one. -/
theorem Json.Field.takes_of_isLocal {α β σ : Type} (gathered : List String → σ) {reader : Reader β}
    {write : β → List Char} (hlocal : reader.IsLocal) (put : σ → β → σ) {name : String}
    {isOptional : Bool} {isRead : σ → Bool} {field : α → β} {default? : Option β} {value : α}
    (hoptional : default? = some (field value) → isOptional = true)
    (hunread : ∀ given, name ∉ given → isRead (gathered given) = false)
    (hput : ∀ given, put (gathered given) (field value) = gathered (name :: given)) :
    Field.Takes { name, isOptional, isRead, read := fun parts => do return put parts (← reader) }
      gathered ((Declared.of name (.standard reader write) field default?).member value) where
  name_eq := rfl
  isOptional := hoptional
  unread := hunread
  takes given text htext := by
    obtain ⟨space, hrun, hspace⟩ := Codec.decode_standard_iff.1 htext
    obtain ⟨literal, pad, ⟨hbegins, hreads⟩, hpad, rfl⟩ := hlocal.takes hrun hspace
    exact ⟨literal, pad, ⟨hbegins, hreads.bind fun _ => by rw [hput]; rfl⟩, hpad, rfl⟩

/-- The part of a record of one field, if the field is given. -/
def Json.Record.gatheredSingle {α β : Type} (name : String) (field : α → β) (value : α)
    (given : List String) : Option β :=
  if name ∈ given then some (field value) else none

/-- A record of one field is gathered from it, or from nothing where the field has its default. -/
theorem Json.Record.gathers_single {α β : Type} {reader : Reader β} {write : β → List Char}
    (hlocal : reader.IsLocal) (name : String) (default : β) {make : β → α} {field : α → β}
    (hmake : ∀ value, make (field value) = value) (value : α) :
    (single name reader default make).Gathers
      [(Declared.of name (.standard reader write) field (some default)).member value]
      (gatheredSingle name field value) value where
  start_eq := rfl
  takes := by
    refine .cons ?_ .nil
    exact Field.takes_of_isLocal (gatheredSingle name field value) hlocal (fun _ part => some part)
      (fun _ => rfl) (by simp +contextual [gatheredSingle]) (by simp [gatheredSingle])
  nodup := by simp
  finish_eq := by
    intro given hall
    have hdefault := hall _ List.mem_cons_self
    by_cases hgiven : name ∈ given
    · simp [single, gatheredSingle, hgiven, hmake]
    · simp only [single, gatheredSingle, hgiven, if_false, Option.getD_none]
      rw [(Option.some.inj (hdefault hgiven) : default = field value), hmake]

/-- A record whose fields are gathered from their texts has a lawful codec, if it reads only values
whose fields come back from what is written for them. -/
theorem Json.isRecord_standard {α σ : Type} {record : Record σ α} {write : α → List Char}
    {fields : List (Declared α)} {gathered : α → List String → σ}
    (hwrite : ∀ value, write value =
      writeObject (fields.map fun field => (field.name, field.written value)))
    (hgathers : ∀ value, record.Gathers (fields.map (·.member value)) (gathered value) value)
    (hfields : record.reader.Yields fun value =>
      ∀ field ∈ fields, field.spelled value (field.written value)) :
    IsRecord fields (.standard record.reader write) where
  encode_eq := hwrite
  decode_of_layout value _ space hlayout hspace :=
    Codec.decode_standard_iff.2 ⟨space,
      hlayout.reads (hgathers value) space hspace.endsNumber_self, hspace⟩
  field_of_decode value cs hdecode field hfield := by
    obtain ⟨space, hrun, -⟩ := Codec.decode_standard_iff.1 hdecode
    exact .inr ⟨_, hfields cs value space hrun field hfield⟩

theorem Identifier.isLocal_jsonReader (kind : IdentifierKind) : (jsonReader kind).IsLocal :=
  isLocal_string.checked

theorem OptimisticRetryLimit.isLocal_jsonReader : jsonReader.IsLocal :=
  (isLocal_nat limitBound).checked

theorem LiveLockLimit.isLocal_jsonReader : jsonReader.IsLocal :=
  (isLocal_nat limitBound).checked

namespace AggregateKey

/-- The parts that some of the members make. -/
def gathered (key : AggregateKey) (given : List String) : Parts where
  type := if "aggregate_type" ∈ given then some key.type else none
  id := if "aggregate_id" ∈ given then some key.id else none

theorem gathers (key : AggregateKey) :
    jsonRecord.Gathers ((declared .standard).map (·.member key)) key.gathered key where
  start_eq := rfl
  takes := by
    refine .cons ?_ (.cons ?_ .nil)
    · exact Field.takes_of_isLocal key.gathered (Identifier.isLocal_jsonReader _)
        (fun parts type => { parts with type := some type }) (by simp)
        (by simp +contextual [gathered]) (by simp [gathered])
    · exact Field.takes_of_isLocal key.gathered (Identifier.isLocal_jsonReader _)
        (fun parts id => { parts with id := some id }) (by simp)
        (by simp +contextual [gathered]) (by simp [gathered])
  nodup := by simp [declared, Declared.of, Declared.member]
  finish_eq := by
    intro given hall
    simp only [declared, List.map_cons, List.map_nil, List.forall_mem_cons, Declared.of,
      Declared.member, reduceCtorEq, imp_false, not_not] at hall
    simp only [jsonRecord, gathered, hall, if_true]
    rfl

theorem isRecord_standard : IsRecord (declared .standard) Codecs.standard.key :=
  Json.isRecord_standard (fun _ => rfl) gathers fun _ key _ _ =>
    lawfulParts_standard.key_spelled key

end AggregateKey

/-- A record that needs a part is made only if the part is there. -/
theorem Json.exists_of_required_bind {α β : Type} {name : String} {part : Option α}
    {next : α → Except ReadError β} {result : β}
    (h : (required name part >>= next) = .ok result) :
    ∃ value, part = some value ∧ next value = .ok result := by
  cases part with
  | none => cases h
  | some value => exact ⟨value, rfl, h⟩

theorem Json.Reader.yields_nat (bound : Nat) : (nat bound).Yields (· < bound) := by
  refine (yields_true _).bind fun n _ => ?_
  split
  · next hlt => exact yields_pure hlt
  · exact yields_throw _

namespace RecordedEvent

/-- The parts that some of the members make. -/
def gathered (event : RecordedEvent String) (given : List String) : Parts where
  type := if "aggregate_type" ∈ given then some event.key.type else none
  id := if "aggregate_id" ∈ given then some event.key.id else none
  sequenceId := if "sequence_id" ∈ given then some event.sequenceId else none
  payload := if "domain_event" ∈ given then some event.payload else none
  sourceId := if "source_id" ∈ given then some event.sourceId else none

theorem gathers (event : RecordedEvent String) :
    jsonRecord.Gathers ((declared .standard).map (·.member event)) event.gathered event where
  start_eq := rfl
  takes := by
    refine .cons ?_ (.cons ?_ (.cons ?_ (.cons ?_ (.cons ?_ .nil))))
    · exact Field.takes_of_isLocal event.gathered (Identifier.isLocal_jsonReader _)
        (fun parts type => { parts with type := some type }) (by simp)
        (by simp +contextual [gathered]) (by simp [gathered])
    · exact Field.takes_of_isLocal event.gathered (Identifier.isLocal_jsonReader _)
        (fun parts id => { parts with id := some id }) (by simp)
        (by simp +contextual [gathered]) (by simp [gathered])
    · exact Field.takes_of_isLocal event.gathered (isLocal_nat sequenceIdBound)
        (fun parts sequenceId => { parts with sequenceId := some sequenceId }) (by simp)
        (by simp +contextual [gathered]) (by simp [gathered])
    · exact Field.takes_of_isLocal event.gathered isLocal_string
        (fun parts payload => { parts with payload := some payload }) (by simp)
        (by simp +contextual [gathered]) (by simp [gathered])
    · exact Field.takes_of_isLocal event.gathered Uuid.isLocal_jsonReader
        (fun parts sourceId => { parts with sourceId := some sourceId }) (by simp)
        (by simp +contextual [gathered]) (by simp [gathered])
  nodup := by simp [declared, Declared.of, Declared.member]
  finish_eq := by
    intro given hall
    simp only [declared, List.map_cons, List.map_nil, List.forall_mem_cons, Declared.of,
      Declared.member, reduceCtorEq, imp_false, not_not] at hall
    simp only [jsonRecord, gathered, hall, if_true]
    rfl

/-- A position that has been read fits 64 bits. -/
def Parts.Fits (parts : Parts) : Prop :=
  ∀ n, parts.sequenceId = some n → n < UInt64.size

/-- A part that is no position leaves the position as it is. -/
theorem Parts.Fits.yields_put {α : Type} {parts : Parts} (hfits : parts.Fits) (reader : Reader α)
    {put : α → Parts} (hput : ∀ value, (put value).sequenceId = parts.sequenceId) :
    Yields (do return put (← reader)) Parts.Fits := by
  refine (yields_true reader).bind fun value _ => yields_pure ?_
  rw [Parts.Fits, hput]
  exact hfits

theorem yields_jsonReader :
    jsonRecord.reader.Yields fun event => event.sequenceId < UInt64.size := by
  refine Record.yields_reader (P := Parts.Fits) nofun (fun field hfield parts hfits => ?_) ?_
  · simp only [jsonRecord, List.mem_cons, List.not_mem_nil, or_false] at hfield
    rcases hfield with rfl | rfl | rfl | rfl | rfl
    · exact hfits.yields_put _ fun _ => rfl
    · exact hfits.yields_put _ fun _ => rfl
    · refine (yields_nat sequenceIdBound).bind fun n hn => yields_pure ?_
      rintro _ ⟨⟩
      exact hn
    · exact hfits.yields_put _ fun _ => rfl
    · exact hfits.yields_put _ fun _ => rfl
  · intro parts event hfits hfinish
    obtain ⟨type, -, hfinish⟩ := exists_of_required_bind hfinish
    obtain ⟨id, -, hfinish⟩ := exists_of_required_bind hfinish
    obtain ⟨n, hn, hfinish⟩ := exists_of_required_bind hfinish
    obtain ⟨payload, -, hfinish⟩ := exists_of_required_bind hfinish
    obtain ⟨source, -, hfinish⟩ := exists_of_required_bind hfinish
    cases hfinish
    exact hfits n hn

theorem isRecord_standard : IsRecord (declared .standard) Codecs.standard.event :=
  Json.isRecord_standard (fun _ => rfl) gathers fun cs event rest hrun =>
    lawfulParts_standard.event_spelled (yields_jsonReader cs event rest hrun)

end RecordedEvent

theorem StoreConfig.isRecord_standard :
    IsRecord (StoreConfig.declared .standard) Codecs.standard.storeConfig :=
  Json.isRecord_standard (fun _ => rfl)
    (Record.gathers_single OptimisticRetryLimit.isLocal_jsonReader _ _ fun _ => rfl)
    fun _ config _ _ => lawfulParts_standard.storeConfig_spelled config

theorem RepositoryConfig.isRecord_standard :
    IsRecord (RepositoryConfig.declared .standard) Codecs.standard.repositoryConfig :=
  Json.isRecord_standard (fun _ => rfl)
    (Record.gathers_single LiveLockLimit.isLocal_jsonReader _ _ fun _ => rfl)
    fun _ config _ _ => lawfulParts_standard.repositoryConfig_spelled config

/-- The codecs that this library runs keep to what is asked of codecs. -/
theorem Json.lawful_standard : Codecs.standard.Lawful where
  toLawfulParts := lawfulParts_standard
  key := AggregateKey.isRecord_standard
  event := RecordedEvent.isRecord_standard
  storeConfig := StoreConfig.isRecord_standard
  repositoryConfig := RepositoryConfig.isRecord_standard

end EventSourcing
