import EventSourcing.Proofs.Json.Standard

namespace EventSourcing

open Json

/-- Every identifier, key, event, limit and configuration is read from what was written for it as
exactly this value. It does not matter which characters an identifier or a payload is made of, and
an event may have any position of 64 bits and any cause. -/
theorem json_round_trip {codecs : Codecs} (hlawful : codecs.Lawful) :
    (∀ kind, RoundTrips (codecs.identifier kind) fun _ => True) ∧
    RoundTrips codecs.key (fun _ => True) ∧
    RoundTrips codecs.event (fun event => event.sequenceId < UInt64.size) ∧
    RoundTrips codecs.retryLimit (fun _ => True) ∧
    RoundTrips codecs.liveLockLimit (fun _ => True) ∧
    RoundTrips codecs.storeConfig (fun _ => True) ∧
    RoundTrips codecs.repositoryConfig (fun _ => True) :=
  ⟨hlawful.identifier_roundTrips, hlawful.key_roundTrips, hlawful.event_roundTrips,
    hlawful.retryLimit_roundTrips, hlawful.liveLockLimit_roundTrips,
    hlawful.storeConfig_roundTrips, hlawful.repositoryConfig_roundTrips⟩

/-- An event at the last position of 64 bits. Its payload has a quotation mark, a backslash, a
control character and one that is not ASCII. -/
def quotedEvent : RecordedEvent String where
  key :=
    { type := ⟨"Note", by constructor <;> simp <;> decide, by decide, by decide⟩
      id := ⟨"n1", by constructor <;> simp <;> decide, by decide, by decide⟩ }
  sequenceId := 18446744073709551615
  payload := "\"\\\n\x01é"
  sourceId := ⟨0xdeadbeef⟩

theorem json_round_trip_of_quotedEvent :
    Codecs.standard.Lawful ∧ quotedEvent.sequenceId < UInt64.size ∧
      Codecs.standard.event.decode (Codecs.standard.event.encode quotedEvent) =
        some quotedEvent := by
  have hlt : quotedEvent.sequenceId < UInt64.size := by decide
  exact ⟨lawful_standard, hlt,
    (json_round_trip lawful_standard).2.2.1.decode_encode quotedEvent hlt⟩

example : String.ofList (Codecs.standard.event.encode quotedEvent) =
    "\x7b\"aggregate_type\":\"Note\",\"aggregate_id\":\"n1\"," ++
      "\"sequence_id\":18446744073709551615,\"domain_event\":\"\\\"\\\\\\n\\u0001é\"," ++
      "\"source_id\":\"00000000-0000-0000-0000-0000deadbeef\"\x7d" := by
  decide +kernel

end EventSourcing
