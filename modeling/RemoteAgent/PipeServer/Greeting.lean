import RemoteAgent.CodeLib.JsonText
import RemoteAgent.Job.Answer
import RemoteAgent.PipeServer.Connection

/-!
# The answer to HELLO

A HELLO of the right version is answered with HELLO_ACK, which gives the client its id
back.  HELLO may come in a record of up to one mebibyte.  `Frame::encode` takes payloads
of up to 32 KiB, and the id has to be written as JSON once more, where an escaped
character takes up to six bytes.

* `HelloPayload.toJson` is the text that `serde_json` writes, and `length_toJson` its
  length.
* `Acknowledges` says that the handshake writes a HELLO_ACK that parses to the HELLO.
* `acknowledged_iff`: it does so exactly if the escaped id is within `clientIdLimit`.
* `long_client_id_unanswered` is a HELLO with an id that is one byte too long.
-/

namespace RemoteAgent

namespace PipeServer

open CodeLib Protocol

/-! ## The text of a HELLO -/

/-- `serde_json::to_vec` of the payload: two fields, a number and a string or `null`. -/
def HelloPayload.toJson (p : HelloPayload) : List UInt8 :=
  Job.textBytes ("\x7b\"version\":" ++ toString p.version.toNat ++ ",\"client_id\":" ++
    (p.clientId.map Json.quote).getD "null" ++ "\x7d")

/-- What the id may take up beside the rest of the text. -/
def clientIdLimit : Nat := maxPayloadSize - 28

theorem length_textBytes (s : String) : (Job.textBytes s).length = s.utf8ByteSize := by
  simp [Job.textBytes]

theorem length_toJson {p : HelloPayload} (hversion : p.version = protocolVersion) :
    (HelloPayload.toJson p).length =
      26 + ((p.clientId.map fun id => 2 + Json.escapedSizes id).getD 4) := by
  have hid : ((p.clientId.map Json.quote).getD "null").utf8ByteSize =
      (p.clientId.map fun id => 2 + Json.escapedSizes id).getD 4 := by
    cases p.clientId with
    | none => rfl
    | some id => exact Json.utf8ByteSize_quote id
  rw [HelloPayload.toJson, length_textBytes, hversion]
  simp only [String.utf8ByteSize_append, hid]
  have hopen : "\x7b\"version\":".utf8ByteSize = 11 := rfl
  have hone : (toString protocolVersion.toNat).utf8ByteSize = 1 := by decide
  have hkey : ",\"client_id\":".utf8ByteSize = 13 := rfl
  have hclose : "\x7d".utf8ByteSize = 1 := rfl
  omega

/-- The text fits into a frame exactly if the escaped id is within its limit. -/
theorem toJson_fits_iff {p : HelloPayload} (hversion : p.version = protocolVersion) :
    (HelloPayload.toJson p).length ≤ maxPayloadSize ↔
      ∀ id ∈ p.clientId, Json.escapedSizes id ≤ clientIdLimit := by
  rw [length_toJson hversion]
  have hmax : maxPayloadSize = 32768 := rfl
  have hlimit : clientIdLimit = 32740 := rfl
  cases p.clientId with
  | none => simp [hmax]
  | some id =>
    simp only [Option.map_some, Option.getD_some, Option.mem_def, Option.some.injEq,
      forall_eq']
    omega

end PipeServer

/-! ## The handshake -/

namespace Connection

open CodeLib Protocol PipeServer

/-- The handshake writes a HELLO_ACK whose payload parses to the HELLO, and nothing
else. -/
def Acknowledges (serde : Serde) (hello : HelloPayload) (c : Connection) : Prop :=
  ∃ c' ack, c.step serde .greet = some c' ∧
    c'.output.written = c.output.written ++ wire ack ∧ ack.frameType = .helloAck ∧
    serde.helloFromSlice ack.payload = .ok hello

section handshake

variable {serde : Serde} {c : Connection} {f : Frame} {hello : HelloPayload}

/-- The handshake after a HELLO of the right version is the write of HELLO_ACK. -/
theorem step_greet_hello (hphase : c.phase = .greeting)
    (hread : c.input.readFrameStatic.1 = .ok f) (htype : f.frameType = .hello)
    (hparse : serde.helloFromSlice f.payload = .ok hello)
    (hversion : hello.version = protocolVersion) :
    ∃ c', c.step serde .greet = some c' ∧
      c'.output = (c.output.writeFrameStatic (helloAck serde hello)).2 := by
  have hneg := negotiate_eq_accept htype hparse hversion
  have hgreet : (greet serde c.output c.input.readFrameStatic.1).2 =
      (c.output.writeFrameStatic (helloAck serde hello)).2 := by
    simp only [hread, greet, hneg]
    split
    · rename_i hwrite
      rw [hwrite]
    · rename_i hwrite
      rw [hwrite]
  refine ⟨{ c with
    input := c.input.readFrameStatic.2
    phase := (greet serde c.output c.input.readFrameStatic.1).1
    output := (greet serde c.output c.input.readFrameStatic.1).2 }, ?_, hgreet⟩
  simp only [step, hphase]

theorem acknowledges_iff_fits (hphase : c.phase = .greeting) (hrel : c.output.Reliable)
    (hread : c.input.readFrameStatic.1 = .ok f) (htype : f.frameType = .hello)
    (hparse : serde.helloFromSlice f.payload = .ok hello)
    (hversion : hello.version = protocolVersion)
    (hback : serde.helloFromSlice (serde.helloToVec hello) = .ok hello) :
    c.Acknowledges serde hello ↔ (serde.helloToVec hello).length ≤ maxPayloadSize := by
  obtain ⟨c', hstep, houtput⟩ := step_greet_hello hphase hread htype hparse hversion
  have hpayload : (helloAck serde hello).payload = serde.helloToVec hello := by
    show serde.helloToVec ⟨protocolVersion, hello.clientId⟩ = _
    rw [← hversion]
  constructor
  · rintro ⟨c₁, ack, hstep₁, hwritten, -, -⟩
    by_contra hlong
    obtain rfl : c' = c₁ := Option.some.inj (hstep.symm.trans hstep₁)
    have hsame : c'.output.written = c.output.written := by
      rw [houtput, Outbound.writeFrameStatic]
      split
      · rfl
      · rename_i data hdata
        rw [Frame.encode_eq_ok_iff, hpayload] at hdata
        exact absurd hdata.1 hlong
    rw [hsame] at hwritten
    have hwire : wire ack = [] := by simpa using hwritten
    cases hwire
  · intro hfits
    have hencode := Frame.encode_of_le (f := helloAck serde hello) (by rwa [hpayload])
    obtain ⟨output', hwrite, hwritten, -⟩ := Outbound.writeFrameStatic_spec hrel hencode
    rw [hwrite] at houtput
    exact ⟨c', helloAck serde hello, hstep, by rw [houtput, hwritten], rfl,
      by rw [hpayload, hback]⟩

/-- A HELLO of the right version is acknowledged exactly if its client id, escaped for
JSON, is within the limit. -/
theorem acknowledged_iff (hphase : c.phase = .greeting) (hrel : c.output.Reliable)
    (hread : c.input.readFrameStatic.1 = .ok f) (htype : f.frameType = .hello)
    (hparse : serde.helloFromSlice f.payload = .ok hello)
    (hversion : hello.version = protocolVersion)
    (hjson : serde.helloToVec hello = HelloPayload.toJson hello)
    (hback : serde.helloFromSlice (serde.helloToVec hello) = .ok hello) :
    c.Acknowledges serde hello ↔
      ∀ id ∈ hello.clientId, Json.escapedSizes id ≤ clientIdLimit := by
  rw [acknowledges_iff_fits hphase hrel hread htype hparse hversion hback, hjson,
    toJson_fits_iff hversion]

end handshake

/-! ## Two clients -/

/-- `serde_json` on the text of one HELLO. -/
def serdeOf (hello : HelloPayload) : Serde where
  helloFromSlice := fun bs => if bs = HelloPayload.toJson hello then .ok hello else .error "EOF"
  helloToVec := HelloPayload.toJson
  runFromSlice := fun _ => .error "EOF"

def helloOf (hello : HelloPayload) : Frame :=
  (Frame.new .hello .control).withPayload (HelloPayload.toJson hello)

/-- A client that sends the HELLO. -/
def greeterOf (hello : HelloPayload) : Connection :=
  start ⟨⟨[⟨wire (helloOf hello), List.cons_ne_nil _ _⟩]⟩, none⟩ sampleOutput

theorem greeterOf_reads (hello : HelloPayload)
    (h : (HelloPayload.toJson hello).length ≤ 1024 * 1024 - 12) :
    (greeterOf hello).input.readFrameStatic.1 = .ok (helloOf hello) := by
  have hlength : (helloOf hello).bytes.length ≤ 1024 * 1024 := by
    rw [Frame.length_bytes]
    show 12 + (HelloPayload.toJson hello).length ≤ _
    omega
  have hnext := nextFrame_of_length (greeterOf hello).input.endError hlength []
  have hbytes : (greeterOf hello).input.bytes = wire (helloOf hello) ++ [] := rfl
  have hflags : ByteOrder.swapBytes16 0 = 0 := by decide
  have hword : ByteOrder.swapBytes32 0 = 0 := by decide
  have hsame : (helloOf hello).swapped = helloOf hello :=
    (Frame.swapped_eq_iff _).mpr ⟨hflags, hword, hword⟩
  rw [(readFrameStatic_leaves _).1, hbytes, hnext, hsame]
  rfl

theorem serdeOf_parses (hello : HelloPayload) :
    (serdeOf hello).helloFromSlice (HelloPayload.toJson hello) = .ok hello :=
  if_pos rfl

/-- A client whose id has a quotation mark in it. -/
theorem acknowledged_iff_quoted :
    (greeterOf ⟨1, some "a\"b"⟩).Acknowledges (serdeOf ⟨1, some "a\"b"⟩) ⟨1, some "a\"b"⟩ := by
  refine (acknowledged_iff (f := helloOf ⟨1, some "a\"b"⟩) rfl (fun _ => rfl)
    (greeterOf_reads _ (by decide)) rfl (serdeOf_parses _) rfl rfl (serdeOf_parses _)).mpr ?_
  decide

/-- A HELLO with an id of `n` letters. -/
def helloWithLetters (n : Nat) : HelloPayload :=
  ⟨protocolVersion, some (String.ofList (List.replicate n 'a'))⟩

theorem length_helloWithLetters (n : Nat) :
    (HelloPayload.toJson (helloWithLetters n)).length = 28 + n := by
  have hletter : Json.escapedSize 'a' = 1 := rfl
  have hsizes : Json.escapedSizes (String.ofList (List.replicate n 'a')) = n := by
    rw [Json.escapedSizes, String.toList_ofList, List.map_replicate, hletter,
      List.sum_replicate_nat, Nat.mul_one]
  rw [length_toJson rfl, helloWithLetters, Option.map_some, Option.getD_some, hsizes]
  omega

theorem letters_unanswered {n : Nat} (hlong : clientIdLimit < n)
    (hread : n ≤ 1024 * 1024 - 40) :
    (greeterOf (helloWithLetters n)).input.readFrameStatic.1 =
        .ok (helloOf (helloWithLetters n)) ∧
      ¬ (greeterOf (helloWithLetters n)).Acknowledges (serdeOf (helloWithLetters n))
        (helloWithLetters n) := by
  have hlength := length_helloWithLetters n
  have hreads := greeterOf_reads (helloWithLetters n) (by omega)
  refine ⟨hreads, ?_⟩
  rw [acknowledges_iff_fits rfl (fun _ => rfl) hreads rfl (serdeOf_parses _) rfl
    (serdeOf_parses _)]
  show ¬ (HelloPayload.toJson (helloWithLetters n)).length ≤ maxPayloadSize
  simp only [clientIdLimit, maxPayloadSize] at hlong ⊢
  omega

/-- The server reads a HELLO with an id that is one letter too long, and has nothing to
say. -/
theorem long_client_id_unanswered :
    ∃ (serde : Serde) (c : Connection) (f : Frame) (hello : HelloPayload),
      c.phase = .greeting ∧ c.output.Reliable ∧ c.input.readFrameStatic.1 = .ok f ∧
      f.frameType = .hello ∧ serde.helloFromSlice f.payload = .ok hello ∧
      hello.version = protocolVersion ∧
      serde.helloToVec hello = HelloPayload.toJson hello ∧
      serde.helloFromSlice (serde.helloToVec hello) = .ok hello ∧
      ¬ c.Acknowledges serde hello := by
  obtain ⟨hreads, hnot⟩ := letters_unanswered (n := 32741) (by decide) (by decide)
  exact ⟨_, _, _, _, rfl, fun _ => rfl, hreads, rfl, serdeOf_parses _, rfl, rfl,
    serdeOf_parses _, hnot⟩

end Connection

end RemoteAgent
