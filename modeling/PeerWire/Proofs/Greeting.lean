import PeerWire.Connection
import PeerWire.Proofs.Arrivals

/-!
# Handshakes in time

Handshakes are exchanged by one deadline, which nothing that arrives moves. Main statement: greeting
a peer sends this side's handshake and succeeds exactly when 68 bytes that fit arrive by the
deadline; else it fails with the first byte if that does not fit, with the end of the stream if that
comes too early, with the 68th byte if the others do not fit, and with the deadline if bytes are
missing then. What arrives behind the handshake is what the messages are read from.
-/

namespace PeerWire

namespace Handshake

/-- Bytes begin like the handshake of somebody who wants to talk about a torrent: with the length of
the protocol's name, the name, eight bytes of any value, and the torrent. -/
structure Fits (infoHash : Digest) (text : Bytes) : Prop where
  /-- The length of the protocol's name comes first. -/
  nameLength : text.head?.map UInt8.toNat = some Handshake.nameLength
  /-- Then the name. -/
  name : (text.drop 1).take Handshake.nameLength = protocolName
  /-- Behind the reserved bytes stands the torrent. -/
  infoHash : (text.drop 28).take 20 = infoHash.bytes

/-- What is wrong with a handshake that begins well. -/
inductive Misfit (infoHash : Digest) (text : Bytes) : HandshakeFault → Prop where
  /-- It is for another protocol. -/
  | name (wrong : (text.drop 1).take nameLength ≠ protocolName) :
      Misfit infoHash text (.name ((text.drop 1).take nameLength))
  /-- It is for another torrent. -/
  | infoHash {actual : Digest} (right : (text.drop 1).take nameLength = protocolName)
      (bytes : actual.bytes = (text.drop 28).take 20) (wrong : actual ≠ infoHash) :
      Misfit infoHash text (.infoHash infoHash actual)

variable {infoHash : Digest} {text : Bytes}

/-- What is wrong does not fit. -/
theorem Misfit.not_fits {fault : HandshakeFault} (h : Misfit infoHash text fault) :
    ¬Fits infoHash text := by
  intro hfits
  cases h with
  | name wrong => exact wrong hfits.name
  | @infoHash actual right bytes wrong =>
    apply wrong
    cases actual
    cases infoHash
    simpa using bytes.trans hfits.infoHash

/-- A handshake that begins well fits, or something is wrong with it. -/
theorem ofBytes_cases (infoHash : Digest) (hsize : text.length = size)
    (hlength : checkLength (text.headD 0) = .ok ()) :
    (∃ remote, ofBytes text hsize = .ok remote ∧ remote.verify infoHash = .ok () ∧
      (text.drop 1).take nameLength = protocolName ∧ (text.drop 28).take 20 = infoHash.bytes ∧
      remote.peerId.bytes = text.drop 48) ∨
    ∃ fault, Misfit infoHash text fault ∧ (ofBytes text hsize = .error fault ∨
      ∃ remote, ofBytes text hsize = .ok remote ∧ remote.verify infoHash = .error fault) := by
  simp only [ofBytes, hlength]
  by_cases hname : (text.drop 1).take nameLength = protocolName
  · simp only [hname, ne_eq, not_true_eq_false, if_false]
    by_cases hhash : (⟨(text.drop 28).take 20, by simp [hsize, size]⟩ : Digest) = infoHash
    · left
      exact ⟨_, rfl, if_pos hhash, trivial, congrArg Digest.bytes hhash, rfl⟩
    · right
      exact ⟨_, .infoHash hname rfl hhash, .inr ⟨_, rfl, if_neg hhash⟩⟩
  · right
    exact ⟨_, .name hname, .inl (if_pos hname)⟩

/-- Where somebody's first byte has come by a moment it is the length of the protocol's name. -/
def NamedBy (moment : Nat) (bytes : List (Dated UInt8)) : Prop :=
  ∀ first ∈ bytes.head?, first.moment ≤ moment → first.value.toNat = nameLength

/-- What comes of exchanging handshakes up to a deadline, from a moment on, where some bytes come
before an end. -/
inductive Exchanges (h : Handshake) (deadline : Nat) (stopAt : Option Nat) (room : Option Nat)
    (ends : Option Nat) (now : Nat) (bytes : List (Dated UInt8)) :
    Outcome ByteStream Handshake → Prop where
  /-- A handshake comes that fits. -/
  | greeted {remote : Handshake} {rest : Timeline Bytes} {moment : Nat}
      (come : Dated.Come size deadline bytes)
      (fits : Fits h.infoHash ((bytes.take size).map Dated.value))
      (remote_eq : remote.peerId.bytes = ((bytes.take size).map Dated.value).drop 48)
      (moment_eq : moment = Dated.last now (bytes.take size)) (scheduled : rest.Scheduled)
      (behind : rest.bytes moment = bytes.drop size) (ends_eq : rest.endsAt moment = ends) :
      Exchanges h deadline stopAt room ends now bytes
        ⟨.done remote, ⟨moment, stopAt⟩, ⟨rest, h.toBytes, room⟩⟩
  /-- The first byte does not fit. -/
  | misnamed {first : Dated UInt8} {s : ByteStream} (head : bytes.head? = some first)
      (inTime : first.moment ≤ deadline) (wrong : first.value.toNat ≠ nameLength)
      (written : s.written = h.toBytes) :
      Exchanges h deadline stopAt room ends now bytes
        ⟨.failed (.protocolMismatch (.nameLength first.value.toNat)), ⟨first.moment, stopAt⟩, s⟩
  /-- What comes behind the first byte does not fit. -/
  | mismatched {fault : HandshakeFault} {moment : Nat} {s : ByteStream}
      (named : NamedBy deadline bytes) (come : Dated.Come size deadline bytes)
      (misfit : Misfit h.infoHash ((bytes.take size).map Dated.value) fault)
      (moment_eq : moment = Dated.last now (bytes.take size)) (written : s.written = h.toBytes) :
      Exchanges h deadline stopAt room ends now bytes
        ⟨.failed (.protocolMismatch fault), ⟨moment, stopAt⟩, s⟩
  /-- The end comes too early. -/
  | ended {moment : Nat} {s : ByteStream} (named : NamedBy deadline bytes)
      (few : bytes.length < size) (ends_eq : ends = some moment) (inTime : moment ≤ deadline)
      (written : s.written = h.toBytes) :
      Exchanges h deadline stopAt room ends now bytes
        ⟨.failed (.connection (if bytes = [] then .noHandshake else .partialHandshake)),
          ⟨moment, stopAt⟩, s⟩
  /-- Bytes are missing at the deadline. -/
  | late {s : ByteStream} (named : NamedBy deadline bytes)
      (missing : ¬Dated.Come size deadline bytes)
      (noEnd : bytes.length < size → ∀ moment ∈ ends, deadline < moment)
      (written : s.written = h.toBytes) :
      Exchanges h deadline stopAt room ends now bytes ⟨.expired, ⟨deadline, stopAt⟩, s⟩

/-- Where there is room this side's handshake is sent at once. -/
theorem send_start (h : Handshake) (scope : Scope) (clock : Clock) (incoming : Timeline Bytes)
    {room : Option Nat} (hroom : room.all (size ≤ ·) = true) :
    send h scope clock (.start incoming room) =
      ⟨.done (), clock, ⟨incoming, h.toBytes, room.map (· - size)⟩⟩ := by
  cases room with
  | none => rfl
  | some room =>
    have hroom : size ≤ room := by simpa using hroom
    have htake : h.toBytes.take room = h.toBytes :=
      List.take_of_length_le (by rw [length_toBytes]; exact hroom)
    show (if h.toBytes.length ≤ room then pure () else _ : Activity ByteStream Unit) scope clock
      ⟨incoming, [] ++ h.toBytes.take room, some (room - h.toBytes.length)⟩ = _
    rw [htake, length_toBytes, if_pos hroom]
    rfl

/-- A check that is passed takes no time. -/
@[simp]
theorem checked_ok {α : Type} (value : α) (scope : Scope) (clock : Clock) (s : ByteStream) :
    checked (.ok value) scope clock s = ⟨.done value, clock, s⟩ := rfl

/-- A check that is not passed is a mismatch. -/
@[simp]
theorem checked_error {α : Type} (fault : HandshakeFault) (scope : Scope) (clock : Clock)
    (s : ByteStream) :
    (checked (.error fault) : Activity ByteStream α) scope clock s =
      ⟨.failed (.protocolMismatch fault), clock, s⟩ := rfl

variable {clock : Clock} {deadline : Nat} {incoming : Timeline Bytes} {room : Option Nat}

/-- Up to a deadline handshakes are exchanged, or it turns out why not. -/
theorem exchanges_exchange (h : Handshake) (hincoming : incoming.Scheduled)
    (hroom : room.all (size ≤ ·) = true) (hclock : clock.now ≤ deadline) :
    Exchanges h deadline clock.stopAt (room.map (· - size)) (incoming.endsAt clock.now) clock.now
      (incoming.bytes clock.now)
      (exchange h (Scope.open.upTo deadline) clock (.start incoming room)) := by
  have hfirst := ByteStream.readsByte_readByte h.toBytes (room.map (· - size)) hincoming hclock
  have hmem : ∀ byte ∈ incoming.bytes clock.now, clock.now ≤ byte.moment :=
    fun byte hbyte ↦ (Timeline.le_of_mem_bytes hbyte).1
  rw [exchange, Activity.bind_of_done (send_start h _ _ _ hroom), receive, Activity.bind_apply,
    Activity.bind_apply]
  generalize ByteStream.readByte (Scope.open.upTo deadline) clock
    ⟨incoming, h.toBytes, room.map (· - size)⟩ = o at hfirst ⊢
  generalize incoming.bytes clock.now = bytes at hfirst hmem ⊢
  generalize incoming.endsAt clock.now = ends at hfirst hmem ⊢
  cases hfirst with
  | @byte first others rest inTime scheduled behind ends_eq =>
    by_cases hname : first.value.toNat = nameLength
    · have hnamed : NamedBy deadline (first :: others) := by
        rintro _ ⟨⟩ _
        exact hname
      have hcheck : checkLength first.value = .ok () := if_pos hname
      have hothers := ByteStream.readsExactly_readExactly (size - 1) ⟨first.moment, clock.stopAt⟩
        h.toBytes (room.map (· - size)) scheduled inTime
      simp only [Activity.bind_apply, hcheck, checked_ok]
      rw [behind, ends_eq] at hothers
      generalize ByteStream.readExactly (size - 1) (Scope.open.upTo deadline)
        ⟨first.moment, clock.stopAt⟩ ⟨rest, h.toBytes, room.map (· - size)⟩ = o at hothers ⊢
      cases hothers with
      | @whole text rest moment come text_eq moment_eq scheduled behind ends_eq =>
        have hcome : Dated.Come size deadline (first :: others) :=
          Dated.come_succ_iff.mpr ⟨inTime, come⟩
        have hmoment : moment = Dated.last clock.now ((first :: others).take size) := by
          rw [moment_eq, size, List.take_succ_cons, Dated.last,
            Nat.max_eq_right (hmem first (by simp))]
        have htext : first.value :: text.val = ((first :: others).take size).map Dated.value :=
          congrArg (first.value :: ·) text_eq
        have hsize : (first.value :: text.val).length = size := by
          rw [List.length_cons, text.property, size]
        simp only
        rcases ofBytes_cases h.infoHash hsize hcheck with
          ⟨remote, hof, hverify, hprotocol, hhash, hid⟩ |
          ⟨fault, hmisfit, hof | ⟨remote, hof, hverify⟩⟩
        · simp only [hof, checked_ok, hverify]
          refine .greeted hcome ⟨?_, ?_, ?_⟩ ?_ hmoment scheduled behind ends_eq
          · rw [← htext, List.head?_cons, Option.map_some, hname]
          · rw [← htext, hprotocol]
          · rw [← htext, hhash]
          · rw [← htext, hid]
        · simp only [hof, checked_error]
          exact .mismatched hnamed hcome (htext ▸ hmisfit) hmoment rfl
        · simp only [hof, checked_ok, hverify, checked_error]
          exact .mismatched hnamed hcome (htext ▸ hmisfit) hmoment rfl
      | ended few ends_eq inTime =>
        exact .ended hnamed (Nat.succ_lt_succ few) ends_eq inTime rfl
      | late missing noEnd =>
        refine .late hnamed (fun hcome ↦ missing (Dated.come_succ_iff.mp hcome).2)
          (fun hfew ↦ ?_) rfl
        exact noEnd (Nat.lt_of_succ_lt_succ hfew)
    · have hcheck : checkLength first.value = .error (.nameLength first.value.toNat) := if_neg hname
      simp only [Activity.bind_apply, hcheck, checked_error]
      exact .misnamed rfl inTime hname rfl
  | ended ends_eq inTime => exact .ended (by simp [NamedBy]) (by simp [size]) ends_eq inTime rfl
  | late noByte noEnd =>
    refine .late (fun first hfirst hle ↦ ?_) (Dated.not_come_of_late noByte) (fun _ ↦ noEnd) rfl
    exact absurd hle (Nat.not_le_of_lt (noByte first (List.mem_of_mem_head? hfirst)))

/-! ### The cases apart -/

variable {h : Handshake} {stopAt : Option Nat} {ends : Option Nat} {now : Nat}
  {bytes : List (Dated UInt8)} {o : Outcome ByteStream Handshake}

/-- A handshake that fits begins with a byte that does. -/
theorem NamedBy.of_fits (hfits : Fits infoHash ((bytes.take size).map Dated.value)) :
    NamedBy deadline bytes := by
  intro first hfirst _
  have hlength := hfits.nameLength
  cases bytes with
  | nil => cases hfirst
  | cons head others =>
    cases hfirst
    simpa [size] using hlength

/-- A first byte that does not fit is not the right one. -/
theorem NamedBy.not_wrong {first : Dated UInt8} (hnamed : NamedBy deadline bytes)
    (hfirst : bytes.head? = some first) (hin : first.moment ≤ deadline) :
    ¬first.value.toNat ≠ nameLength :=
  fun hwrong ↦ hwrong (hnamed first hfirst hin)

namespace Exchanges

/-- Whatever comes, this side's handshake was sent. -/
theorem written (ho : Exchanges h deadline stopAt room ends now bytes o) :
    o.state.written = h.toBytes := by
  cases ho with
  | greeted => rfl
  | _ => assumption

/-- Handshakes are exchanged exactly if one comes that fits. -/
theorem done_iff (ho : Exchanges h deadline stopAt room ends now bytes o) :
    (∃ remote, o.ending = .done remote) ↔
      Dated.Come size deadline bytes ∧ Fits h.infoHash ((bytes.take size).map Dated.value) := by
  cases ho with
  | greeted come fits => exact iff_of_true ⟨_, rfl⟩ ⟨come, fits⟩
  | misnamed head inTime wrong =>
    exact iff_of_false (by simp) fun h ↦ (NamedBy.of_fits h.2).not_wrong head inTime wrong
  | mismatched named come misfit => exact iff_of_false (by simp) fun h ↦ misfit.not_fits h.2
  | ended named few => exact iff_of_false (by simp) fun h ↦ Nat.not_le_of_lt few h.1.1
  | late named missing => exact iff_of_false (by simp) fun h ↦ missing h.1

/-- A first byte that does not fit is a mismatch when it comes. -/
theorem of_misnamed (ho : Exchanges h deadline stopAt room ends now bytes o) {first : Dated UInt8}
    (hfirst : bytes.head? = some first) (hin : first.moment ≤ deadline)
    (hwrong : first.value.toNat ≠ nameLength) :
    o.ending = .failed (.protocolMismatch (.nameLength first.value.toNat)) ∧
      o.clock.now = first.moment := by
  have hnot : ¬NamedBy deadline bytes := fun hnamed ↦ hnamed.not_wrong hfirst hin hwrong
  cases ho with
  | greeted come fits => exact absurd (NamedBy.of_fits fits) hnot
  | misnamed head =>
    cases hfirst.symm.trans head
    exact ⟨rfl, rfl⟩
  | mismatched named => exact absurd named hnot
  | ended named => exact absurd named hnot
  | late named => exact absurd named hnot

/-- Other bytes that do not fit are a mismatch when the last of them comes. -/
theorem of_misfit (ho : Exchanges h deadline stopAt room ends now bytes o)
    (hnamed : NamedBy deadline bytes) (hcome : Dated.Come size deadline bytes)
    (hmisfit : ¬Fits h.infoHash ((bytes.take size).map Dated.value)) :
    ∃ fault, Misfit h.infoHash ((bytes.take size).map Dated.value) fault ∧
      o.ending = .failed (.protocolMismatch fault) ∧
      o.clock.now = Dated.last now (bytes.take size) := by
  cases ho with
  | greeted come fits => exact absurd fits hmisfit
  | misnamed head inTime wrong => exact absurd wrong (hnamed.not_wrong head inTime)
  | mismatched named come misfit moment_eq => exact ⟨_, misfit, rfl, moment_eq⟩
  | ended named few => exact absurd hcome.1 (Nat.not_le_of_lt few)
  | late named missing => exact absurd hcome missing

/-- An end that comes too early is a failure of the transport. -/
theorem of_ended (ho : Exchanges h deadline stopAt room ends now bytes o)
    (hnamed : NamedBy deadline bytes) (hfew : bytes.length < size) {moment : Nat}
    (hends : ends = some moment) (hin : moment ≤ deadline) :
    o.ending = .failed (.connection (if bytes = [] then .noHandshake else .partialHandshake)) ∧
      o.clock.now = moment := by
  cases ho with
  | greeted come => exact absurd come.1 (Nat.not_le_of_lt hfew)
  | misnamed head inTime wrong => exact absurd wrong (hnamed.not_wrong head inTime)
  | mismatched named come => exact absurd come.1 (Nat.not_le_of_lt hfew)
  | ended named few ends_eq =>
    cases hends.symm.trans ends_eq
    exact ⟨rfl, rfl⟩
  | late named missing noEnd => exact absurd hin (Nat.not_le_of_lt (noEnd hfew moment hends))

/-- Bytes that are missing are waited for until the deadline. -/
theorem of_missing (ho : Exchanges h deadline stopAt room ends now bytes o)
    (hnamed : NamedBy deadline bytes) (hmissing : ¬Dated.Come size deadline bytes)
    (hends : bytes.length < size → ∀ moment ∈ ends, deadline < moment) :
    o.ending = .expired ∧ o.clock.now = deadline := by
  cases ho with
  | greeted come => exact absurd come hmissing
  | misnamed head inTime wrong => exact absurd wrong (hnamed.not_wrong head inTime)
  | mismatched named come => exact absurd come hmissing
  | ended named few ends_eq inTime => exact absurd inTime (Nat.not_le_of_lt (hends few _ ends_eq))
  | late => exact ⟨rfl, rfl⟩

/-- Behind a handshake that fits stands what has come behind it. -/
theorem of_done (ho : Exchanges h deadline stopAt room ends now bytes o) {remote : Handshake}
    (hdone : o.ending = .done remote) :
    remote.peerId.bytes = ((bytes.take size).map Dated.value).drop 48 ∧
      o.clock.now = Dated.last now (bytes.take size) ∧
      ∃ rest : Timeline Bytes, o.state = ⟨rest, h.toBytes, room⟩ ∧ rest.Scheduled ∧
        rest.bytes o.clock.now = bytes.drop size ∧ rest.endsAt o.clock.now = ends := by
  cases ho with
  | greeted come fits remote_eq moment_eq scheduled behind ends_eq =>
    cases hdone
    exact ⟨remote_eq, moment_eq, _, rfl, scheduled, behind, ends_eq⟩
  | _ => cases hdone

end Exchanges

end Handshake

namespace Connection

variable {config : Config} {infoHash : Digest} {clock : Clock}

/-- What comes of greeting, given what comes of exchanging handshakes up to the deadline. -/
def greeted (config : Config) (c : Connection Framed) (e : Outcome ByteStream Handshake) :
    Outcome (Connection Framed) Unit :=
  let c := { c with link.stream := e.state }
  match e.ending with
  | .done remote => ⟨.done (), e.clock, noteGreeting remote c⟩
  | .failed error => ⟨.failed error, e.clock, c⟩
  | .expired =>
    ⟨.failed (.connection (.timedOut .handshake (.ofMillis config.handshakeTimeout))), e.clock, c⟩
  | .interrupted => ⟨.interrupted, e.clock, c⟩
  | .stuck => ⟨.stuck, e.clock, c⟩

/-- Greeting is exchanging handshakes up to the deadline, and noting whose came. -/
theorem greet_apply (config : Config) (infoHash : Digest) (clock : Clock) (c : Connection Framed) :
    greet config infoHash Scope.open clock c =
      greeted config c (Handshake.exchange ⟨infoHash, config.clientId⟩
        (Scope.open.upTo (clock.now + config.handshakeTimeout)) clock c.link.stream) := by
  simp only [greet, Activity.bind_apply, Activity.now, Activity.within_apply, onStream,
    Activity.onPart]
  generalize Handshake.exchange ⟨infoHash, config.clientId⟩
    (Scope.open.upTo (clock.now + config.handshakeTimeout)) clock c.link.stream = e
  obtain ⟨ending, after, s⟩ := e
  cases ending <;> rfl

variable {c : Connection Framed} {e : Outcome ByteStream Handshake}

/-- Greeting takes as long as exchanging handshakes. -/
@[simp]
theorem clock_greeted : (greeted config c e).clock = e.clock := by
  rw [greeted]
  split <;> rfl

/-- The stream is left as it is after exchanging handshakes. -/
@[simp]
theorem stream_greeted : (greeted config c e).state.link.stream = e.state := by
  rw [greeted]
  split <;> rfl

/-- Greeting is finished when handshakes were exchanged. -/
theorem greeted_eq_done_iff :
    (greeted config c e).ending = .done () ↔ ∃ remote, e.ending = .done remote := by
  rw [greeted]
  split <;> simp_all

/-- Greeting fails when exchanging handshakes does. -/
theorem greeted_of_failed {error : Error} (h : e.ending = .failed error) :
    (greeted config c e).ending = .failed error := by
  rw [greeted, h]

/-- Greeting fails when exchanging handshakes takes too long. -/
theorem greeted_of_expired (h : e.ending = .expired) :
    (greeted config c e).ending =
      .failed (.connection (.timedOut .handshake (.ofMillis config.handshakeTimeout))) := by
  rw [greeted, h]

/-- It is noted whose handshake came. -/
theorem greeted_of_done {remote : Handshake} (h : e.ending = .done remote) :
    (greeted config c e).state = noteGreeting remote { c with link.stream := e.state } := by
  rw [greeted, h]

/-- Greeting a peer whose bytes come at any moments, on a stream that has room for this side's
handshake. -/
theorem greet_scheduled (config : Config) (infoHash : Digest) (address : Address)
    (pieceCount : Nat) (clock : Clock) {incoming : Timeline Bytes} (room : Option Nat)
    (hincoming : incoming.Scheduled) (hroom : room.all (Handshake.size ≤ ·) = true) :
    let ours : Handshake := ⟨infoHash, config.clientId⟩
    let deadline := clock.now + config.handshakeTimeout
    let bytes := incoming.bytes clock.now
    let ends := incoming.endsAt clock.now
    let text := (bytes.take Handshake.size).map Dated.value
    let whole := Dated.last clock.now (bytes.take Handshake.size)
    let o := greet config infoHash Scope.open clock
      (opened config address pieceCount (.start incoming room))
    -- this side's handshake is sent, whatever comes
    o.state.link.stream.written = ours.toBytes ∧
    -- it succeeds exactly if a whole handshake that fits comes in time
    (o.ending = .done () ↔
      Dated.Come Handshake.size deadline bytes ∧ Handshake.Fits infoHash text) ∧
    -- a first byte that does not fit is told at once
    (∀ first ∈ bytes.head?, first.moment ≤ deadline →
      first.value.toNat ≠ Handshake.nameLength →
      o.ending = .failed (.protocolMismatch (.nameLength first.value.toNat)) ∧
        o.clock.now = first.moment) ∧
    (Handshake.NamedBy deadline bytes →
      -- and other bytes when the last one has come
      (Dated.Come Handshake.size deadline bytes → ¬Handshake.Fits infoHash text →
        ∃ fault, Handshake.Misfit infoHash text fault ∧
          o.ending = .failed (.protocolMismatch fault) ∧ o.clock.now = whole) ∧
      -- an end that comes too early is a failure of the transport
      (bytes.length < Handshake.size → ∀ moment ∈ ends, moment ≤ deadline →
        o.ending =
            .failed (.connection (if bytes = [] then .noHandshake else .partialHandshake)) ∧
          o.clock.now = moment) ∧
      -- and without an end bytes are waited for until the deadline
      (¬Dated.Come Handshake.size deadline bytes →
        (bytes.length < Handshake.size → ∀ moment ∈ ends, deadline < moment) →
        o.ending = .failed (.connection (.timedOut .handshake
            (.ofMillis config.handshakeTimeout))) ∧
          o.clock.now = deadline)) ∧
    -- what comes behind the handshake is all that messages are read from
    (o.ending = .done () → o.clock.now = whole ∧
      (∃ id : PeerId, o.state.remoteId = some id ∧ id.bytes = text.drop 48) ∧
      ∃ rest : Timeline Bytes, o.state.link =
          Framed.start ⟨rest, ours.toBytes, room.map (· - Handshake.size)⟩
            (config.frameLimit pieceCount) config.readTimeout ∧
        rest.Scheduled ∧ rest.bytes whole = bytes.drop Handshake.size ∧
        rest.endsAt whole = ends) := by
  intro ours deadline bytes ends text whole o
  obtain ⟨e, ho, he⟩ : ∃ e, o = greeted config
      (opened config address pieceCount (.start incoming room)) e ∧
      ours.Exchanges deadline clock.stopAt (room.map (· - Handshake.size)) ends clock.now bytes e :=
    ⟨_, greet_apply config infoHash clock _,
      Handshake.exchanges_exchange ours hincoming hroom (Nat.le_add_right ..)⟩
  rw [ho, stream_greeted, clock_greeted, greeted_eq_done_iff]
  refine ⟨he.written, he.done_iff, fun first hfirst hin hwrong ↦ ?_, fun hnamed ↦ ⟨?_, ?_, ?_⟩, ?_⟩
  · obtain ⟨hending, hclock⟩ := he.of_misnamed hfirst hin hwrong
    exact ⟨greeted_of_failed hending, hclock⟩
  · intro hcome hmisfit
    obtain ⟨fault, hfault, hending, hclock⟩ := he.of_misfit hnamed hcome hmisfit
    exact ⟨fault, hfault, greeted_of_failed hending, hclock⟩
  · intro hfew moment hends hin
    obtain ⟨hending, hclock⟩ := he.of_ended hnamed hfew hends hin
    exact ⟨greeted_of_failed hending, hclock⟩
  · intro hmissing hends
    obtain ⟨hending, hclock⟩ := he.of_missing hnamed hmissing hends
    exact ⟨greeted_of_expired hending, hclock⟩
  · rintro ⟨remote, hdone⟩
    obtain ⟨hid, hclock, rest, hstate, hrest, hbytes, hends⟩ := he.of_done hdone
    rw [hclock] at hbytes hends
    rw [greeted_of_done hdone, hstate]
    exact ⟨hclock, ⟨remote.peerId, rfl, hid⟩, rest, rfl, hrest, hbytes, hends⟩

/-- A handshake that comes in two chunks, the second one with a sign of life behind it, on a stream
that takes no more than this side's handshake. -/
theorem greet_scheduled_twoChunks :
    let infoHash : Digest := ⟨List.replicate 20 7, rfl⟩
    let config : Config := { clientId := ⟨List.replicate 20 45, rfl⟩ }
    let text := 19 :: (Handshake.protocolName ++ List.replicate 8 1 ++ List.replicate 20 7
      ++ List.replicate 20 33)
    let incoming : Timeline Bytes := [.pauseUntil 4, .item (text.take 30), .pauseUntil 9,
      .item (text.drop 30 ++ [0, 0, 0, 0]), .hang]
    let o := greet config infoHash Scope.open Clock.zero
      (opened config ⟨.octets 127 0 0 1, 6881⟩ 3 (.start incoming (some 68)))
    incoming.Scheduled ∧ (some 68).all (Handshake.size ≤ ·) = true ∧
      o.ending = .done () ∧ o.clock.now = 9 ∧
      o.state.link.stream.incoming.bytes 9 = [⟨9, 0⟩, ⟨9, 0⟩, ⟨9, 0⟩, ⟨9, 0⟩] := by
  intro infoHash config text incoming o
  have hincoming : incoming.Scheduled :=
    .pauseUntil 4 (.item _ (.pauseUntil 9 (.item _ (.hang []))))
  obtain ⟨-, hdone, -, -, hbehind⟩ := greet_scheduled config infoHash ⟨.octets 127 0 0 1, 6881⟩ 3
    Clock.zero (some 68) hincoming (by decide)
  have hdone : o.ending = .done () :=
    hdone.mpr ⟨by decide +kernel, by decide +kernel, by decide +kernel, by decide +kernel⟩
  obtain ⟨hclock, -, rest, hlink, -, hrest, -⟩ := hbehind hdone
  have hwhole : Dated.last Clock.zero.now
      ((incoming.bytes Clock.zero.now).take Handshake.size) = 9 := by decide +kernel
  rw [hwhole] at hclock hrest
  refine ⟨hincoming, by decide, hdone, hclock, ?_⟩
  have hstream : o.state.link.stream.incoming = rest := by rw [hlink]; rfl
  rw [hstream, hrest]
  decide +kernel

end Connection

end PeerWire
