import PeerWire.Proofs.Greeting

/-!
# Two ways to read a handshake

A handshake is read from 68 bytes, or from a stream, where the first byte is looked at before the
others are waited for. Main statement: both ways have the same result wherever the stream is cut
into chunks; from the stream one byte is taken when that cannot begin a handshake, and else 68, and
it is an unexpected end when the stream ends before them. What is read is written back as it was,
but for the reserved bytes.
-/

namespace PeerWire

/-! ### Streams that bring bytes -/

/-- The timeline stands behind these bytes, which come in chunks of any sizes and after gaps of any
lengths. -/
inductive Timeline.Follows (behind : Timeline Bytes) : Bytes → Timeline Bytes → Prop where
  /-- All of them have come. -/
  | nil : Follows behind [] behind
  /-- Some of them come. -/
  | item {bytes : Bytes} {cues : Timeline Bytes} (chunk : Bytes)
      (rest : Follows behind bytes cues) : Follows behind (chunk ++ bytes) (.item chunk :: cues)
  /-- Some time passes. -/
  | pause {bytes : Bytes} {cues : Timeline Bytes} (length : Nat)
      (rest : Follows behind bytes cues) : Follows behind bytes (.pause length :: cues)
  /-- What follows comes no earlier than a moment. -/
  | pauseUntil {bytes : Bytes} {cues : Timeline Bytes} (moment : Nat)
      (rest : Follows behind bytes cues) : Follows behind bytes (.pauseUntil moment :: cues)

namespace ByteStream

variable {behind incoming cues : Timeline Bytes} {bytes rest : Bytes} {first : UInt8}
  {clock : Clock}

/-- After a gap the first byte is read later. -/
theorem readByte_of_after (moment : Nat) (written : Bytes) (room : Option Nat)
    (h : Timeline.next Scope.open clock incoming =
      Timeline.after moment cues Scope.open clock fun clock ↦ Timeline.next Scope.open clock cues) :
    readByte Scope.open clock ⟨incoming, written, room⟩ =
      readByte Scope.open ⟨max clock.now moment, clock.stopAt⟩ ⟨cues, written, room⟩ := by
  have hread : read Scope.open clock ⟨incoming, written, room⟩ = _ := read_of_after h
  rw [Clock.waitUntil_open] at hread
  exact readByte_congr hread

/-- Gaps and empty chunks are waited out, up to the first byte or to what is behind. -/
theorem exists_readByte_eq (h : behind.Follows bytes incoming) (clock : Clock) (written : Bytes)
    (room : Option Nat) : ∃ after start,
      readByte Scope.open clock ⟨incoming, written, room⟩ =
        readByte Scope.open after ⟨start, written, room⟩ ∧
      (bytes = [] ∧ start = behind ∨ ∃ first chunk others cues,
        bytes = first :: (chunk ++ others) ∧ start = .item (first :: chunk) :: cues ∧
          behind.Follows others cues) := by
  induction h generalizing clock with
  | nil => exact ⟨clock, behind, rfl, .inl ⟨rfl, rfl⟩⟩
  | @item others cues chunk rest ih =>
    cases chunk with
    | nil =>
      rw [readByte_congr (read_item_nil ..)]
      exact ih clock
    | cons first chunk => exact ⟨clock, _, rfl, .inr ⟨first, chunk, others, cues, rfl, rfl, rest⟩⟩
  | pause length _ ih =>
    rw [readByte_of_after (clock.now + length) written room rfl]
    exact ih _
  | pauseUntil moment _ ih =>
    rw [readByte_of_after moment written room rfl]
    exact ih _

/-- The first byte is read and no other one, wherever the stream is cut. -/
theorem readByte_of_follows (h : behind.Follows (first :: rest) incoming) (clock : Clock)
    (written : Bytes) (room : Option Nat) : ∃ after left, behind.Follows rest left ∧
      readByte Scope.open clock ⟨incoming, written, room⟩ =
        ⟨.done (some first), after, ⟨left, written, room⟩⟩ := by
  obtain ⟨after, start, hread, ⟨hnil, -⟩ | ⟨_, chunk, others, cues, hcons, rfl, hcues⟩⟩ :=
    exists_readByte_eq h clock written room
  · cases hnil
  · cases hcons
    rw [hread, readByte, Activity.bind_of_done (read_item_cons ..)]
    exact ⟨after, .item chunk :: cues, .item chunk hcues, rfl⟩

/-- At the end there is no first byte. -/
theorem readByte_of_follows_nil (h : Timeline.Follows [] [] incoming) (clock : Clock)
    (written : Bytes) (room : Option Nat) : ∃ after,
      readByte Scope.open clock ⟨incoming, written, room⟩ =
        ⟨.done none, after, ⟨[], written, room⟩⟩ := by
  obtain ⟨after, start, hread, ⟨-, rfl⟩ | ⟨_, _, _, _, hcons, -⟩⟩ :=
    exists_readByte_eq h clock written room
  · rw [hread, readByte, Activity.bind_of_done (read_nil ..)]
    exact ⟨after, rfl⟩
  · cases hcons

/-- As many bytes are read as are asked for, and no more. -/
theorem readExactly_of_follows {count : Nat} (h : behind.Follows bytes incoming)
    (hcount : count ≤ bytes.length) (clock : Clock) (written : Bytes) (room : Option Nat) :
    ∃ (text : { text : Bytes // text.length = count }) (after : Clock) (left : Timeline Bytes),
      text.val = bytes.take count ∧ behind.Follows (bytes.drop count) left ∧
        readExactly count Scope.open clock ⟨incoming, written, room⟩ =
          ⟨.done (some text), after, ⟨left, written, room⟩⟩ := by
  induction count generalizing bytes incoming clock with
  | zero => exact ⟨⟨[], rfl⟩, clock, incoming, rfl, h, rfl⟩
  | succ count ih =>
    cases bytes with
    | nil => cases hcount
    | cons first rest =>
      obtain ⟨middle, left, hleft, hfirst⟩ := readByte_of_follows h clock written room
      obtain ⟨text, after, last, htext, hlast, hothers⟩ :=
        ih hleft (Nat.le_of_succ_le_succ hcount) middle
      refine ⟨⟨first :: text.val, by rw [List.length_cons, text.property]⟩, after, last,
        congrArg (first :: ·) htext, hlast, ?_⟩
      rw [readExactly, Activity.bind_of_done hfirst]
      exact Activity.bind_of_done hothers

/-- It is noticed when the stream ends before. -/
theorem readExactly_of_few {count : Nat} (h : Timeline.Follows [] bytes incoming)
    (hcount : bytes.length < count) (clock : Clock) (written : Bytes) (room : Option Nat) :
    ∃ after, readExactly count Scope.open clock ⟨incoming, written, room⟩ =
      ⟨.done none, after, ⟨[], written, room⟩⟩ := by
  induction count generalizing bytes incoming clock with
  | zero => cases hcount
  | succ count ih =>
    cases bytes with
    | nil =>
      obtain ⟨after, hfirst⟩ := readByte_of_follows_nil h clock written room
      rw [readExactly, Activity.bind_of_done hfirst]
      exact ⟨after, rfl⟩
    | cons first rest =>
      obtain ⟨middle, left, hleft, hfirst⟩ := readByte_of_follows h clock written room
      obtain ⟨after, hothers⟩ := ih hleft (Nat.lt_of_succ_lt_succ hcount) middle
      rw [readExactly, Activity.bind_of_done hfirst]
      exact ⟨after, Activity.bind_of_done hothers⟩

end ByteStream

namespace Handshake

variable {behind incoming : Timeline Bytes} {bytes rest : Bytes} {first : UInt8}

/-! ### Reading 68 bytes -/

/-- Only one byte is the length of the protocol's name. -/
theorem checkLength_of_ne (h : first ≠ 19) : checkLength first = .error (.nameLength first.toNat) :=
  if_neg fun heq ↦ h (UInt8.toNat_inj.mp heq)

/-- The digest has its size. -/
theorem length_digest (hsize : (first :: rest).length = size) :
    ((rest.drop 27).take 20).length = 20 := by
  rw [List.length_cons, size] at hsize
  rw [List.length_take, List.length_drop]
  omega

/-- The identity has its size. -/
theorem length_identity (hsize : (first :: rest).length = size) : (rest.drop 47).length = 20 := by
  rw [List.length_cons, size] at hsize
  rw [List.length_drop]
  omega

/-- The first byte is checked first, and then the name of the protocol. -/
theorem ofBytes_cons (hsize : (first :: rest).length = size) :
    ofBytes (first :: rest) hsize =
      if first = 19 then
        if rest.take nameLength = protocolName then
          .ok ⟨⟨(rest.drop 27).take 20, length_digest hsize⟩,
            ⟨rest.drop 47, length_identity hsize⟩⟩
        else .error (.name (rest.take nameLength))
      else .error (.nameLength first.toNat) := by
  by_cases hfirst : first = 19
  · subst hfirst
    exact (ite_not ..).trans (if_pos rfl).symm
  · simp only [ofBytes, List.headD_cons, checkLength_of_ne hfirst, if_neg hfirst]

/-- Bytes are a handshake exactly when they begin with the length of the protocol's name and the
name. -/
theorem exists_ofBytes_iff (hsize : bytes.length = size) :
    (∃ h, ofBytes bytes hsize = .ok h) ↔
      bytes.head? = some 19 ∧ (bytes.drop 1).take nameLength = protocolName := by
  cases bytes with
  | nil => cases hsize
  | cons first rest =>
    rw [ofBytes_cons]
    by_cases hfirst : first = 19
    · by_cases hname : rest.take nameLength = protocolName <;> simp [hfirst, hname]
    · simp [hfirst]

/-- What was read is written back with zeros for the reserved bytes. -/
theorem toBytes_of_ofBytes {h : Handshake} {hsize : bytes.length = size}
    (hread : ofBytes bytes hsize = .ok h) :
    h.toBytes = Bytes.writeAt 20 (List.replicate 8 0) bytes := by
  obtain ⟨hhead, hname⟩ := (exists_ofBytes_iff hsize).mp ⟨h, hread⟩
  cases bytes with
  | nil => cases hsize
  | cons first rest =>
    cases hhead
    have hname : rest.take nameLength = protocolName := hname
    rw [ofBytes_cons, if_pos rfl, if_pos hname] at hread
    cases hread
    have hbehind : (rest.drop 27).take 20 ++ rest.drop 47 = rest.drop 27 := by
      have hdrop : (rest.drop 27).drop 20 = rest.drop 47 := List.drop_drop
      rw [← hdrop, List.take_append_drop]
    calc (19 :: (protocolName ++ List.replicate 8 0 ++ (rest.drop 27).take 20 ++ rest.drop 47))
        = 19 :: (rest.take 19 ++ List.replicate 8 0 ++ rest.drop 27) := by
          rw [← hname, List.append_assoc _ _ (rest.drop 47), hbehind]
          rfl
      _ = Bytes.writeAt 20 (List.replicate 8 0) (19 :: rest) := rfl

/-! ### Reading from a stream -/

/-- How reading a handshake ends. -/
def ends : Except HandshakeFault Handshake → Ending Handshake
  | .ok h => .done h
  | .error fault => .failed (.protocolMismatch fault)

/-- A check takes no time and reads nothing. -/
theorem checked_apply (result : Except HandshakeFault Handshake) (scope : Scope) (clock : Clock)
    (s : ByteStream) : checked result scope clock s = ⟨ends result, clock, s⟩ := by
  cases result <;> rfl

/-- After the right first byte the others are waited for. -/
theorem checked_length (scope : Scope) (clock : Clock) (s : ByteStream) :
    checked (checkLength 19) scope clock s = ⟨.done (), clock, s⟩ := rfl

variable (clock : Clock) (written : Bytes) (room : Option Nat)

/-- A first byte that cannot begin a handshake is the only one that is read. -/
theorem receive_of_ne (h : behind.Follows (first :: rest) incoming) (hfirst : first ≠ 19) :
    ∃ after left, behind.Follows rest left ∧
      receive Scope.open clock ⟨incoming, written, room⟩ =
        ⟨.failed (.protocolMismatch (.nameLength first.toNat)), after, ⟨left, written, room⟩⟩ := by
  obtain ⟨after, left, hleft, hbyte⟩ := ByteStream.readByte_of_follows h clock written room
  refine ⟨after, left, hleft, ?_⟩
  rw [receive, Activity.bind_of_done hbyte]
  simp only [checkLength_of_ne hfirst]
  rfl

/-- Where 68 bytes come that begin well, they are read and no others, and they are what decides. -/
theorem receive_of_le (h : behind.Follows (19 :: rest) incoming)
    (hlength : size ≤ (19 :: rest).length) :
    ∃ after left, behind.Follows ((19 :: rest).drop size) left ∧
      receive Scope.open clock ⟨incoming, written, room⟩ =
        ⟨ends (ofBytes ((19 :: rest).take size) (List.length_take_of_le hlength)), after,
          ⟨left, written, room⟩⟩ := by
  obtain ⟨middle, others, hothers, hbyte⟩ := ByteStream.readByte_of_follows h clock written room
  obtain ⟨text, after, left, htext, hleft, hrest⟩ := ByteStream.readExactly_of_follows hothers
    (Nat.le_of_succ_le_succ hlength) middle written room
  have hwhole : 19 :: text.val = (19 :: rest).take size := congrArg (19 :: ·) htext
  refine ⟨after, left, hleft, ?_⟩
  rw [receive, Activity.bind_of_done hbyte]
  refine (Activity.bind_of_done (checked_length ..)).trans ((Activity.bind_of_done hrest).trans ?_)
  simp only [checked_apply, hwhole]

/-- Where the stream ends before them it is an unexpected end. -/
theorem receive_of_lt (h : Timeline.Follows [] bytes incoming)
    (hfew : bytes = [] ∨ bytes.head? = some 19 ∧ bytes.length < size) :
    ∃ fault after, fault.kind = .unexpectedEnd ∧
      receive Scope.open clock ⟨incoming, written, room⟩ =
        ⟨.failed (.connection fault), after, ⟨[], written, room⟩⟩ := by
  cases bytes with
  | nil =>
    obtain ⟨after, hbyte⟩ := ByteStream.readByte_of_follows_nil h clock written room
    refine ⟨.noHandshake, after, rfl, ?_⟩
    rw [receive, Activity.bind_of_done hbyte]
    rfl
  | cons first rest =>
    obtain ⟨hhead, hlength⟩ := hfew.resolve_left (List.cons_ne_nil _ _)
    cases hhead
    obtain ⟨middle, others, hothers, hbyte⟩ := ByteStream.readByte_of_follows h clock written room
    obtain ⟨after, hrest⟩ := ByteStream.readExactly_of_few hothers
      (Nat.lt_of_succ_lt_succ hlength) middle written room
    refine ⟨.partialHandshake, after, rfl, ?_⟩
    rw [receive, Activity.bind_of_done hbyte]
    exact (Activity.bind_of_done (checked_length ..)).trans (Activity.bind_of_done hrest)

/-- Bytes are a handshake exactly when they begin with the length of the protocol's name and the
name, are then written back with zeros for the reserved bytes, and every handshake that is written
is read again. From a stream that brings a text, wherever it is cut into chunks, the handshake is
received that the first 68 bytes are, or what is wrong with them. A first byte that cannot begin a
handshake is the only one that is taken, whatever follows; else exactly 68 bytes are taken, and it
is an unexpected end when the stream ends before them. -/
theorem receive_like_ofBytes {stream : ByteStream} {text : Bytes}
    (htext : behind.Follows text stream.incoming) (clock : Clock) :
    (∀ (bytes : Bytes) (hsize : bytes.length = size),
      ((∃ h, ofBytes bytes hsize = .ok h) ↔
        bytes.head? = some 19 ∧ (bytes.drop 1).take nameLength = protocolName) ∧
      ∀ h, ofBytes bytes hsize = .ok h →
        h.toBytes = Bytes.writeAt 20 (List.replicate 8 0) bytes) ∧
    (∀ h : Handshake, ofBytes h.toBytes h.length_toBytes = .ok h) ∧
    let outcome := receive Scope.open clock stream
    (∀ hlength : size ≤ text.length, outcome.ending =
      ends (ofBytes (text.take size) (List.length_take_of_le hlength))) ∧
    (∀ first rest, text = first :: rest → first ≠ 19 →
      outcome.ending = .failed (.protocolMismatch (.nameLength first.toNat)) ∧
        ∃ left, behind.Follows rest left ∧ outcome.state = { stream with incoming := left }) ∧
    (text.head? = some 19 → size ≤ text.length →
      ∃ left, behind.Follows (text.drop size) left ∧
        outcome.state = { stream with incoming := left }) ∧
    (behind = [] → text = [] ∨ text.head? = some 19 ∧ text.length < size →
      ∃ fault, outcome.ending = .failed (.connection fault) ∧ fault.kind = .unexpectedEnd) := by
  obtain ⟨incoming, written, room⟩ := stream
  refine ⟨fun bytes hsize ↦ ⟨exists_ofBytes_iff hsize, fun h ↦ toBytes_of_ofBytes⟩,
    ofBytes_toBytes, fun hlength ↦ ?_, ?_, fun hhead hlength ↦ ?_, ?_⟩
  · cases text with
    | nil => cases hlength
    | cons first rest =>
      by_cases hfirst : first = 19
      · subst hfirst
        obtain ⟨after, left, -, hreceive⟩ := receive_of_le clock written room htext hlength
        exact congrArg Outcome.ending hreceive
      · obtain ⟨after, left, -, hreceive⟩ := receive_of_ne clock written room htext hfirst
        have hwrong : ofBytes (first :: rest.take 67) (List.length_take_of_le hlength) =
            .error (.nameLength first.toNat) := (ofBytes_cons _).trans (if_neg hfirst)
        exact (congrArg Outcome.ending hreceive).trans (congrArg ends hwrong).symm
  · rintro first rest rfl hfirst
    obtain ⟨after, left, hleft, hreceive⟩ := receive_of_ne clock written room htext hfirst
    exact ⟨congrArg Outcome.ending hreceive, left, hleft, congrArg Outcome.state hreceive⟩
  · cases text with
    | nil => cases hhead
    | cons first rest =>
      cases hhead
      obtain ⟨after, left, hleft, hreceive⟩ := receive_of_le clock written room htext hlength
      exact ⟨left, hleft, congrArg Outcome.state hreceive⟩
  · rintro rfl hfew
    obtain ⟨fault, after, hkind, hreceive⟩ := receive_of_lt clock written room htext hfew
    exact ⟨fault, congrArg Outcome.ending hreceive, hkind⟩

/-- A handshake that is cut in two, with a byte behind it. -/
theorem receive_like_ofBytes_twoChunks :
    let h : Handshake := ⟨⟨List.replicate 20 1, rfl⟩, ⟨List.replicate 20 2, rfl⟩⟩
    let stream := ByteStream.start
      [.item (h.toBytes.take 30), .pause 5, .item [], .item (h.toBytes.drop 30 ++ [7]), .hang] none
    Timeline.Follows [.hang] (h.toBytes ++ [7]) stream.incoming ∧
      (receive Scope.open .zero stream).ending = .done h := by
  intro h stream
  have htext : h.toBytes.take 30 ++ ([] ++ ((h.toBytes.drop 30 ++ [7]) ++ [])) =
      h.toBytes ++ [7] := by
    rw [List.append_nil, List.nil_append, ← List.append_assoc, List.take_append_drop]
  have hfollows : Timeline.Follows [.hang] (h.toBytes ++ [7]) stream.incoming :=
    htext ▸ .item _ (.pause 5 (.item [] (.item _ .nil)))
  have hwhole : (h.toBytes ++ [7]).take size = h.toBytes := List.take_left' h.length_toBytes
  obtain ⟨-, hread, hreceive, -⟩ := receive_like_ofBytes hfollows .zero
  refine ⟨hfollows, (hreceive (by rw [List.length_append, h.length_toBytes]; decide)).trans ?_⟩
  simp only [hwhole, hread h, ends]

end Handshake

end PeerWire
