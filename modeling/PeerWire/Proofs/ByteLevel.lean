import PeerWire.Proofs.Deliveries
import PeerWire.Proofs.Integrity
import PeerWire.Proofs.LinkAgreement

/-!
# From bytes to messages

A session that reads whole frames off a byte stream fares like one to which the messages among
these frames are said one by one, however the bytes are cut, whatever signs of life and frames of
unknown kinds stand between them, and wherever the stream ends. The one thing that the bytes add is
a limit on how long a message may take. Main statement: unless that limit is passed, both sessions
end alike at the same time, with the same knowledge of the peer, the same notices and the same
messages sent, and the bytes written are these messages.
-/

namespace PeerWire

/-! ### Timelines with a deadline -/

namespace Timeline

variable {α : Type} {scope : Scope} {clock : Clock} {cues : Timeline α}

/-- A wait up to a moment is broken off by a deadline that is set, or this makes no difference. -/
theorem after_upTo {limit moment : Nat} {rest rest' : Clock → Outcome (Timeline α) (Option α)}
    (hrest : ∀ clock, rest clock = rest' clock ∨
      (rest clock).ending = .expired ∧ scope.deadline.all (limit ≤ ·) = true) :
    after moment cues (scope.upTo limit) clock rest = after moment cues scope clock rest' ∨
      (after moment cues (scope.upTo limit) clock rest).ending = .expired ∧
        scope.deadline.all (limit ≤ ·) = true := by
  unfold after
  rcases clock.waitUntil_upTo scope limit moment with hsame | ⟨hexpired, hdeadline⟩
  · rw [hsame]
    generalize clock.waitUntil scope moment = wait
    obtain ⟨ending, later⟩ := wait
    cases ending with
    | done _ => exact hrest later
    | _ => exact .inl rfl
  · right
    generalize clock.waitUntil (scope.upTo limit) moment = wait at hexpired ⊢
    obtain ⟨ending, later⟩ := wait
    obtain rfl : ending = .expired := hexpired
    exact ⟨rfl, hdeadline⟩

end Timeline

/-! ### Thinned timelines -/

namespace Thinned

variable {slow : Prop} {cues : Timeline Message} {acts : Timeline Act}

/-- A deadline that is set breaks a wait off, or it makes no difference. -/
theorem next_upTo (h : Thinned slow cues acts) (limit : Nat) (scope : Scope) (clock : Clock) :
    Timeline.next (scope.upTo limit) clock cues = Timeline.next scope clock cues ∨
      (Timeline.next (scope.upTo limit) clock cues).ending = .expired ∧
        scope.deadline.all (limit ≤ ·) = true := by
  induction h generalizing clock with
  | pause hslow length rest ih => exact Timeline.after_upTo ih
  | pauseUntil hslow moment rest ih => exact Timeline.after_upTo ih
  | _ => exact .inl rfl

/-- Only a timeline that may be slow keeps one waiting. -/
theorem slow_of_expired (h : Thinned slow cues acts) {scope : Scope} {clock : Clock}
    (hexpired : (Timeline.next scope clock cues).ending = .expired) : slow := by
  cases h with
  | pause hslow length rest => exact hslow
  | pauseUntil hslow moment rest => exact hslow
  | _ => cases hexpired

/-- What a script does next: it says what comes on the timeline, or goes on to what comes after a
sign of life, or is at its end with the timeline. -/
inductive Next (slow : Prop) (scope : Scope) (clock : Clock) (cues : Timeline Message)
    (acts : Timeline Act) : Prop where
  /-- Both give the same. -/
  | same {ending : Ending (Option Message)} {after : Clock} {cues' : Timeline Message}
      {acts' : Timeline Act} (next : Timeline.next scope clock cues = ⟨ending, after, cues'⟩)
      (next' : Timeline.next scope clock acts = ⟨ending.map (Option.map Act.say), after, acts'⟩)
      (rest : Thinned slow cues' acts') : Next slow scope clock cues acts
  /-- The script has left out a sign of life. -/
  | leftOut {after : Clock} {cues' : Timeline Message} {acts' : Timeline Act}
      (next : Timeline.next scope clock cues = ⟨.done (some .keepAlive), after, cues'⟩)
      (next' : Timeline.next scope clock acts = Timeline.next scope after acts')
      (rest : Thinned slow cues' acts') : Next slow scope clock cues acts

/-- After a wait the script does what it does then. -/
theorem Next.of_after {scope : Scope} {clock : Clock} {moment : Nat} {waiting : Timeline Message}
    {waiting' : Timeline Act} (hslow : slow) (rest : Thinned slow cues acts)
    (hnext : Timeline.next scope clock waiting =
      Timeline.after moment cues scope clock fun clock ↦ Timeline.next scope clock cues)
    (hnext' : Timeline.next scope clock waiting' =
      Timeline.after moment acts scope clock fun clock ↦ Timeline.next scope clock acts)
    (ih : ∀ clock, Next slow scope clock cues acts) : Next slow scope clock waiting waiting' := by
  unfold Timeline.after at hnext hnext'
  generalize clock.waitUntil scope moment = wait at hnext hnext'
  obtain ⟨ending, later⟩ := wait
  cases ending with
  | done _ =>
    cases ih later with
    | same next next' rest => exact .same (hnext.trans next) (hnext'.trans next') rest
    | leftOut next next' rest => exact .leftOut (hnext.trans next) (hnext'.trans next') rest
  | _ => exact .same hnext hnext' (.pauseUntil hslow moment rest)

/-- A script says what comes on its timeline, or has left out a sign of life. -/
theorem next (h : Thinned slow cues acts) (scope : Scope) (clock : Clock) :
    Next slow scope clock cues acts := by
  induction h generalizing clock with
  | nil => exact .same rfl rfl .nil
  | say message rest => exact .same rfl rfl rest
  | leaveOut rest => exact .leftOut rfl rfl rest
  | pause hslow length rest ih => exact .of_after hslow rest rfl rfl ih
  | pauseUntil hslow moment rest ih => exact .of_after hslow rest rfl rfl ih

end Thinned

/-! ### Framed streams and scripts -/

/-- A script that only says things. -/
def Script.saying (acts : Timeline Act) : Script where
  acts := acts
  content := []
  pieceLength := 0
  pending := []
  sent := []
  failAfter := none
  hangAfter := none

/-- The failure of a message that does not come in time. -/
def lateMessage (timeout : Nat) : Error := .connection (.timedOut .read (.ofMillis timeout))

/-- A script says what a framed stream will give, and both have had the same messages sent. -/
structure Mirrors (slow : Prop) (timeout : Nat) (f : Framed) (s : Script) : Prop where
  /-- The script says what the stream will give. -/
  acts : Thinned slow f.forecast s.acts
  /-- Nothing comes behind the end of the stream. -/
  incoming : f.ended = true → f.stream.incoming = []
  /-- A message may take so long to come. -/
  readTimeout : f.readTimeout = timeout
  /-- The same messages were sent. -/
  sent : f.sent = s.sent
  /-- The bytes that were written are these messages. -/
  written : f.stream.written = f.sent.flatMap Message.encode
  /-- There is room for more. -/
  room : f.stream.room = none
  /-- Sending does not break down. -/
  failAfter : s.failAfter = none
  /-- Sending does not get stuck. -/
  hangAfter : s.hangAfter = none

namespace Mirrors

variable {slow : Prop} {timeout : Nat} {f : Framed} {s : Script}

/-- Sending agrees. -/
theorem agree_send (message : Message) :
    Activity.Agree (fun _ ↦ False) (Mirrors slow timeout) (Framed.send message)
      (Script.send message) := by
  intro scope clock f s h
  have hsend : Framed.send message scope clock f = ⟨.done (), clock,
      { f with
        stream := { f.stream with written := f.stream.written ++ message.encode }
        sent := f.sent ++ [message] }⟩ := by
    obtain ⟨⟨incoming, written, room⟩, _⟩ := f
    obtain rfl : room = none := h.room
    rfl
  have hsend' : Script.send message scope clock s = ⟨.done (), clock, s.note message⟩ := by
    obtain ⟨acts, content, pieceLength, pending, sent, failAfter, hangAfter⟩ := s
    obtain rfl : failAfter = none := h.failAfter
    obtain rfl : hangAfter = none := h.hangAfter
    rfl
  rw [hsend, hsend']
  refine .same ⟨h.acts, h.incoming, h.readTimeout, ?_, ?_, h.room, h.failAfter, h.hangAfter⟩
  · exact congrArg (· ++ [message]) h.sent
  · show f.stream.written ++ message.encode = (f.sent ++ [message]).flatMap Message.encode
    rw [h.written, List.flatMap_append, List.flatMap_singleton]

end Mirrors

/-- What comes next for a script is said; with nothing left to say it has closed the connection. -/
theorem Script.receive_of_next {scope : Scope} {clock after : Clock} {s : Script}
    {ending : Ending (Option Message)} {acts : Timeline Act}
    (h : Timeline.next scope clock s.acts = ⟨ending.map (Option.map Act.say), after, acts⟩) :
    Script.receive scope clock s = ⟨ending.given, after, { s with acts := acts }⟩ := by
  unfold receive
  rw [Activity.repeatUntil_apply]
  simp only [round, Activity.bind_apply, nextAct, h]
  rcases ending with (_ | message) | _ | _ | _ | _ <;> rfl

/-- Receiving depends on what comes next alone. -/
theorem Script.receive_congr {scope : Scope} {clock after : Clock} {s : Script}
    {acts : Timeline Act}
    (h : Timeline.next scope clock s.acts = Timeline.next scope after acts) :
    Script.receive scope clock s = Script.receive scope after { s with acts := acts } := by
  have hround : round scope clock s = round scope after { s with acts := acts } := by
    simp only [round, Activity.bind_apply, nextAct, h]
  unfold receive
  rw [Activity.repeatUntil_apply, hround, ← Activity.repeatUntil_apply]

namespace Mirrors

variable {slow : Prop} {timeout : Nat} {f : Framed} {s : Script}

/-- What a framed stream gives next within the limit: nothing in time, or what comes next on the
timeline of what it will give. -/
theorem nextMessage_within (h : Mirrors slow timeout f s) (scope : Scope) (clock : Clock) :
    let x := Activity.within (clock.now + timeout) Framed.nextMessage
      (Activity.fail (lateMessage timeout)) scope clock f
    slow ∧ x.ending = .failed (lateMessage timeout) ∨
      ∃ f', x = ⟨(Timeline.take scope clock f.forecast).ending,
          (Timeline.take scope clock f.forecast).clock, f'⟩ ∧
        f'.Gives (Timeline.take scope clock f.forecast).state ∧ f.Beside f' := by
  intro x
  have hx : x = _ := Activity.within_apply (clock.now + timeout) Framed.nextMessage
    (Activity.fail (lateMessage timeout)) scope clock f
  have hlate := h.acts.next_upTo (clock.now + timeout) scope clock
  generalize hinner : scope.upTo (clock.now + timeout) = inner at hx hlate
  obtain ⟨f', hnext, hgives⟩ :=
    (Framed.agree_nextMessage inner clock f f.forecast ⟨rfl, h.incoming⟩).exists_state
  have hbeside := Framed.maintains_nextMessage f inner clock f ⟨rfl, rfl, rfl, rfl⟩
  rw [hnext] at hx hbeside
  by_cases hexpired : (Timeline.take inner clock f.forecast).ending = .expired
  · have hnever : (Timeline.next inner clock f.forecast).ending = .expired :=
      Ending.given_eq_expired.mp hexpired
    rw [hexpired] at hx
    by_cases hdeadline : scope.deadline.all (clock.now + timeout ≤ ·) = true
    · left
      refine ⟨h.acts.slow_of_expired hnever, ?_⟩
      rw [hx]
      simp only [hdeadline, if_true]
      rfl
    · right
      have hsame : Timeline.take inner clock f.forecast = Timeline.take scope clock f.forecast := by
        rw [Timeline.take, Timeline.take, hlate.resolve_right fun hlate ↦ hdeadline hlate.2]
      rw [← hsame]
      refine ⟨f', ?_, hgives, hbeside⟩
      rw [hx, hexpired]
      simp only [hdeadline]
      rfl
  · right
    have hsame : Timeline.take inner clock f.forecast = Timeline.take scope clock f.forecast := by
      rw [Timeline.take, Timeline.take,
        hlate.resolve_right fun hlate ↦ hexpired (Ending.given_eq_expired.mpr hlate.1)]
    rw [← hsame]
    refine ⟨f', ?_, hgives, hbeside⟩
    rw [hx]
    split
    · next hexpired' => exact absurd hexpired' hexpired
    · rfl

/-- The script says what a framed stream will give after something was received. -/
theorem received (h : Mirrors slow timeout f s) {f' : Framed} {cues : Timeline Message}
    {acts : Timeline Act} (hgives : f'.Gives cues) (hbeside : f.Beside f')
    (hthinned : Thinned slow cues acts) : Mirrors slow timeout f' { s with acts := acts } where
  acts := hgives.forecast ▸ hthinned
  incoming := hgives.incoming
  readTimeout := hbeside.readTimeout.trans h.readTimeout
  sent := hbeside.sent.trans h.sent
  written := by rw [hbeside.written, hbeside.sent, h.written]
  room := hbeside.room.trans h.room
  failAfter := h.failAfter
  hangAfter := h.hangAfter

/-- A round of receiving agrees with receiving, goes on as if it had begun later, or the script
gives a message that only keeps the connection open. -/
theorem receiveRound (h : Mirrors slow timeout f s) (scope : Scope) (clock : Clock) :
    Outcome.Alike (fun error ↦ slow ∧ error = lateMessage timeout) (Mirrors slow timeout)
        (Framed.receiveRound scope clock f) ((Script.receive scope clock s).map some) ∨
      ∃ after f' s', Framed.receiveRound scope clock f = ⟨.done none, after, f'⟩ ∧
        Mirrors slow timeout f' s' ∧
        (Script.receive scope clock s = Script.receive scope after s' ∨
          True ∧ Script.receive scope clock s = ⟨.done .keepAlive, after, s'⟩) := by
  have hwithin := h.nextMessage_within scope clock
  unfold lateMessage at hwithin
  rw [Framed.receiveRound]
  simp only [Activity.bind_apply, Activity.get, Activity.now]
  rw [h.readTimeout]
  rcases hwithin with ⟨hslow, hfailed⟩ | ⟨f', hx, hgives, hbeside⟩
  · left
    rw [hfailed]
    exact .excused ⟨hslow, rfl⟩
  · rw [hx]
    cases h.acts.next scope clock with
    | leftOut next next' rest =>
      right
      rw [Timeline.take, next] at hgives ⊢
      exact ⟨_, f', _, rfl, h.received hgives hbeside rest, .inl (Script.receive_congr next')⟩
    | @same ending after cues' acts' next next' rest =>
      rw [Script.receive_of_next next']
      rw [Timeline.take, next] at hgives ⊢
      have hmirrors := h.received hgives hbeside rest
      simp only
      generalize ending.given = given
      cases given with
      | done message =>
        by_cases hlull : message = .keepAlive
        · subst hlull
          exact .inr ⟨after, f', _, rfl, hmirrors, .inr ⟨trivial, rfl⟩⟩
        · left
          cases message with
          | keepAlive => exact absurd rfl hlull
          | _ => exact .same hmirrors
      | _ => exact .inl (.same hmirrors)

end Mirrors

/-- A framed stream and a script that says what it will give agree, but for messages that do not
come in time. -/
theorem linksAgree_mirrors (slow : Prop) (timeout : Nat) :
    LinksAgree (fun error ↦ slow ∧ error = lateMessage timeout) (Mirrors slow timeout) where
  send := Mirrors.agree_send
  receive := by
    apply Activity.agreeOrIdle_repeatUntil
    · exact fun _ _ _ h ↦ h
    · exact fun scope clock f s h ↦ h.receiveRound scope clock

/-! ### Sessions -/

/-- A session over a link on which handshakes were exchanged before. -/
def Session.start {σ : Type} (job : Job) (address : Address) (outbox : Outbox) (link : σ) :
    Session σ where
  connection := Connection.start address link job.torrent.pieceCount job.config.unchokeTimeout
  outbox := outbox

namespace Job

/-- Has the peer pass the gates and fetches every piece from it. -/
def admitAndDownload {σ : Type} [Link σ] (job : Job) : Activity (Session σ) Bytes := do
  Session.onConnection passGates
  job.downloadFrom

/-- Over links that agree passing the gates and downloading agrees. -/
theorem agree_admitAndDownload {σ τ : Type} [Link σ] [Link τ] {excused : Error → Prop}
    {R : σ → τ → Prop} (h : LinksAgree excused R) (job : Job) :
    Activity.Agree excused (Session.Alike R) job.admitAndDownload job.admitAndDownload :=
  Activity.agree_bind (Session.agree_onConnection h.agree_passGates) fun _ ↦
    h.agree_downloadFrom job

/-- A framed stream on which bytes arrive and any number of bytes can be written. -/
def framed (job : Job) (incoming : Timeline Bytes) : Framed :=
  Framed.start (ByteStream.start incoming none) (job.config.frameLimit job.torrent.pieceCount)
    job.config.readTimeout

/-- A session with a framed stream fares like a session with a script: both end alike at the same
time, know the same about the peer, and have given the same notices and sent the same messages,
which are the bytes that were written. -/
structure FaresLike (r : Outcome (Session Framed) Bytes) (r' : Outcome (Session Script) Bytes) :
    Prop where
  /-- They end alike. -/
  ending : r.ending = r'.ending
  /-- They end at the same time. -/
  clock : r.clock = r'.clock
  /-- The same is known about the peer. -/
  peer : r.state.connection.peer = r'.state.connection.peer
  /-- The same notices were given. -/
  outbox : r.state.outbox = r'.state.outbox
  /-- The same messages were sent. -/
  sent : r.state.connection.link.sent = r'.state.connection.link.sent
  /-- The bytes that were written are these messages. -/
  written : r.state.connection.link.stream.written =
    r'.state.connection.link.sent.flatMap Message.encode

/-- Let whole frames arrive in any chunks, with any time between them, and then the stream end.
There is a script that says the messages among the frames one by one, with the same time between
them, and then closes the connection, such that a session with the stream fares like one with the
script: always when no time passes between the chunks, in which case none passes between the
messages, and otherwise unless a message takes too long to come. -/
theorem faresLike_script (job : Job) (address : Address) (outbox : Outbox) {parcels : List Parcel}
    {incoming : Timeline Bytes}
    (hparcels : ∀ parcel ∈ parcels,
      parcel.Fits (job.config.frameLimit job.torrent.pieceCount) ∧ parcel.Exact)
    (hincoming : incoming.Faultless)
    (hbytes : incoming.values.flatten = parcels.flatMap Parcel.bytes) :
    ∃ acts : Timeline Act, acts.values = (Parcel.saying parcels).map Act.say ∧
      acts.gaps = incoming.gaps ∧
      (incoming.gaps = [] → acts = Timeline.ofValues ((Parcel.saying parcels).map Act.say)) ∧
      ∀ scope clock,
        incoming.gaps = [] ∨
          (job.admitAndDownload scope clock
            (Session.start job address outbox (job.framed incoming))).ending ≠
              .failed (lateMessage job.config.readTimeout) →
        FaresLike
          (job.admitAndDownload scope clock
            (Session.start job address outbox (job.framed incoming)))
          (job.admitAndDownload scope clock
            (Session.start job address outbox (Script.saying acts))) := by
  let d := Decoder.start (job.config.frameLimit job.torrent.pieceCount)
  have hholds : d.Holds incoming.values.flatten parcels := by
    rw [hbytes]
    exact Decoder.holds_start fun parcel hmem ↦ (hparcels parcel hmem).1
  obtain ⟨hvalues, hgaps⟩ := hholds.forecast hincoming
  have hslow : (d.forecast incoming).gaps = [] ∨ incoming.gaps ≠ [] := by
    rw [hgaps]
    exact Decidable.em _
  have hfaultless : (d.forecast incoming).Faultless := by
    unfold Timeline.Faultless
    rw [hgaps]
    exact hincoming
  obtain ⟨acts, hthinned, hacts, hgaps'⟩ :=
    exists_thinned (fun parcel hmem ↦ (hparcels parcel hmem).2) hvalues hfaultless hslow
  refine ⟨acts, hacts, hgaps'.trans hgaps, ?_, ?_⟩
  · intro hnone
    rw [← hacts]
    exact Timeline.eq_ofValues_of_gaps_eq_nil (hgaps'.trans (hgaps.trans hnone))
  intro scope clock hintime
  have hmirrors : Mirrors (incoming.gaps ≠ []) job.config.readTimeout (job.framed incoming)
      (Script.saying acts) := ⟨hthinned, nofun, rfl, rfl, rfl, rfl, rfl, rfl⟩
  have halike := agree_admitAndDownload (linksAgree_mirrors _ _) job scope clock
    (Session.start job address outbox (job.framed incoming))
    (Session.start job address outbox (Script.saying acts)) ⟨⟨rfl, rfl, rfl, rfl, hmirrors⟩, rfl⟩
  generalize job.admitAndDownload scope clock
    (Session.start job address outbox (job.framed incoming)) = r at halike hintime ⊢
  generalize job.admitAndDownload scope clock
    (Session.start job address outbox (Script.saying acts)) = r' at halike ⊢
  cases halike with
  | same related =>
    have hlink := related.connection.link
    refine ⟨rfl, rfl, related.connection.peer, related.outbox, hlink.sent, ?_⟩
    rw [hlink.written, hlink.sent]
  | excused excuse =>
    obtain ⟨hslow, rfl⟩ := excuse
    rcases hintime with hgaps | hending
    · exact absurd hgaps hslow
    · exact absurd rfl hending

/-- It can be found out whether something was finished with a value. -/
instance decidableDone {α : Type} [DecidableEq α] (ending : Ending α) (value : α) :
    Decidable (ending = .done value) :=
  match ending with
  | .done value' => decidable_of_iff (value' = value) (by rw [Ending.done.injEq])
  | .failed _ | .expired | .interrupted | .stuck => isFalse nofun

/-- What a peer sends that has three bytes: the messages that are needed, with a sign of life and a
frame of an unknown kind between them. -/
def threeBytesParcels : List Parcel :=
  [.message (.bitfield (Bitfield.ofBytes [192])), .unknown 20 [1, 2, 3], .message .unchoke,
    .message (.piece ⟨0, 0, [7]⟩), .keepAlive, .message (.piece ⟨0, 1, [8]⟩),
    .message (.piece ⟨1, 0, [9]⟩)]

/-- The parcels in chunks that break off within a length number and within an unknown frame, with
some time between them. -/
def threeBytesChunks : Timeline Bytes :=
  let bytes := threeBytesParcels.flatMap Parcel.bytes
  [.item (bytes.take 3), .pause 20, .item ((bytes.drop 3).take 9), .item [], .pause 5,
    .item (bytes.drop 12)]

/-- The three bytes are fetched from that peer, as they are when its messages are said. -/
theorem faresLike_script_threeBytes :
    let address : Address := ⟨.octets 127 0 0 1, 6881⟩
    let outbox := Outbox.start .absent
    let r := threeBytes.admitAndDownload Scope.open Clock.zero
      (Session.start threeBytes address outbox (threeBytes.framed threeBytesChunks))
    r.ending = .done [7, 8, 9] ∧
      ∃ acts, acts.values = (Parcel.saying threeBytesParcels).map Act.say ∧
        FaresLike r (threeBytes.admitAndDownload Scope.open Clock.zero
          (Session.start threeBytes address outbox (Script.saying acts))) := by
  intro address outbox r
  have hdone : r.ending = .done [7, 8, 9] := by decide +kernel
  have hparcels : ∀ parcel ∈ threeBytesParcels,
      parcel.Fits (threeBytes.config.frameLimit threeBytes.torrent.pieceCount) ∧ parcel.Exact := by
    decide
  have hincoming : threeBytesChunks.Faultless := by decide
  have hbytes : threeBytesChunks.values.flatten = threeBytesParcels.flatMap Parcel.bytes := by
    with_unfolding_all rfl
  obtain ⟨acts, hvalues, _, _, hfares⟩ :=
    faresLike_script threeBytes address outbox hparcels hincoming hbytes
  refine ⟨hdone, acts, hvalues, hfares _ _ (.inr ?_)⟩
  intro hlate
  rw [hdone] at hlate
  cases hlate

end Job

end PeerWire
