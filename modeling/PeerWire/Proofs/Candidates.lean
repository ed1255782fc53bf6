import PeerWire.Proofs.Forecast
import PeerWire.Proofs.LinkFailures
import PeerWire.Selection

/-!
# What candidates are told

A candidate is told that this side is interested, and nothing else, until it is selected. It is not
told that there is no more interest, either, when it is given up, be it because it was rejected or
because the session was told to stop. Main statement: nothing but a declaration of interest was sent
to any of the connections that were given up while a peer was searched for.
-/

namespace PeerWire

open Activity

variable {α : Type}

/-! ### While a candidate passes the gates -/

namespace Framed

/-- Nothing but a declaration of interest was sent. -/
def Modest (f : Framed) : Prop := ∀ message ∈ f.sent, message = .interested

/-- Receiving sends nothing. -/
theorem modest_receive : FailsOnly (fun _ ↦ True) Modest (Link.receive (σ := Framed)) := by
  have hmessage : FailsOnly (fun _ ↦ True) Modest nextMessage := by
    apply failsOnly_of_maintains
    intro scope clock f hf message hmem
    have hsent := (maintains_nextMessage f scope clock f ⟨rfl, rfl, rfl, rfl⟩).sent
    exact hf message (hsent ▸ hmem)
  exact failsOnly_receive hmessage fun _ ↦ trivial

/-- Declaring interest sends nothing else. -/
theorem modest_send :
    FailsOnly (fun _ ↦ True) Modest (Link.send (σ := Framed) .interested) := by
  apply leads_bind (M := fun _ ↦ Modest)
  · apply leads_onPart
    exact fun f hf ↦ leads_of_trivial (fun _ _ ↦ hf) (fun _ _ ↦ ⟨trivial, hf⟩) fun _ ↦ hf
  · intro _
    apply leads_modify
    intro f hf message hmem
    rcases List.mem_append.mp hmem with hmem | hmem
    · exact hf message hmem
    · exact List.mem_singleton.mp hmem

end Framed

namespace Connection

/-- Nothing but a declaration of interest was sent. -/
def Modest (c : Connection Framed) : Prop := c.link.Modest

/-- Exchanging handshakes keeps a connection modest. -/
theorem modest_greet (config : Config) (infoHash : Digest) :
    FailsOnly (fun _ ↦ True) Modest (greet config infoHash) := by
  have hstream {β : Type} {x : Activity ByteStream β} :
      FailsOnly (fun _ ↦ True) Modest (onStream x) := by
    apply leads_onPart
    exact fun c hc ↦ leads_of_trivial (fun _ _ ↦ hc) (fun _ _ ↦ ⟨trivial, hc⟩) fun _ ↦ hc
  apply leads_bind (M := fun _ ↦ Modest) (leads_now fun _ _ h ↦ h)
  intro start
  apply leads_bind (M := fun _ ↦ Modest)
  · exact leads_within hstream (leads_fail fun _ h ↦ ⟨trivial, h⟩) fun _ h ↦ h
  · exact fun _ ↦ leads_modify fun _ h ↦ h

end Connection

/-- Greeting a candidate and having it pass the gates keeps its connection modest. -/
theorem Job.modest_meet (job : Job) :
    FailsOnly (fun _ ↦ True) (fun s : Session Framed ↦ s.connection.Modest) job.meet := by
  apply leads_onPart
  intro s hs
  have hmeet : FailsOnly (fun _ ↦ True) Connection.Modest (do
      Connection.greet job.config job.torrent.infoHash
      passGates) := by
    apply leads_bind (Connection.modest_greet _ _)
    intro _
    apply Connection.failsOnly_passGates coversGates_true
    · exact Connection.failsOnly_receiveNext Framed.modest_receive fun _ _ _ _ ↦ trivial
    · exact Connection.failsOnly_send Framed.modest_send
    · exact fun _ h ↦ h
    · exact fun _ _ h ↦ h
  apply hmeet.of_imp
  rintro _ rfl
  exact hs

/-! ### While a peer is searched for -/

namespace Search

/-- Every connection that was given up is modest. -/
def Modest (s : Search) : Prop := ∀ c ∈ s.dropped, c.Modest

/-- A modest connection may be given up. -/
theorem Modest.drop {s : Search} (h : s.Modest) {c : Connection Framed} (hc : c.Modest) :
    (s.drop c).Modest := by
  intro c' hmem
  rcases List.mem_append.mp hmem with hmem | hmem
  · exact h c' hmem
  · rw [List.mem_singleton.mp hmem]
    exact hc

/-- What is done to a connection that was lent leaves what it leaves, with the connection given back
or given up. -/
theorem leads_lend {c : Connection Framed} {x : Activity (Session Framed) α} {P : Search → Prop}
    {q : Aftermath Search (α × Connection Framed)}
    (hx : ∀ s : Search, P s → Leads (fun t ↦ t = ⟨c, s.outbox⟩) x
      ⟨fun value t ↦ q.done (value, t.connection) { s with outbox := t.outbox },
        fun error t ↦ q.failed error ({ s with outbox := t.outbox }.drop t.connection),
        fun t ↦ q.broken ({ s with outbox := t.outbox }.drop t.connection)⟩) :
    Leads P (lend c x) q := by
  intro scope clock s hs
  have hx := hx s hs scope clock ⟨c, s.outbox⟩ rfl
  simp only [lend]
  generalize x scope clock ⟨c, s.outbox⟩ = o at hx ⊢
  obtain ⟨ending, after, t⟩ := o
  cases ending <;> exact hx

/-- What is done to a connection that was lent leaves it modest, whether it is given back or given
up. -/
theorem modest_lend {c : Connection Framed} {x : Activity (Session Framed) α} (hc : c.Modest)
    (hx : FailsOnly (fun _ ↦ True) (fun s : Session Framed ↦ s.connection.Modest) x) :
    Leads Modest (lend c x) ((Aftermath.keeping (fun _ ↦ True) Modest : Aftermath Search α).after
      fun r s ↦ s.Modest ∧ r.2.Modest) := by
  apply leads_lend
  intro s hs
  have hback (outbox : Outbox) : ({ s with outbox := outbox } : Search).Modest := hs
  apply hx.mono
  · rintro _ rfl
    exact hc
  · exact fun _ t ht ↦ ⟨hback t.outbox, ht⟩
  · exact fun _ t ht ↦ ⟨trivial, (hback t.outbox).drop ht.2⟩
  · exact fun t ht ↦ (hback t.outbox).drop ht

end Search

namespace Job

variable {job : Job}

/-- What ends when the session is told to stop leaves what it leaves when it is broken off. -/
theorem leads_unlessStopped {σ : Type} {P : σ → Prop} {x : Activity σ α} {q : Aftermath σ α}
    (hx : Leads P x ⟨q.done, q.failed, fun s ↦ q.broken s ∧ q.failed .cancelled s⟩)
    (hP : ∀ s, P s → q.failed .cancelled s) : Leads P (unlessStopped x) q := by
  apply leads_bind (M := fun result s ↦ result.elim (q.failed .cancelled s) (q.done · s))
  · exact leads_untilStopped hx hP
  · intro result
    cases result with
    | some value => exact leads_pure fun _ h ↦ h
    | none => exact leads_fail fun _ h ↦ h

/-- What keeps searches modest does so until the session is told to stop. -/
theorem modest_unlessStopped {x : Activity Search α}
    (hx : FailsOnly (fun _ ↦ True) Search.Modest x) :
    FailsOnly (fun _ ↦ True) Search.Modest (unlessStopped x) := by
  apply leads_unlessStopped
  · apply hx.mono
    · exact fun _ h ↦ h
    · exact fun _ _ h ↦ h
    · exact fun _ _ h ↦ h
    · exact fun _ h ↦ ⟨h, trivial, h⟩
  · exact fun _ h ↦ ⟨trivial, h⟩

/-- Waiting for a candidate notes that it was dialed, and does not fail. -/
theorem leads_awaitDialing {P : Search → Prop}
    (hP : ∀ indices (s : Search), P s → P (s.noteDialed indices)) (start : Nat)
    (candidate : Candidate) :
    Leads P (job.awaitDialing start candidate) ⟨fun _ ↦ P, fun _ _ ↦ False, P⟩ := by
  have hwait (moment : Nat) :
      Leads P (waitUntil moment) ⟨fun _ ↦ P, fun _ _ ↦ False, P⟩ := by
    intro scope clock s hs
    have hfailed := clock.waitUntil_ne_failed scope moment
    simp only [waitUntil]
    generalize clock.waitUntil scope moment = wait at hfailed ⊢
    obtain ⟨ending, after⟩ := wait
    cases ending with
    | failed error => exact absurd rfl (hfailed error)
    | _ => exact hs
  rw [awaitDialing]
  split
  · apply leads_bind (M := fun _ ↦ P)
    · exact leads_modify (hP _)
    · intro _
      apply leads_bind (M := fun _ ↦ P)
      · exact leads_now fun _ _ h ↦ h
      · exact fun _ ↦ hwait _
  · exact hwait _

/-- Trying a candidate keeps a search modest, and gives a modest connection if any. -/
theorem modest_tryCandidate (candidate : Candidate) :
    Leads Search.Modest (job.tryCandidate candidate)
      ((Aftermath.keeping (fun _ ↦ True) Search.Modest : Aftermath Search Unit).after
        fun result s ↦ s.Modest ∧ ∀ c, result = .ok c → c.Modest) := by
  rw [tryCandidate]
  split
  · exact leads_pure fun _ h ↦ ⟨h, fun _ hc ↦ nomatch hc⟩
  · next stream _ =>
    have hfresh : (Connection.opened job.config candidate.address job.torrent.pieceCount
        stream).Modest := by
      intro message hmem
      exact absurd hmem List.not_mem_nil
    apply leads_bind (M := fun r s ↦ s.Modest ∧ r.2.Modest)
    · apply leads_unlessStopped
      · refine (Search.modest_lend hfresh ?_).mono (fun _ h ↦ h) (fun _ _ h ↦ h) (fun _ _ h ↦ h)
          fun _ h ↦ ⟨h, trivial, h⟩
        exact (failsOnly_attempt job.modest_meet).mono (fun _ h ↦ h) (fun _ _ h ↦ h.1)
          (fun _ _ h ↦ h) fun _ h ↦ h
      · exact fun _ h ↦ ⟨trivial, h⟩
    · rintro ⟨result, connection⟩
      cases result with
      | ok _ =>
        apply leads_pure
        rintro s ⟨hs, hconnection⟩
        refine ⟨hs, ?_⟩
        rintro _ ⟨⟩
        exact hconnection
      | error error =>
        apply leads_bind (M := fun _ ↦ Search.Modest)
        · exact leads_modify fun s h ↦ h.1.drop h.2
        · exact fun _ ↦ leads_pure fun _ h ↦ ⟨h, fun _ hc ↦ nomatch hc⟩

/-- Trying candidates keeps a search modest, and the connection that is selected is modest. -/
theorem modest_selectAmong (start total : Nat) (candidates : List Candidate)
    (rejections : List (Address × Error)) :
    Leads Search.Modest (job.selectAmong start total rejections candidates)
      ((Aftermath.keeping (fun _ ↦ True) Search.Modest : Aftermath Search Unit).after
        fun c s ↦ s.Modest ∧ c.Modest) := by
  induction candidates generalizing rejections with
  | nil =>
    apply leads_bind (M := fun _ ↦ Search.Modest)
    · exact modest_unlessStopped (leads_pure fun _ h ↦ h)
    · exact fun _ ↦ leads_fail fun _ h ↦ ⟨trivial, h⟩
  | cons candidate rest ih =>
    apply leads_bind (M := fun _ ↦ Search.Modest)
    · apply modest_unlessStopped
      have hdialed (indices : List Nat) (s : Search) (hs : s.Modest) :
          (s.noteDialed indices).Modest := hs
      apply (leads_awaitDialing hdialed start candidate).mono
      · exact fun _ h ↦ h
      · exact fun _ _ h ↦ h
      · exact fun _ _ h ↦ h.elim
      · exact fun _ h ↦ h
    · intro _
      apply leads_bind (M := fun _ ↦ Search.Modest)
      · exact leads_modify fun _ h ↦ h
      · intro _
        apply leads_bind (M := fun result s ↦ s.Modest ∧ ∀ c, result = .ok c → c.Modest)
        · exact modest_tryCandidate candidate
        · intro result
          cases result with
          | ok connection =>
            apply leads_bind (M := fun _ s ↦ s.Modest ∧ connection.Modest)
            · exact leads_modify fun _ h ↦ ⟨h.1, h.2 connection rfl⟩
            · exact fun _ ↦ leads_pure fun _ h ↦ h
          | error error =>
            cases error with
            | cancelled => exact leads_fail fun _ h ↦ ⟨trivial, h.1⟩
            | _ =>
              apply leads_bind (M := fun _ ↦ Search.Modest)
              · exact leads_modify fun _ h ↦ h.1
              · exact fun _ ↦ ih _

/-- Selecting a peer keeps a search modest, and the connection that is selected is modest. -/
theorem modest_select (job : Job) (network : Network) (addresses : List Address) :
    Leads Search.Modest (job.select network addresses)
      ((Aftermath.keeping (fun _ ↦ True) Search.Modest : Aftermath Search Unit).after
        fun c s ↦ s.Modest ∧ c.Modest) := by
  have hrest : Leads Search.Modest
      (do
        let start ← Activity.now
        job.selectAmong start addresses.length []
          (network.candidates job.config.strategy job.config.connectTimeout addresses))
      ((Aftermath.keeping (fun _ ↦ True) Search.Modest : Aftermath Search Unit).after
        fun c s ↦ s.Modest ∧ c.Modest) := by
    apply leads_bind (M := fun _ ↦ Search.Modest)
    · exact leads_now fun _ _ h ↦ h
    · exact fun start ↦ modest_selectAmong start addresses.length _ []
  rw [select, selectFrom]
  split
  · apply leads_bind (M := fun _ ↦ Search.Modest)
    · exact leads_modify fun _ h ↦ h
    · exact fun _ ↦ hrest
  · exact hrest

/-- A download for which no peer is selected fails for that, and gives up no other connections. -/
theorem download_of_failed {job : Job} {network : Network} {addresses : List Address}
    {scope : Scope} {clock after : Clock} {s t : Search} {error : Error}
    (h : job.select network addresses scope clock s = ⟨.failed error, after, t⟩) :
    job.download network addresses scope clock s =
      ⟨.failed error, after, t.post (.failed error.kind error.message)⟩ := by
  have hfetch : job.fetch network addresses scope clock s = ⟨.failed error, after, t⟩ := by
    rw [fetch, bind_apply, h]
  simp only [download, bind_apply, now, attempt, hfetch, Activity.modify, fail]

/-- Nothing but a declaration of interest was sent to a connection that was given up while a peer
was searched for, nor to the one that was selected. A download for which no peer is selected leaves
it at that, whatever it fails for: it gives up no other connections, and tells nobody anything. -/
theorem modest_of_download (job : Job) (network : Network) (addresses : List Address)
    (scope : Scope) (clock : Clock) (observer : Observer) :
    let search := job.select network addresses scope clock (Search.start observer)
    let o := job.download network addresses scope clock (Search.start observer)
    (∀ c ∈ search.state.dropped, ∀ message ∈ c.link.sent, message = .interested) ∧
      (∀ c, search.ending = .done c → ∀ message ∈ c.link.sent, message = .interested) ∧
      ∀ error, search.ending = .failed error →
        o.ending = .failed error ∧ o.state.dropped = search.state.dropped := by
  intro search o
  have hstart : (Search.start observer).Modest := by
    intro c hmem
    exact absurd hmem List.not_mem_nil
  have hselect := modest_select job network addresses scope clock _ hstart
  have hdownload {error : Error} {after : Clock} {t : Search}
      (h : search = ⟨.failed error, after, t⟩) :
      o = ⟨.failed error, after, t.post (.failed error.kind error.message)⟩ :=
    download_of_failed h
  change Aftermath.Holds _ search at hselect
  generalize search = found at hselect hdownload ⊢
  obtain ⟨ending, after, t⟩ := found
  cases ending with
  | done connection =>
    refine ⟨hselect.1, ?_, fun _ h ↦ nomatch h⟩
    rintro _ ⟨⟩
    exact hselect.2
  | failed error =>
    refine ⟨hselect.2, fun _ h ↦ (nomatch h), ?_⟩
    rintro _ ⟨⟩
    rw [hdownload rfl]
    exact ⟨rfl, rfl⟩
  | _ => exact ⟨hselect, fun _ h ↦ (nomatch h), fun _ h ↦ (nomatch h)⟩

/-- A network on which every peer greets, announces every piece of the three bytes, and says no
more. -/
def silentPeers : Network := fun _ _ ↦
  let greeting : Handshake := ⟨threeBytes.torrent.infoHash, nobody⟩
  let bitfield : Message := .bitfield (Bitfield.ofBytes [192])
  ⟨0, .ok (ByteStream.start [.item greeting.toBytes, .item bitfield.encode, .hang] none)⟩

/-- Whether an ending is that of something that was cancelled can be decided. -/
instance decidableCancelled (ending : Ending α) : Decidable (ending = .failed .cancelled) :=
  match ending with
  | .failed error =>
    if h : error.kind = .cancelled then
      isTrue (by
        cases error with
        | cancelled => rfl
        | _ => cases h)
    else isFalse (by rintro ⟨⟩; exact h rfl)
  | .done _ => isFalse nofun
  | .expired => isFalse nofun
  | .interrupted => isFalse nofun
  | .stuck => isFalse nofun

/-- Told to stop while such a peer is awaited to give leave, a download gives up a connection that
is in use and on which interest was declared, and does not tell the peer that there is none any
more. -/
theorem cancelled_download_silentPeers :
    let o := threeBytes.download silentPeers [⟨.octets 127 0 0 1, 6881⟩] Scope.open ⟨0, some 5⟩
      (Search.start .absent)
    o.ending = .failed .cancelled ∧ o.clock.now = 5 ∧
      o.state.dropped.map (fun c ↦ (c.peer.status, c.peer.interested, c.link.sent)) =
        [(.inUse, true, [.interested])] := by
  decide +kernel

end Job

end PeerWire
