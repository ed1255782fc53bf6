import PeerWire.Error

/-!
# Notices

While a download goes on it gives notice of what has happened to whoever observes it. A notice is
never waited for: one that finds no room is lost, and whether anyone observes makes no difference
to the download. Main statement: an observer who does not read gets the first notices, as many as
there is room for.
-/

namespace PeerWire

/-- What has happened in a download. -/
inductive Notice where
  /-- A candidate is being tried, at its position among so many. -/
  | probing (address : Address) (index total : Nat)
  /-- A candidate was rejected for a reason. -/
  | rejected (address : Address) (reason : String)
  /-- A candidate was selected. -/
  | selected (address : Address)
  /-- A piece was checked, after which there are so many bytes of the total. -/
  | verified (piece downloaded total : Nat)
  /-- The download of so many bytes is complete, and took so long. -/
  | completed (length : Nat) (elapsed : Duration)
  /-- The download has failed for a reason. -/
  | failed (kind : ErrorKind) (reason : String)
deriving DecidableEq, Repr

/-- Who observes a download. -/
inductive Observer where
  /-- Nobody. -/
  | absent
  /-- Somebody who has left. -/
  | gone
  /-- Somebody who has room for so many notices. -/
  | bounded (room : Nat)
  /-- Somebody who has room for any number of notices. -/
  | unbounded
deriving DecidableEq, Repr

/-- The notices on their way to an observer. -/
structure Outbox where
  /-- The observer. -/
  observer : Observer
  /-- The notices that wait to be read, the first one first. -/
  waiting : List Notice
deriving DecidableEq, Repr

namespace Outbox

/-- No notices yet. -/
def start (observer : Observer) : Outbox := ⟨observer, []⟩

/-- Whether there is room for a notice when so many are waiting. -/
def hasRoom : Observer → Nat → Bool
  | .absent, _ => false
  | .gone, _ => false
  | .bounded room, waiting => waiting < room
  | .unbounded, _ => true

/-- Gives notice, if there is room. -/
def post (outbox : Outbox) (notice : Notice) : Outbox :=
  if hasRoom outbox.observer outbox.waiting.length then
    { outbox with waiting := outbox.waiting ++ [notice] }
  else outbox

/-- The observer reads every notice that waits. -/
def drain (outbox : Outbox) : List Notice × Outbox :=
  (outbox.waiting, { outbox with waiting := [] })

/-- Giving notice does not change who observes. -/
@[simp]
theorem observer_post (outbox : Outbox) (notice : Notice) :
    (outbox.post notice).observer = outbox.observer := by
  rw [post]
  split <;> rfl

/-- With limited room the first notices wait, as many as there is room for. -/
theorem waiting_foldl_post (room : Nat) (notices : List Notice) :
    (notices.foldl post (start (.bounded room))).waiting = notices.take room := by
  have grow (before : List Notice) (hroom : before.length ≤ room) :
      (notices.foldl post ⟨.bounded room, before⟩).waiting =
        before ++ notices.take (room - before.length) := by
    induction notices generalizing before with
    | nil => simp
    | cons notice notices ih =>
      rw [List.foldl_cons]
      by_cases hlt : before.length < room
      · have hpost : post ⟨.bounded room, before⟩ notice = ⟨.bounded room, before ++ [notice]⟩ := by
          simp [post, hasRoom, hlt]
        rw [hpost, ih (before ++ [notice]) (by simp; omega)]
        obtain ⟨n, hn⟩ : ∃ n, room - before.length = n + 1 := ⟨room - before.length - 1, by omega⟩
        have hn' : room - (before ++ [notice]).length = n := by
          simp
          omega
        rw [hn, hn', List.take_succ_cons]
        simp
      · have hpost : post ⟨.bounded room, before⟩ notice = ⟨.bounded room, before⟩ := by
          simp [post, hasRoom, hlt]
        have hzero : room - before.length = 0 := by omega
        rw [hpost, ih before hroom, hzero]
        simp
  simpa [start] using grow [] (Nat.zero_le _)

end Outbox

end PeerWire
